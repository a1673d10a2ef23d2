import MangoCore.Fs.PathLookup

/-!
# Search permission when a file is opened

`open_file_at` resolves a path twice.  `check_parent_search_access` looks up every proper beginning
of the components by a lookup of its own and checks that the result is a directory which the caller
may search; then `vfs_lookup` resolves the whole path.

The results of the beginnings are the directories in which the second lookup looks up the components
that are written in the path.  It also looks up the components of the targets of links, and those
directories nobody checks.
-/

namespace MangoCore.Fs.Lookup

open List Except Env

/-- `caller_ids_and_groups`. -/
structure Caller where
  uid : ℕ
  gid : ℕ
  groups : List ℕ

section

variable (v : Vfs) (md : Metadata) (c : Caller)

def permissionClassBits : ℕ :=
  let mode := md.mode &&& 0o777
  if c.uid = md.uid then (mode >>> 6) &&& 0o7
  else if c.gid = md.gid ∨ md.gid ∈ c.groups then (mode >>> 3) &&& 0o7
  else mode &&& 0o7

def hasSearchAccess : Bool :=
  c.uid = 0 || permissionClassBits md c &&& 0o1 ≠ 0

/-- `has_final_access` for one of the bits `R_OK` and `W_OK`. -/
def hasFinalAccess (bit : ℕ) (c : Caller) : Bool :=
  c.uid = 0 || permissionClassBits md c &&& bit ≠ 0

def hasDirectoryWriteSearchAccess : Bool :=
  c.uid = 0 || permissionClassBits md c &&& 0o3 = 0o3

/-- The closure `check_dir`, and `check_parent_write_search_access`: the place is a directory, and
its permissions pass a test. -/
def checkDirectory (access : Metadata → Bool) (p : Place) : Except Errno Unit := do
  let md ← v.metadata p
  if md.fileType ≠ .dir then .error .ENOTDIR
  else if access md then .ok () else .error .EACCES

def checkDir : Place → Except Errno Unit :=
  checkDirectory v (hasSearchAccess · c)

def checkParentWriteSearchAccess : Place → Except Errno Unit :=
  checkDirectory v (hasDirectoryWriteSearchAccess · c)

end

section

variable (v : Vfs) (root : Place) (deep : ℕ)

/-- The loop of `check_parent_search_access`: the components that are done, and those that are
left.  The last one is not looked up. -/
def checkPrefixes (c : Caller) (base : Node) : List Text → List Text → Except Errno Unit
  | before, name :: next :: rest => do
      let w ← vfsLookup v root deep base (joinSlash (before ++ [name])) true
      checkDir v c w.current.place
      checkPrefixes c base (before ++ [name]) (next :: rest)
  | _, _ => .ok ()

variable (base : Node) (path : Text)

/-- The directory at which a path starts. -/
def baseOf : Node :=
  if path.head? = some '/' then ⟨root, true⟩ else base

def checkParentSearchAccess (c : Caller) (base : Node) (path : Text) : Except Errno Unit := do
  checkDir v c (baseOf root base path).place
  checkPrefixes v root deep c (baseOf root base path) [] (parsePath path)

/-- `vfs_lookup_parent_for_start`: the directory of the last component, which is returned with it,
and the log of its lookup. -/
def vfsLookupParentForStart : Except Errno (Node × List Visit × Text) :=
  match (parsePath path).getLast? with
  | none => .error .ENOENT
  | some leaf =>
    let before := (parsePath path).dropLast
    if before = [] then .ok (baseOf root base path, [], leaf)
    else do
      let joined := joinSlash before
      let parentPath := if path.head? = some '/' then '/' :: joined else joined
      let w ← vfsLookup v root deep base parentPath true
      .ok (w.current, w.visited, leaf)

end

/-- `OpenFlags`, as far as they decide whether an open succeeds. -/
structure OpenFlags where
  /-- `O_RDONLY`, `O_WRONLY` and `O_RDWR` are 0, 1 and 2. -/
  accessMode : ℕ
  create : Bool
  excl : Bool
  trunc : Bool
  directory : Bool
  noFollow : Bool
  noAtime : Bool
  path : Bool
  tmpFile : Bool

/-- What the inodes do: whether one is a running executable, the open of an inode (of a fifo, with a
truncation, of a file), and the creation of a file in a directory. -/
structure Inodes where
  isExecutableBusy : Place → Bool
  openInode : Place → OpenFlags → Except Errno Unit
  create : Place → Text → Except Errno Unit

/-- `open_requests_write`. -/
def OpenFlags.requestsWrite (flags : OpenFlags) : Bool :=
  flags.accessMode = 1 || flags.accessMode = 2 || flags.trunc

/-- The checks of `open_file_at` on the inode that was found. -/
def openFound (v : Vfs) (inodes : Inodes) (c : Caller) (flags : OpenFlags) (p : Place) :
    Except Errno Unit :=
  if flags.noFollow ∧ ¬ flags.path ∧ (v.metadata p).map (·.fileType) = .ok .symLink then
    .error .ELOOP
  else if flags.create ∧ flags.excl then .error (.fs 17)
  else do
    let md ← v.metadata p
    if flags.directory ∧ md.fileType ≠ .dir then .error .ENOTDIR
    else if flags.path then .ok ()
    else if (flags.accessMode = 0 ∨ flags.accessMode = 2) ∧ ¬ hasFinalAccess md 0o4 c then
      .error .EACCES
    else if flags.noAtime ∧ c.uid ≠ 0 ∧ c.uid ≠ md.uid then .error .EPERM
    else if md.fileType = .pipe then inodes.openInode p flags
    else if md.fileType = .dir ∧ (flags.accessMode ≠ 0 ∨ flags.create) then
      .error (if flags.create ∧ flags.directory then .EINVAL else .fs 21)
    else if flags.requestsWrite ∧ inodes.isExecutableBusy p then .error (.fs 26)
    else if flags.requestsWrite ∧ ¬ hasFinalAccess md 0o2 c then .error .EACCES
    else inodes.openInode p flags

/-- `path == "." || path.trim_end_matches('/') == "."` -/
def isDot (path : Text) : Bool := (path.reverse.dropWhile (· = '/')).reverse = ['.']

/-- `open_file_at`, from the directory of `dirfd`.  A successful open returns the log of the lookup
that it rests on; a new file is also looked up, and created, in its directory. -/
def openFileAt (v : Vfs) (inodes : Inodes) (root : Place) (deep : ℕ) (c : Caller)
    (flags : OpenFlags) (dir : Node) (path : Text) : Except Errno (List Visit) := do
  let base := baseOf root dir path
  if path = [] then
    let _ ← v.metadata base.place
    .ok []
  else if isDot path then
    if flags.tmpFile then .error (.fs 95)
    else
      let md ← v.metadata base.place
      if flags.create ∧ flags.excl then .error (.fs 17)
      else if flags.path then .ok []
      else if flags.directory ∧ md.fileType ≠ .dir then .error .ENOTDIR
      else
        inodes.openInode base.place flags
        .ok []
  else
    if c.uid ≠ 0 then checkParentSearchAccess v root deep c base path
    match vfsLookup v root deep base path (!flags.noFollow) with
    | .ok w =>
      openFound v inodes c flags w.current.place
      .ok w.visited
    | .error .ENOENT =>
      if ¬ flags.create ∨ flags.directory then .error .ENOENT
      else
        let (parent, visited, leaf) ← vfsLookupParentForStart v root deep base path
        checkParentWriteSearchAccess v c parent.place
        inodes.create parent.place leaf
        .ok (visited ++ [⟨parent.place, true⟩])
    | .error errno => .error errno

/-! ## A walk along the beginning of the components -/

/-- The walk `u` is `w` without the components `s` at the end. -/
structure Cut (w u : Walk) (s : List Text) : Prop where
  current : u.current = w.current
  components : w.components = u.components ++ s
  symlinkCount : u.symlinkCount = w.symlinkCount

variable {v : Vfs} {root : Place} {e : Env} {deep n : ℕ} {nested : Text → Except Errno Walk}
  {w w' u : Walk} {name path : Text} {rest l s : List Text} {pr : Progress}

/-- A `..` is the same round for both. -/
theorem Cut.advanceDotdot (h : Cut w u s) (hstep : e.advanceDotdot nested w (l ++ s) = .ok pr) :
    ∃ w₁ u₁, pr = .more w₁ ∧ e.advanceDotdot nested u l = .ok (.more u₁) ∧ Cut w₁ u₁ s := by
  rw [Env.advanceDotdot] at hstep ⊢
  rw [h.current]
  split_ifs at hstep ⊢
  · cases hstep
    exact ⟨_, _, rfl, rfl, rfl, rfl, h.symlinkCount⟩
  · cases hup : e.vfs.lookupDotdot w.current.place with
    | ok parent =>
      rw [hup] at hstep
      cases hstep
      exact ⟨_, _, rfl, rfl, rfl, rfl, h.symlinkCount⟩
    | error errno =>
      rw [hup] at hstep
      cases habs : e.vfs.absolutePath w.current.place with
      | error errno =>
        rw [habs] at hstep
        cases hstep
        exact ⟨_, _, rfl, rfl, rfl, rfl, h.symlinkCount⟩
      | ok abs =>
        rw [habs] at hstep
        dsimp only at hstep ⊢
        cases hnested : nested (parentPath abs) with
        | error errno => rw [hnested] at hstep; cases hstep
        | ok inner =>
          rw [hnested] at hstep
          cases hstep
          exact ⟨_, _, rfl, rfl, rfl, rfl, h.symlinkCount⟩

/-- A name that is not the last component is looked up alike. -/
theorem Cut.advanceName (h : Cut w u s) (hs : s ≠ []) (hplain : ∀ x ∈ l ++ s, Plain x)
    (hstep : e.advanceName deep w name (l ++ s) = .ok pr) :
    ∃ w₁, pr = .more w₁ ∧ (w₁.own = 0 ∨ ∃ u₁,
      advanceName ⟨e.vfs, e.root, true, false⟩ deep u name l = .ok (.more u₁) ∧
        Cut w₁ u₁ s) := by
  have hrest : l ++ s ≠ [] := fun hnil => hs (append_eq_nil_iff.mp hnil).2
  obtain ⟨next, fileType, hfind, htype, hkind, hcases⟩ := advanceName_cases hstep
  have hkind := hkind.resolve_left hrest
  have htype' : Env.fileType ⟨e.vfs, e.root, true, false⟩ next = .ok fileType := htype
  -- The round of the shorter walk up to the case distinction.
  have hshort : Env.advanceName ⟨e.vfs, e.root, true, false⟩ deep u name l =
      if fileType = .symLink then followLink ⟨e.vfs, e.root, true, false⟩ u next l
      else .ok (.more (u.moveTo (found ⟨e.vfs, e.root, true, false⟩ u name next) l
        u.visit)) := by
    rw [Env.advanceName, h.current, hfind]
    simp only [htype', bind, Except.bind]
    rw [if_neg (fun hnot => hkind.elim hnot.2.1 hnot.2.2), if_neg (fun hnot => nomatch hnot.2.1)]
  rcases hcases with ⟨hnil, -⟩ | ⟨rfl, -, hfollow⟩ | ⟨hlink, rfl⟩
  · exact absurd hnil hrest
  · obtain ⟨hflag, hcount, target, htarget, rfl⟩ := followLink_cases hfollow
    refine ⟨_, rfl, ?_⟩
    by_cases hempty : target = []
    · exact .inl (if_pos hempty)
    · refine .inr ⟨linked ⟨e.vfs, e.root, true, false⟩ u target l, ?_, ?_, ?_, ?_⟩
      · rw [hshort, if_pos rfl, followLink, if_neg (Bool.eq_false_iff.mp hflag),
          h.symlinkCount, if_neg (Nat.not_le.mpr hcount)]
        rw [htarget]
        rfl
      · simp only [linked, head?_linkPath hempty, h.current]
      · grind [linked, parsePath_linkPath]
      · exact congrArg (· + 1) h.symlinkCount
  · refine ⟨_, rfl, .inr ⟨u.moveTo (found ⟨e.vfs, e.root, true, false⟩ u name next) l u.visit,
      ?_, ?_, rfl, h.symlinkCount⟩⟩
    · rw [hshort, if_neg hlink]
    · simp only [Walk.moveTo, found, h.current]

/-- **A round of the longer walk is one of the shorter walk**, as long as that has components. -/
theorem Cut.advance (h : Cut w u s) (hs : s ≠ []) (hplain : name ≠ dotdot → ∀ x ∈ l ++ s, Plain x)
    (hstep : e.advance deep nested w name (l ++ s) = .ok pr) :
    ∃ w₁, pr = .more w₁ ∧ (w₁.own = 0 ∨ ∃ u₁,
      advance ⟨e.vfs, e.root, true, false⟩ deep nested u name l = .ok (.more u₁) ∧
        Cut w₁ u₁ s) := by
  obtain ⟨hdir, hcase⟩ := advance_cases hstep
  have hdir' : fileType ⟨e.vfs, e.root, true, false⟩ u.current.place = .ok .dir := by
    rw [h.current]
    exact hdir
  rw [Env.advance, hdir']
  rcases hcase with ⟨hname, hstep⟩ | ⟨hname, hstep⟩
  · obtain ⟨w₁, u₁, hpr, hu, hcut⟩ := h.advanceDotdot hstep
    refine ⟨w₁, hpr, .inr ⟨u₁, ?_, hcut⟩⟩
    simp only [bind, Except.bind, hname, ne_eq, not_true_eq_false, if_false, if_true]
    exact hu
  · obtain ⟨w₁, hpr, hcut⟩ := h.advanceName hs (hplain hname) hstep
    refine ⟨w₁, hpr, hcut.imp_right ?_⟩
    rintro ⟨u₁, hu, hcut⟩
    refine ⟨u₁, ?_, hcut⟩
    simp only [bind, Except.bind, hname, ne_eq, not_true_eq_false, if_false]
    exact hu

/-! ## The log -/

/-- A `..` is never the end of the walk. -/
theorem advanceDotdot_cases (hstep : e.advanceDotdot nested w rest = .ok pr) :
    ∃ node seen, pr = .more (w.moveTo node rest seen) ∧ ∀ d ∈ seen, d ∈ w.visit ∨
      ∃ path inner, nested path = .ok inner ∧ d ∈ inner.visited := by
  rw [advanceDotdot] at hstep
  split_ifs at hstep
  · exact ⟨_, _, (ok.inj hstep).symm, fun d hd => .inl (mem_append_left _ hd)⟩
  split at hstep
  · exact ⟨_, _, (ok.inj hstep).symm, fun d hd => .inl hd⟩
  split at hstep
  case h_1 abs habs =>
    cases hnested : nested (parentPath abs) with
    | error errno => rw [hnested] at hstep; cases hstep
    | ok inner =>
      rw [hnested] at hstep
      exact ⟨_, _, (ok.inj hstep).symm, fun d hd =>
        (mem_append.mp hd).imp_right fun hd => ⟨_, inner, hnested, hd⟩⟩
  case h_2 => exact ⟨_, _, (ok.inj hstep).symm, fun d hd => .inl hd⟩

/-- What one round logs, and that the components of the path only get fewer. -/
theorem advance_log (hstep : e.advance deep nested w name rest = .ok pr) :
    ∃ w₁, (pr = .more w₁ ∨ pr = .done w₁) ∧ w₁.own ≤ w.own ∧ ∀ d ∈ w₁.visited, d ∈ w.visited ∨
        d = ⟨w.current.place, decide (w.components.length ≤ w.own)⟩ ∨
        ∃ path inner, nested path = .ok inner ∧ d ∈ inner.visited := by
  have hvisit : ∀ d ∈ w.visit, d ∈ w.visited ∨
      d = ⟨w.current.place, decide (w.components.length ≤ w.own)⟩ := fun d hd =>
    (mem_append.mp hd).imp_right mem_singleton.mp
  have hlast : ∀ d ∈ w.visit, d ∈ w.visited ∨
      d = ⟨w.current.place, decide (w.components.length ≤ w.own)⟩ ∨
      ∃ path inner, nested path = .ok inner ∧ d ∈ inner.visited := fun d hd =>
    (hvisit d hd).imp_right .inl
  obtain ⟨-, ⟨-, hstep⟩ | ⟨-, hstep⟩⟩ := advance_cases hstep
  · obtain ⟨node, seen, rfl, hseen⟩ := advanceDotdot_cases hstep
    refine ⟨_, .inl rfl, Nat.min_le_left .., fun d hd => ?_⟩
    exact (hseen d hd).elim (hlast d) fun hd => .inr (.inr hd)
  · obtain ⟨next, fileType, -, -, -, hcases⟩ := advanceName_cases hstep
    rcases hcases with ⟨-, -, -, -, rfl⟩ | ⟨-, -, hfollow⟩ | ⟨-, rfl⟩
    · exact ⟨_, .inr rfl, Nat.min_le_left .., hlast⟩
    · obtain ⟨-, -, target, -, rfl⟩ := followLink_cases hfollow
      grind [linked]
    · exact ⟨_, .inl rfl, Nat.min_le_left .., hlast⟩

/-- Where the components of a path start. -/
theorem startWalk_eq_ok {base : Node} {own : List Text → ℕ}
    (h : startWalk root base path own = .ok w) :
    w = ⟨baseOf root base path, parsePath path, 0, own (parsePath path), []⟩ := by
  by_cases hslash : path.head? = some '/'
  · cases path with
    | nil => cases hslash
    | cons ch path => grind [startWalk, baseOf.eq_1, parsePath_slash]
  · rw [baseOf, if_neg hslash]
    exact startWalk_relative hslash h

variable {followFinal trailingSlash : Bool}

/-- A lookup of which no component is written in the path logs none as written in it. -/
theorem walk_foreign (h : walk v root n followFinal trailingSlash w = .ok w') (hown : w.own = 0)
    (hlog : ∀ d ∈ w.visited, d.own = false) : ∀ d ∈ w'.visited, d.own = false := by
  induction n generalizing w w' followFinal trailingSlash with
  | zero => cases h
  | succ n ih =>
    rw [walk] at h
    cases hcomponents : w.components with
    | nil =>
      rw [hcomponents] at h
      rw [finish_eq_ok h]
      exact hlog
    | cons name rest =>
      rw [hcomponents] at h
      obtain ⟨pr, hadvance, h⟩ := bind_eq_ok h
      obtain ⟨w₁, hpr, hle, hvisited⟩ := advance_log hadvance
      have hown₁ : w₁.own = 0 := Nat.le_zero.mp (hown ▸ hle)
      have hlog₁ : ∀ d ∈ w₁.visited, d.own = false := by
        intro d hd
        rcases hvisited d hd with hd | rfl | ⟨path, inner, hinner, hd⟩
        · exact hlog d hd
        · simp [hcomponents, hown]
        · obtain ⟨w₀, hstart, hinner⟩ := bind_eq_ok hinner
          obtain rfl := startWalk_eq_ok hstart
          exact ih hinner rfl nofun d hd
      grind

/-! ## The directories of the components of the path -/

/-- The caller may search the directory. -/
def Searchable (v : Vfs) (c : Caller) (p : Place) : Prop :=
  ∃ md, v.metadata p = .ok md ∧ hasSearchAccess md c = true

/-- The walk along the first `i` components of a path. -/
def beginning (base : Node) (components : List Text) (i : ℕ) : Walk :=
  ⟨base, components.take i, 0, i, []⟩

/-- The walk along the components of a path, with `n` rounds left of `total`.  It is at the start,
or every beginning of the path that is not yet behind it has been walked along in the same way. -/
structure Ready (v : Vfs) (root : Place) (base : Node) (components : List Text) (total n : ℕ)
    (w : Walk) : Prop where
  own_le : w.own ≤ components.length
  suffix : ∃ x, w.components = x ++ components.drop (components.length - w.own) ∧
    (w.own = components.length → x = [] ∧ w.current = base)
  normal : ∃ k, Normal k w.components
  cut : ∀ i, i ≠ 0 → components.length - w.own ≤ i → i < components.length →
    ∃ u, walk v root total true false (beginning base components i) = walk v root n true false u ∧
      Cut w u (components.drop i)

variable {base : Node} {components : List Text} {total : ℕ} {c : Caller} {w₁ : Walk} {k : ℕ} {m : ℕ}

/-- A walk that has left the components of the path behind. -/
theorem Ready.of_own_zero (hne : components ≠ []) (hown : w.own = 0)
    (hnormal : ∃ k, Normal k w.components) : Ready v root base components total n w where
  own_le := by rw [hown]; exact Nat.zero_le _
  suffix := by
    refine ⟨w.components, ?_, fun h => ?_⟩
    · rw [hown, Nat.sub_zero, drop_length, append_nil]
    · grind
  normal := hnormal
  cut i _ hle hlt := by
    rw [hown, Nat.sub_zero] at hle
    exact absurd hlt (Nat.not_lt.mpr hle)

theorem ready_start (hnormal : Normal k components) :
    Ready v root base components total total ⟨base, components, 0, components.length, []⟩ where
  own_le := Nat.le_refl _
  suffix := ⟨[], by simp, fun _ => ⟨rfl, rfl⟩⟩
  normal := ⟨k, hnormal⟩
  cut i _ _ _ := ⟨_, rfl, rfl, (take_append_drop i components).symm, rfl⟩

/-- A component of the path is looked up at the start, or where a beginning of the path leads. -/
theorem Ready.place (h : Ready v root base components total (n + 1) w)
    (hne : w.components ≠ []) (hown : w.components.length ≤ w.own) :
    w.current = base ∨ ∃ i, i ≠ 0 ∧ i < components.length ∧ ∃ u,
      walk v root total true false (beginning base components i) = .ok u ∧
        u.current = w.current := by
  obtain ⟨x, hcomponents, hstart⟩ := h.suffix
  have hlength : w.components.length = x.length + w.own := by grind [h.own_le]
  have hpos : 0 < w.components.length := length_pos_iff.mpr hne
  by_cases hfirst : w.own = components.length
  · exact .inl (hstart hfirst).2
  · have hle := h.own_le
    have hi : components.length - w.own ≠ 0 := by omega
    have hlt : components.length - w.own < components.length := by omega
    obtain ⟨u, hwalk, hcut⟩ := h.cut _ hi (Nat.le_refl _) hlt
    refine .inr ⟨_, hi, hlt, u, ?_, hcut.current⟩
    -- The shorter walk is at its end.
    have hnil : u.components = [] := by grind [hcut.components, length_eq_zero_iff]
    rw [hwalk, walk, hnil]
    rfl

/-- After a round the components that were left are still the last ones. -/
theorem advance_components (hnormal : Normal k (name :: rest))
    (hstep : e.advance deep nested w name rest = .ok (.more w₁)) :
    (∃ x, w₁.components = x ++ rest) ∧ (∃ j, Normal j w₁.components) ∧
      (w₁.own = 0 ∨ w₁.own = min w.own rest.length) := by
  obtain ⟨-, ⟨hname, hstep⟩ | ⟨hname, hstep⟩⟩ := advance_cases hstep
  · have hrest : ∃ j, Normal j rest := by
      rcases hnormal.cons_cases with ⟨j, -, -, hrest⟩ | ⟨-, -, hrest⟩
      · exact ⟨j, hrest⟩
      · exact ⟨0, hrest⟩
    obtain ⟨node, seen, hmore, -⟩ := advanceDotdot_cases hstep
    cases hmore
    exact ⟨⟨[], rfl⟩, hrest, .inr rfl⟩
  · have hrest : Normal 0 rest := by
      rcases hnormal.cons_cases with ⟨j, -, hdots, -⟩ | ⟨-, -, hrest⟩
      · exact absurd hdots hname
      · exact hrest
    obtain ⟨next, fileType, -, -, -, hcases⟩ := advanceName_cases hstep
    rcases hcases with ⟨-, -, -, -, hdone⟩ | ⟨-, -, hfollow⟩ | ⟨-, hmore⟩
    · cases hdone
    · obtain ⟨-, -, target, -, hmore⟩ := followLink_cases hfollow
      cases hmore
      refine ⟨⟨parsePath target, parsePath_linkPath hrest.plain⟩, exists_normal_parsePath _, ?_⟩
      grind [linked]
    · grind [Walk.moveTo, Normal]

section

variable (hcomponents : w.components = name :: rest)
  (hstep : advance ⟨v, root, followFinal, trailingSlash⟩ n (fun path => do
    let inner ← startWalk root ⟨root, true⟩ path fun _ => 0
    walk v root n true (hasTrailingSlash path) inner) w name rest = .ok (.more w₁))
include hcomponents hstep

/-- One round, as a step of the walk. -/
theorem walk_of_advance :
    walk v root (n + 1) followFinal trailingSlash w =
      walk v root n followFinal trailingSlash w₁ := by
  rw [walk, hcomponents]
  dsimp only
  rw [hstep]
  rfl

theorem Ready.advance (hne : components ≠ [])
    (h : Ready v root base components total (n + 1) w) :
    Ready v root base components total n w₁ := by
  obtain ⟨k, hnormal⟩ := h.normal
  rw [hcomponents] at hnormal
  obtain ⟨⟨y, hy⟩, hnormal₁, hown⟩ := advance_components hnormal hstep
  by_cases hzero : w₁.own = 0
  · exact .of_own_zero hne hzero hnormal₁
  have hown := hown.resolve_left hzero
  obtain ⟨x, hx, hstart⟩ := h.suffix
  have hle := h.own_le
  have hlength := congrArg length (hcomponents.symm.trans hx)
  rw [length_cons, length_append, length_drop] at hlength
  -- What is left of the path after the round.
  obtain ⟨z, hz⟩ : ∃ z, rest = z ++ components.drop (components.length - w₁.own) := by
    rw [hcomponents] at hx
    cases x with
    | nil =>
      refine ⟨[], ?_⟩
      grind [tail_drop]
    | cons a x => grind
  refine ⟨by omega, ⟨y ++ z, by rw [hy, hz, append_assoc], fun hall => ?_⟩, hnormal₁,
    fun i hi hlei hlt => ?_⟩
  · -- The walk is at the start only once.
    grind
  · obtain ⟨u, hwalk, hcut⟩ := h.cut i hi (by omega) hlt
    have hs : components.drop i ≠ [] := by simp [hlt]
    have hcomp := hcut.components
    rw [hcomponents] at hcomp
    obtain ⟨l, hu, hl⟩ : ∃ l, u.components = name :: l ∧ rest = l ++ components.drop i := by
      cases hu : u.components with
      | nil => grind [length_drop]
      | cons a l => grind
    have hplain : name ≠ dotdot → ∀ x ∈ l ++ components.drop i, Plain x := by
      intro hname
      rcases hnormal.cons_cases with ⟨j, -, hdots, -⟩ | ⟨-, -, hrest⟩
      · exact absurd hdots hname
      · rw [← hl]
        exact hrest.plain
    grind [hcut.advance, walk_of_advance]

end

/-- **The directories in which the components of the path are looked up** have every property that
the starting directory and the results of the beginnings of the path have. -/
theorem walk_own {P : Place → Prop} (hne : components ≠ []) (hbase : P base.place)
    (hbeginning : ∀ i, i ≠ 0 → i < components.length → ∀ u,
      walk v root total true false (beginning base components i) = .ok u → P u.current.place)
    (h : Ready v root base components total n w) (hlog : ∀ d ∈ w.visited, d.own = true → P d.place)
    (hwalk : walk v root n followFinal trailingSlash w = .ok w') :
    ∀ d ∈ w'.visited, d.own = true → P d.place := by
  induction n generalizing w with
  | zero => cases hwalk
  | succ n ih =>
    rw [walk] at hwalk
    cases hcomponents : w.components with
    | nil =>
      rw [hcomponents] at hwalk
      rw [finish_eq_ok hwalk]
      exact hlog
    | cons name rest =>
      rw [hcomponents] at hwalk
      obtain ⟨pr, hadvance, hwalk⟩ := bind_eq_ok hwalk
      obtain ⟨w₁, hpr, -, hvisited⟩ := advance_log hadvance
      have hlog₁ : ∀ d ∈ w₁.visited, d.own = true → P d.place := by
        intro d hd hown
        rcases hvisited d hd with hd | rfl | ⟨path, inner, hinner, hd⟩
        · exact hlog d hd hown
        · grind [h.place]
        · -- The lookup of a parent by its path is of no component of this path.
          obtain ⟨w₀, hstart, hinner⟩ := bind_eq_ok hinner
          obtain rfl := startWalk_eq_ok hstart
          cases (walk_foreign hinner rfl nofun d hd).symm.trans hown
      rcases hpr with rfl | rfl
      · exact ih (h.advance hcomponents hadvance hne) hlog₁ hwalk
      · cases hwalk
        exact hlog₁

/-! ## The check and the open -/

theorem checkDirectory_eq_ok {access : Metadata → Bool} {p : Place}
    (h : checkDirectory v access p = .ok ()) : ∃ md, v.metadata p = .ok md ∧ access md = true := by
  obtain ⟨md, hmd, h⟩ := bind_eq_ok h
  split_ifs at h with hdir haccess
  exact ⟨md, hmd, haccess⟩

/-- The check has looked up every beginning of the components. -/
theorem checkPrefixes_eq_ok {before after : List Text}
    (h : checkPrefixes v root deep c base before after = .ok ()) {i : ℕ}
    (hlow : before.length < i) (hhigh : i < (before ++ after).length) :
    ∃ u, vfsLookup v root deep base (joinSlash ((before ++ after).take i)) true = .ok u ∧
      Searchable v c u.current.place := by
  induction after generalizing before with
  | nil => grind
  | cons name after ih =>
    cases after with
    | nil => grind
    | cons next after =>
      obtain ⟨w, hlookup, h⟩ := bind_eq_ok h
      obtain ⟨⟨⟩, hcheck, h⟩ := bind_eq_ok h
      have hassoc : before ++ name :: next :: after = before ++ [name] ++ next :: after := by
        rw [append_assoc, singleton_append]
      by_cases i = before.length + 1
      · refine ⟨w, ?_, checkDirectory_eq_ok hcheck⟩
        grind
      · rw [hassoc] at hhigh ⊢
        refine ih h ?_ hhigh
        rw [length_append, length_singleton]
        omega

/-- After a successful check, the components of every beginning of the path are looked up in
directories that the caller may search. -/
theorem searchable_own (hb : baseOf root base path = base)
    (hcheck : checkParentSearchAccess v root deep c base path = .ok ())
    (hwalk : walk v root deep followFinal trailingSlash
      ⟨base, (parsePath path).take m, 0, ((parsePath path).take m).length, []⟩ = .ok w') :
    ∀ d ∈ w'.visited, d.own = true → Searchable v c d.place := by
  obtain ⟨⟨⟩, hfirst, hcheck⟩ := bind_eq_ok hcheck
  rw [hb] at hfirst hcheck
  obtain ⟨k, hnormal⟩ := exists_normal_parsePath path
  by_cases hnil : (parsePath path).take m = []
  · rw [hnil] at hwalk
    cases deep with
    | zero => cases hwalk
    | succ n =>
      rw [finish_eq_ok hwalk]
      nofun
  refine walk_own hnil (checkDirectory_eq_ok hfirst) (fun i hi hlt u hu => ?_)
    (ready_start (hnormal.take m)) nofun hwalk
  rw [length_take] at hlt
  have hne : (parsePath path).take i ≠ [] := by grind [length_nil]
  obtain ⟨u', hlookup, hsearch⟩ := checkPrefixes_eq_ok hcheck (Nat.pos_of_ne_zero hi)
    (by rw [nil_append]; omega)
  rw [nil_append, vfsLookup_join (hnormal.take i) hne] at hlookup
  grind [beginning]

theorem hasSearchAccess_of_write {md : Metadata}
    (h : hasDirectoryWriteSearchAccess md c = true) : hasSearchAccess md c = true := by
  rw [hasDirectoryWriteSearchAccess, Bool.or_eq_true, decide_eq_true_iff, decide_eq_true_iff] at h
  rw [hasSearchAccess, Bool.or_eq_true, decide_eq_true_iff, decide_eq_true_iff]
  refine h.imp_right fun hbits => ?_
  have hone : permissionClassBits md c &&& 0o1 = (permissionClassBits md c &&& 0o3) &&& 0o1 := by
    rw [Nat.and_assoc]
    rfl
  rw [hone, hbits]
  decide

section

variable (hb : baseOf root base path = base)
  (hcheck : checkParentSearchAccess v root deep c base path = .ok ())
include hb hcheck

/-- The same for a lookup of a path whose components are a beginning of those that were checked. -/
theorem searchable_lookup {other : Text}
    (hb' : baseOf root base other = base) (hother : parsePath other = (parsePath path).take m)
    (hlookup : vfsLookup v root deep base other followFinal = .ok w') :
    ∀ d ∈ w'.visited, d.own = true → Searchable v c d.place := by
  obtain ⟨w₀, hstart, hwalk⟩ := bind_eq_ok hlookup
  grind [startWalk_eq_ok, searchable_own]

/-- The log of the lookup of the directory of a new file. -/
theorem searchable_parent {parent : Node} {visited : List Visit} {leaf : Text}
    (h : vfsLookupParentForStart v root deep base path = .ok (parent, visited, leaf)) :
    ∀ d ∈ visited, d.own = true → Searchable v c d.place := by
  rw [vfsLookupParentForStart] at h
  split at h
  · cases h
  obtain ⟨k, hnormal⟩ := exists_normal_parsePath path
  have htake : (parsePath path).dropLast = (parsePath path).take ((parsePath path).length - 1) :=
    dropLast_eq_take
  have hbefore := hnormal.take ((parsePath path).length - 1)
  rw [← htake] at hbefore
  by_cases hnil : (parsePath path).dropLast = []
  · grind
  rw [if_neg hnil] at h
  have hjoin := hbefore.parsePath_join hnil
  obtain ⟨w, hlookup, h⟩ := bind_eq_ok h
  have hvisited : w.visited = visited := congrArg (fun r => r.2.1) (ok.inj h)
  rw [← hvisited]
  split_ifs at hlookup with hslash
  · rw [baseOf, if_pos hslash] at hb
    refine searchable_lookup (m := (parsePath path).length - 1)
      (by rw [baseOf, if_pos hslash, hb]) hcheck
      ((if_pos rfl : baseOf root base ('/' :: _) = _).trans hb) ?_ hlookup
    rw [parsePath_slash, hjoin, htake]
  · have hends := joinSlash_ends
      (fun s hs => ⟨hbefore.ne_nil hs, hbefore.slash hs⟩ : ∀ s ∈ (parsePath path).dropLast, _) hnil
    refine searchable_lookup (m := (parsePath path).length - 1) hb hcheck (if_neg hends.2.1) ?_
      hlookup
    rw [hjoin, htake]

end

/-- **Search permission.**  When a caller other than root has opened a file, it may search every
directory in which a component was looked up exactly if it may search those in which the component
was not written in the path: the check covers the others. -/
theorem searchable_of_openFileAt_iff {inodes : Inodes} {flags : OpenFlags} {dir : Node}
    {path : Text} {visited : List Visit} (huid : c.uid ≠ 0)
    (h : openFileAt v inodes root deep c flags dir path = .ok visited) :
    (∀ d ∈ visited, Searchable v c d.place) ↔
      ∀ d ∈ visited, d.own = false → Searchable v c d.place := by
  have hb : baseOf root (baseOf root dir path) path = baseOf root dir path := by
    unfold baseOf
    split_ifs <;> rfl
  have hown : ∀ d ∈ visited, d.own = true → Searchable v c d.place := by
    rw [openFileAt] at h
    by_cases hempty : path = []
    · rw [if_pos hempty] at h
      obtain ⟨md, -, h⟩ := bind_eq_ok h
      cases h
      nofun
    rw [if_neg hempty] at h
    by_cases hdot : isDot path = true
    · rw [if_pos hdot] at h
      by_cases htmp : flags.tmpFile = true
      · rw [if_pos htmp] at h
        cases h
      rw [if_neg htmp] at h
      obtain ⟨md, -, h⟩ := bind_eq_ok h
      split_ifs at h
      · cases h
        nofun
      · obtain ⟨⟨⟩, -, h⟩ := bind_eq_ok h
        cases h
        nofun
    rw [if_neg hdot, if_pos huid] at h
    obtain ⟨⟨⟩, hcheck, h⟩ := bind_eq_ok h
    split at h
    case h_1 w hlookup =>
      obtain ⟨⟨⟩, -, h⟩ := bind_eq_ok h
      cases h
      exact searchable_lookup hb hcheck hb take_length.symm hlookup
    case h_2 hlookup =>
      split_ifs at h
      obtain ⟨⟨parent, log, leaf⟩, hparent, h⟩ := bind_eq_ok h
      obtain ⟨⟨⟩, hwrite, h⟩ := bind_eq_ok h
      obtain ⟨⟨⟩, -, h⟩ := bind_eq_ok h
      cases h
      intro d hd hd'
      rcases mem_append.mp hd with hd | hd
      · exact searchable_parent hb hcheck hparent d hd hd'
      · obtain ⟨md, hmd, haccess⟩ := checkDirectory_eq_ok hwrite
        rw [mem_singleton.mp hd]
        exact ⟨md, hmd, hasSearchAccess_of_write haccess⟩
    case h_3 => cases h
  refine ⟨fun hall d hd _ => hall d hd, fun hforeign d hd => ?_⟩
  cases hd' : d.own with
  | true => exact hown d hd hd'
  | false => exact hforeign d hd hd'

/-! ## A link into another directory -/

/-- One mount with the directories `/` (1) and `/secret` (2), the file `/secret/file` (3) and the
link `/link` (4) to it; `mode` are the permissions of the second directory. -/
def linkVfs (mode : ℕ) : Vfs where
  metadata p :=
    if p.ino = 1 then .ok ⟨.dir, 0o755, 0, 0⟩
    else if p.ino = 2 then .ok ⟨.dir, mode, 0, 0⟩
    else if p.ino = 3 then .ok ⟨.other, 0o644, 0, 0⟩
    else if p.ino = 4 then .ok ⟨.symLink, 0o777, 0, 0⟩
    else .error .ENOENT
  child p name :=
    if p.ino = 1 ∧ name = "secret".toList then .ok 2
    else if p.ino = 2 ∧ name = "file".toList then .ok 3
    else if p.ino = 1 ∧ name = "link".toList then .ok 4
    else .error .ENOENT
  up _ := .ok 1
  target p := if p.ino = 4 then .ok "secret/file".toList else .error .EINVAL
  mountpoints _ := none
  rootInner _ := 1
  selfMountpoint _ := none
  noSymFollow _ := false
  absolutePath _ := .error .ENOENT
  cachedRoot _ _ := false

/-- Files open, and directories take new ones. -/
def plainInodes : Inodes := ⟨fun _ => false, fun _ _ => .ok (), fun _ _ => .ok ()⟩

/-- `O_RDONLY`. -/
def readOnly : OpenFlags := ⟨0, false, false, false, false, false, false, false, false⟩

/-- A user who is neither the owner nor in the group of anything. -/
def stranger : Caller := ⟨1000, 1000, []⟩

/-- The log of the open of `link`. -/
def linkLog : List Visit := [⟨⟨0, 1⟩, true⟩, ⟨⟨0, 1⟩, false⟩, ⟨⟨0, 2⟩, false⟩]

theorem openFileAt_link {mode : ℕ} :
    openFileAt (linkVfs mode) plainInodes ⟨0, 1⟩ 10 stranger readOnly ⟨⟨0, 1⟩, true⟩
      "link".toList = .ok linkLog := rfl

/-- If the directory that the link leads through may be searched, then so may all. -/
theorem searchable_throughLink : stranger.uid ≠ 0 ∧
    ∀ d ∈ linkLog, Searchable (linkVfs 0o755) stranger d.place := by
  refine ⟨by decide, ?_⟩
  refine (searchable_of_openFileAt_iff (by decide) openFileAt_link).mpr ?_
  intro d hd hown
  rw [linkLog, mem_cons, mem_cons, mem_singleton] at hd
  rcases hd with rfl | rfl | rfl
  · cases hown
  all_goals exact ⟨_, rfl, by decide⟩

/-- A user opens a file through a link that leads into a directory which only root may search. -/
theorem open_through_secret : ∃ visited,
    openFileAt (linkVfs 0o700) plainInodes ⟨0, 1⟩ 10 stranger readOnly ⟨⟨0, 1⟩, true⟩
      "link".toList = .ok visited ∧ stranger.uid ≠ 0 ∧
      ∃ d ∈ visited, ¬ Searchable (linkVfs 0o700) stranger d.place := by
  refine ⟨linkLog, openFileAt_link, by decide, ⟨⟨0, 2⟩, false⟩, by decide, ?_⟩
  rintro ⟨md, hmd, haccess⟩
  cases hmd
  revert haccess
  decide
end MangoCore.Fs.Lookup
