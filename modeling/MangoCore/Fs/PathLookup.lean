import MangoCore.Fs.PathText
import MangoCore.Lib.Outcome

/-!
# Path lookup

`vfs_lookup` walks from a directory along the components of a path.  A component that is a symbolic
link is replaced by the components of its target, at most `maxSymlinkFollow` times; `..` asks the
mount layer for the parent, which crosses from the root of a mount to the parent of its mount point;
and the walk stays where it is when `..` is taken at the root of the process.

The last test compares objects, not directories: `MountFSInode` is a wrapper around an inode of the
filesystem, `find` hands out the wrapper of the dentry cache, and every `..` makes a new wrapper.  A
`Node` therefore is a place and the answer to that one comparison.

The file systems and the mount table are those of one moment (`Vfs`).  The walk also keeps a log of
the directories in which it has looked a component up, and for each whether the component was
written in the path or came from somewhere else; nothing reads it.
-/

namespace MangoCore.Fs.Lookup

open Except

/-- The errors of a lookup; `fs` is any other one, of a filesystem. -/
inductive Errno where
  | ENOENT | ENOTDIR | ELOOP | EINVAL | EACCES | EPERM
  | fs (code : ℕ)
  /-- The recursion of the lookup did not end within the bound of the model. -/
  | deep
  deriving DecidableEq, Repr

inductive FileType where
  | dir | symLink | pipe | other
  deriving DecidableEq, Repr

/-- `Metadata`, as far as a lookup and the permission checks read it. -/
structure Metadata where
  fileType : FileType
  mode : ℕ
  uid : ℕ
  gid : ℕ
  deriving DecidableEq, Repr

/-- An inode of the filesystem that a mount shows. -/
structure Place where
  mount : ℕ
  ino : ℕ
  deriving DecidableEq, Repr

/-- The file systems and the mount table. -/
structure Vfs where
  metadata : Place → Except Errno Metadata
  /-- `inner_inode.find` of a name other than `..`. -/
  child : Place → Text → Except Errno ℕ
  /-- `inner_inode.find("..")`. -/
  up : Place → Except Errno ℕ
  /-- The target of a symbolic link, as `read_at` and `baseutf8` return it. -/
  target : Place → Except Errno Text
  /-- `mountpoints`: the mount on a place. -/
  mountpoints : Place → Option ℕ
  /-- `root_inner_inode`. -/
  rootInner : ℕ → ℕ
  /-- `self_mountpoint`: the place on which a mount is. -/
  selfMountpoint : ℕ → Option Place
  /-- `MountFlags::NOSYMFOLLOW`. -/
  noSymFollow : ℕ → Bool
  /-- `absolute_path`. -/
  absolutePath : Place → Except Errno Text
  /-- Whether the dentry cache returns, for a name of a directory, the object that is the root of
  the process. -/
  cachedRoot : Place → Text → Bool

namespace Vfs

variable (v : Vfs)

/-- The root of what a mount shows. -/
def mountRoot (m : ℕ) : Place := ⟨m, v.rootInner m⟩

/-- The loop of `overlaid_inode`. -/
def overlaidLoop : ℕ → Place → Place
  | 0, p => p
  | n + 1, p =>
    match v.mountpoints p with
    | some m => overlaidLoop n (v.mountRoot m)
    | none => p

/-- `overlaid_inode`: the root of the topmost mount on a place. -/
def overlaid (p : Place) : Place := v.overlaidLoop 32 p

def isMountpointRoot (p : Place) : Bool := p.ino = v.rootInner p.mount

/-- `do_find` of a name other than `..`.  On a covered directory it starts again at the mount on
top, which can itself be covered after 32 mounts; the bound counts these restarts. -/
def doFind : ℕ → Place → Text → Except Errno Place
  | 0, _, _ => .error .deep
  | n + 1, p, name =>
    match v.mountpoints p with
    | some _ => doFind n (v.overlaid p) name
    | none => (v.child p name).map fun ino => v.overlaid ⟨p.mount, ino⟩

def lookupDotdot (p : Place) : Except Errno Place :=
  if v.isMountpointRoot p then
    match v.selfMountpoint p.mount with
    | some mountpoint =>
      (v.up mountpoint).map fun ino => v.overlaid ⟨mountpoint.mount, ino⟩
    | none => .ok p
  else (v.up p).map fun ino => v.overlaid ⟨p.mount, ino⟩

end Vfs

/-- An object of the VFS: where it is, and whether it is the root object of the process. -/
structure Node where
  place : Place
  isRoot : Bool
  deriving DecidableEq, Repr

/-- A directory in which a component was looked up, and whether the component was written in the
path. -/
structure Visit where
  place : Place
  own : Bool
  deriving DecidableEq, Repr

/-- The variables of `vfs_lookup`: the last `own` components are those of the path. -/
structure Walk where
  current : Node
  components : List Text
  symlinkCount : ℕ
  own : ℕ
  visited : List Visit
  deriving DecidableEq, Repr

/-- The arguments of a lookup that do not change: the file systems, the root of the process,
`follow_final` and `has_trailing_slash`. -/
structure Env where
  vfs : Vfs
  root : Place
  followFinal : Bool
  trailingSlash : Bool

def maxSymlinkFollow : ℕ := 40

/-- One round of the loop goes on, or returns. -/
inductive Progress where
  | more (w : Walk)
  | done (w : Walk)

namespace Walk

/-- The log of looking the first component up. -/
def visit (w : Walk) : List Visit :=
  w.visited ++ [⟨w.current.place, decide (w.components.length ≤ w.own)⟩]

/-- The first component is dealt with, and the walk is at a node. -/
def moveTo (w : Walk) (node : Node) (rest : List Text) (visited : List Visit) : Walk :=
  { w with current := node, components := rest, own := min w.own rest.length, visited := visited }

end Walk

/-- The path that is looked up when `find("..")` fails: what stands before the last slash. -/
def parentPath (abs : Text) : Text :=
  if '/' ∈ abs then
    let before := (abs.reverse.dropWhile (· ≠ '/')).tail.reverse
    if before = [] then ['/'] else before
  else ['/']

/-- The variables at the start of a lookup.  The root object is that of the process. -/
def startWalk (root : Place) (base : Node) (path : Text) (own : List Text → ℕ) :
    Except Errno Walk :=
  match path with
  | '/' :: rest => .ok ⟨⟨root, true⟩, parsePath rest, 0, own (parsePath rest), []⟩
  | path =>
    if parsePath path = [] ∧ path ≠ ['.'] ∧ path ≠ dotdot then .error .ENOENT
    else .ok ⟨base, parsePath path, 0, own (parsePath path), []⟩

/-- `path.ends_with('/') && path != "/"`. -/
def hasTrailingSlash (path : Text) : Bool := path.getLast? = some '/' && path ≠ ['/']

/-- `new_path`: the text that a link is replaced by. -/
def linkPath (target : Text) (rest : List Text) : Text :=
  if rest = [] then target else target ++ '/' :: joinSlash rest

namespace Env

variable (e : Env)

/-- `metadata` and its file type. -/
def fileType (p : Place) : Except Errno FileType := (e.vfs.metadata p).map Metadata.fileType

variable (deep : ℕ) (nested : Text → Except Errno Walk) (w : Walk)

variable (name : Text) (rest : List Text)

/-- A component `..`. -/
def advanceDotdot : Except Errno Progress :=
  if w.current.isRoot then .ok (.more (w.moveTo w.current rest w.visited))
  else
    match e.vfs.lookupDotdot w.current.place with
    | .ok parent => .ok (.more (w.moveTo ⟨parent, false⟩ rest w.visit))
    | .error _ =>
      match e.vfs.absolutePath w.current.place with
      | .ok abs => (nested (parentPath abs)).map fun inner =>
        .more (w.moveTo inner.current rest (w.visit ++ inner.visited))
      | .error _ => .ok (.more (w.moveTo w.current rest w.visit))

/-- The walk after a link: the components of its target and those that are left are looked up from
the root, or from the directory of the link.  After a link with an empty target, what is left of the
path reads as an absolute path, and does not count as written in it. -/
def linked (target : Text) (rest : List Text) : Walk where
  current := if (linkPath target rest).head? = some '/' then ⟨e.root, true⟩ else w.current
  components := parsePath (linkPath target rest)
  symlinkCount := w.symlinkCount + 1
  own := if target = [] then 0 else min w.own rest.length
  visited := w.visit

/-- A component that is a symbolic link to be followed. -/
def followLink (link : Place) (rest : List Text) : Except Errno Progress :=
  if e.vfs.noSymFollow link.mount then .error .ELOOP
  else if maxSymlinkFollow ≤ w.symlinkCount then .error .ELOOP
  else (e.vfs.target link).map fun target => .more (e.linked w target rest)

/-- The object that a name leads to. -/
def found (next : Place) : Node :=
  ⟨next, e.vfs.cachedRoot w.current.place name && decide (next = e.root)⟩

/-- A component other than `..`. -/
def advanceName : Except Errno Progress := do
  let next ← e.vfs.doFind deep w.current.place name
  let fileType ← e.fileType next
  if rest ≠ [] ∧ fileType ≠ .dir ∧ fileType ≠ .symLink then .error .ENOTDIR
  else if rest = [] ∧ e.followFinal = false ∧ fileType = .symLink ∧ e.trailingSlash = false then
    .ok (.done (w.moveTo (e.found w name next) rest w.visit))
  else if fileType = .symLink then e.followLink w next rest
  else .ok (.more (w.moveTo (e.found w name next) rest w.visit))

/-- One round of the loop. -/
def advance : Except Errno Progress := do
  let fileType ← e.fileType w.current.place
  if fileType ≠ .dir then .error .ENOTDIR
  else if name = dotdot then e.advanceDotdot nested w rest
  else e.advanceName deep w name rest

/-- The end of the loop. -/
def finish : Except Errno Walk :=
  if e.trailingSlash then do
    let fileType ← e.fileType w.current.place
    if fileType ≠ .dir then .error .ENOTDIR else .ok w
  else .ok w

end Env

/-- The loop of `vfs_lookup`, with at most as many rounds as the first argument says.  The lookup of
the parent by its path is the same function with the rounds that are left; it follows the last
component, and its components are none of the path. -/
def walk (v : Vfs) (root : Place) : ℕ → Bool → Bool → Walk → Except Errno Walk
  | 0, _, _, _ => .error .deep
  | n + 1, followFinal, trailingSlash, w =>
    match w.components with
    | [] => Env.finish ⟨v, root, followFinal, trailingSlash⟩ w
    | name :: rest => do
        let nested path := do
          let inner ← startWalk root ⟨root, true⟩ path fun _ => 0
          walk v root n true (hasTrailingSlash path) inner
        match ← Env.advance ⟨v, root, followFinal, trailingSlash⟩ n nested w name rest with
        | .more w' => walk v root n followFinal trailingSlash w'
        | .done w' => .ok w'

def vfsLookup (v : Vfs) (root : Place) (deep : ℕ) (base : Node) (path : Text)
    (followFinal : Bool) : Except Errno Walk := do
  let w ← startWalk root base path List.length
  walk v root deep followFinal (hasTrailingSlash path) w

/-! ## What one round does -/

/-- Joined components are looked up from the directory given, component by component. -/
theorem vfsLookup_join {v : Vfs} {root : Place} {deep k : ℕ} {base : Node} {l : List Text}
    {followFinal : Bool} (hnormal : Normal k l) (hne : l ≠ []) :
    vfsLookup v root deep base (joinSlash l) followFinal =
      walk v root deep followFinal false ⟨base, l, 0, l.length, []⟩ := by
  obtain ⟨hjoin, hhead, hlast⟩ :=
    joinSlash_ends (fun s hs => ⟨hnormal.ne_nil hs, hnormal.slash hs⟩) hne
  have hparse := hnormal.parsePath_join hne
  have hstart : startWalk root base (joinSlash l) List.length = .ok ⟨base, l, 0, l.length, []⟩ := by
    unfold startWalk
    split
    · next rest heq =>
        rw [heq] at hhead
        exact absurd rfl hhead
    · rw [hparse, if_neg fun h => hne h.1]
  have htrailing : hasTrailingSlash (joinSlash l) = false := by
    rw [hasTrailingSlash, decide_eq_false hlast, Bool.false_and]
  rw [vfsLookup, hstart, htrailing]
  rfl

/-- A relative path starts at the directory given. -/
theorem startWalk_relative {root : Place} {base : Node} {path : Text} {own : List Text → ℕ}
    {w : Walk} (hrel : path.head? ≠ some '/') (h : startWalk root base path own = .ok w) :
    w = ⟨base, parsePath path, 0, own (parsePath path), []⟩ := by
  unfold startWalk at h
  grind

/-- The names that are left follow the components of the target. -/
theorem parsePath_linkPath {target : Text} {rest : List Text} (hrest : ∀ s ∈ rest, Plain s) :
    parsePath (linkPath target rest) = parsePath target ++ rest := by
  grind [linkPath, parsePath_append_slash]

/-- Whether the text is absolute is for the target to say, unless that is empty. -/
theorem head?_linkPath {target : Text} (h : target ≠ []) (rest : List Text) :
    (linkPath target rest).head? = target.head? := by
  rw [linkPath]
  split_ifs
  · rfl
  · cases target with
    | nil => exact absurd rfl h
    | cons c target => rfl

variable {e : Env} {deep : ℕ} {nested : Text → Except Errno Walk} {w : Walk} {name : Text}
  {rest : List Text} {pr : Progress}

theorem advance_cases (h : e.advance deep nested w name rest = .ok pr) :
    e.fileType w.current.place = .ok .dir ∧
      ((name = dotdot ∧ e.advanceDotdot nested w rest = .ok pr) ∨
        (name ≠ dotdot ∧ e.advanceName deep w name rest = .ok pr)) := by
  obtain ⟨fileType, htype, h⟩ := bind_eq_ok h
  grind

theorem followLink_cases {link : Place} (h : e.followLink w link rest = .ok pr) :
    e.vfs.noSymFollow link.mount = false ∧ w.symlinkCount < maxSymlinkFollow ∧
      ∃ target, e.vfs.target link = .ok target ∧ pr = .more (e.linked w target rest) := by
  rw [Env.followLink] at h
  split_ifs at h with hflag hcount
  cases htarget : e.vfs.target link with
  | error errno => rw [htarget] at h; cases h
  | ok target =>
    rw [htarget] at h
    exact ⟨Bool.eq_false_iff.mpr hflag, Nat.lt_of_not_le hcount, target, rfl, (ok.inj h).symm⟩

theorem advanceName_cases (h : e.advanceName deep w name rest = .ok pr) :
    ∃ next fileType, e.vfs.doFind deep w.current.place name = .ok next ∧
      e.fileType next = .ok fileType ∧ (rest = [] ∨ fileType = .dir ∨ fileType = .symLink) ∧
      ((rest = [] ∧ e.followFinal = false ∧ e.trailingSlash = false ∧ fileType = .symLink ∧
          pr = .done (w.moveTo (e.found w name next) rest w.visit)) ∨
        (fileType = .symLink ∧ (rest = [] → e.followFinal = false → e.trailingSlash = true) ∧
          e.followLink w next rest = .ok pr) ∨ (fileType ≠ .symLink ∧
          pr = .more (w.moveTo (e.found w name next) rest w.visit))) := by
  obtain ⟨next, hnext, h⟩ := bind_eq_ok h
  obtain ⟨fileType, htype, h⟩ := bind_eq_ok h
  split_ifs at h with hother hfinal
  · exact ⟨next, fileType, hnext, htype, .inl hfinal.1,
      .inl ⟨hfinal.1, hfinal.2.1, hfinal.2.2.2, hfinal.2.2.1, (ok.inj h).symm⟩⟩
  all_goals grind

/-- The end of the loop changes nothing. -/
theorem finish_eq_ok {w' : Walk} (h : e.finish w = .ok w') : w' = w := by
  rw [Env.finish] at h
  split_ifs at h
  · obtain ⟨fileType, -, h⟩ := bind_eq_ok h
    split_ifs at h
    exact (ok.inj h).symm
  · exact (ok.inj h).symm

end MangoCore.Fs.Lookup
