import MangoCore.Fs.FdTableLocks

/-!
# Closing a descriptor releases the record locks

Every record lock of a process is owned by the number of its table, as long as the process gets no
copy of its own table while it holds one.  So a close, a `close_range` or an `exec` that drops the
locks that the table owns on the file drops all locks that the process has there.

`dup2` and `dup3` drop none, and a copied table has another number: these calls are the condition
under which the locks are released.
-/

namespace MangoCore.Fs.FdLocks

open PosixLock Function LockState FdTable Option List

/-- No lock is added. -/
def Shrinks (locks locks' : Locks) : Prop :=
  ∀ key, ∀ r ∈ (locks' key).records, r ∈ (locks key).records

/-- No lock on the file is owned by the number. -/
def Released (locks : Locks) (key : LockKey) (ownerId : ℕ) : Prop :=
  ∀ r ∈ (locks key).records, ∀ p, r.owner ≠ .posix ownerId p

variable {locks : Locks} {ownerId : ℕ} {file : OpenFile}

theorem Shrinks.refl : Shrinks locks locks := fun _ _ hr => hr

theorem Shrinks.trans {l₁ l₂ l₃ : Locks} (h : Shrinks l₁ l₂) (h' : Shrinks l₂ l₃) : Shrinks l₁ l₃ :=
  fun key r hr => h key r (h' key r hr)

theorem Released.mono {locks' : Locks} {key : LockKey}
    (h : Released locks key ownerId) (hs : Shrinks locks locks') : Released locks' key ownerId :=
  fun r hr => h r (hs key r hr)

/-! ## The loops -/

theorem shrinks_release {key : LockKey} {who : Releaser} :
    Shrinks locks (release locks key who) := by
  intro key' r hr
  rw [release] at hr
  grind

theorem released_releasePosixForOwner {key : LockKey} :
    Released (releasePosixForOwner locks key ownerId) key ownerId := by
  intro r hr p howner
  rw [releasePosixForOwner, release, update_self] at hr
  grind [Releaser.keeps]

/-- One number is closed: its file is released, and the other numbers stay. -/
theorem dropIfOpen_spec {c : Table × Locks} {fd : ℕ} :
    Shrinks c.2 (dropIfOpen c fd).2 ∧ (dropIfOpen c fd).1.lockOwnerId = c.1.lockOwnerId ∧
      (∀ x, x ≠ fd → (dropIfOpen c fd).1.getFile x = c.1.getFile x) ∧
      ∀ file, c.1.getFile fd = some file →
        Released (dropIfOpen c fd).2 file.posixLockKey c.1.lockOwnerId := by
  rw [dropIfOpen]
  cases hdrop : c.1.dropFd fd with
  | error e => grind [Shrinks.refl, dropFd]
  | ok result =>
    obtain ⟨file, t⟩ := result
    obtain ⟨hfile, hget, howner⟩ := dropFd_spec hdrop
    grind [releasePosixForOwner, shrinks_release, released_releasePosixForOwner]

/-- After the loop the files of all closed numbers are released. -/
theorem foldl_dropIfOpen_spec {fds : List ℕ} (c : Table × Locks) :
    Shrinks c.2 (fds.foldl dropIfOpen c).2 ∧
      (fds.foldl dropIfOpen c).1.lockOwnerId = c.1.lockOwnerId ∧
      ∀ fd ∈ fds, ∀ file, c.1.getFile fd = some file →
        Released (fds.foldl dropIfOpen c).2 file.posixLockKey c.1.lockOwnerId := by
  induction fds generalizing c with
  | nil => exact ⟨Shrinks.refl, rfl, fun fd hfd => absurd hfd not_mem_nil⟩
  | cons x fds ih =>
    obtain ⟨hshrinks, howner, hget, hreleased⟩ := dropIfOpen_spec
    obtain ⟨hshrinks', howner', hreleased'⟩ := ih (dropIfOpen c x)
    refine ⟨hshrinks.trans hshrinks', howner'.trans howner, fun fd hfd file hfile => ?_⟩
    rw [foldl_cons]
    by_cases hx : fd = x
    · subst hx
      exact (hreleased file hfile).mono hshrinks'
    · grind

section

variable (t : Table) (locks : Locks)

theorem releaseIfCloexec_spec (fd : ℕ) : Shrinks locks (releaseIfCloexec t locks fd) ∧
      ∀ file, t.getCloexec fd = true → t.getFile fd = some file →
        Released (releaseIfCloexec t locks fd) file.posixLockKey t.lockOwnerId := by
  rw [releaseIfCloexec]
  by_cases hflag : t.getCloexec fd = true
  · grind [Shrinks.refl, releasePosixForOwner, shrinks_release, released_releasePosixForOwner]
  · simp [hflag, Shrinks.refl]

theorem foldl_releaseIfCloexec_spec (fds : List ℕ) (locks : Locks) :
    Shrinks locks (fds.foldl (releaseIfCloexec t) locks) ∧
      ∀ fd ∈ fds, ∀ file, t.getCloexec fd = true → t.getFile fd = some file →
        Released (fds.foldl (releaseIfCloexec t) locks) file.posixLockKey t.lockOwnerId := by
  induction fds generalizing locks with
  | nil => exact ⟨Shrinks.refl, fun fd hfd => absurd hfd not_mem_nil⟩
  | cons x fds ih => grind [releaseIfCloexec_spec, Shrinks.trans, Released.mono]

theorem lt_length_of_getFile {t : Table} {fd : ℕ}
    (h : t.getFile fd = some file) : fd < t.slots.length := by
  grind [getFile]

theorem closeRange_spec (first last : ℕ) :
    let closed := closeRange t locks first last
    Shrinks locks closed.2 ∧ closed.1.lockOwnerId = t.lockOwnerId ∧ ∀ fd file, first ≤ fd → fd ≤
      last → t.getFile fd = some file → Released closed.2 file.posixLockKey t.lockOwnerId := by
  obtain ⟨hshrinks, howner, hreleased⟩ := foldl_dropIfOpen_spec (t, locks)
  refine ⟨hshrinks, howner, fun fd file hfirst hlast hfile => hreleased fd ?_ file hfile⟩
  have hlt := lt_length_of_getFile hfile
  exact mem_range'_1.mpr (by omega)

end

theorem closeCloexec_spec {t : Table} : Shrinks locks (closeCloexecAndReleaseFcntlLocks t locks).2 ∧
      ∀ fd file, t.getCloexec fd = true → t.getFile fd = some file →
        Released (closeCloexecAndReleaseFcntlLocks t locks).2 file.posixLockKey t.lockOwnerId := by
  grind [getFile, closeCloexecAndReleaseFcntlLocks, foldl_releaseIfCloexec_spec]

/-! ## What a call does to tables and locks -/

namespace LockState

variable {s s' : LockState} {t t' : Table} {l : Label} {p : ℕ} {key : LockKey} {fd : ℕ}

/-- What one call can do, as far as the owners of the locks are concerned. -/
inductive Move (s : LockState) (t : Table) (p : ℕ) : LockState → Prop
  /-- The table changes and keeps its number; locks may go. -/
  | keep {s' : LockState} (t' : Table) (tables : s'.tables = update s.tables p (some t'))
      (owner : t'.lockOwnerId = t.lockOwnerId) (shrinks : Shrinks s.locks s'.locks) : Move s t p s'
  /-- A lock request of the process or of an open file description is granted. -/
  | lock {s' : LockState} (key : LockKey) (owner : LockOwner) (tables : s'.tables = s.tables)
      (owner_eq : owner = .posix t.lockOwnerId p ∨ ∃ id, owner = .ofd id)
      (others : ∀ key', key' ≠ key → s'.locks key' = s.locks key')
      (owners : OwnersFrom owner (s.locks key).records (s'.locks key).records) : Move s t p s'
  /-- The process gets a copy of its table. -/
  | copy {s' : LockState} (t' : Table) (tables : s'.tables = update s.tables p (some t'))
      (none : ∀ key, ¬ s.Holds p key) (shrinks : Shrinks s.locks s'.locks) : Move s t p s'
  /-- A new process gets a copy of the table. -/
  | child {s' : LockState} (q : ℕ) (t' : Table) (fresh : s.tables q = none)
      (tables : s'.tables = update s.tables q (some t')) (locks : s'.locks = s.locks) :
      Move s t p s'

/-- The calls under which the locks are released: a replaced descriptor is of a file on which the
process holds no lock, and a process that holds a lock gets no copy of its table. -/
def Proper (s : LockState) : Label → Prop
  | .dup2 p oldfd newfd _ | .dup3 p oldfd newfd _ _ =>
    oldfd ≠ newfd → ∀ t file, s.tables p = some t → t.getFile newfd = some file →
      ¬ s.Holds p file.posixLockKey
  | .closeRange p _ _ unshare _ => unshare = true → ∀ key, ¬ s.Holds p key
  | .exec p shared => shared = true → ∀ key, ¬ s.Holds p key
  | _ => True

theorem move_setTable (howner : t'.lockOwnerId = t.lockOwnerId) : Move s t p (s.setTable p t') :=
  .keep t' rfl howner Shrinks.refl

theorem move_replaceFd {oldfd newfd : ℕ} {cloexec mem : Bool}
    (h : s.replaceFd p t oldfd newfd cloexec mem = .ok s') :
    Move s t p s' ∧ s'.locks = s.locks := by
  rw [replaceFd] at h
  split at h
  · cases h
  · obtain ⟨⟨old, t'⟩, halloc, h⟩ := bind_eq_ok h
    cases h
    exact ⟨move_setTable (allocFdAt_spec halloc).2.2, rfl⟩

theorem setCloexec_lockOwnerId {val : Bool}
    (h : t.setCloexec fd val = .ok t') : t'.lockOwnerId = t.lockOwnerId := by
  rw [setCloexec] at h
  grind

/-- **Every call is one of the moves.** -/
theorem move_of_stepTable (hp : s.tables l.caller = some t) (hproper : s.Proper l)
    (h : s.stepTable t l = .ok s') : Move s t l.caller s' := by
  cases l with
  | openFile p file cloexec mem =>
    obtain ⟨⟨fd, t'⟩, halloc, h⟩ := bind_eq_ok h
    cases h
    exact move_setTable (allocFd_spec halloc).lockOwnerId
  | dup p oldfd mem =>
    rw [stepTable] at h
    split at h
    · cases h
    · obtain ⟨⟨fd, t'⟩, halloc, h⟩ := bind_eq_ok h
      cases h
      exact move_setTable (allocFd_spec halloc).lockOwnerId
  | dupFrom p oldfd minFd cloexec mem =>
    rw [stepTable] at h
    split at h
    · cases h
    · obtain ⟨⟨fd, t'⟩, halloc, h⟩ := bind_eq_ok h
      cases h
      exact move_setTable (allocFdFrom_spec halloc).lockOwnerId
  | setCloexec p fd val =>
    obtain ⟨t', hset, h⟩ := bind_eq_ok h
    cases h
    exact move_setTable (setCloexec_lockOwnerId hset)
  | dup2 p oldfd newfd mem =>
    rw [stepTable] at h
    split_ifs at h
    · split at h <;> cases h
      · exact .keep t (update_eq_self_iff.mpr hp.symm).symm rfl Shrinks.refl
    · exact (move_replaceFd h).1
  | dup3 p oldfd newfd cloexec mem =>
    rw [stepTable] at h
    split_ifs at h
    exact (move_replaceFd h).1
  | setLock p fd file flock ofd =>
    rw [stepTable] at h
    split_ifs at h
    obtain ⟨call, hprepare, h⟩ := bind_eq_ok h
    dsimp only at h
    split_ifs at h
    cases h
    refine .lock file.posixLockKey call.owner rfl ?_ (fun key hkey => ?_) ?_
    · grind [Label.caller, owner_of_prepare, lockOwner.eq_1]
    · exact update_of_ne hkey ..
    · simp [ownersFrom_apply]
  | close p fd =>
    obtain ⟨⟨file, t'⟩, hdrop, h⟩ := bind_eq_ok h
    cases h
    exact .keep t' rfl (dropFd_spec hdrop).2.2 shrinks_release
  | closeRange p first last unshare cloexec =>
    have hrange : ¬ first > last := by
      intro hrange
      rw [stepTable, if_pos hrange] at h
      cases h
    rw [stepTable, if_neg hrange] at h
    cases unshare with
    | true =>
      cases cloexec with
      | true =>
        cases h
        exact .copy _ rfl (hproper rfl) Shrinks.refl
      | false =>
        cases h
        exact .copy _ rfl (hproper rfl) (closeRange_spec ..).1
    | false =>
      cases cloexec with
      | true =>
        cases h
        exact move_setTable rfl
      | false =>
        cases h
        obtain ⟨hshrinks, howner, -⟩ := closeRange_spec t s.locks first last
        exact .keep _ rfl howner hshrinks
  | fork p child =>
    rw [stepTable] at h
    cases hchild : s.tables child with
    | some u =>
      rw [hchild] at h
      cases h
    | none =>
      rw [hchild] at h
      cases h
      exact .child child _ hchild rfl rfl
  | exec p shared =>
    cases shared with
    | true =>
      cases h
      exact .copy _ rfl (hproper rfl) closeCloexec_spec.1
    | false =>
      cases h
      exact .keep t.closeCloexec rfl rfl closeCloexec_spec.1
  | dropFile p file =>
    rw [stepTable] at h
    split_ifs at h
    cases h
    exact .keep t (update_eq_self_iff.mpr hp.symm).symm rfl shrinks_release

/-! ## Who owns a lock -/

/-- The lock of a process is owned by the number of its table. -/
def Owned (s : LockState) : Prop :=
  ∀ key, ∀ r ∈ (s.locks key).records, ∀ id i, r.owner = .posix id i →
    ∃ (p : ℕ) (t : Table), i = p ∧ s.tables p = some t ∧ t.lockOwnerId = id

theorem Owned.initial : initial.Owned := by
  intro key r hr
  cases hr

/-- A table that changes and keeps its number, or whose process holds no lock, owns what it did. -/
theorem Owned.setTable (h : s.Owned) (htables : s'.tables = update s.tables p (some t'))
    (hshrinks : Shrinks s.locks s'.locks)
    (howner : (∃ t, s.tables p = some t ∧ t'.lockOwnerId = t.lockOwnerId) ∨
      ∀ key, ¬ s.Holds p key) : s'.Owned := by
  intro key r hr id i hri
  obtain ⟨q, u, hi, hq, hid⟩ := h key r (hshrinks key r hr) id i hri
  by_cases hqp : q = p
  · subst hqp
    obtain ⟨t, ht, heq⟩ | hnone := howner
    · rw [ht] at hq
      cases hq
      exact ⟨q, t', hi, by rw [htables, update_self], heq.trans hid⟩
    · exact absurd ⟨r, hshrinks key r hr, id, hi ▸ hri⟩ (hnone key)
  · exact ⟨q, u, hi, by rw [htables, update_of_ne hqp]; exact hq, hid⟩

/-- **One move keeps the owners.** -/
theorem Owned.move (h : s.Owned) (hp : s.tables p = some t) (hmove : Move s t p s') : s'.Owned := by
  cases hmove with
  | keep t' htables howner hshrinks => exact h.setTable htables hshrinks (.inl ⟨t, hp, howner⟩)
  | copy t' htables hnone hshrinks => exact h.setTable htables hshrinks (.inr hnone)
  | lock key owner htables howner hothers howners =>
    intro key' r hr id i hri
    rw [htables]
    by_cases hkey : key' = key
    · subst hkey
      obtain hr' | ⟨r₀, hr₀, heq⟩ := howners r hr
      · grind
      · exact h key' r₀ hr₀ id i (heq.trans hri)
    · rw [hothers key' hkey] at hr
      exact h key' r hr id i hri
  | child q t' hfresh htables hlocks =>
    intro key r hr id i hri
    rw [hlocks] at hr
    obtain ⟨p', u, hi, hp', hid⟩ := h key r hr id i hri
    refine ⟨p', u, hi, ?_, hid⟩
    rw [htables, update_of_ne]
    · exact hp'
    · rintro rfl
      rw [hfresh] at hp'
      cases hp'

/-! ## Descriptors that leave the table -/

/-- The call closes the number or puts another file in its place. -/
def Leaves (s : LockState) (l : Label) (fd : ℕ) : Prop :=
  match l with
  | .dup2 _ oldfd newfd _ | .dup3 _ oldfd newfd _ _ => oldfd ≠ newfd ∧ fd = newfd
  | .close _ fd' => fd = fd'
  | .closeRange _ first last _ cloexec => cloexec = false ∧ first ≤ fd ∧ fd ≤ last
  | .exec p _ => ∃ t, s.tables p = some t ∧ t.getCloexec fd = true
  | _ => False

/-- Locks that are owned by the number of the table and released are not held. -/
theorem Owned.not_holds_of_released (h : s'.Owned)
    (hp : s'.tables p = some t') (hreleased : Released s'.locks key t'.lockOwnerId) :
    ¬ s'.Holds p key := by
  rintro ⟨r, hr, id, hri⟩
  obtain ⟨q, u, hq, hu, hid⟩ := h key r hr id p hri
  have hqp : q = p := (Int.ofNat_inj.mp hq).symm
  subst hqp
  rw [hp] at hu
  cases hu
  exact hreleased r hr q (by rw [hid]; exact hri)

theorem not_holds_of_shrinks (hshrinks : Shrinks s.locks s'.locks)
    (hnot : ¬ s.Holds p key) : ¬ s'.Holds p key := by
  rintro ⟨r, hr, hown⟩
  exact hnot ⟨r, hshrinks key r hr, hown⟩

/-- **A descriptor that leaves the table takes the locks of its process on the file with it.** -/
theorem Owned.not_holds_of_leaves (h : s.Owned) (hp : s.tables l.caller = some t)
    (hproper : s.Proper l) (hstep : s.stepTable t l = .ok s')
    (hleaves : s.Leaves l fd) (hfile : t.getFile fd = some file) :
    ¬ s'.Holds l.caller file.posixLockKey := by
  have howned := h.move hp (move_of_stepTable hp hproper hstep)
  cases l with
  | dup2 | dup3 =>
    obtain ⟨hne, rfl⟩ := hleaves
    rw [stepTable, if_neg hne] at hstep
    rw [Holds, (move_replaceFd hstep).2]
    exact hproper hne t file hp hfile
  | close p fd' =>
    obtain rfl : fd = fd' := hleaves
    obtain ⟨⟨file', t'⟩, hdrop, hstep⟩ := bind_eq_ok hstep
    cases hstep
    obtain ⟨hfile', -, -⟩ := dropFd_spec hdrop
    rw [hfile] at hfile'
    cases hfile'
    exact howned.not_holds_of_released (update_self ..) released_releasePosixForOwner
  | closeRange p first last unshare cloexec =>
    obtain ⟨rfl, hfirst, hlast⟩ := hleaves
    rw [stepTable, if_neg (by omega)] at hstep
    cases unshare with
    | true =>
      cases hstep
      exact not_holds_of_shrinks (closeRange_spec ..).1 (hproper rfl _)
    | false =>
      cases hstep
      obtain ⟨-, howner, hreleased⟩ := closeRange_spec t s.locks first last
      refine howned.not_holds_of_released (update_self ..) ?_
      grind
  | exec p shared =>
    obtain ⟨u, hu, hflag⟩ := hleaves
    obtain rfl : t = u := some.inj (hp.symm.trans hu)
    cases shared with
    | true =>
      cases hstep
      exact not_holds_of_shrinks closeCloexec_spec.1 (hproper rfl _)
    | false =>
      cases hstep
      exact howned.not_holds_of_released (update_self ..) (closeCloexec_spec.2 fd file hflag hfile)
  | _ => exact hleaves.elim

theorem stepTable_of_step (h : s.step l = .ok s') :
    ∃ t, s.tables l.caller = some t ∧ s.stepTable t l = .ok s' := by
  rw [step] at h
  grind

end LockState

/-! ## Every run -/

theorem owned_of_reachable {s : LockState}
    (hs : (descriptors.restrict Proper).Reachable s) : s.Owned := by
  refine hs.invariant ?_ ?_
  · rintro s rfl
    exact LockState.Owned.initial
  · rintro s l s' - howned ⟨hproper, hstep⟩
    obtain ⟨t, hp, htable⟩ := stepTable_of_step (eq_ok_of_toOption hstep)
    exact howned.move hp (move_of_stepTable hp hproper htable)

/-- **Record locks go with the descriptor.**  In every run in which no replaced descriptor is of a
file that its process has locked, and no process that holds a lock gets a copy of its own table,
whenever a call closes or replaces a descriptor, its process holds no lock on the file after it. -/
theorem released_of_reachable {s s' : LockState} {l : Label}
    (hs : (descriptors.restrict Proper).Reachable s) (hproper : s.Proper l)
    (hstep : s.step l = .ok s') {t : Table} (ht : s.tables l.caller = some t) {fd : ℕ}
    {file : OpenFile} (hleaves : s.Leaves l fd) (hfile : t.getFile fd = some file) :
    ¬ s'.Holds l.caller file.posixLockKey := by
  obtain ⟨u, hu, htable⟩ := stepTable_of_step hstep
  rw [ht] at hu
  cases hu
  exact (owned_of_reachable hs).not_holds_of_leaves ht hproper htable hleaves hfile

/-- Two files, open for writing. -/
def fileAt (inode : ℕ) : File := ⟨⟨1, inode⟩, inode, .ok (), .ok (), 0, some 0⟩

/-- The process opens a file and locks all of it. -/
def lockFirst : List Label :=
  [.openFile 1 ⟨7, ⟨1, 7⟩⟩ false true,
    .setLock 1 0 (fileAt 7) ⟨F_WRLCK, 0, I64.ofInt 0, I64.ofInt 0⟩ false]

/-- The process holds a lock, as a computation. -/
theorem LockState.holds_of_any {s : LockState} {p id : ℕ} {key : LockKey}
    (h : (s.locks key).records.any (fun r => decide (r.owner = .posix id p)) = true) :
    s.Holds p key := by
  grind [Holds]

theorem released_lockFirst : ∃ s s',
    (descriptors.restrict Proper).Reachable s ∧ s.Holds 1 ⟨1, 7⟩ ∧
    s.step (.close 1 0) = .ok s' ∧ ¬ s'.Holds 1 ⟨1, 7⟩ := by
  have hrun : (lockFirst.foldlM (fun (s : LockState) l => (s.step l).toOption) .initial).any
      (fun s => (s.locks ⟨1, 7⟩).records.any (fun r => decide (r.owner = .posix 0 (1 : ℕ))) &&
        ((s.tables 1).any fun t => decide (t.getFile 0 = some ⟨7, ⟨1, 7⟩⟩)) &&
        (s.step (.close 1 0)).toOption.isSome) = true := by
    decide
  obtain ⟨s, hs, hgoal⟩ := (any_eq_true _ _).mp hrun
  obtain ⟨hbefore, hclose⟩ := (Bool.and_eq_true _ _).mp hgoal
  obtain ⟨hholds, htable⟩ := (Bool.and_eq_true _ _).mp hbefore
  obtain ⟨t, ht, hfile⟩ := (any_eq_true _ _).mp htable
  have hreach : (descriptors.restrict Proper).Reachable s := by
    refine System.reachable_run_of_forall lockFirst (fun l hl s => ?_) (.init rfl) hs
    obtain rfl | hl := mem_cons.mp hl
    · trivial
    · obtain rfl := mem_singleton.mp hl
      trivial
  obtain ⟨s', hs'⟩ := isSome_iff_exists.mp hclose
  have hstep := eq_ok_of_toOption hs'
  refine ⟨s, s', hreach, holds_of_any hholds, hstep, ?_⟩
  exact released_of_reachable (l := .close 1 0) hreach trivial hstep ht rfl
    (of_decide_eq_true hfile)

/-- **`dup2` onto a locked file keeps the lock.**  The descriptor now refers to another file. -/
theorem dup2_keeps_lock : ∃ s s' t t', descriptors.Reachable s ∧
    s.tables 1 = some t ∧ t.getFile 0 = some ⟨7, ⟨1, 7⟩⟩ ∧
    s.step (.dup2 1 1 0 true) = .ok s' ∧ s'.tables 1 = some t' ∧
    t'.getFile 0 = some ⟨8, ⟨1, 8⟩⟩ ∧ s'.Holds 1 ⟨1, 7⟩ := by
  obtain ⟨s, hs, hbefore, hafter⟩ : ∃ s, descriptors.Reachable s ∧
      ((s.tables 1).any fun t => decide (t.getFile 0 = some ⟨7, ⟨1, 7⟩⟩)) = true ∧
      ((s.step (.dup2 1 1 0 true)).toOption.any fun s' =>
        ((s'.tables 1).any fun t => decide (t.getFile 0 = some ⟨8, ⟨1, 8⟩⟩)) &&
        (s'.locks ⟨1, 7⟩).records.any (fun r => decide (r.owner = .posix 0 (1 : ℕ)))) = true :=
    System.exists_run (lockFirst ++ [.openFile 1 ⟨8, ⟨1, 8⟩⟩ false true]) rfl (by decide)
  obtain ⟨t, ht, hfile⟩ := (any_eq_true _ _).mp hbefore
  obtain ⟨s', hs', hafter⟩ := (any_eq_true _ _).mp hafter
  obtain ⟨htable, hholds⟩ := (Bool.and_eq_true _ _).mp hafter
  obtain ⟨t', ht', hfile'⟩ := (any_eq_true _ _).mp htable
  exact ⟨s, s', t, t', hs, ht, of_decide_eq_true hfile, eq_ok_of_toOption hs', ht',
    of_decide_eq_true hfile', holds_of_any hholds⟩
end MangoCore.Fs.FdLocks
