import MangoCore.Errno
import MangoCore.Lib.Outcome

/-!
# Descriptor tables

A descriptor table maps small numbers to open files and keeps one close-on-exec flag per number.
The two vectors of the table always have the same length; here they are one list of slots.  The
table also names the owner of the record locks that are taken through it.

Growing the table needs memory, which an allocation may not find; `mem` says whether it does.  An
allocation that fails may have added empty slots, which no call can see, so it is taken to change
nothing.
-/

namespace MangoCore.Fs

open List

/-- One number of the table. -/
structure Slot (φ : Type) where
  file : Option φ
  cloexec : Bool
  deriving DecidableEq

structure FdTable (φ : Type) where
  slots : List (Slot φ)
  softLimit : ℕ
  lockOwnerId : ℕ
  deriving DecidableEq

namespace FdTable

variable {φ : Type}

def initialCapacity : ℕ := 32

/-- `SYSTEM_FD_LIMIT`. -/
def maxCapacity : ℕ := 4096

def emptySlot : Slot φ := ⟨none, false⟩

def new (lockOwnerId : ℕ) : FdTable φ :=
  ⟨replicate initialCapacity emptySlot, maxCapacity, lockOwnerId⟩

section

variable (t : FdTable φ)

def getFile (fd : ℕ) : Option φ :=
  t.slots[fd]?.bind Slot.file

def getCloexec (fd : ℕ) : Bool :=
  (t.slots[fd]?.map Slot.cloexec).getD false

/-- One past the highest open number. -/
def highestOpen : ℕ :=
  (t.slots.reverse.dropWhile fun slot => slot.file.isNone).length

/-- `try_clone`: the tail of empty slots is cut, and the copy is another owner of locks. -/
def tryClone (lockOwnerId : ℕ) : FdTable φ :=
  let cloneLen := min (max t.highestOpen initialCapacity) t.slots.length
  { t with slots := t.slots.take cloneLen, lockOwnerId := lockOwnerId }

def effectiveSoftLimit : ℕ :=
  min t.softLimit maxCapacity

variable (mem : Bool) (minFd newCapacity : ℕ)

/-- `resize_to_capacity`, which is only called to grow. -/
def resizeToCapacity : Except Errno (FdTable φ) :=
  if newCapacity > maxCapacity then .error .EMFILE
  else if ¬ mem then .error .ENOMEM
  else .ok { t with
    slots := t.slots ++ replicate (newCapacity - t.slots.length) emptySlot }

/-- The slot is filled. -/
def put (fd : ℕ) (file : φ) (cloexec : Bool) : FdTable φ :=
  { t with slots := t.slots.set fd ⟨some file, cloexec⟩ }

/-- The first free number from `minFd` on, below the limit. -/
def firstFree : Option ℕ :=
  (range' minFd (min t.slots.length t.effectiveSoftLimit - minFd)).find? fun fd =>
    (t.getFile fd).isNone

variable (file : φ) (cloexec : Bool)

/-- What `alloc_fd` and `alloc_fd_from` do when no number is free: the table grows, and the second
look finds one of the new slots. -/
def growAndPut : Except Errno (ℕ × FdTable φ) := do
  if t.slots.length ≥ t.effectiveSoftLimit then .error .EMFILE
  else
    let t ← t.resizeToCapacity mem (min newCapacity t.effectiveSoftLimit)
    match t.firstFree minFd with
    | some fd => .ok (fd, t.put fd file cloexec)
    | none => .error .EMFILE

def allocFd : Except Errno (ℕ × FdTable φ) :=
  if t.effectiveSoftLimit = 0 then .error .EMFILE
  else
    match t.firstFree 0 with
    | some fd => .ok (fd, t.put fd file cloexec)
    | none => t.growAndPut mem 0 (max (t.slots.length * 2) (t.slots.length + 1)) file cloexec

def allocFdFrom : Except Errno (ℕ × FdTable φ) :=
  if minFd ≥ t.effectiveSoftLimit then .error .EINVAL
  else
    match t.firstFree minFd with
    | some fd => .ok (fd, t.put fd file cloexec)
    | none =>
      let wanted := max (minFd + 1) (t.slots.length + 1)
      t.growAndPut mem minFd (max (t.slots.length * 2) wanted) file cloexec

end

/-- The loop that grows the table until `fd` is in it.  Every round adds a slot, so `fd + 1` rounds
suffice. -/
def growTo (mem : Bool) (fd : ℕ) : ℕ → FdTable φ → Except Errno (FdTable φ)
  | 0, _ => .error .EMFILE
  | fuel + 1, t =>
    if t.slots.length ≤ fd then
      let newCap := min (t.slots.length * 2) t.effectiveSoftLimit
      if newCap ≤ t.slots.length then .error .EMFILE
      else do
        let t ← t.resizeToCapacity mem newCap
        growTo mem fd fuel t
    else .ok t

section

variable (t : FdTable φ)

/-- `alloc_fd_at`, with the file that was replaced. -/
def allocFdAt (mem : Bool) (fd : ℕ) (file : φ) (cloexec : Bool) :
    Except Errno (Option φ × FdTable φ) :=
  if fd ≥ t.effectiveSoftLimit then .error .EBADF
  else do
    let t ← growTo mem fd (fd + 2) t
    .ok (t.getFile fd, t.put fd file cloexec)

/-- `drop_fd` on the table; the caller also drops the record locks on the file. -/
def dropFd (fd : ℕ) : Except Errno (φ × FdTable φ) :=
  match t.getFile fd with
  | none => .error .EBADF
  | some file => .ok (file, { t with slots := t.slots.set fd emptySlot })

def setCloexec (fd : ℕ) (val : Bool) : Except Errno (FdTable φ) :=
  match t.slots[fd]? with
  | none => .error .EBADF
  | some slot => .ok { t with slots := t.slots.set fd { slot with cloexec := val } }

/-- Every open number in the range is to be closed on exec. -/
def setCloexecRange (first last : ℕ) : FdTable φ :=
  { t with
    slots := t.slots.mapIdx fun fd slot =>
      if first ≤ fd ∧ fd ≤ last ∧ slot.file.isSome then { slot with cloexec := true } else slot }

def closeCloexec : FdTable φ :=
  { t with slots := t.slots.map fun slot => if slot.cloexec then emptySlot else slot }

def releaseBackingStorage : FdTable φ :=
  { t with slots := [] }

end

/-! ## What a call shows of the table -/

variable {t t' : FdTable φ} {fd x minFd : ℕ} {file : φ} {cloexec mem : Bool} {n : ℕ}

theorem getFile_put (hfd : fd < t.slots.length) :
    (t.put fd file cloexec).getFile x = if x = fd then some file else t.getFile x := by
  grind [getFile, put]

theorem getFile_append_replicate :
    ({ t with slots := t.slots ++ replicate n emptySlot } : FdTable φ).getFile x =
      t.getFile x := by
  grind [emptySlot, getFile.eq_1]

/-- A grown table is the old one with empty slots. -/
theorem resizeToCapacity_spec (h : t.resizeToCapacity mem n = .ok t') :
    (∀ x, t'.getFile x = t.getFile x) ∧ t'.lockOwnerId = t.lockOwnerId := by
  grind [resizeToCapacity, getFile_append_replicate]

/-- The filled slot was free, and the others stay. -/
structure Fills (t : FdTable φ) (fd : ℕ) (file : φ) (t' : FdTable φ) : Prop where
  free : t.getFile fd = none
  getFile : ∀ x, t'.getFile x = if x = fd then some file else t.getFile x
  lockOwnerId : t'.lockOwnerId = t.lockOwnerId

theorem fills_of_firstFree (h : t.firstFree minFd = some fd) :
    Fills t fd file (t.put fd file cloexec) := by
  have hfree := find?_some h
  have hmem := mem_range'_1.mp (mem_of_find?_eq_some h)
  exact ⟨Option.isNone_iff_eq_none.mp hfree, fun x => getFile_put (by omega), rfl⟩

theorem growAndPut_spec
    (h : t.growAndPut mem minFd n file cloexec = .ok (fd, t')) : Fills t fd file t' := by
  rw [growAndPut] at h
  split_ifs at h
  obtain ⟨u, hresize, h⟩ := bind_eq_ok h
  obtain ⟨hget, howner⟩ := resizeToCapacity_spec hresize
  cases hfirst : u.firstFree minFd with
  | none =>
    rw [hfirst] at h
    cases h
  | some i =>
    rw [hfirst] at h
    cases h
    have hfills : Fills u fd file (u.put fd file cloexec) := fills_of_firstFree hfirst
    refine ⟨(hget fd).symm.trans hfills.free, fun x => ?_, hfills.lockOwnerId.trans howner⟩
    rw [hfills.getFile, hget]

theorem allocFd_spec (h : t.allocFd mem file cloexec = .ok (fd, t')) : Fills t fd file t' := by
  rw [allocFd] at h
  split_ifs at h
  grind [growAndPut_spec, fills_of_firstFree]

theorem allocFdFrom_spec (h : t.allocFdFrom mem minFd file cloexec = .ok (fd, t')) :
    Fills t fd file t' := by
  rw [allocFdFrom] at h
  split_ifs at h
  grind [growAndPut_spec, fills_of_firstFree]

theorem growTo_spec {fuel : ℕ} (h : growTo mem fd fuel t = .ok t') :
    (∀ x, t'.getFile x = t.getFile x) ∧ t'.lockOwnerId = t.lockOwnerId ∧ fd < t'.slots.length := by
  induction fuel generalizing t with
  | zero => cases h
  | succ fuel ih =>
    rw [growTo] at h
    dsimp only at h
    split_ifs at h with hle
    · obtain ⟨u, hresize, h⟩ := bind_eq_ok h
      grind [resizeToCapacity_spec]
    · cases h
      exact ⟨fun x => rfl, rfl, Nat.lt_of_not_le hle⟩

/-- `alloc_fd_at` fills the slot and hands out what was in it. -/
theorem allocFdAt_spec {old : Option φ} (h : t.allocFdAt mem fd file cloexec = .ok (old, t')) :
    old = t.getFile fd ∧ (∀ x, t'.getFile x = if x = fd then some file else t.getFile x) ∧
      t'.lockOwnerId = t.lockOwnerId := by
  rw [allocFdAt] at h
  split_ifs at h
  obtain ⟨u, hgrow, h⟩ := bind_eq_ok h
  obtain ⟨hget, howner, hlt⟩ := growTo_spec hgrow
  cases h
  refine ⟨hget fd, fun x => ?_, howner⟩
  rw [getFile_put hlt, hget]

theorem getFile_set_emptySlot :
    ({ t with slots := t.slots.set fd emptySlot } : FdTable φ).getFile x =
      if x = fd then none else t.getFile x := by
  grind [emptySlot, getFile.eq_1]

theorem dropFd_spec (h : t.dropFd fd = .ok (file, t')) :
    t.getFile fd = some file ∧ (∀ x, t'.getFile x = if x = fd then none else t.getFile x) ∧
      t'.lockOwnerId = t.lockOwnerId := by
  rw [dropFd] at h
  grind [getFile_set_emptySlot]

end FdTable
end MangoCore.Fs
