import MangoCore.Fs.FdTable
import MangoCore.Fs.PosixLockManager

/-!
# Record locks and descriptors

A process loses its record locks on a file when one of its descriptors stops referring to the file.
This file embeds the calls that change a descriptor table, with what they do to the record locks:
`close`, `close_range` and the close-on-exec pass of `exec` drop the locks that the table owns on
the file, while `dup2` and `dup3` replace an open descriptor and leave the locks alone.

A table owns its locks by a number that every copy of the table draws anew.  So a process that gets
a copy of its own table, by `CLOSE_RANGE_UNSHARE` or by an `exec` that finds the table referenced
elsewhere, holds locks that no close of its own will find.

Calls are taken one after the other.  A blocking lock request that has to wait has no effect until
it is granted, and is then a call of its own.  The locks of an open file description go with the
last reference to it, which may be dropped some time after the last descriptor is closed.
-/

namespace MangoCore.Fs.FdLocks

open PosixLock

/-- An open file description, by its number and the file it opens. -/
structure OpenFile where
  openFileId : ℕ
  posixLockKey : LockKey
  deriving DecidableEq

abbrev Table := FdTable OpenFile

abbrev Locks := LockKey → EntryState

/-- The tables of the processes and the locks on every file. -/
structure LockState where
  tables : ℕ → Option Table
  locks : Locks
  /-- The counter of `alloc_lock_owner_id`. -/
  nextOwnerId : ℕ
  /-- The processes that have a table. -/
  processes : List ℕ

section

variable (t : Table) (locks : Locks)

/-- The records of one owner are dropped; an entry without records is the same as none. -/
def release (key : LockKey) (who : Releaser) : Locks :=
  Function.update locks key ⟨(locks key).records.filter who.keeps⟩

def releasePosixForOwner (key : LockKey) (ownerId : ℕ) : Locks :=
  release locks key (.posix ownerId)

def releaseOfdForFile (file : OpenFile) : Locks :=
  release locks file.posixLockKey (.ofd file.openFileId)

/-- `drop_fd` with the release of the locks; a closed number is left alone. -/
def dropIfOpen (c : Table × Locks) (fd : ℕ) : Table × Locks :=
  match c.1.dropFd fd with
  | .error _ => c
  | .ok (file, t) => (t, releasePosixForOwner c.2 file.posixLockKey t.lockOwnerId)

/-- The loop of `sys_close_range`, which ends with the table. -/
def closeRange (first last : ℕ) : Table × Locks :=
  (List.range' first (min (last + 1) t.slots.length - first)).foldl dropIfOpen (t, locks)

/-- One round of the loop of `close_cloexec_and_release_fcntl_locks`. -/
def releaseIfCloexec (fd : ℕ) : Locks :=
  if t.getCloexec fd then
    match t.getFile fd with
    | none => locks
    | some file => releasePosixForOwner locks file.posixLockKey t.lockOwnerId
  else locks

def closeCloexecAndReleaseFcntlLocks : Table × Locks :=
  (t.closeCloexec, (List.range' 0 t.slots.length).foldl (releaseIfCloexec t) locks)

end

inductive Label where
  /-- Any call that installs a new file. -/
  | openFile (p : ℕ) (file : OpenFile) (cloexec mem : Bool)
  | dup (p oldfd : ℕ) (mem : Bool)
  /-- `F_DUPFD` and `F_DUPFD_CLOEXEC`. -/
  | dupFrom (p oldfd minFd : ℕ) (cloexec mem : Bool)
  | setCloexec (p fd : ℕ) (val : Bool)
  | dup2 (p oldfd newfd : ℕ) (mem : Bool)
  | dup3 (p oldfd newfd : ℕ) (cloexec mem : Bool)
  /-- `F_SETLK` and `F_SETLKW`, or their open file description forms; `file` is what the call reads
  of the open file. -/
  | setLock (p fd : ℕ) (file : File) (flock : PosixFlock) (ofd : Bool)
  | close (p fd : ℕ)
  | closeRange (p first last : ℕ) (unshare cloexec : Bool)
  | fork (p child : ℕ)
  /-- `shared` says whether something else holds a reference to the table. -/
  | exec (p : ℕ) (shared : Bool)
  /-- `Drop` of an open file description to which no table refers any more. -/
  | dropFile (p : ℕ) (file : OpenFile)

/-- The process that makes the call. -/
def Label.caller : Label → ℕ
  | openFile p .. | dup p .. | dupFrom p .. | setCloexec p .. | dup2 p .. | dup3 p ..
  | setLock p .. | close p .. | closeRange p .. | fork p .. | exec p .. | dropFile p .. => p

namespace LockState

variable (s : LockState)

variable (p : ℕ) (t : Table)

def setTable : LockState :=
  { s with tables := Function.update s.tables p (some t) }

/-- Some table refers to the open file description. -/
def isOpen (file : OpenFile) : Bool :=
  s.processes.any fun p => (s.tables p).any fun t =>
    (List.range t.slots.length).any fun fd => t.getFile fd == some file

/-- `dup2` and `dup3` for different numbers: the replaced file is dropped, with its locks kept. -/
def replaceFd (oldfd newfd : ℕ) (cloexec mem : Bool) : Except Errno LockState :=
  match t.getFile oldfd with
  | none => .error .EBADF
  | some file => do
      let (_, t) ← t.allocFdAt mem newfd file cloexec
      .ok (s.setTable p t)

/-- The owner of a lock that is taken through a table. -/
def lockOwner (file : File) (ofd : Bool) : LockOwner :=
  if ofd then .ofd file.openFileId else .posix t.lockOwnerId p

def stepTable : Label → Except Errno LockState
  | .openFile p file cloexec mem => do
      let (_, t) ← t.allocFd mem file cloexec
      .ok (s.setTable p t)
  | .dup p oldfd mem =>
    match t.getFile oldfd with
    | none => .error .EBADF
    | some file => do
        let (_, t) ← t.allocFd mem file false
        .ok (s.setTable p t)
  | .dupFrom p oldfd minFd cloexec mem =>
    match t.getFile oldfd with
    | none => .error .EBADF
    | some file => do
        let (_, t) ← t.allocFdFrom mem minFd file cloexec
        .ok (s.setTable p t)
  | .setCloexec p fd val => do
      let t ← t.setCloexec fd val
      .ok (s.setTable p t)
  | .dup2 p oldfd newfd mem =>
    if oldfd = newfd then
      match t.getFile oldfd with
      | none => .error .EBADF
      | some _ => .ok s
    else s.replaceFd p t oldfd newfd false mem
  | .dup3 p oldfd newfd cloexec mem =>
    if oldfd = newfd then .error .EINVAL else s.replaceFd p t oldfd newfd cloexec mem
  | .setLock p fd file flock ofd =>
    if t.getFile fd = some ⟨file.openFileId, file.posixLockKey⟩ then do
      let call ← prepare file (lockOwner p t file ofd) flock false
      let (granted, state) := call.apply (s.locks file.posixLockKey)
      if granted then .ok { s with locks := Function.update s.locks file.posixLockKey state }
      else .error .EAGAIN
    else .error .EBADF
  | .close p fd => do
      let (file, t) ← t.dropFd fd
      .ok { s.setTable p t with
        locks := releasePosixForOwner s.locks file.posixLockKey t.lockOwnerId }
  | .closeRange p first last unshare cloexec =>
    if first > last then .error .EINVAL
    else
      let t := if unshare then t.tryClone s.nextOwnerId else t
      let s := if unshare then { s with nextOwnerId := s.nextOwnerId + 1 } else s
      if cloexec then .ok (s.setTable p (t.setCloexecRange first last))
      else
        let c := FdLocks.closeRange t s.locks first last
        .ok { s.setTable p c.1 with locks := c.2 }
  | .fork _ child =>
    match s.tables child with
    | some _ => .error .EAGAIN
    | none => .ok { s.setTable child (t.tryClone s.nextOwnerId) with
        nextOwnerId := s.nextOwnerId + 1
        processes := child :: s.processes }
  | .exec p shared =>
    let t := if shared then t.tryClone s.nextOwnerId else t
    let s := if shared then { s with nextOwnerId := s.nextOwnerId + 1 } else s
    let c := closeCloexecAndReleaseFcntlLocks t s.locks
    .ok { s.setTable p c.1 with locks := c.2 }
  | .dropFile _ file =>
    if s.isOpen file then .error .EBUSY else .ok { s with locks := releaseOfdForFile s.locks file }

/-- One call; a failed one changes nothing. -/
def step (l : Label) : Except Errno LockState :=
  match s.tables l.caller with
  | none => .error .ESRCH
  | some t => s.stepTable t l

/-- One process with an empty table. -/
def initial : LockState :=
  ⟨fun p => if p = 1 then some (.new 0) else none, fun _ => ⟨[]⟩, 1, [1]⟩

/-- The process holds a record lock on the file. -/
def Holds (key : LockKey) : Prop :=
  ∃ r ∈ (s.locks key).records, ∃ id, r.owner = .posix id p

end LockState

/-- Every sequence of calls. -/
def descriptors : System LockState Label :=
  .ofFun (· = .initial) fun s l => (s.step l).toOption

/-! ## Record owners -/

/-- Every owner in `records'` is `owner` or one of `records`. -/
def OwnersFrom (owner : LockOwner) (records records' : List LockRecord) : Prop :=
  ∀ r ∈ records', r.owner = owner ∨ ∃ r₀ ∈ records, r₀.owner = r.owner

/-- A request adds records of its owner only. -/
theorem ownersFrom_apply (c : Call) (state : EntryState) :
    OwnersFrom c.owner state.records (c.apply state).2.records := by
  intro r hr
  by_cases hlock : c.ltype = F_RDLCK ∨ c.ltype = F_WRLCK
  · rw [Call.apply, applyLock, if_pos hlock] at hr
    grind [origin_of_mem_coalesce, owner_of_mem_removeRange]
  · rw [Call.apply, applyLock, if_neg hlock] at hr
    exact .inr (owner_of_mem_removeRange hr)

/-- A request keeps the owner that it was made for. -/
theorem owner_of_prepare {file : File} {owner : LockOwner} {flock : PosixFlock} {blocking : Bool}
    {call : Call} (h : prepare file owner flock blocking = .ok call) : call.owner = owner := by
  unfold prepare at h
  extract_lets rest at h
  have hrest : rest () = .ok call := by
    split_ifs at h
    · obtain ⟨_, -, h⟩ := bind_eq_ok h
      exact h
    · exact h
  obtain ⟨_, -, hrest⟩ := bind_eq_ok hrest
  cases hrest
  rfl
end MangoCore.Fs.FdLocks
