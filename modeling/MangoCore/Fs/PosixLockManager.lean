import MangoCore.Lib.System
import MangoCore.Fs.PosixLockRecords

/-!
# The lock manager under concurrent calls

`posix_lock_set` finds or creates the entry of its file under the lock of a shard, gives that lock
up, and then works on the entry under the entry's own lock.  The two release functions hold the lock
of the shard while they empty an entry, and remove the entry from the shard when nothing is left in
it.  Any number of threads do this at once.

The model has one step for every critical section.  A thread is at a point of its call (`Pc`); the
lock of a shard is recorded where it is held from one section to the next.  Entries are numbered in
the order of their creation, so an entry that is no longer in its shard is still there for the
threads that hold it; `entryKey` remembers the file an entry was made for, and no code reads it.

A waiter of a blocking request re-evaluates its request whenever it is woken.  Here it may do so at
any time, which includes every behaviour of the wait queue.
-/

namespace MangoCore.Fs.PosixLock

open Function

/-! ## Calls -/

/-- A lock request after its range was resolved. -/
structure Call where
  key : LockKey
  owner : LockOwner
  ownerPid : ℤ
  ltype : ℤ
  start : I64
  endIncl : I64
  blocking : Bool

/-- The part of `posix_lock_set` before it takes a lock. -/
def prepare (file : File) (owner : LockOwner) (flock : PosixFlock) (blocking : Bool) :
    Except Errno Call := do
  if flock.lType ≠ F_UNLCK then validateAccess file flock.lType
  let (start, endIncl) ← resolveRange file flock
  .ok
    { key := file.posixLockKey
      owner := owner
      ownerPid := match owner with
        | .posix _ ownerPid => ownerPid
        | .ofd _ => -1
      ltype := flock.lType
      start := start
      endIncl := endIncl
      blocking := blocking }

def Call.apply (c : Call) (state : EntryState) : Bool × EntryState :=
  applyLock state c.owner c.ownerPid c.ltype c.start c.endIncl

/-- The owner of the first record that stands against a request. -/
def Call.blocker (c : Call) (state : EntryState) : Option ℕ :=
  (state.records.find? (blocks c.owner (if c.ltype = F_WRLCK then .write else .read) c.start
    c.endIncl)).map fun r => ownerGraphId r.owner

/-- Whose locks a release drops: those of a process, or those of an open file description. -/
inductive Releaser where
  | posix (ownerId : ℕ)
  | ofd (openFileId : ℕ)

/-- The records that a release keeps. -/
def Releaser.keeps : Releaser → LockRecord → Bool
  | .posix ownerId, r => match r.owner with
      | .posix id _ => id != ownerId
      | .ofd _ => true
  | .ofd openFileId, r => match r.owner with
      | .posix _ _ => true
      | .ofd id => id != openFileId

inductive PosixLockSetError where
  | syscall (e : Errno)
  | restart

/-- Where a thread is.  `idle` carries the result of the thread's last `posix_lock_set`. -/
inductive Pc where
  | idle (last : Option (Except PosixLockSetError Unit))
  /-- The entry was found or created, and the lock of the shard given up. -/
  | start (e : ℕ) (c : Call)
  /-- A blocking request in its loop, before it takes the lock of the entry. -/
  | tryLock (e : ℕ) (c : Call)
  /-- A granted unlock, before it wakes the waiters. -/
  | wakeAll
  /-- In the wait queue of the entry. -/
  | waiting (e : ℕ) (c : Call)
  /-- The condition of the wait found a blocker and now takes the lock of the wait graph. -/
  | graph (e : ℕ) (c : Call) (blocker : Option ℕ)
  /-- The condition of the wait was granted its lock. -/
  | granted (c : Call)
  /-- A release that found its entry and holds the lock of the shard. -/
  | release (e : ℕ) (key : LockKey) (who : Releaser)
  /-- A release that left the entry empty; it still holds the lock of the shard. -/
  | remove (key : LockKey)

/-- The shard whose lock a thread holds. -/
def Pc.shard? : Pc → Option ℕ
  | .release _ key _ => some key.shard
  | .remove key => some key.shard
  | _ => none

structure Manager where
  shards : ℕ → LockKey → Option ℕ
  held : ℕ → Option ℕ
  entries : ℕ → EntryState
  entryKey : ℕ → LockKey
  nextEntry : ℕ
  waitGraph : EdgeMap
  pc : ℕ → Pc

namespace Manager

section

variable (m : Manager)

variable (key : LockKey) (t : ℕ)

def setPc (pc : Pc) : Manager :=
  { m with pc := update m.pc t pc }

/-- The entry a file has in its shard. -/
def lookup : Option ℕ := m.shards key.shard key

def setLookup (e : Option ℕ) : Manager :=
  { m with
    shards := update m.shards key.shard (update (m.shards key.shard) key e) }

def newEntry : Manager :=
  { m.setLookup key (some m.nextEntry) with
    entries := update m.entries m.nextEntry ⟨[]⟩
    entryKey := update m.entryKey m.nextEntry key
    nextEntry := m.nextEntry + 1 }

def setEntry (e : ℕ) (state : EntryState) : Manager :=
  { m with entries := update m.entries e state }

def setHeld (shard : ℕ) (t : Option ℕ) : Manager :=
  { m with held := update m.held shard t }

/-- The waiter's edges leave the wait graph. -/
def forget (owner : LockOwner) : Manager :=
  { m with waitGraph := m.waitGraph.erase (ownerGraphId owner) }

/-- The request is tried on the entry; a refused one goes on at `refused`. -/
def tryApply (e : ℕ) (c : Call) (refused : Pc) : Manager :=
  match c.apply (m.entries e) with
  | (true, state) =>
    (m.setEntry e state).setPc t (if c.ltype = F_UNLCK then .wakeAll else .idle (some (.ok ())))
  | (false, _) => m.setPc t refused

/-- What a thread does by itself or is made to do. -/
inductive Act where
  | set (file : File) (owner : LockOwner) (flock : PosixFlock) (blocking : Bool)
  | release (key : LockKey) (who : Releaser)
  /-- The next critical section of the call. -/
  | next
  /-- A signal ends the wait. -/
  | interrupt
  /-- The wait ends without a result, and the loop starts over. -/
  | retry

/-- The next critical section of a call. -/
def next : Option Manager :=
  match m.pc t with
  | .idle _ => none
  | .start e c =>
    if c.blocking then some ((m.forget c.owner).setPc t (.tryLock e c))
    else some (m.tryApply t e c (.idle (some (.error (.syscall .EAGAIN)))))
  | .tryLock e c => some (m.tryApply t e c (.waiting e c))
  | .wakeAll => some (m.setPc t (.idle (some (.ok ()))))
  | .waiting e c =>
    match c.apply (m.entries e) with
    | (true, state) => some ((m.setEntry e state).setPc t (.granted c))
    | (false, _) => some (m.setPc t (.graph e c (c.blocker (m.entries e))))
  | .graph e c none => some (m.setPc t (.waiting e c))
  | .graph e c (some blocker) =>
    let m := { m with waitGraph := addEdge m.waitGraph (ownerGraphId c.owner) blocker }
    if deadlocks m.waitGraph (ownerGraphId c.owner) blocker then
      some ((m.forget c.owner).setPc t (.idle (some (.error (.syscall .EDEADLK)))))
    else some (m.setPc t (.waiting e c))
  | .granted c => some ((m.forget c.owner).setPc t (.idle (some (.ok ()))))
  | .release e key who =>
    let m := m.setEntry e ⟨(m.entries e).records.filter who.keeps⟩
    if (m.entries e).records.isEmpty then some (m.setPc t (.remove key))
    else some ((m.setHeld key.shard none).setPc t (.idle none))
  | .remove key => some (((m.setLookup key none).setHeld key.shard none).setPc t (.idle none))

/-- One step of one thread; `none` if the thread cannot take it. -/
def step : ℕ × Act → Option Manager
  | (t, .set file owner flock blocking) =>
    match m.pc t with
    | .idle _ =>
      match prepare file owner flock blocking with
      | .error e => some (m.setPc t (.idle (some (.error (.syscall e)))))
      | .ok c =>
        if (m.held c.key.shard).isSome then none
        else
          match m.lookup c.key with
          | some e => some (m.setPc t (.start e c))
          | none => some ((m.newEntry c.key).setPc t (.start m.nextEntry c))
    | _ => none
  | (t, .release key who) =>
    match m.pc t with
    | .idle _ =>
      if (m.held key.shard).isSome then none
      else
        match m.lookup key with
        | some e => some ((m.setHeld key.shard (some t)).setPc t (.release e key who))
        | none => some m
    | _ => none
  | (t, .next) => m.next t
  | (t, .interrupt) =>
    match m.pc t with
    | .waiting _ c => some ((m.forget c.owner).setPc t (.idle (some (.error .restart))))
    | _ => none
  | (t, .retry) =>
    match m.pc t with
    | .waiting e c => some (m.setPc t (.start e c))
    | _ => none

end

/-- The manager after `init_posix_lock_manager`, with every thread outside its code. -/
def initial : Manager where
  shards _ _ := none
  held _ := none
  entries _ := ⟨[]⟩
  entryKey _ := ⟨0, 0⟩
  nextEntry := 0
  waitGraph := .empty
  pc _ := .idle none

/-- All interleavings of any calls of any threads. -/
def calls : System Manager (ℕ × Act) := .ofFun (fun m => m = initial) step

end Manager
end MangoCore.Fs.PosixLock
