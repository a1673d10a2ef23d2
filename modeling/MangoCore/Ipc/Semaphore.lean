import MangoCore.Ipc.Permission
import MangoCore.Lib.OrdMap
import MangoCore.Lib.System
import MangoCore.Task.Quota

/-!
# System V semaphores

A semaphore set is changed by lists of operations, which take effect as a whole or not at all:
`tryApplySemOps` first runs the list on a copy of the values, and writes the result back only if
every entry could be applied.  If an entry cannot be applied yet, the caller waits, and the
semaphore that stopped it counts it in `ncnt` or `zcnt`.

All sections run under the lock of the registry, and the state between them is the phase of the
calling task.  `wait_event_interruptible_locked` evaluates its condition once when it is entered and
once in each round of its loop; a task that found its list blocked sleeps until something wakes it.
When that happens is left open here, as are signals, timeouts and failures of memory allocation:
they are choices of the label.

`SEM_UNDO` is accepted and has no effect, as in the source.
-/

namespace MangoCore.Ipc.Sem

open MangoCore.Task

/-- The largest value of a semaphore. -/
def semvmx : ℤ := 32767

/-- `IPC_NOWAIT` as a flag of an operation. -/
def ipcNowait : BitVec 16 := 0x800

def semUndo : BitVec 16 := 0x1000

/-- `LinuxSembuf`. -/
structure Sembuf where
  semNum : ℕ
  semOp : BitVec 16
  semFlg : BitVec 16
  deriving DecidableEq

structure Semaphore where
  value : ℤ
  lastPid : ℕ
  /-- Tasks that wait for an increase, and tasks that wait for zero; both are 16 bits wide. -/
  ncnt : ℕ
  zcnt : ℕ
  deriving DecidableEq

def Semaphore.new : Semaphore := ⟨0, 0, 0, 0⟩

structure SemSet where
  key : ℤ
  perm : IpcPerm
  semaphores : List Semaphore
  otime : ℕ
  ctime : ℕ
  deriving DecidableEq

def SemSet.new (key : ℤ) (nsems mode : ℕ) (c : Caller) : SemSet where
  key := key
  perm := .new c mode
  semaphores := List.replicate nsems .new
  otime := 0
  ctime := c.now

section

variable (set : SemSet)

def SemSet.values : List ℤ := set.semaphores.map Semaphore.value

structure SemLimits where
  semmsl : ℕ
  semmns : ℕ
  semopm : ℕ
  semmni : ℕ
  deriving DecidableEq

structure SemRegistry where
  nextId : Option ℕ
  sets : OrdMap ℕ SemSet

def SemRegistry.new : SemRegistry := ⟨some 1, .empty⟩

/-! ## Lists of operations -/

/-- What one entry, or a whole list, does to a copy of the values. -/
inductive Trial where
  | values (v : List ℤ)
  | blocked (semNum : ℕ) (waitZero : Bool)
  | failed (e : Errno)
  deriving DecidableEq

/-- `saturating_add` of an `i32`. -/
def saturatingAdd (a b : ℤ) : ℤ := min (a + b) (2 ^ 31 - 1)

/-- Whether an operation asks not to wait. -/
def Sembuf.nowait (op : Sembuf) : Bool := op.semFlg &&& ipcNowait != 0

/-- An operation on the copy of the values, where its semaphore has the value `value`. -/
def tryValue (values : List ℤ) (value : ℤ) (op : Sembuf) : Trial :=
  if op.semOp.toInt > 0 then
    if saturatingAdd value op.semOp.toInt > semvmx then .failed .ERANGE
    else .values (values.set op.semNum (saturatingAdd value op.semOp.toInt))
  else if op.semOp.toInt < 0 then
    if value < -op.semOp.toInt then
      if op.nowait then .failed .EAGAIN else .blocked op.semNum false
    else .values (values.set op.semNum (value - -op.semOp.toInt))
  else if value ≠ 0 then
    if op.nowait then .failed .EAGAIN else .blocked op.semNum true
  else .values values

/-- The body of the first loop of `try_apply_sem_ops`. -/
def tryEntry (c : Caller) (values : List ℤ) (op : Sembuf) : Trial :=
  if op.semNum ≥ set.semaphores.length then .failed .EFBIG
  else if op.semFlg &&& ~~~(ipcNowait ||| semUndo) ≠ 0 then .failed .EINVAL
  else if !hasPermission set.perm c (op.semOp == 0) (op.semOp != 0) then .failed .EACCES
  else tryValue values (values.getD op.semNum 0) op

def tryEntries (set : SemSet) (c : Caller) : List ℤ → List Sembuf → Trial
  | values, [] => .values values
  | values, op :: ops =>
    match tryEntry set c values op with
    | .values v => tryEntries set c v ops
    | stopped => stopped

variable (registered : Option (ℕ × Bool)) (c : Caller) (values : List ℤ)

/-- The second loop: one entry writes the final value of its semaphore. -/
def commitEntry (sems : List Semaphore) (op : Sembuf) : List Semaphore :=
  if op.semOp = 0 then sems
  else sems.modify op.semNum fun sem =>
    { sem with value := values.getD op.semNum 0, lastPid := c.pid }

def commitEntries (ops : List Sembuf) : SemSet :=
  { set with
    semaphores := ops.foldl (commitEntry c values) set.semaphores
    otime := if ops.any fun op => op.semOp ≠ 0 then c.now else set.otime }

inductive SemApplyResult where
  | applied
  | blocked (semNum : ℕ) (waitZero : Bool)
  deriving DecidableEq

/-- `try_apply_sem_ops`; `memory` says whether the copy of the values can be allocated. -/
def tryApplySemOps (memory : Bool) (ops : List Sembuf) : Except Errno SemApplyResult × SemSet :=
  if !memory then (.error .ENOMEM, set)
  else
    match tryEntries set c set.values ops with
    | .failed e => (.error e, set)
    | .blocked semNum waitZero => (.ok (.blocked semNum waitZero), set)
    | .values v => (.ok .applied, commitEntries set c v ops)

/-! ## The counters of waiting tasks -/

/-- `saturating_add` and `saturating_sub` of one, for 16 bits. -/
def countUp (n : ℕ) : ℕ := min (n + 1) 65535

def countDown (n : ℕ) : ℕ := n - 1

def Semaphore.count (sem : Semaphore) (waitZero : Bool) (f : ℕ → ℕ) : Semaphore :=
  if waitZero then { sem with zcnt := f sem.zcnt } else { sem with ncnt := f sem.ncnt }

/-- `cleanup_sem_wait`: the task is no longer registered. -/
def cleanupSemWait : SemSet :=
  match registered with
  | none => set
  | some (semNum, waitZero) =>
    { set with
      semaphores := set.semaphores.modify semNum fun sem => sem.count waitZero countDown }

def updateSemWait (next : ℕ × Bool) : Option (ℕ × Bool) × SemSet :=
  if registered = some next then (registered, set)
  else
    let set := cleanupSemWait set registered
    if next.1 < set.semaphores.length then
      (some next,
        { set with semaphores := set.semaphores.modify next.1 fun sem => sem.count next.2 countUp })
    else (none, set)

end

/-- The answer of a call. -/
abbrev Answer := Except Errno ℕ

section

variable (r : SemRegistry) (c : Caller)

variable (limits : SemLimits) (memory : Bool) (semid : ℕ)

/-- `sem_wait_condition`: an answer, or none if the task goes on waiting. -/
def semWaitCondition (ops : List Sembuf)
    (registered : Option (ℕ × Bool)) : Option Answer × Option (ℕ × Bool) × SemRegistry :=
  match r.sets.get? semid with
  | none => (some (.error .EIDRM), registered, r)
  | some set =>
    match tryApplySemOps set c memory ops with
    | (.ok .applied, set) =>
      (some (.ok 0), none,
        { r with sets := r.sets.insert semid (cleanupSemWait set registered) })
    | (.ok (.blocked semNum waitZero), set) =>
      let (registered, set) := updateSemWait set registered (semNum, waitZero)
      (none, registered, { r with sets := r.sets.insert semid set })
    | (.error e, set) =>
      (some (.error e), none,
        { r with sets := r.sets.insert semid (cleanupSemWait set registered) })

/-! ## `semget` and `semctl` -/

def SemRegistry.allocId : Option (ℕ × SemRegistry) :=
  r.nextId.map fun id =>
    (id, { r with nextId := if id + 1 < 2 ^ 31 then some (id + 1) else none })

def SemRegistry.findByKey (key : ℤ) : Option (ℕ × SemSet) :=
  r.sets.entries.find? fun e => e.2.key == key

def SemRegistry.totalSemaphores : ℕ := r.sets.sum fun set => set.semaphores.length

/-- The arguments of `semget`; key 0 is `IPC_PRIVATE`. -/
structure SemgetArgs where
  key : ℤ
  nsems : ℕ
  create : Bool
  exclusive : Bool
  read : Bool
  alter : Bool
  mode : ℕ
  deriving DecidableEq

variable (values : List ℕ) (a : SemgetArgs)

/-- The part of `semget` that makes a new set. -/
def SemRegistry.createSet : Answer × SemRegistry :=
  if a.nsems = 0 ∨ a.nsems > limits.semmsl then (.error .EINVAL, r)
  else if r.sets.size ≥ limits.semmni then (.error .ENOSPC, r)
  else if r.totalSemaphores + a.nsems > limits.semmns then (.error .ENOSPC, r)
  else
    match r.allocId with
    | none => (.error .ENOSPC, r)
    | some (id, r) =>
      if !memory then (.error .ENOMEM, r)
      else (.ok id, { r with sets := r.sets.insert id (.new a.key a.nsems a.mode c) })

/-- `sys_semget`. -/
def SemRegistry.semget : Answer × SemRegistry :=
  if a.key = 0 then r.createSet c limits memory a
  else
    match r.findByKey a.key with
    | some (id, set) =>
      if a.create && a.exclusive then (.error .EEXIST, r)
      else if a.nsems > set.semaphores.length then (.error .EINVAL, r)
      else if !hasPermission set.perm c a.read a.alter then (.error .EACCES, r)
      else (.ok id, r)
    | none => if !a.create then (.error .ENOENT, r) else r.createSet c limits memory a

/-- `IPC_RMID`. -/
def SemRegistry.rmid : Answer × SemRegistry :=
  match r.sets.get? semid with
  | none => (.error .EINVAL, r)
  | some set =>
    if !canModify set.perm c then (.error .EPERM, r)
    else (.ok 0, { r with sets := r.sets.erase semid })

/-- `IPC_SET`, with the owner and mode that were copied in. -/
def SemRegistry.ipcSet (uid gid mode : ℕ) : Answer × SemRegistry :=
  match r.sets.get? semid with
  | none => (.error .EINVAL, r)
  | some set =>
    if !canModify set.perm c then (.error .EPERM, r)
    else
      let perm := { set.perm with uid := uid, gid := gid, mode := mode % 0o1000 }
      (.ok 0, { r with sets := r.sets.insert semid { set with perm := perm, ctime := c.now } })

/-- An argument as an `i32`. -/
def toI32 (arg : ℕ) : ℤ := (BitVec.ofNat 32 arg).toInt

/-- `decode_semctl_setval_arg`; on LoongArch the argument may also be a pointer, and `user` is what
can be read there. -/
def decodeSemctlSetvalArg (p : Platform) (arg : ℕ) (user : Option ℤ) : Except Errno ℤ :=
  if (arg : ℤ) ≤ semvmx then .ok arg
  else if p = .riscv then .error .ERANGE
  else if 0 ≤ toI32 arg ∧ toI32 arg ≤ semvmx then .ok (toI32 arg)
  else if arg > 2 ^ 31 - 1 then
    match user with
    | some value => if 0 ≤ value ∧ value ≤ semvmx then .ok value else .error .ERANGE
    | none => .error .ERANGE
  else .error .ERANGE

/-- What `semctl_setval` checks, before it reads its argument and again when it stores the value. -/
def SemRegistry.setvalTarget (semnum : ℕ) : Except Errno SemSet :=
  match r.sets.get? semid with
  | none => .error .EINVAL
  | some set =>
    if semnum ≥ set.semaphores.length then .error .EINVAL
    else if !canModify set.perm c then .error .EPERM
    else .ok set

/-- The second section of `semctl_setval`. -/
def SemRegistry.setval (semnum : ℕ) (value : ℤ) : Answer × SemRegistry :=
  match r.setvalTarget c semid semnum with
  | .error e => (.error e, r)
  | .ok set =>
    let sems := set.semaphores.modify semnum fun sem =>
      { sem with value := value, lastPid := c.pid }
    (.ok 0, { r with
      sets := r.sets.insert semid { set with semaphores := sems, ctime := c.now } })

/-- The first section of `semctl_setall`: the number of values to read. -/
def SemRegistry.setallCount : Except Errno ℕ :=
  match r.sets.get? semid with
  | none => .error .EINVAL
  | some set =>
    if !canModify set.perm c then .error .EPERM else .ok set.semaphores.length

/-- The values that `semctl_setall` has read, if they are all in range. -/
def checkValues : Except Errno (List ℕ) :=
  if values.any fun value => (value : ℤ) > semvmx then .error .ERANGE else .ok values

/-- The second section of `semctl_setall`. -/
def SemRegistry.setall : Answer × SemRegistry :=
  match r.sets.get? semid with
  | none => (.error .EINVAL, r)
  | some set =>
    if set.semaphores.length ≠ values.length then (.error .EINVAL, r)
    else if !canModify set.perm c then (.error .EPERM, r)
    else
      let sems := List.zipWith (fun (sem : Semaphore) (value : ℕ) =>
        { sem with value := value, lastPid := c.pid }) set.semaphores values
      (.ok 0, { r with
        sets := r.sets.insert semid { set with semaphores := sems, ctime := c.now } })

end

/-! ## Runs -/

/-- Where a task is in `wait_event_interruptible_locked`. -/
inductive Stage where
  /-- Before the first evaluation of the condition, at the start of a round, or asleep. -/
  | entered | round | asleep
  deriving DecidableEq

/-- What a task is doing between two sections. -/
inductive Phase where
  | user
  | setval (semid semnum : ℕ) (value : ℤ)
  | setall (semid : ℕ) (values : List ℕ)
  /-- The list was blocked at the first attempt, and the timeout is read. -/
  | deadline (semid : ℕ) (ops : List Sembuf)
  | waiting (stage : Stage) (semid : ℕ) (ops : List Sembuf) (registered : Option (ℕ × Bool))
  /-- The wait has ended. -/
  | leaving (semid : ℕ) (registered : Option (ℕ × Bool)) (answer : Answer)
  deriving DecidableEq

/-- How a round can end when the condition does not hold. -/
inductive Ending where
  /-- The deadline had passed before the condition was evaluated. -/
  | expired
  | timedOut | interrupted | sleep
  deriving DecidableEq

structure SemState where
  registry : SemRegistry
  /-- The tasks that exist. -/
  tasks : Finset ℕ
  phase : ℕ → Phase

def SemState.initial : SemState := ⟨.new, ∅, fun _ => .user⟩

/-- One section of one task, with what it reads from outside. -/
inductive Label where
  | spawn (t : ℕ)
  | exit (t : ℕ)
  | semget (t : ℕ) (c : Caller) (limits : SemLimits) (memory : Bool) (a : SemgetArgs)
  | rmid (t : ℕ) (c : Caller) (semid : ℕ)
  | ipcSet (t : ℕ) (c : Caller) (semid uid gid mode : ℕ)
  | setvalRead (t : ℕ) (c : Caller) (semid semnum arg : ℕ) (user : Option ℤ)
  | setvalStore (t : ℕ) (c : Caller)
  | setallRead (t : ℕ) (c : Caller) (semid : ℕ) (values : List ℕ)
  | setallStore (t : ℕ) (c : Caller)
  | semop (t : ℕ) (c : Caller) (limits : SemLimits) (memory : Bool) (semid : ℕ) (ops : List Sembuf)
  | readTimeout (t : ℕ) (valid : Bool)
  | evaluate (t : ℕ) (c : Caller) (memory : Bool) (ending : Ending)
  | wake (t : ℕ)
  | leave (t : ℕ)

namespace SemState

variable (s : SemState)

variable (t : ℕ) (c : Caller)

def setPhase (p : Phase) : SemState := { s with phase := Function.update s.phase t p }

def setRegistry (r : SemRegistry) : SemState := { s with registry := r }

/-- The first section of `sys_semtimedop`, after `read_sem_ops`. -/
def semop (limits : SemLimits) (memory : Bool) (semid : ℕ)
    (ops : List Sembuf) : SemState × Option Answer :=
  if ops.length = 0 then (s, some (.error .EINVAL))
  else if ops.length > limits.semopm then (s, some (.error .E2BIG))
  else
    match s.registry.sets.get? semid with
    | none => (s, some (.error .EINVAL))
    | some set =>
      match tryApplySemOps set c memory ops with
      | (.ok .applied, set) =>
        (s.setRegistry { s.registry with sets := s.registry.sets.insert semid set },
          some (.ok 0))
      | (.ok (.blocked _ _), _) => (s.setPhase t (.deadline semid ops), none)
      | (.error e, _) => (s, some (.error e))

/-- One evaluation of the condition by a task that waits. -/
def evaluate (memory : Bool) (ending : Ending) (stage : Stage) (semid : ℕ)
    (ops : List Sembuf) (registered : Option (ℕ × Bool)) : SemState × Option Answer :=
  if stage = .round ∧ ending = .expired then
    (s.setPhase t (.leaving semid registered (.error .EAGAIN)), some (.error .EAGAIN))
  else
    match semWaitCondition s.registry c memory semid ops registered with
    | (some answer, registered, r) =>
      ((s.setRegistry r).setPhase t (.leaving semid registered answer), some answer)
    | (none, registered, r) =>
      let s := s.setRegistry r
      match stage, ending with
      | .entered, _ => (s.setPhase t (.waiting .round semid ops registered), none)
      | _, .timedOut =>
        (s.setPhase t (.leaving semid registered (.error .EAGAIN)), some (.error .EAGAIN))
      | _, .interrupted =>
        (s.setPhase t (.leaving semid registered (.error .EINTR)), some (.error .EINTR))
      | _, _ => (s.setPhase t (.waiting .asleep semid ops registered), none)

/-- The last section of `sys_semtimedop`. -/
def leave (semid : ℕ) (registered : Option (ℕ × Bool)) : SemState :=
  (match s.registry.sets.get? semid with
    | none => s
    | some set => s.setRegistry { s.registry with
        sets := s.registry.sets.insert semid (cleanupSemWait set registered) }).setPhase t .user

/-- One section, with the answer it has found for a list of operations. -/
def step (p : Platform) (limit : ℕ) : Label → Option (SemState × Option Answer)
  | .spawn t =>
    if t ∈ s.tasks then none
    else
      match tryAcquire limit s.tasks t with
      | .ok tasks => some ({ s with tasks := tasks }, none)
      | .error _ => some (s, none)
  | .exit t =>
    if t ∈ s.tasks ∧ s.phase t = .user then some ({ s with tasks := s.tasks.erase t }, none)
    else none
  | .semget t c limits memory a =>
    if t ∈ s.tasks ∧ s.phase t = .user then
      some (s.setRegistry (s.registry.semget c limits memory a).2, none)
    else none
  | .rmid t c semid =>
    if t ∈ s.tasks ∧ s.phase t = .user then
      some (s.setRegistry (s.registry.rmid c semid).2, none)
    else none
  | .ipcSet t c semid uid gid mode =>
    if t ∈ s.tasks ∧ s.phase t = .user then
      some (s.setRegistry (s.registry.ipcSet c semid uid gid mode).2, none)
    else none
  | .setvalRead t c semid semnum arg user =>
    if t ∈ s.tasks ∧ s.phase t = .user then
      match s.registry.setvalTarget c semid semnum, decodeSemctlSetvalArg p arg user with
      | .ok _, .ok value => some (s.setPhase t (.setval semid semnum value), none)
      | _, _ => some (s, none)
    else none
  | .setvalStore t c =>
    match s.phase t with
    | .setval semid semnum value =>
      some ((s.setRegistry (s.registry.setval c semid semnum value).2).setPhase t .user, none)
    | _ => none
  | .setallRead t c semid values =>
    if t ∈ s.tasks ∧ s.phase t = .user then
      match s.registry.setallCount c semid, checkValues values with
      | .ok n, .ok _ =>
        if values.length = n then some (s.setPhase t (.setall semid values), none)
        else some (s, none)
      | _, _ => some (s, none)
    else none
  | .setallStore t c =>
    match s.phase t with
    | .setall semid values =>
      some ((s.setRegistry (s.registry.setall c semid values).2).setPhase t .user, none)
    | _ => none
  | .semop t c limits memory semid ops =>
    if t ∈ s.tasks ∧ s.phase t = .user then some (s.semop t c limits memory semid ops) else none
  | .readTimeout t valid =>
    match s.phase t with
    | .deadline semid ops =>
      some (s.setPhase t (if valid then .waiting .entered semid ops none else .user), none)
    | _ => none
  | .evaluate t c memory ending =>
    match s.phase t with
    | .waiting stage semid ops registered =>
      if stage = .asleep then none
      else some (s.evaluate t c memory ending stage semid ops registered)
    | _ => none
  | .wake t =>
    match s.phase t with
    | .waiting .asleep semid ops registered =>
      some (s.setPhase t (.waiting .round semid ops registered), none)
    | _ => none
  | .leave t =>
    match s.phase t with
    | .leaving semid registered _ => some (s.leave t semid registered, none)
    | _ => none

end SemState

/-- All interleavings of the sections of the tasks of a machine. -/
def semaphores (p : Platform) (ram : ℕ) : System SemState Label :=
  System.ofFun (fun s => s = .initial) fun s l => (s.step p (p.taskLimit ram) l).map Prod.fst
end MangoCore.Ipc.Sem
