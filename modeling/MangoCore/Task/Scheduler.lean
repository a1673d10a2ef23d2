import MangoCore.Lib.System
import MangoCore.Task.Status

/-!
# The scheduler

Every CPU has a run queue and an idle context that takes tasks from it; sleeping tasks are in one
registry under the lock of the task manager.  Code runs either in the idle context of a CPU or in
the context of the task that the CPU executes, and the kernel is not preempted inside itself, so a
step is taken by a CPU and belongs to one of these two contexts.

The model has one step for each access to a word that no lock protects, mostly a compare-and-swap on
the state of a task, together with the accesses next to it to data whose lock is held.

* A critical section of a run queue makes one such access, so it is one step and the lock of a run
  queue is free between steps.
* A critical section of the task manager (`TASK_MANAGER`) takes several steps, and so does the
  section of `finish_switch_out` under the lock of a task's request slot; these locks are part of
  the state.

A context is at a point of the scheduler's code (`Op`, and `CpuPc` for the parts that only an idle
context runs).  The rest of the kernel may call the scheduler in any order that the calling code can
produce: that is what `Phase` records for a task.

Which CPU a load balancing choice picks depends on counters that are read without a lock; here every
CPU that the choice may pick is possible, and so is every position that `pop_next` may take.  The
set of CPUs that run the scheduler does not change.
-/

namespace MangoCore.Task

open Function

/-- The CPUs of the machine, and the mask of those that are online, run the scheduler and are not
stopped. -/
structure Cpus where
  configured : ℕ
  schedulable : ℕ

namespace Cpus

variable (cpus : Cpus)

variable (mask cpu : ℕ)

/-- `is_cpu_allowed`, for a task with this mask. -/
def isAllowed : Bool := decide (cpu < cpus.configured) && mask.testBit cpu

/-- The CPUs from which `select_runnable_cpu` chooses. -/
def isRunnable : Bool := cpus.isAllowed mask cpu && cpus.schedulable.testBit cpu

def hasRunnable : Bool := (List.range cpus.configured).any (cpus.isRunnable mask)

/-- The checks of `runnable_affinity`. -/
def runnableAffinity : Bool :=
  decide (mask < 2 ^ cpus.configured) && cpus.hasRunnable mask

end Cpus

/-- Where code runs. -/
inductive Ctx where
  | idle (cpu : ℕ)
  | task (tid : ℕ)
  deriving DecidableEq

/-- What the code of a task has done since it was last put on a CPU. -/
inductive Phase where
  | awake
  /-- `set_current_affinity` excluded the CPU, and the system call goes on to yield. -/
  | mustYield
  /-- In one of the `block_current_and_run_next` functions, after `sleep_interruptible`. -/
  | slept
  /-- After `mark_zombie`. -/
  | exited
  deriving DecidableEq

inductive RemoteAffinityState where
  | pending
  | applied
  | retry
  deriving DecidableEq

structure RemoteAffinityRequest where
  mask : ℕ
  targetCpu : ℕ
  state : RemoteAffinityState
  deriving DecidableEq

/-- The points of the scheduler's code that both kinds of context reach.  `ready` is outside of it.
-/
inductive Op where
  | ready
  /-- `publish`, for a task that this context has built. -/
  | publish (t cpu : ℕ)
  /-- `wake_interruptible` or `enqueue_ready_batch`, before it has the lock of the task manager. -/
  | wakeLock (ts : List ℕ)
  /-- Under the lock of the task manager, with these tasks still to be woken. -/
  | wakeNext (ts : List ℕ)
  /-- `try_wake_interruptible` has read `Blocking(cpu)`. -/
  | wakeCancel (t cpu : ℕ) (ts : List ℕ)
  /-- The task is running again and leaves the registry next. -/
  | wakeDetach (t : ℕ) (ts : List ℕ)
  /-- `try_wake_interruptible` has read `Blocked`. -/
  | wakeSelect (t : ℕ) (ts : List ℕ)
  /-- The task has left the registry and enters a run queue next. -/
  | wakeEnqueue (t cpu : ℕ) (ts : List ℕ)
  /-- The end of `begin_interruptible_sleep`, with the request it cancels. -/
  | sleepDone (r : Option ℕ)
  /-- A request was taken out of its slot and is to be answered with `Retry`. -/
  | retryDone (r : Option ℕ)
  /-- The loop of `set_remote_affinity`. -/
  | setRemote (t mask : ℕ)
  /-- `update_blocked_affinity`. -/
  | setBlocked (t mask : ℕ)
  /-- `update_blocked_affinity` has returned `false`. -/
  | setBlockedFailed (t mask : ℕ)
  /-- The loop of `set_queued_affinity`. -/
  | setQueued (t mask : ℕ)
  /-- At the section of the run queue that the task was last seen in. -/
  | setQueuedAt (t mask source : ℕ) (target : Option ℕ)
  /-- The task was taken out of its run queue to be moved. -/
  | setMoving (t mask target : ℕ)
  | setAttach (t target : ℕ)
  /-- At the request slot of a task that was seen on this CPU. -/
  | setRunning (t mask owner : ℕ) (target : Option ℕ)
  /-- Waiting for a request of somebody else. -/
  | waitSlot (r t mask : ℕ)
  /-- Waiting for an own request. -/
  | waitApplied (r t mask : ℕ)
  /-- `set_current_affinity`, at the request slot. -/
  | setCurrent (mask : ℕ) (target : Option ℕ)
  deriving DecidableEq

/-- The places where `set_remote_affinity` yields the CPU, and `ready`. -/
def Op.yields : Op → Bool
  | .ready | .setRemote _ _ | .waitSlot _ _ _ | .waitApplied _ _ _ => true
  | _ => false

/-- What a CPU does: run its idle loop, run a task, or one of the steps in between. -/
inductive CpuPc where
  | idle
  /-- `fetch` found the local run queue empty. -/
  | stealing
  | stole (t : ℕ)
  | claimed (t : ℕ)
  | running (t : ℕ)
  /-- The context switch back to the idle context is done. -/
  | leaving (t : ℕ)
  /-- The loop of `finish_switch_out`. -/
  | switchOut (t : ℕ)
  /-- Under the lock of the request slot: the task goes to the run queue of `target`. -/
  | requeue (t target : ℕ) (r : Option ℕ)
  | requeued (t : ℕ) (r : Option ℕ)
  /-- The task was committed as `Blocked`, and its migration target is dropped next. -/
  | clearing (t : ℕ)
  deriving DecidableEq

inductive Panic where
  /-- `fail_sched_invariant`. -/
  | ownership
  /-- `require_cpu_allowed`. -/
  | disallowedCpu
  /-- `runnable_cpu_mask` or `runnable_affinity`. -/
  | noRunnableCpu
  /-- `store_cpus_allowed`. -/
  | lostOwnership
  /-- A woken task is not in the registry. -/
  | absentFromRegistry
  /-- `sub_running`. -/
  | countUnderflow
  /-- The idle context was resumed without a current task. -/
  | noCurrent
  /-- `set_current_affinity` on a task that is not running on this CPU. -/
  | notCurrent
  /-- A request met a migration target, or a migration target a second one. -/
  | migrationPending
  /-- `RemoteAffinityRequest::complete`. -/
  | completedTwice
  deriving DecidableEq

/-- The part of the state that says where every task is. -/
structure Places where
  /-- The control blocks that were allocated. -/
  created : ℕ → Bool
  status : ℕ → TaskStatus
  queue : ℕ → List ℕ
  nrRunning : ℕ → ℕ
  /-- `interruptible_queue`, and who holds the lock of the task manager. -/
  registry : List ℕ
  manager : Option Ctx
  current : ℕ → Option ℕ
  cpu : ℕ → CpuPc
  op : Ctx → Op
  phase : ℕ → Phase

structure State extends Places where
  zombies : ℕ → List ℕ
  cpusAllowed : ℕ → ℕ
  migrationTarget : ℕ → Option ℕ
  /-- `remote_affinity_request`, and who holds its lock. -/
  slot : ℕ → Option ℕ
  slotLock : ℕ → Option Ctx
  requests : ℕ → RemoteAffinityRequest
  nextRequest : ℕ

namespace State

/-- No task exists, and every CPU is in its idle loop. -/
def boot : State where
  created _ := false
  status _ := .new
  cpusAllowed _ := 0
  migrationTarget _ := none
  slot _ := none
  slotLock _ := none
  requests _ := ⟨0, 0, .pending⟩
  nextRequest := 0
  queue _ := []
  nrRunning _ := 0
  registry := []
  manager := none
  current _ := none
  zombies _ := []
  cpu _ := .idle
  op _ := .ready
  phase _ := .awake

/-! ## Updates -/

section

variable (s : State)

variable (c t : ℕ)

def setStatus (st : TaskStatus) : State :=
  { s with status := update s.status t st }

def setAllowed (mask : ℕ) : State :=
  { s with cpusAllowed := update s.cpusAllowed t mask }

def setMigrationTarget (target : Option ℕ) : State :=
  { s with migrationTarget := update s.migrationTarget t target }

def setSlot (r : Option ℕ) : State :=
  { s with slot := update s.slot t r }

def setSlotLock (o : Option Ctx) : State :=
  { s with slotLock := update s.slotLock t o }

def setCpu (pc : CpuPc) : State :=
  { s with cpu := update s.cpu c pc }

def setOp (o : Ctx) (op : Op) : State :=
  { s with op := update s.op o op }

def setPhase (ph : Phase) : State :=
  { s with phase := update s.phase t ph }

def setCurrent (t : Option ℕ) : State :=
  { s with current := update s.current c t }

def setQueue (q : List ℕ) : State :=
  { s with queue := update s.queue c q }

/-- `push_back` and `add_running`. -/
def pushBack : State :=
  { s.setQueue c (s.queue c ++ [t]) with
    nrRunning := update s.nrRunning c (s.nrRunning c + 1) }

/-- `push_front` and `add_running`. -/
def pushFront : State :=
  { s.setQueue c (t :: s.queue c) with
    nrRunning := update s.nrRunning c (s.nrRunning c + 1) }

/-- The removal at a position of a run queue that counts at least one task. -/
def dequeueAt (i : ℕ) : State :=
  { s.setQueue c ((s.queue c).eraseIdx i) with
    nrRunning := update s.nrRunning c (s.nrRunning c - 1) }

/-- The removal at a position and `sub_running`. -/
def removeAt (i : ℕ) : Except Panic State :=
  if s.nrRunning c = 0 then .error .countUnderflow else .ok (s.dequeueAt c i)

end

/-- `remove_interruptible`: the registry without the task, and whether it was there. -/
def removeInterruptible (registry : List ℕ) (t : ℕ) : List ℕ × Bool :=
  if registry.head? = some t then (registry.tail, true)
  else if registry.getLast? = some t then (registry.dropLast, true)
  else
    let kept := registry.filter fun u => u != t
    (kept, kept.length != registry.length)

section Code

variable (cpus : Cpus) (s : State)

section

variable (t cpu : ℕ)

/-- `try_sched_transition` where a failure is a panic. -/
def requireSchedTransition (current next : TaskStatus) : Except Panic State :=
  if s.status t = current then .ok (s.setStatus t next) else .error .ownership

def requireCpuAllowed : Except Panic State :=
  if cpus.isAllowed (s.cpusAllowed t) cpu then .ok s else .error .disallowedCpu

def storeCpusAllowed (mask : ℕ) (expected : TaskStatus) : Except Panic State :=
  if cpus.runnableAffinity mask then
    if s.status t = expected then .ok (s.setAllowed t mask) else .error .lostOwnership
  else .error .noRunnableCpu

/-- `RemoteAffinityRequest::complete`, for a request if there is one. -/
def complete (r : Option ℕ) (result : RemoteAffinityState) : Except Panic State :=
  match r with
  | none => .ok s
  | some r =>
    if (s.requests r).state = .pending then
      .ok { s with
        requests := update s.requests r { s.requests r with state := result } }
    else .error .completedTwice

/-! ## Run queues -/

def publish : Except Panic State := do
  let s ← s.requireCpuAllowed cpus t cpu
  let s ← s.requireSchedTransition t .new (.queued cpu)
  return s.pushBack cpu t

variable (source target : ℕ)

def requeueAfterSwitch : Except Panic State := do
  let s ← s.requireCpuAllowed cpus t target
  let s ← s.requireSchedTransition t (.running source) (.queued target)
  return s.pushBack target t

def enqueueWoken : Except Panic State := do
  let s ← s.requireCpuAllowed cpus t cpu
  let s ← s.requireSchedTransition t .blocked (.queued cpu)
  return s.pushFront cpu t

/-- The last section of `set_queued_affinity`. -/
def attachQueued : Except Panic State := do
  let s ← s.requireSchedTransition t .migrating (.queued target)
  return s.pushBack target t

/-- The section of `fetch`, with the position that `pop_next` takes. -/
def fetchAt (c i t : ℕ) : Except Panic State := do
  let s ← s.removeAt c i
  let s ← s.requireSchedTransition t (.queued c) (.running c)
  return s.setCpu c (.claimed t)

/-- The section in which a queued task is taken by `steal` or by `set_queued_affinity`. -/
def detachQueued (i : ℕ) : Except Panic State := do
  let s ← s.requireSchedTransition t (.queued source) .migrating
  s.removeAt source i

end

/-- The last position whose task the CPU may steal. -/
def stealIndex (c victim : ℕ) : Option ℕ :=
  (List.range (s.queue victim).length).reverse.find? fun i =>
    (s.queue victim)[i]?.any fun t =>
      cpus.isAllowed (s.cpusAllowed t) c && (s.migrationTarget t).isNone

section

variable (c t : ℕ)

/-- The end of `steal`. -/
def claimStolen : Except Panic State := do
  let s ← s.requireSchedTransition t .migrating (.running c)
  return s.setCpu c (.claimed t)

/-! ## Sleep, exit and the way back to the idle context -/

/-- `begin_interruptible_sleep`, up to the answer for the request that it cancels. -/
def beginInterruptibleSleep : Except Panic State :=
  match s.status t with
  | .running cpu =>
    if cpu = c then do
      let s' ← s.requireSchedTransition t (.running cpu) (.blocking cpu)
      let s' := { s' with registry := s'.registry ++ [t], manager := some (.task t) }
      return ((s'.setSlot t none).setOp (.task t) (.sleepDone (s.slot t))).setPhase t .slept
    else .error .ownership
  | _ => .error .ownership

/-- `mark_zombie`, up to the answer for the request that it cancels. -/
def markZombie : Except Panic State := do
  let s' ← match s.status t with
    | .running cpu =>
      if cpu = c then s.requireSchedTransition t (.running cpu) .zombie else .error .ownership
    | .zombie => .ok s
    | _ => .error .ownership
  return ((s'.setSlot t none).setOp (.task t) (.retryDone (s.slot t))).setPhase t .exited

/-- `dispatch_task`, up to the context switch. -/
def dispatch : State :=
  ((s.setCurrent c (some t)).setPhase t .awake).setCpu c (.running t)

/-- `finish_current_switch_out`, before `finish_switch_out`. -/
def takeCurrent (c : ℕ) : Except Panic State :=
  match s.current c with
  | none => .error .noCurrent
  | some t => .ok ((s.setCurrent c none).setCpu c (.switchOut t))

/-- `finish_switch_out` on a task that is still running, up to `requeue_after_switch`. -/
def finishRunning : Except Panic State :=
  match s.slot t with
  | some r =>
    if (s.migrationTarget t).isSome then .error .migrationPending
    else do
      let s' ← s.storeCpusAllowed cpus t (s.requests r).mask (.running c)
      let s' := (s'.setSlot t none).setSlotLock t (some (.idle c))
      return s'.setCpu c (.requeue t (s.requests r).targetCpu (some r))
  | none =>
    let s' := (s.setMigrationTarget t none).setSlotLock t (some (.idle c))
    .ok (s'.setCpu c (.requeue t ((s.migrationTarget t).getD c) none))

/-- `finish_switch_out`, up to the end of its section.  It does not go on while somebody else holds
the request slot of a running task. -/
def finishSwitchOut : Option (Except Panic State) :=
  match s.status t with
  | .running owner =>
    if owner = c then
      if (s.slotLock t).isNone then some (s.finishRunning cpus c t) else none
    else some (.error .ownership)
  | .blocking owner =>
    if owner = c then some (.ok ((s.setStatus t .blocked).setCpu c (.clearing t)))
    else some (.error .ownership)
  | .zombie =>
    let s' := s.setMigrationTarget t none
    let s' := { s' with zombies := update s.zombies c (s.zombies c ++ [t]) }
    some (.ok (s'.setCpu c .idle))
  | _ => some (.error .ownership)

/-- The end of `finish_switch_out` on a task that went to a run queue. -/
def finishRequeued (r : Option ℕ) : Except Panic State := do
  let s ← s.complete r .applied
  return (s.setSlotLock t none).setCpu c .idle

end

/-! ## Wake-up -/

/-- `try_wake_interruptible` reads the state of the first task, or the lock is given back. -/
def wakeNext (s : State) (o : Ctx) : List ℕ → State
  | [] => { s with manager := none }.setOp o .ready
  | t :: ts =>
    match s.status t with
    | .blocking cpu => s.setOp o (.wakeCancel t cpu ts)
    | .blocked => s.setOp o (.wakeSelect t ts)
    | _ => s.setOp o (.wakeNext ts)

variable (o : Ctx)

/-- The compare-and-swap that cancels a sleep; a failure reads the state again. -/
def wakeCancel (t cpu : ℕ) (ts : List ℕ) : State :=
  if s.status t = .blocking cpu then (s.setStatus t (.running cpu)).setOp o (.wakeDetach t ts)
  else s.setOp o (.wakeNext (t :: ts))

/-- The task leaves the registry. -/
def detach (t : ℕ) : Except Panic State :=
  if (removeInterruptible s.registry t).2 then
    .ok { s with registry := (removeInterruptible s.registry t).1 }
  else .error .absentFromRegistry

/-- `select_wake_cpu`, here with the result `k`, and the removal from the registry. -/
def wakeSelect (t : ℕ) (ts : List ℕ) (k : ℕ) : Option (Except Panic State) :=
  if cpus.hasRunnable (s.cpusAllowed t) then
    if cpus.isRunnable (s.cpusAllowed t) k then
      some do return (← s.detach t).setOp o (.wakeEnqueue t k ts)
    else none
  else some (.error .noRunnableCpu)

/-! ## Affinity -/

/-- `select_runnable_cpu` with the result `k` when the mask excludes the CPU. -/
def migrationChoice (mask cpu k : ℕ) : Option (Option ℕ) :=
  if mask.testBit cpu then some none
  else if cpus.isRunnable mask k then some (some k) else none

variable (c t mask k : ℕ)

/-- One round of the loop of `set_remote_affinity`, up to the section of the state it has read. -/
def setRemote : Option State :=
  match s.status t with
  | .blocked => some (s.setOp o (.setBlocked t mask))
  | .queued _ | .migrating => some (s.setOp o (.setQueued t mask))
  | .blocking _ => none
  | .running owner => (migrationChoice cpus mask owner k).map fun target =>
    s.setOp o (.setRunning t mask owner target)
  | .new | .zombie => some (s.setOp o .ready)

/-- `update_blocked_affinity`, under the lock of the task manager. -/
def updateBlockedAffinity : Except Panic State :=
  if s.status t = .blocked ∧ t ∈ s.registry then do
    return (← s.storeCpusAllowed cpus t mask .blocked).setOp o .ready
  else .ok (s.setOp o (.setBlockedFailed t mask))

/-- What `set_remote_affinity` does with a state that `set_queued_affinity` could not use. -/
def queuedFailed (actual : TaskStatus) : State :=
  match actual with
  | .blocked => s.setOp o (.setRemote t mask)
  | _ => s.setOp o .ready

/-- The head of the loop of `set_queued_affinity`. -/
def setQueued : Option State :=
  match s.status t with
  | .queued source => (migrationChoice cpus mask source k).map fun target =>
    s.setOp o (.setQueuedAt t mask source target)
  | .migrating => none
  | actual => some (s.queuedFailed o t mask actual)

/-- The section of the source run queue in `set_queued_affinity`. -/
def setQueuedAt (source : ℕ) (target : Option ℕ) : Except Panic State :=
  if t ∈ s.queue source then
    match target with
    | none => do return (← s.storeCpusAllowed cpus t mask (.queued source)).setOp o .ready
    | some target => do
        return (← s.detachQueued t source ((s.queue source).idxOf t)).setOp o
          (.setMoving t mask target)
  else
    match s.status t with
    | .migrating | .queued _ => .ok (s.setOp o (.setQueued t mask))
    | actual => .ok (s.queuedFailed o t mask actual)

/-- The mask of a task that is in no run queue. -/
def setMoving (target : ℕ) : Except Panic State := do
  let s ← s.storeCpusAllowed cpus t mask .migrating
  let s ← s.requireCpuAllowed cpus t target
  return s.setOp o (.setAttach t target)

/-- A request for the CPU on which the task runs. -/
def postRequest (target : ℕ) : State :=
  { s.setSlot t (some s.nextRequest) with
    requests := update s.requests s.nextRequest ⟨mask, target, .pending⟩
    nextRequest := s.nextRequest + 1 }

/-- The section of the request slot in `set_remote_affinity`. -/
def setRunning (owner : ℕ) (target : Option ℕ) : Except Panic State :=
  match s.slot t with
  | some r => .ok (s.setOp o (.waitSlot r t mask))
  | none =>
    if (s.migrationTarget t).isSome ∨ s.status t ≠ .running owner then
      .ok (s.setOp o (.setRemote t mask))
    else
      match target with
      | none => do return (← s.storeCpusAllowed cpus t mask (.running owner)).setOp o .ready
      | some target =>
        .ok ((s.postRequest t mask target).setOp o (.waitApplied s.nextRequest t mask))

/-- The checks of `set_current_affinity` before it takes the lock of its request slot. -/
def beginCurrentAffinity : Option (Except Panic State) :=
  if s.status t = .running c then
    (migrationChoice cpus mask c k).map fun target =>
      .ok (s.setOp (.task t) (.setCurrent mask target))
  else some (.error .notCurrent)

/-- The section of the request slot in `set_current_affinity`. -/
def setCurrentAffinity (target : Option ℕ) : Except Panic State :=
  if s.status t = .running c then
    if (s.migrationTarget t).isSome then .error .migrationPending
    else
      let s' := ((s.setSlot t none).setAllowed t mask).setMigrationTarget t target
      let s' := s'.setPhase t (if target.isSome then .mustYield else .awake)
      .ok (s'.setOp (.task t) (.retryDone (s.slot t)))
  else .error .notCurrent

/-! ## Steps -/

/-- The next step of a context in the scheduler's code. -/
def nextOp (o : Ctx) (k : ℕ) : Option (Except Panic State) :=
  match s.op o with
  | .ready => none
  | .publish t cpu => some do return (← s.publish cpus t cpu).setOp o .ready
  | .wakeLock ts =>
    if s.manager.isNone then some (.ok ({ s with manager := some o }.setOp o (.wakeNext ts)))
    else none
  | .wakeNext ts => some (.ok (s.wakeNext o ts))
  | .wakeCancel t cpu ts => some (.ok (s.wakeCancel o t cpu ts))
  | .wakeDetach t ts => some do return (← s.detach t).setOp o (.wakeNext ts)
  | .wakeSelect t ts => s.wakeSelect cpus o t ts k
  | .wakeEnqueue t cpu ts => some do return (← s.enqueueWoken cpus t cpu).setOp o (.wakeNext ts)
  | .sleepDone r => some do
      let s' ← s.complete r .retry
      return { s' with manager := none }.setOp o .ready
  | .retryDone r => some do return (← s.complete r .retry).setOp o .ready
  | .setRemote t mask => (s.setRemote cpus o t mask k).map .ok
  | .setBlocked t mask =>
    if s.manager.isNone then some (s.updateBlockedAffinity cpus o t mask) else none
  | .setBlockedFailed t mask =>
    some (.ok (s.setOp o (if s.status t = .blocked then .ready else .setRemote t mask)))
  | .setQueued t mask => (s.setQueued cpus o t mask k).map .ok
  | .setQueuedAt t mask source target => some (s.setQueuedAt cpus o t mask source target)
  | .setMoving t mask target => some (s.setMoving cpus o t mask target)
  | .setAttach t target => some do return (← s.attachQueued t target).setOp o .ready
  | .setRunning t mask owner target =>
    if (s.slotLock t).isNone then some (s.setRunning cpus o t mask owner target) else none
  | .waitSlot r t mask =>
    if (s.requests r).state = .pending then none else some (.ok (s.setOp o (.setRemote t mask)))
  | .waitApplied r t mask =>
    match (s.requests r).state with
    | .pending => none
    | .applied => some (.ok (s.setOp o .ready))
    | .retry => some (.ok (s.setOp o (.setRemote t mask)))
  | .setCurrent mask target =>
    match o with
    | .task t =>
      if (s.slotLock t).isNone then some (s.setCurrentAffinity c t mask target) else none
    | .idle _ => none

/-- The next step of a CPU; `k` is the result of a choice that the step makes. -/
def next : Option (Except Panic State) :=
  match s.cpu c with
  | .idle => s.nextOp cpus c (.idle c) k
  | .stealing => some (.ok (s.setCpu c .idle))
  | .stole t => some (s.claimStolen c t)
  | .claimed t => some (.ok (s.dispatch c t))
  | .running t => s.nextOp cpus c (.task t) k
  | .leaving _ => some (s.takeCurrent c)
  | .switchOut t => s.finishSwitchOut cpus c t
  | .requeue t target r => some do
      return (← s.requeueAfterSwitch cpus t c target).setCpu c (.requeued t r)
  | .requeued t r => some (s.finishRequeued c t r)
  | .clearing t => some (.ok ((s.setMigrationTarget t none).setCpu c .idle))

/-- `fetch`, or the decision to steal when the run queue is empty. -/
def fetch (i : ℕ) : Option (Except Panic State) :=
  if s.queue c = [] then some (.ok (s.setCpu c .stealing))
  else (s.queue c)[i]?.map fun t => s.fetchAt c i t

/-- `steal` from one victim; without a candidate the next victim is tried. -/
def steal (victim : ℕ) : Option (Except Panic State) :=
  (s.stealIndex cpus c victim).bind fun i =>
    (s.queue victim)[i]?.map fun t => do
      return (← s.detachQueued t victim i).setCpu c (.stole t)

/-- A context builds a task with this mask and has chosen the CPU to publish it on. -/
def create (cpu : ℕ) : Option State :=
  if s.created t = false ∧ cpus.runnableAffinity mask ∧ cpus.isAllowed mask cpu then
    some { (s.setAllowed t mask).setOp o (.publish t cpu) with
      created := update s.created t true }
  else none

/-- `drain_local_zombies`, for one task: the last reference to it is dropped. -/
def reap : Option State :=
  match s.zombies c with
  | [] => none
  | _ :: rest => some { s with zombies := update s.zombies c rest }

end Code

variable (s : State) (c : ℕ)

/-- The context that a CPU executes. -/
def actor : Ctx :=
  match s.cpu c with
  | .running t => .task t
  | _ => .idle c

/-- Whether a CPU is in its idle loop, outside of the scheduler's code. -/
def idling : Bool := s.cpu c == .idle && s.op (.idle c) == .ready

/-- Whether a CPU executes this task, which is outside of the scheduler's code. -/
def executing (t : ℕ) : Bool := s.cpu c == .running t && s.op (.task t) == .ready

end State

/-- The calls of the scheduler, and `next`, which goes on with a call. -/
inductive Act where
  /-- Build a task and publish it; a refused publication is `abandon`. -/
  | create (t mask cpu : ℕ)
  | abandon
  /-- `wake_interruptible` and `enqueue_ready_batch`, with the tasks in the order of their wake-up.
  -/
  | wake (ts : List ℕ)
  | fetch (i : ℕ)
  | steal (victim : ℕ)
  | reap
  /-- `sleep_interruptible` of the task that runs. -/
  | sleep
  | exit
  /-- `schedule`, after a sleep or an exit or to yield. -/
  | switch
  /-- `sys_sched_setaffinity`. -/
  | setAffinity (t mask k : ℕ)
  | next (k : ℕ)

/-- A step is taken by a CPU. -/
structure Label where
  cpu : ℕ
  act : Act

namespace State

variable (cpus : Cpus)

variable (s : State) (c : ℕ)

/-- Whether a context may build a task or change an affinity. -/
def mayCall : Ctx → Bool
  | .idle c => s.idling c
  | .task t => s.op (.task t) == .ready && s.phase t == .awake

/-- A call that the CPU makes in the context of a task. -/
def taskCall (act : Act) (t : ℕ) : Option (Except Panic State) :=
  match act with
  | .sleep =>
    if s.executing c t ∧ (s.phase t = .awake ∨ s.phase t = .exited) ∧ s.manager.isNone ∧
        (s.slotLock t).isNone then
      some (s.beginInterruptibleSleep c t)
    else none
  | .exit =>
    if s.executing c t ∧ s.phase t = .awake ∧ (s.slotLock t).isNone then
      some (s.markZombie c t)
    else none
  | .switch =>
    if s.cpu c = .running t ∧ (s.op (.task t)).yields then some (.ok (s.setCpu c (.leaving t)))
    else none
  | .setAffinity u mask k =>
    if s.executing c t ∧ s.phase t = .awake ∧ cpus.runnableAffinity mask then
      if u = t then s.beginCurrentAffinity cpus c t mask k
      else some (.ok (s.setOp (.task t) (.setRemote u mask)))
    else none
  | _ => none

/-- One step of a CPU, with the panic as its other outcome. -/
def perform (act : Act) : Option (Except Panic State) :=
  match act with
  | .create t mask cpu =>
    if s.mayCall (s.actor c) then (s.create cpus (s.actor c) t mask cpu).map .ok else none
  | .abandon =>
    match s.op (s.actor c) with
    | .publish _ _ => some (.ok (s.setOp (s.actor c) .ready))
    | _ => none
  | .wake ts =>
    if s.op (s.actor c) = .ready ∧ (s.cpu c = .idle ∨ s.actor c ≠ .idle c) then
      some (.ok (s.setOp (s.actor c) (.wakeLock ts)))
    else none
  | .fetch i => if s.idling c then s.fetch c i else none
  | .steal victim =>
    if s.cpu c = .stealing ∧ victim ≠ c then s.steal cpus c victim else none
  | .reap => if s.idling c then (s.reap c).map .ok else none
  | .next k => s.next cpus c k
  | act =>
    match s.cpu c with
    | .running t => s.taskCall cpus c act t
    | _ => none

end State

/-- **One step.**  A panic stops all CPUs. -/
def step (cpus : Cpus) (r : Except Panic State) (l : Label) : Option (Except Panic State) :=
  match r with
  | .ok s => if l.cpu < cpus.configured then s.perform cpus l.cpu l.act else none
  | .error _ => none

/-- The runs of the scheduler. -/
def scheduler (cpus : Cpus) : System (Except Panic State) Label :=
  System.ofFun (fun r => r = .ok State.boot) (step cpus)
end MangoCore.Task
