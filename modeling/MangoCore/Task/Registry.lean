import MangoCore.Lib.OrdMap
import MangoCore.Lib.System

/-!
# The task and process registry

`TASK_REGISTRY` maps thread ids and process ids to weak references.  An id belongs to a `TidHandle`,
which gives it back to the allocator when it is released: a reaped process releases the handle of
its pid, and every other handle is released when its last owner is dropped.

The objects (handles, process control blocks and task control blocks) have references that are never
used twice; an id can be used again.  One event is one critical section, or one point in the life of
an object, so the steps of any number of CPUs interleave.  The allocator may hand out any id: which
ids it really hands out is a condition on a run.
-/

namespace MangoCore.Task.Registry

/-- The strong references to an object: there are some; the last one is gone and the drop code is
about to run; the drop code has run. -/
inductive Refs
  | held
  | dropping
  | dropped
  deriving DecidableEq, Repr

/-- A thread runs, is on its way out, or is a zombie. -/
inductive ThreadState
  | live
  | exiting
  | zombie
  deriving DecidableEq, Repr

structure TidHandle where
  id : ℕ
  released : Bool
  deriving DecidableEq, Repr

/-- What the registry needs of a `ProcessControlBlock`.  `reaped` says that a reaper has released
the pid, and `reaping` that it has yet to remove the entry. -/
structure Pcb where
  pid : ℕ
  pidHandle : ℕ
  refs : Refs
  registered : Bool
  zombie : Bool
  reaped : Bool
  reaping : Bool
  deriving DecidableEq, Repr

/-- What the registry needs of a `TaskControlBlock`. -/
structure Tcb where
  tid : ℕ
  tidHandle : ℕ
  process : ℕ
  refs : Refs
  registered : Bool
  state : ThreadState
  deriving DecidableEq, Repr

/-- The registry (`tasks`, `processes`) and all objects that ever were. -/
structure State where
  handles : OrdMap ℕ TidHandle
  pcbs : OrdMap ℕ Pcb
  tcbs : OrdMap ℕ Tcb
  tasks : OrdMap ℕ ℕ
  processes : OrdMap ℕ ℕ
  nextRef : ℕ

namespace State

def initial : State := ⟨.empty, .empty, .empty, .empty, .empty, 0⟩

variable (s : State)

/-- Some thread has the property. -/
def anyThread (p : Tcb → Bool) : Bool :=
  s.tcbs.entries.any fun e => p e.2

/-- Some process has the property. -/
def anyProcess (p : Pcb → Bool) : Bool :=
  s.pcbs.entries.any fun e => p e.2

/-- `Weak::upgrade` of an entry of `tasks`. -/
def upgradeTask (tid : ℕ) : Option ℕ :=
  (s.tasks.get? tid).filter fun t => (s.tcbs.get? t).any fun tcb => tcb.refs = .held

variable (t pid : ℕ)

/-- `Weak::upgrade` of an entry of `processes`. -/
def upgradeProcess : Option ℕ :=
  (s.processes.get? pid).filter fun p => (s.pcbs.get? p).any fun pcb => pcb.refs = .held

/-- The result of `find_task_by_tid`: no zombie. -/
def findTaskByTid (tid : ℕ) : Option ℕ :=
  (s.upgradeTask tid).filter fun t => !(s.tcbs.get? t).any fun tcb => tcb.state = .zombie

/-- The result of `find_process_by_pid`. -/
def findProcessByPid : Option ℕ :=
  s.upgradeProcess pid

/-- What `find_task_by_tid` leaves: an entry that cannot be upgraded is removed. -/
def sweepTask (tid : ℕ) : State :=
  match s.upgradeTask tid with
  | some _ => s
  | none => { s with tasks := s.tasks.erase tid }

/-- What `find_process_by_pid` leaves. -/
def sweepProcess : State :=
  match s.upgradeProcess pid with
  | some _ => s
  | none => { s with processes := s.processes.erase pid }

variable (tcb : Tcb) (p : ℕ) (pcb : Pcb)

def setPcb : State := { s with pcbs := s.pcbs.insert p pcb }

def setTcb : State := { s with tcbs := s.tcbs.insert t tcb }

/-- `TidHandle::release`. -/
def releaseHandle (h : ℕ) : State :=
  match s.handles.get? h with
  | none => s
  | some handle => { s with handles := s.handles.insert h { handle with released := true } }

/-- `tid_alloc`, `ProcessControlBlock::new` and the first task control block. -/
def newProcess (id : ℕ) : State :=
  { s with
    handles := s.handles.insert s.nextRef ⟨id, false⟩
    pcbs := s.pcbs.insert s.nextRef ⟨id, s.nextRef, .held, false, false, false, false⟩
    tcbs := s.tcbs.insert s.nextRef ⟨id, s.nextRef, s.nextRef, .held, false, .live⟩
    nextRef := s.nextRef + 1 }

/-- `tid_alloc` and the task control block of a new thread. -/
def newThread (id : ℕ) : State :=
  { s with
    handles := s.handles.insert s.nextRef ⟨id, false⟩
    tcbs := s.tcbs.insert s.nextRef ⟨id, s.nextRef, p, .held, false, .live⟩
    nextRef := s.nextRef + 1 }

def registerProcess : State :=
  { s.setPcb p { pcb with registered := true } with processes := s.processes.insert pcb.pid p }

def registerTask : State :=
  { s.setTcb t { tcb with registered := true } with tasks := s.tasks.insert tcb.tid t }

/-- `unregister_process`: the entry goes, whatever it refers to. -/
def unregisterProcess : State :=
  { s with processes := s.processes.erase pid }

def unregisterTaskIfMatch : State :=
  let remove : Bool := match s.upgradeTask tcb.tid with
    | some registered => decide (registered = t)
    | none => true
  if remove then { s with tasks := s.tasks.erase tcb.tid } else s

/-- The former leader, if its control block is still there, takes the id and the handle that the
new leader gives up.  A failed assertion is no step. -/
def handOver (leaderTid : ℕ) (owner : Tcb) : Option State :=
  match s.upgradeTask leaderTid with
  | none => some s
  | some former =>
    match s.tcbs.get? former with
    | none => none
    | some tcb =>
      if tcb.process = owner.process ∧ tcb.state = .zombie ∧ tcb.tid = leaderTid then
        some (s.setTcb former { tcb with tid := owner.tid, tidHandle := owner.tidHandle })
      else none

def exchangeExecTids (owner : Tcb) (pcb : Pcb) : Option State :=
  if owner.tid = pcb.pid then none
  else if s.upgradeTask owner.tid = some t then
    (s.handOver pcb.pid owner).map fun s' =>
      { s'.setTcb t { owner with tid := pcb.pid, tidHandle := pcb.pidHandle } with
        tasks := (s'.tasks.erase owner.tid).insert pcb.pid t }
  else none

end State

inductive Event
  /-- `fork`: the allocator hands out an id for a new process. -/
  | newProcess (id : ℕ)
  /-- A live thread clones a thread of its process. -/
  | newThread (process id : ℕ)
  | registerProcess (process : ℕ)
  | registerTask (thread : ℕ)
  /-- A thread begins to exit, or its clone fails before it runs. -/
  | exitThread (thread : ℕ)
  | zombify (thread : ℕ)
  /-- `mark_zombie`, when the last thread is on its way out. -/
  | markZombie (process : ℕ)
  /-- A reaper (`wait_child`, `adopt_children_by_init`, or `finish_exit` with auto-reap) releases
  the pid. -/
  | releasePid (process : ℕ)
  /-- The reaper removes the entry. -/
  | unregisterReaped (process : ℕ)
  | loseThread (thread : ℕ)
  /-- `Drop for TaskControlBlock`. -/
  | dropThread (thread : ℕ)
  | loseProcess (process : ℕ)
  /-- `Drop for ProcessControlBlock`. -/
  | dropProcess (process : ℕ)
  /-- `Drop for TidHandle`. -/
  | dropHandle (handle : ℕ)
  | exchangeExecTids (thread : ℕ)
  | findTaskByTid (tid : ℕ)
  | findProcessByPid (pid : ℕ)
  deriving DecidableEq, Repr

namespace State

variable (s : State) (p : ℕ)

/-- The process has a live thread. -/
def hasLiveThread : Bool :=
  s.anyThread fun tcb => decide (tcb.process = p ∧ tcb.state = .live)

/-- A control block still owns the handle. -/
def handleOwned (h : ℕ) : Bool :=
  s.anyThread (fun tcb => decide (tcb.tidHandle = h ∧ tcb.refs ≠ .dropped)) ||
    s.anyProcess fun pcb => decide (pcb.pidHandle = h ∧ pcb.refs ≠ .dropped)

/-- An event of one process; `none` when it cannot happen now. -/
def stepProcess (pcb : Pcb) : Event → Option State
  | .registerProcess _ =>
    -- The clone registers the process before its first thread runs.
    if pcb.refs = .held ∧ pcb.zombie = false then some (s.registerProcess p pcb) else none
  | .markZombie _ =>
    if pcb.refs = .held ∧ s.hasLiveThread p = false then
      some (s.setPcb p { pcb with zombie := true })
    else none
  | .releasePid _ =>
    if pcb.refs = .held ∧ pcb.zombie = true then
      some ((s.releaseHandle pcb.pidHandle).setPcb p
        { pcb with reaped := true, reaping := true })
    else none
  | .unregisterReaped _ =>
    if pcb.refs = .held ∧ pcb.reaped = true ∧ pcb.reaping = true then
      some ((s.unregisterProcess pcb.pid).setPcb p { pcb with reaping := false })
    else none
  | .loseProcess _ =>
    -- The threads and the reaper hold references.
    if pcb.refs = .held ∧ pcb.reaping = false ∧
        s.anyThread (fun tcb => decide (tcb.process = p ∧ tcb.refs ≠ .dropped)) = false then
      some (s.setPcb p { pcb with refs := .dropping })
    else none
  | .dropProcess _ =>
    if pcb.refs = .dropping then
      some ((s.unregisterProcess pcb.pid).setPcb p { pcb with refs := .dropped })
    else none
  | .newThread _ id => if s.hasLiveThread p then some (s.newThread p id) else none
  | _ => none

/-- An event of one thread. -/
def stepThread (t : ℕ) (tcb : Tcb) : Event → Option State
  | .registerTask _ =>
    if tcb.state = .live then some (s.registerTask t tcb) else none
  | .exitThread _ =>
    if tcb.state = .live then some (s.setTcb t { tcb with state := .exiting }) else none
  | .zombify _ =>
    if tcb.state = .exiting then some (s.setTcb t { tcb with state := .zombie }) else none
  | .loseThread _ =>
    if tcb.refs = .held ∧ tcb.state ≠ .live then
      some (s.setTcb t { tcb with refs := .dropping })
    else none
  | .dropThread _ =>
    if tcb.refs = .dropping then
      some ((s.unregisterTaskIfMatch t tcb).setTcb t { tcb with refs := .dropped })
    else none
  | .exchangeExecTids _ =>
    match s.pcbs.get? tcb.process with
    | none => none
    | some pcb =>
      -- The exec has ended all other threads of the process.
      if tcb.state = .live ∧ (s.tcbs.entries.all fun e =>
          decide (e.1 = t ∨ e.2.process ≠ tcb.process ∨ e.2.state ≠ .live)) = true then
        s.exchangeExecTids t tcb pcb
      else none
  | _ => none

/-- One event. -/
def step (e : Event) : Option State :=
  match e with
  | .newProcess id => some (s.newProcess id)
  | .dropHandle h => if s.handleOwned h then none else some (s.releaseHandle h)
  | .findTaskByTid tid => some (s.sweepTask tid)
  | .findProcessByPid pid => some (s.sweepProcess pid)
  | .newThread p _ | .registerProcess p | .markZombie p | .releasePid p | .unregisterReaped p
  | .loseProcess p | .dropProcess p => (s.pcbs.get? p).bind fun pcb => s.stepProcess p pcb e
  | .registerTask t | .exitThread t | .zombify t | .loseThread t | .dropThread t
  | .exchangeExecTids t => (s.tcbs.get? t).bind fun tcb => s.stepThread t tcb e

end State

/-- All interleavings. -/
def system : System State Event :=
  .ofFun (· = .initial) State.step
end MangoCore.Task.Registry
