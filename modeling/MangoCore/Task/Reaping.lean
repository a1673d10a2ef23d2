import MangoCore.Lib.Placement
import MangoCore.Lib.System

/-!
# Exit, reparenting and wait

The process tree as `finish_exit`, `wait_child` and `publish_clone_child` change it.  A process is a
reference; the fields of the control blocks are functions of it, and `init` is the process 0.

`finish_exit` is cut at its critical sections: the process marks itself as a zombie, reads its
parent, takes its children, looks for the nearest living subreaper, hands the children over one by
one, appends them to the reaper's list, and at last tells its parent or reaps itself.  `wait_child`
scans and removes under the lock of the caller and is one step.  A step is one section of one
process, so all interleavings are covered.

Whether a parent ignores `SIGCHLD`, and whether the list of the reaper can be enlarged, is up to the
event.  Signals, wakeups, usage counters, quota and files are left out.
-/

namespace MangoCore.Task.Reaping

open Function

/-- How far a process is in `finish_exit`. -/
inductive Exit
  | running
  /-- `mark_zombie` is done. -/
  | marked
  /-- The parent is read, and whether it asks for auto-reap. -/
  | snapshot (parent : Option ℕ) (autoReap : Bool)
  /-- The children are taken; `nearest_child_reaper` is to look at the cursor. -/
  | seeking (parent : Option ℕ) (autoReap : Bool) (taken : List ℕ) (cursor : Option ℕ)
  /-- The process at the cursor is no reaper. -/
  | climbing (parent : Option ℕ) (autoReap : Bool) (taken : List ℕ) (cursor : ℕ)
  /-- The children get their new parent: `moved` have it, `tested` is next. -/
  | adopting (parent : Option ℕ) (autoReap : Bool) (reaper : ℕ) (moved : List ℕ)
      (tested : Option ℕ) (rest : List ℕ)
  /-- The next child has its parent, and `adopted_by_init` is to be stored. -/
  | marking (parent : Option ℕ) (autoReap : Bool) (reaper : ℕ) (moved : List ℕ) (child : ℕ)
      (rest : List ℕ)
  /-- The children are handed over. -/
  | notifying (parent : Option ℕ) (autoReap : Bool)
  /-- The process has removed itself from the list of its parent. -/
  | detached
  | finished
  deriving DecidableEq, Repr

/-- A clone that is not published yet: the caller, and whether the parent of the caller becomes the
parent (`CLONE_PARENT`). -/
structure Clone where
  caller : ℕ
  cloneParent : Bool
  deriving DecidableEq, Repr

/-- The process control blocks. -/
structure State where
  nextRef : ℕ
  pid : ℕ → ℕ
  parent : ℕ → Option ℕ
  children : ℕ → List ℕ
  zombie : ℕ → Bool
  childSubreaper : ℕ → Bool
  adoptedByInit : ℕ → Bool
  clone : ℕ → Option Clone
  published : ℕ → Bool
  /-- The pid is released and the entry is removed. -/
  reaped : ℕ → Bool
  /-- No reference is left: a weak reference cannot be upgraded. -/
  dropped : ℕ → Bool
  exit : ℕ → Exit
  /-- How often `wait_child` has returned the exit status. -/
  collected : ℕ → ℕ

/-- The events; `p` is the process that runs. -/
inductive Event
  | fork (p pid : ℕ) (cloneParent : Bool)
  | publish (child : ℕ)
  | cancel (child : ℕ)
  | setChildSubreaper (p : ℕ) (enabled : Bool)
  | wait (p index : ℕ)
  | markZombie (p : ℕ)
  | readParent (p : ℕ) (ignoresSigchld : Bool)
  | takeChildren (p : ℕ)
  | seek (p : ℕ) (reserveOk : Bool)
  | climb (p : ℕ)
  | adoptTest (p : ℕ)
  | adoptSet (p : ℕ)
  | adoptMark (p : ℕ)
  | append (p : ℕ)
  | notify (p : ℕ) (ignoresSigchld : Bool)
  | reapSelf (p : ℕ)
  | drop (p : ℕ)
  deriving DecidableEq, Repr

def initProc : ℕ := 0

namespace State

/-- Only `init` is there. -/
def initial : State where
  nextRef := 1
  pid _ := 1
  parent _ := none
  children _ := []
  zombie _ := false
  childSubreaper _ := false
  adoptedByInit _ := false
  clone _ := none
  published p := p = initProc
  reaped _ := false
  dropped _ := false
  exit _ := .running
  collected _ := 0

variable (s : State)

/-- `Weak::upgrade`. -/
def upgrade (p : Option ℕ) : Option ℕ := p.filter fun q => !s.dropped q

section

variable (p : ℕ)

/-- A thread of the process can make a call. -/
def canRun : Bool := s.published p && !s.zombie p

/-- The process next goes on from here in `finish_exit`. -/
def setExit (e : Exit) : State :=
  { s with exit := update s.exit p e }

def setChildren (l : List ℕ) : State :=
  { s with children := update s.children p l }

variable (child : ℕ) (parent : Option ℕ)

def setParent : State :=
  { s with parent := update s.parent p parent }

/-- `set_parent(None)`, `release_pid` and `unregister_process`. -/
def reap : State :=
  { s.setParent p none with reaped := update s.reaped p true }

/-- `ProcessControlBlock::new` in a clone. -/
def fork (p pid : ℕ) (cloneParent : Bool) : State :=
  { s with
    nextRef := s.nextRef + 1
    pid := update s.pid s.nextRef pid
    parent := update s.parent s.nextRef
      (if cloneParent then s.upgrade (s.parent p) else some p)
    clone := update s.clone s.nextRef (some ⟨p, cloneParent⟩) }

/-- Whose list a clone goes to. -/
def publishTarget (c : Clone) : Option ℕ :=
  if c.cloneParent then s.upgrade (s.parent child) else some c.caller

/-- `publish_clone_child`; without a parent the child is in no list. -/
def publish (c : Clone) : State :=
  let s' := { s with
    clone := update s.clone child none
    published := update s.published child true }
  match s.publishTarget child c with
  | some q => s'.setChildren q (s.children q ++ [child])
  | none => s'

/-- The reaping part of `wait_child`. -/
def wait (p index child : ℕ) : State :=
  { (s.setChildren p (swapRemove (s.children p) index)).reap child with
    collected := update s.collected child (s.collected child + 1) }

variable (autoReap ignoresSigchld : Bool)

/-- The start of `adopt_children_by_reaper`. -/
def startAdoption (taken : List ℕ) (reaper : ℕ) (reserveOk : Bool) : State :=
  if taken = [] then s.setExit p (.notifying parent autoReap)
  else s.setExit p
    (.adopting parent autoReap (if reserveOk then reaper else initProc) [] none taken)

/-- One iteration of `nearest_child_reaper`. -/
def seek (reserveOk : Bool) : Option State :=
  match s.exit p with
  | .seeking parent autoReap taken (some q) =>
    if s.zombie q = false ∧ s.childSubreaper q = true then
      some (s.startAdoption p parent autoReap taken q reserveOk)
    else some (s.setExit p (.climbing parent autoReap taken q))
  | .seeking parent autoReap taken none =>
    some (s.startAdoption p parent autoReap taken initProc reserveOk)
  | _ => none

/-- `adopt_children_by_init` reaps a zombie; every other child is to get the new parent. -/
def adoptTest : Option State :=
  match s.exit p with
  | .adopting parent autoReap reaper moved none (c :: rest) =>
    if reaper = initProc ∧ s.zombie c = true then
      some ((s.reap c).setExit p (.adopting parent autoReap reaper moved none rest))
    else some (s.setExit p (.adopting parent autoReap reaper moved (some c) rest))
  | _ => none

/-- The child gets the new parent. -/
def adoptSet : Option State :=
  match s.exit p with
  | .adopting parent autoReap reaper moved (some c) rest =>
    some ((s.setParent c (some reaper)).setExit p
      (.marking parent autoReap reaper moved c rest))
  | _ => none

/-- The flag of the child follows, without a lock. -/
def adoptMark : Option State :=
  match s.exit p with
  | .marking parent autoReap reaper moved c rest =>
    some { s.setExit p (.adopting parent autoReap reaper (moved ++ [c]) none rest) with
      adoptedByInit := update s.adoptedByInit c (reaper = initProc) }
  | _ => none

/-- The reaper's list is extended. -/
def append : Option State :=
  match s.exit p with
  | .adopting parent autoReap reaper moved none [] =>
    some ((s.setChildren reaper (s.children reaper ++ moved)).setExit p
      (.notifying parent autoReap))
  | _ => none

/-- The process reaps itself? -/
def autoReaps : Bool :=
  s.adoptedByInit p || autoReap || ignoresSigchld

/-- The end of `finish_exit`: `detach_child` goes by the pid. -/
def notify : Option State :=
  match s.exit p with
  | .notifying (some g) autoReap =>
    if s.autoReaps p autoReap ignoresSigchld then
      some ((s.setChildren g ((s.children g).filter fun c => s.pid c ≠ s.pid p)).setExit p
        .detached)
    else some (s.setExit p .finished)
  | .notifying none _ => some (s.setExit p .finished)
  | _ => none

end

def step : Event → Option State
  | .fork p pid cloneParent => if s.canRun p then some (s.fork p pid cloneParent) else none
  | .publish child => (s.clone child).map (s.publish child)
  | .cancel child =>
    (s.clone child).map fun _ => { s with clone := update s.clone child none }
  | .setChildSubreaper p enabled =>
    if s.canRun p then
      some { s with childSubreaper := update s.childSubreaper p enabled }
    else none
  | .wait p index =>
    match (s.children p)[index]? with
    | some child => if s.canRun p && s.zombie child then some (s.wait p index child) else none
    | none => none
  | .markZombie p =>
    -- A thread that clones is alive, so no clone of the process is in progress.
    if p ≠ initProc ∧ s.canRun p = true ∧
        (∀ c ∈ List.range s.nextRef, (s.clone c).map Clone.caller ≠ some p) then
      some ({ s with zombie := update s.zombie p true }.setExit p .marked)
    else none
  | .readParent p ignoresSigchld =>
    if s.exit p = .marked then
      let parent := s.upgrade (s.parent p)
      some (s.setExit p (.snapshot parent (parent.isSome && ignoresSigchld)))
    else none
  | .takeChildren p =>
    match s.exit p with
    | .snapshot parent autoReap =>
      some ((s.setChildren p []).setExit p (.seeking parent autoReap (s.children p) parent))
    | _ => none
  | .seek p reserveOk => s.seek p reserveOk
  | .climb p =>
    match s.exit p with
    | .climbing parent autoReap taken q =>
      some (s.setExit p (.seeking parent autoReap taken (s.upgrade (s.parent q))))
    | _ => none
  | .adoptTest p => s.adoptTest p
  | .adoptSet p => s.adoptSet p
  | .adoptMark p => s.adoptMark p
  | .append p => s.append p
  | .notify p ignoresSigchld => s.notify p ignoresSigchld
  | .reapSelf p => if s.exit p = .detached then some ((s.reap p).setExit p .finished) else none
  | .drop p =>
    if s.reaped p = true ∧ s.exit p = .finished then
      some { s with dropped := update s.dropped p true }
    else none

end State

/-- All interleavings. -/
def system : System State Event :=
  .ofFun (· = .initial) State.step
end MangoCore.Task.Reaping
