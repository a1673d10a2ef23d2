import MangoCore.Lib.Exclusive
import MangoCore.Task.Scheduler

/-!
# Who owns a task

The state of a task names its owner, and this module says what that means for the containers and for
the contexts: a queued task is in the run queue of its CPU and nowhere else, a running or blocking
task belongs to its CPU, a migrating task to the context that moves it, and the sleepers are in the
registry.  While a context holds the lock of the task manager it may have taken a task out of the
registry that is still blocked (`Op.attaching`), or have woken one that it takes out next
(`Op.detaching`).

`Own` collects these facts.  A step changes the state of at most one task, and `Own.modify` is the
frame rule for this: whoever has nothing to do with that task keeps what it has.
-/

namespace MangoCore.Task

/-! ## What a point of the code owns -/

namespace Op

/-- The task that only this context may hand on. -/
def owned : Op → Option ℕ
  | .publish t _ | .wakeEnqueue t _ _ | .setMoving t _ _ | .setAttach t _ => some t
  | _ => none

/-- A blocked task outside of the registry. -/
def attaching : Op → Option ℕ
  | .wakeEnqueue t _ _ => some t
  | _ => none

/-- A woken task that is still in the registry. -/
def detaching : Op → Option ℕ
  | .wakeDetach t _ => some t
  | _ => none

/-- The points inside a section of the task manager. -/
def locksManager : Op → Bool
  | .wakeNext _ | .wakeCancel _ _ _ | .wakeDetach _ _ | .wakeSelect _ _ | .wakeEnqueue _ _ _
  | .sleepDone _ => true
  | _ => false

/-- The task whose state the point of the code relies on. -/
def reliesOn (o : Ctx) : Op → Option ℕ
  | .publish t _ | .wakeDetach t _ | .wakeSelect t _ | .wakeEnqueue t _ _ | .setMoving t _ _
  | .setAttach t _ => some t
  | .setCurrent _ _ => match o with
      | .task t => some t
      | .idle _ => none
  | _ => none

/-- The points of the code that own no task and rely on none. -/
def plain : Op → Bool
  | .publish _ _ | .wakeDetach _ _ | .wakeSelect _ _ | .wakeEnqueue _ _ _ | .setMoving _ _ _
  | .setAttach _ _ | .setCurrent _ _ => false
  | _ => true

variable {p : Op}

theorem owned_of_plain (h : p.plain = true) : p.owned = none := by cases p <;> first | rfl | cases h

theorem attaching_of_plain (h : p.plain = true) : p.attaching = none := by
  cases p <;> first | rfl | cases h

theorem detaching_of_plain (h : p.plain = true) : p.detaching = none := by
  cases p <;> first | rfl | cases h

theorem attaching_of_locksManager (h : p.locksManager = false) : p.attaching = none := by
  cases p <;> first | rfl | cases h

theorem detaching_of_locksManager (h : p.locksManager = false) : p.detaching = none := by
  cases p <;> first | rfl | cases h

end Op

namespace CpuPc

/-- The task that belongs to the CPU, before or while it runs. -/
def owned : CpuPc → Option ℕ
  | .stole t | .claimed t | .running t | .leaving t | .switchOut t | .requeue t _ _ => some t
  | _ => none

/-- The task that runs on the CPU. -/
def holds : CpuPc → Option ℕ
  | .claimed t | .running t | .leaving t | .switchOut t | .requeue t _ _ => some t
  | _ => none

theorem owned_of_holds {pc : CpuPc} {t : ℕ} (h : pc.holds = some t) : pc.owned = some t := by
  cases pc <;> simp_all [holds, owned]

end CpuPc

/-- The states that a task may have while its CPU executes it and until the switch is finished. -/
def Phase.allows (ph : Phase) (c : ℕ) (st : TaskStatus) : Prop :=
  match ph with
  | .awake | .mustYield => st = .running c
  | .slept => st = .running c ∨ st = .blocking c
  | .exited => st = .zombie

/-- A CPU, or the scheduler's code in a context. -/
inductive Holder where
  | cpu (c : ℕ)
  | op (o : Ctx)
  deriving DecidableEq

namespace Places

def owned (s : Places) : Holder → Option ℕ
  | .cpu c => (s.cpu c).owned
  | .op o => (s.op o).owned

/-- What holds at a point of the code of a CPU. -/
def CpuOk (s : Places) (c : ℕ) : CpuPc → Prop
  | .stole t => s.status t = .migrating
  | .claimed t | .requeue t _ _ => s.status t = .running c
  | .running t | .leaving t => s.current c = some t ∧ (s.phase t).allows c (s.status t)
  | .switchOut t => (s.phase t).allows c (s.status t)
  | _ => True

/-- What holds at a point of the scheduler's code in a context. -/
def OpOk (s : Places) (o : Ctx) : Op → Prop
  | .publish t _ => s.status t = .new ∧ s.created t = true
  | .wakeDetach t _ => (s.status t).asleep = false
  | .wakeSelect t _ | .wakeEnqueue t _ _ => s.status t = .blocked
  | .setMoving t _ _ | .setAttach t _ => s.status t = .migrating
  | .setCurrent _ _ => ∀ t, o = .task t → s.phase t = .awake
  | _ => True

theorem opOk_of_plain {s : Places} {o : Ctx} {p : Op} (h : p.plain = true) : s.OpOk o p := by
  cases p <;> trivial

end Places

/-- Every run queue holds the tasks that are queued on its CPU, once each, and counts them. -/
structure Queues (status : ℕ → TaskStatus) (queue : ℕ → List ℕ) (nrRunning : ℕ → ℕ) : Prop where
  mem_iff : ∀ c t, t ∈ queue c ↔ status t = .queued c
  nodup : ∀ c, (queue c).Nodup
  count : ∀ c, nrRunning c = (queue c).length

/-- The registry holds the sleepers, except those that a wake-up moves at the moment. -/
structure Registry (status : ℕ → TaskStatus) (registry : List ℕ) (op : Ctx → Op) : Prop where
  mem_iff : ∀ t, t ∈ registry ↔
    ((status t).asleep = true ∧ ∀ o, (op o).attaching ≠ some t) ∨ ∃ o, (op o).detaching = some t
  nodup : registry.Nodup

/-- **The ownership invariant.** -/
structure Own (s : Places) : Prop where
  queues : Queues s.status s.queue s.nrRunning
  registry : Registry s.status s.registry s.op
  owners : Exclusive s.owned
  cpuOk : ∀ c, s.CpuOk c (s.cpu c)
  opOk : ∀ o, s.OpOk o (s.op o)
  cover : ∀ c t, s.status t = .running c ∨ s.status t = .blocking c → (s.cpu c).holds = some t
  idleOp : ∀ c, s.cpu c ≠ .idle → s.op (.idle c) = .ready
  fresh : ∀ t, s.created t = false → s.status t = .new
  lock : ∀ o, (s.op o).locksManager = true → s.manager = some o

namespace Places

variable {s s' : Places}

/-- The facts at a CPU's point of the code are about the task it owns. -/
theorem CpuOk.congr {c : ℕ} {pc : CpuPc} (h : s.CpuOk c pc)
    (hcur : ∀ t, pc.owned = some t → s'.current c = s.current c)
    (hst : ∀ t, pc.owned = some t → s'.status t = s.status t)
    (hph : ∀ t, pc.owned = some t → s'.phase t = s.phase t) : s'.CpuOk c pc := by
  cases pc <;> simp_all [CpuOk, CpuPc.owned]

theorem OpOk.congr {o : Ctx} {p : Op} (h : s.OpOk o p)
    (hst : ∀ t, p.reliesOn o = some t → s'.status t = s.status t)
    (hcr : ∀ t, p.reliesOn o = some t → s'.created t = s.created t)
    (hph : ∀ t, p.reliesOn o = some t → s'.phase t = s.phase t) : s'.OpOk o p := by
  cases p with
  | setCurrent mask target =>
    intro t ho
    rw [hph t (by rw [ho, Op.reliesOn])]
    exact h t ho
  | _ => simp_all [OpOk, Op.reliesOn]

end Places

/-- **The frame rule.**  The step from `s` to `s'` concerns the task `t`; contexts that neither
moved nor rely on `t` are as before. -/
theorem Own.modify {s s' : Places} (h : Own s) (t : ℕ)
    (hstatus : ∀ u, u ≠ t → s'.status u = s.status u) (hphase : ∀ u, u ≠ t → s'.phase u = s.phase u)
    (hcreated : ∀ u, u ≠ t → s'.created u = s.created u)
    (hcurrent : ∀ c u, u ≠ t → (s'.cpu c).owned = some u → s'.current c = s.current c)
    (hqueues : Queues s'.status s'.queue s'.nrRunning)
    (hregistry : Registry s'.status s'.registry s'.op) (howners : Exclusive s'.owned)
    (hcpu : ∀ c, s'.cpu c ≠ s.cpu c ∨ (s'.cpu c).owned = some t → s'.CpuOk c (s'.cpu c))
    (hop : ∀ o, s'.op o ≠ s.op o ∨ (s'.op o).reliesOn o = some t → s'.OpOk o (s'.op o))
    (hcover : ∀ c, s'.status t = .running c ∨ s'.status t = .blocking c → (s'.cpu c).holds = some t)
    (hkeep : ∀ c u, u ≠ t → (s.cpu c).holds = some u → (s'.cpu c).holds = some u)
    (hidle : ∀ c, s'.cpu c ≠ .idle → s'.op (.idle c) = .ready)
    (hfresh : s'.created t = false → s'.status t = .new)
    (hlock : ∀ o, (s'.op o).locksManager = true → s'.manager = some o) : Own s' where
  queues := hqueues
  registry := hregistry
  owners := howners
  cpuOk c := by grind [Places.CpuOk.congr, cpuOk]
  opOk o := by grind [Places.OpOk.congr, opOk]
  cover c u hu := by grind [h.cover]
  idleOp := hidle
  fresh u hu := by grind [h.fresh]
  lock := hlock
end MangoCore.Task
