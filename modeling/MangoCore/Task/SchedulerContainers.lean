import MangoCore.Task.SchedulerCode
import MangoCore.Task.SchedulerMasks

/-!
# Every task is in the container that its state names

In every run the state of a task says where the task is: `Queued(c)` means the run queue of `c` and
no other place, a running or blocking task is on its CPU only, and outside of the sections of the
task manager the registry holds exactly the sleepers.  No step panics.

Two orders of steps are excluded (`Orderly`), and `reachable_panic` gives a run that panics for each
of them.

* `finish_switch_out` commits a task as `Blocked` and drops its migration target afterwards.  In
  between the task can be woken, run on another CPU, and exclude that CPU from its mask; the target
  that this publishes is the one that is dropped.
* A task that was marked as a zombie still stores to user memory and may sleep on the page fault.
-/

namespace MangoCore.Task

open TaskStatus

/-- A CPU drops a migration target only if there is none, and a zombie does not go to sleep. -/
def Orderly : Except Panic State → Label → Prop
  | .ok s, l =>
    match s.cpu l.cpu, l.act with
    | .clearing t, _ => s.migrationTarget t = none
    | .running t, .sleep => s.phase t ≠ .exited
    | _, _ => True
  | .error _, _ => True

instance (r : Except Panic State) (l : Label) : Decidable (Orderly r l) := by
  unfold Orderly
  split
  · split <;> infer_instance
  · infer_instance

namespace State

/-- **Every task is where its state says.** -/
structure Contained (s : State) : Prop where
  /-- A queued task is once in its run queue, and in no other place. -/
  queued : ∀ t c, s.status t = .queued c ↔ (s.queue c).count t = 1 ∧ ∀ d, d ≠ c → t ∉ s.queue d
  queued_only : ∀ t c, s.status t = .queued c →
    (∀ x, s.owned x ≠ some t) ∧ (s.manager = none → t ∉ s.registry)
  /-- The registry holds the sleepers, once each, when the task manager is not locked. -/
  asleep : s.manager = none →
    ∀ t, (s.status t = .blocked ∨ ∃ c, s.status t = .blocking c) ↔ t ∈ s.registry
  registry : s.registry.Nodup
  /-- A running task is on one CPU, the one that its state names, and in no container. -/
  running : ∀ t c, s.status t = .running c → (∀ d, (s.cpu d).holds = some t ↔ d = c) ∧
    (∀ d, t ∉ s.queue d) ∧ (s.manager = none → t ∉ s.registry)
  count : ∀ c, s.nrRunning c = (s.queue c).length

variable {cpus : Cpus} {s : State}

theorem sound_boot : boot.Sound cpus where
  own := by
    refine ⟨⟨fun c t => ?_, fun c => List.nodup_nil, fun c => rfl⟩, ⟨fun t => ?_, List.nodup_nil⟩,
      fun x y t hx => ?_, fun c => trivial, fun o => trivial, fun c t h => ?_, nofun,
      fun t _ => rfl,
      nofun⟩
    · exact iff_of_false List.not_mem_nil nofun
    · refine iff_of_false List.not_mem_nil ?_
      rintro (⟨h, -⟩ | ⟨o, h⟩)
      all_goals cases h
    · cases x <;> cases hx
    · rcases h with h | h <;> cases h
  aff := by
    refine ⟨fun t => ⟨nofun, nofun, fun c h => ?_, nofun, nofun⟩, fun o => trivial,
      fun c => trivial, nofun⟩
    rcases h with h | h <;> cases h
  req := by
    refine ⟨fun x y r hx => ?_, fun x r hx => ?_⟩
    all_goals cases x <;> cases hx

/-- **One step** of an orderly run: it does not panic, and keeps everything. -/
theorem Sound.perform (h : s.Sound cpus) {l : Label} (hl : Orderly (.ok s) l)
    {r : Except Panic State} (hr : s.perform cpus l.cpu l.act = some r) :
    Outcome (Sound cpus) (fun _ => False) r := by
  have hsleep : l.act = .sleep → ∀ t, s.cpu l.cpu = .running t → s.phase t ≠ .exited := by
    intro hact t ht
    simpa only [Orderly, hact, ht] using hl
  have hclear : ∀ t, s.cpu l.cpu = .clearing t → s.migrationTarget t = none := by
    intro t ht
    simpa only [Orderly, ht] using hl
  have hmove := h.move_of_perform hsleep hclear hr
  obtain ⟨s', rfl⟩ := hmove.eq_ok
  exact ⟨h.own.perform hmove, h.aff.perform h.own hmove, h.req.perform hmove⟩

theorem Sound.contained (h : s.Sound cpus) : s.Contained := by
  have hqueues := h.own.queues
  have hregistry : s.manager = none → ∀ t, t ∈ s.registry ↔ (s.status t).asleep = true := by
    intro hm t
    have hfree := h.own.locksManager_eq_false hm
    rw [h.own.registry.mem_iff t]
    constructor
    · grind [Op.detaching_of_locksManager]
    · grind [Op.attaching_of_locksManager]
  refine ⟨fun t c => ?_, fun t c hst => ⟨h.own.unowned_of_queued hst, fun hm => ?_⟩, fun hm t => ?_,
    h.own.registry.nodup, fun t c hst => ⟨fun d => ?_, fun d => ?_, fun hm => ?_⟩, hqueues.count⟩
  · grind [hqueues.mem_iff, List.count_eq_one_of_mem, hqueues.nodup]
  · rw [hregistry hm t, hst]
    simp [asleep]
  · rw [hregistry hm t]
    cases s.status t <;> simp [asleep]
  · have hc := h.own.cover c t (.inl hst)
    constructor
    · intro hd
      exact Holder.cpu.inj (h.own.owners (.cpu d) (.cpu c) t (CpuPc.owned_of_holds hd)
        (CpuPc.owned_of_holds hc))
    · rintro rfl
      exact hc
  · exact hqueues.not_mem (fun e => by simp [hst])
  · rw [hregistry hm t, hst]
    simp [asleep]

end State

theorem sound_of_orderly {cpus : Cpus} {r : Except Panic State}
    (h : ((scheduler cpus).restrict Orderly).Reachable r) :
    Outcome (State.Sound cpus) (fun _ => False) r := by
  refine h.invariant (I := Outcome (State.Sound cpus) fun _ => False) ?_ ?_
  · rintro _ rfl
    exact State.sound_boot
  · rintro r l r' - hr ⟨hl, hstep⟩
    cases r with
    | error p => exact hr.elim
    | ok s =>
      simp only [scheduler, System.ofFun, step] at hstep
      split_ifs at hstep
      exact State.Sound.perform hr hl hstep

/-- **In every orderly run no step panics and every task is in the container that its state names.**
-/
theorem contained_of_reachable {cpus : Cpus} {r : Except Panic State}
    (h : ((scheduler cpus).restrict Orderly).Reachable r) : ∃ s, r = .ok s ∧ s.Contained := by
  have hsound := sound_of_orderly h
  cases r with
  | error p => exact hsound.elim
  | ok s => exact ⟨s, rfl, State.Sound.contained hsound⟩

/-- Two CPUs that both run the scheduler. -/
def twoCpus : Cpus := ⟨2, 3⟩

/-- A task is built and published on CPU 0, which fetches and dispatches it. -/
def startOnZero : List Label :=
  [⟨0, .create 0 3 0⟩, ⟨0, .next 0⟩, ⟨0, .fetch 0⟩, ⟨0, .next 0⟩]

/-- The task goes to sleep, and CPU 0 commits it as `Blocked`. -/
def sleepOnZero : List Label :=
  startOnZero ++ [⟨0, .sleep⟩, ⟨0, .next 0⟩, ⟨0, .switch⟩, ⟨0, .next 0⟩, ⟨0, .next 0⟩]

/-- CPU 1 wakes the task and runs it, and the task excludes CPU 1 from its mask. -/
def leaveOne : List Label :=
  [⟨1, .wake [0]⟩, ⟨1, .next 0⟩, ⟨1, .next 0⟩, ⟨1, .next 1⟩, ⟨1, .next 0⟩, ⟨1, .next 0⟩,
    ⟨1, .fetch 0⟩, ⟨1, .next 0⟩, ⟨1, .setAffinity 0 1 0⟩, ⟨1, .next 0⟩, ⟨1, .next 0⟩]

/-- The task then goes back to CPU 0. -/
def wakeAndReturn : List Label :=
  sleepOnZero ++ ⟨0, .next 0⟩ :: leaveOne ++ [⟨1, .switch⟩, ⟨1, .next 0⟩, ⟨1, .next 0⟩,
    ⟨1, .next 0⟩, ⟨1, .next 0⟩, ⟨0, .fetch 0⟩, ⟨0, .next 0⟩]

/-- Another task runs on CPU 1, and the first one requests that it leaves. -/
def requestMove : List Label :=
  wakeAndReturn ++ [⟨1, .create 1 3 1⟩, ⟨1, .next 0⟩, ⟨1, .fetch 0⟩, ⟨1, .next 0⟩,
    ⟨0, .setAffinity 1 1 0⟩, ⟨0, .next 0⟩, ⟨0, .next 0⟩]

/-- CPU 1 answers the request. -/
def answerMove : List Label :=
  requestMove ++ [⟨1, .switch⟩, ⟨1, .next 0⟩, ⟨1, .next 0⟩, ⟨1, .next 0⟩, ⟨1, .next 0⟩,
    ⟨0, .next 0⟩]

/-- The second task is then in the run queue of CPU 0 only, behind the one that runs. -/
theorem contained_answerMove : ∃ s, ((scheduler twoCpus).restrict Orderly).Reachable (.ok s) ∧
    s.status 0 = .running 0 ∧ s.status 1 = .queued 0 ∧ s.Contained := by
  obtain ⟨r, hreach, hst⟩ : ∃ r, ((scheduler twoCpus).restrict Orderly).Reachable r ∧
      (r.toOption.any fun s => s.status 0 == .running 0 && s.status 1 == .queued 0) = true :=
    System.exists_run_restrict answerMove rfl (by decide +kernel)
  obtain ⟨s, rfl, hs⟩ := contained_of_reachable hreach
  simp only [Except.toOption, Option.any_some, Bool.and_eq_true, beq_iff_eq] at hst
  exact ⟨s, hreach, hst.1, hst.2, hs⟩

/-- CPU 0 stops when the task is `Blocked`, and drops the migration target after the task has left
CPU 1 out of its mask; then CPU 1 requeues the task. -/
def staleClear : List Label :=
  sleepOnZero ++ leaveOne ++ [⟨0, .next 0⟩, ⟨1, .switch⟩, ⟨1, .next 0⟩, ⟨1, .next 0⟩, ⟨1, .next 0⟩]

/-- The task exits and sleeps before it has left the CPU. -/
def zombieSleep : List Label := startOnZero ++ [⟨0, .exit⟩, ⟨0, .next 0⟩, ⟨0, .sleep⟩]

/-- Whether a run ends with this panic. -/
def endsWith (l : List Label) (p : Panic) : Bool :=
  match l.foldlM (step twoCpus) (.ok State.boot) with
  | some (.error q) => q == p
  | _ => false

theorem reachable_of_endsWith {l : List Label} {p : Panic} (h : endsWith l p = true) :
    (scheduler twoCpus).Reachable (.error p) := by
  rw [endsWith] at h
  split at h
  · rename_i q hq
    rw [beq_iff_eq] at h
    exact h ▸ System.reachable_run l (.init rfl) hq
  · cases h

/-- **Two runs of the kernel that panic.** -/
theorem reachable_panic : (scheduler twoCpus).Reachable (.error .disallowedCpu) ∧
    (scheduler twoCpus).Reachable (.error .ownership) :=
  ⟨reachable_of_endsWith (l := staleClear) (by decide),
    reachable_of_endsWith (l := zombieSleep) (by decide)⟩

/-! ## Masks and requests -/

/-- **In every orderly run** a task is queued where its mask allows it, a running task is where its
mask allows it or moves to such a CPU, and a request for a remote change is unanswered as long as it
is kept, and kept once. -/
theorem allowed_of_reachable {cpus : Cpus} {s : State}
    (h : ((scheduler cpus).restrict Orderly).Reachable (.ok s)) :
    (∀ t c, s.status t = .queued c → cpus.isAllowed (s.cpusAllowed t) c = true) ∧
    (∀ t c, s.status t = .running c → (s.cpu c).requeues ≠ some t →
      cpus.isAllowed (s.cpusAllowed t) ((s.migrationTarget t).getD c) = true) ∧
    ∀ x r, s.request x = some r →
      (s.requests r).state = .pending ∧ ∀ y, s.request y = some r → y = x := by
  obtain ⟨-, haff, hreq⟩ : s.Sound cpus := sound_of_orderly h
  refine ⟨fun t => (haff.tasks t).queued, fun t c hst hne => ?_, fun x r hx =>
    ⟨(hreq.pending x r hx).2, fun y hy => hreq.exclusive y x r hy hx⟩⟩
  cases htarget : s.migrationTarget t with
  | none => exact (haff.tasks t).home c (.inl hst) htarget hne
  | some k => exact ((haff.tasks t).target k htarget).2.1

/-- The request waits in the slot of the task, which its mask still allows to run where it is. -/
theorem allowed_requestMove : ∃ s, ((scheduler twoCpus).restrict Orderly).Reachable (.ok s) ∧
    s.status 1 = .running 1 ∧ s.slot 1 = some 0 ∧
    twoCpus.isAllowed (s.cpusAllowed 1) ((s.migrationTarget 1).getD 1) = true ∧
    (s.requests 0).state = .pending ∧ ∀ y, s.request y = some 0 → y = .slot 1 := by
  obtain ⟨r, hreach, hst⟩ : ∃ r, ((scheduler twoCpus).restrict Orderly).Reachable r ∧
      (r.toOption.any fun s => s.status 1 == .running 1 && (s.cpu 1).requeues != some 1 &&
        s.slot 1 == some 0) = true :=
    System.exists_run_restrict requestMove rfl (by decide +kernel)
  cases r with
  | error p => cases hst
  | ok s =>
    simp only [Except.toOption, Option.any_some, Bool.and_eq_true, beq_iff_eq, bne_iff_ne] at hst
    obtain ⟨⟨hrun, hne⟩, hslot⟩ := hst
    obtain ⟨-, hallowed, hrequest⟩ := allowed_of_reachable hreach
    exact ⟨s, hreach, hrun, hslot, hallowed 1 1 hrun hne, hrequest (.slot 1) 0 hslot⟩
end MangoCore.Task
