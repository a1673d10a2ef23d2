import MangoCore.Task.SchedulerMoves

/-!
# CPU masks and migration targets

A queued or running task is on a CPU that its mask allows, with two exceptions: a task that has just
excluded its own CPU carries a migration target that its mask allows, and a task that its CPU is
about to requeue goes to such a CPU.  Requests for a running task are posted with a mask and a
target that fit each other.  `Aff` collects this.  It uses who owns a task (`Own`), and what it
excludes are the panics about masks and migration targets.
-/

namespace MangoCore.Task

open Function

namespace CpuPc

/-- The task that the CPU executes, until `finish_switch_out` has read its state. -/
def carries : CpuPc → Option ℕ
  | .running t | .leaving t | .switchOut t => some t
  | _ => none

/-- The task that the CPU is about to put into a run queue. -/
def requeues : CpuPc → Option ℕ
  | .requeue t _ _ => some t
  | _ => none

/-- The task whose mask or request slot the point of the code relies on. -/
def reliesOn : CpuPc → Option ℕ
  | .stole t | .requeue t _ _ | .requeued t _ => some t
  | _ => none

theorem owned_of_carries {pc : CpuPc} {t : ℕ} (h : pc.carries = some t) : pc.owned = some t := by
  cases pc <;> simp_all [carries, owned]

theorem owned_of_requeues {pc : CpuPc} {t : ℕ} (h : pc.requeues = some t) : pc.owned = some t := by
  cases pc <;> simp_all [requeues, owned]

end CpuPc

/-- The CPU that a state names. -/
def TaskStatus.onCpu (st : TaskStatus) (c : ℕ) : Prop := st = .running c ∨ st = .blocking c

theorem TaskStatus.eq_of_onCpu_running {c d : ℕ} (h : (TaskStatus.running c).onCpu d) : c = d := by
  rcases h with h | h
  · exact TaskStatus.running.inj h
  · cases h

namespace Cpus

variable {cpus : Cpus} {mask cpu : ℕ}

theorem isAllowed_of_isRunnable (h : cpus.isRunnable mask cpu = true) :
    cpus.isAllowed mask cpu = true :=
  (Bool.and_eq_true_iff.mp h).1

theorem hasRunnable_of_runnableAffinity (h : cpus.runnableAffinity mask = true) :
    cpus.hasRunnable mask = true :=
  (Bool.and_eq_true_iff.mp h).2

/-- Another mask with the same CPU. -/
theorem isAllowed_of_testBit {mask' : ℕ} (h : cpus.isAllowed mask cpu = true)
    (hbit : mask'.testBit cpu = true) : cpus.isAllowed mask' cpu = true := by
  rw [isAllowed, Bool.and_eq_true_iff] at h ⊢
  exact ⟨h.1, hbit⟩

end Cpus

/-- A choice that fits a mask: the CPU stays, or the mask allows the target. -/
def ChoiceOk (cpus : Cpus) (mask cpu : ℕ) : Option ℕ → Prop
  | none => mask.testBit cpu = true
  | some k => cpus.isRunnable mask k = true

theorem choiceOk_of_migrationChoice {cpus : Cpus} {mask cpu k : ℕ} {target : Option ℕ}
    (h : State.migrationChoice cpus mask cpu k = some target) : ChoiceOk cpus mask cpu target := by
  rw [State.migrationChoice] at h
  split_ifs at h with hcpu hk <;> cases h
  · exact hcpu
  · exact hk

namespace State

variable (cpus : Cpus)

/-- What holds of a task. -/
structure TaskOk (s : State) (t : ℕ) : Prop where
  mask : s.created t = true → cpus.runnableAffinity (s.cpusAllowed t) = true
  queued : ∀ c, s.status t = .queued c → cpus.isAllowed (s.cpusAllowed t) c = true
  home : ∀ c, (s.status t).onCpu c → s.migrationTarget t = none → (s.cpu c).requeues ≠ some t →
    cpus.isAllowed (s.cpusAllowed t) c = true
  target : ∀ k, s.migrationTarget t = some k → s.phase t = .mustYield ∧
    cpus.isAllowed (s.cpusAllowed t) k = true ∧ ∃ c, (s.cpu c).carries = some t
  slot : ∀ r, s.slot t = some r → r < s.nextRequest ∧ s.migrationTarget t = none ∧
    s.slotLock t = none ∧ ∃ c, s.status t = .running c

/-- What holds at a point of the scheduler's code in a context. -/
def MaskOk (s : State) (o : Ctx) : Op → Prop
  | .publish t cpu | .wakeEnqueue t cpu _ | .setAttach t cpu =>
    cpus.isAllowed (s.cpusAllowed t) cpu = true
  | .setRemote _ mask | .setBlocked _ mask | .setBlockedFailed _ mask | .setQueued _ mask
  | .waitSlot _ _ mask | .waitApplied _ _ mask => cpus.runnableAffinity mask = true
  | .setQueuedAt _ mask cpu target | .setRunning _ mask cpu target =>
    cpus.runnableAffinity mask = true ∧ ChoiceOk cpus mask cpu target
  | .setMoving _ mask target =>
    cpus.runnableAffinity mask = true ∧ cpus.isRunnable mask target = true
  | .setCurrent mask target => cpus.runnableAffinity mask = true ∧
      ∀ t, o = .task t → ∃ c, s.cpu c = .running t ∧ ChoiceOk cpus mask c target
  | _ => True

/-- What holds at a point of the code of a CPU. -/
def AllowedOk (s : State) (c : ℕ) : CpuPc → Prop
  | .stole t => cpus.isAllowed (s.cpusAllowed t) c = true ∧ s.migrationTarget t = none
  | .requeue t target _ =>
    cpus.isAllowed (s.cpusAllowed t) target = true ∧ s.slotLock t = some (.idle c)
  | .requeued t _ => s.slotLock t = some (.idle c)
  | _ => True

end State

/-- **The affinity invariant.** -/
structure Aff (cpus : Cpus) (s : State) : Prop where
  tasks : ∀ t, s.TaskOk cpus t
  ops : ∀ o, s.MaskOk cpus o (s.op o)
  pcs : ∀ c, s.AllowedOk cpus c (s.cpu c)
  requests : ∀ r, r < s.nextRequest → cpus.runnableAffinity (s.requests r).mask = true ∧
    cpus.isRunnable (s.requests r).mask (s.requests r).targetCpu = true

namespace State

variable {cpus : Cpus} {s s' : State}

/-- A step does not concern the task. -/
structure SameTask (s s' : State) (t : ℕ) : Prop where
  created : s'.created t = s.created t
  status : s'.status t = s.status t
  cpusAllowed : s'.cpusAllowed t = s.cpusAllowed t
  migrationTarget : s'.migrationTarget t = s.migrationTarget t
  phase : s'.phase t = s.phase t
  slot : s'.slot t = s.slot t
  slotLock : s'.slotLock t = s.slotLock t

theorem TaskOk.congr {t : ℕ} (h : s.TaskOk cpus t)
    (hsame : SameTask s s' t) (hnr : s.nextRequest ≤ s'.nextRequest)
    (hcarry : ∀ c, (s.cpu c).carries = some t → (s'.cpu c).carries = some t)
    (hreq : ∀ c, (s.cpu c).requeues = some t → (s'.cpu c).requeues = some t) :
    s'.TaskOk cpus t := by
  obtain ⟨hcr, hst, hal, htg, hph, hsl, hlk⟩ := hsame
  constructor
  · rw [hcr, hal]
    exact h.mask
  · rw [hst, hal]
    exact h.queued
  · grind [h.home]
  · grind [h.target]
  · intro r hr
    rw [hsl] at hr
    rw [htg, hlk, hst]
    exact ⟨(h.slot r hr).1.trans_le hnr, (h.slot r hr).2⟩

theorem MaskOk.congr {o : Ctx} {p : Op} (h : s.MaskOk cpus o p)
    (hal : ∀ t, p.owned = some t → s'.cpusAllowed t = s.cpusAllowed t)
    (hrun : ∀ t mask target, p = .setCurrent mask target → o = .task t → ∀ c,
      s.cpu c = .running t → s'.cpu c = .running t) : s'.MaskOk cpus o p := by
  cases p with
  | setCurrent mask target =>
    refine ⟨h.1, fun t ho => ?_⟩
    obtain ⟨c, hc, hchoice⟩ := h.2 t ho
    exact ⟨c, hrun t mask target rfl ho c hc, hchoice⟩
  | _ => simp_all [MaskOk, Op.owned]

theorem AllowedOk.congr {c : ℕ} {pc : CpuPc} (h : s.AllowedOk cpus c pc)
    (hsame : ∀ t, pc.reliesOn = some t → s'.cpusAllowed t = s.cpusAllowed t ∧
      s'.migrationTarget t = s.migrationTarget t ∧ s'.slotLock t = s.slotLock t) :
    s'.AllowedOk cpus c pc := by
  cases pc <;> simp_all [AllowedOk, CpuPc.reliesOn]

end State

namespace Aff

open State

variable {cpus : Cpus} {s s' : State} {o : Ctx} {t c : ℕ}

section

variable (h : Aff cpus s)
include h

/-- Only a running task on its own CPU carries a migration target. -/
theorem running_of_target (hown : Own s.toPlaces) {k : ℕ} (hk : s.migrationTarget t = some k) :
    s.phase t = .mustYield ∧ ∃ c, s.status t = .running c ∧ (s.cpu c).carries = some t := by
  obtain ⟨hphase, -, c, hc⟩ := (h.tasks t).target k hk
  refine ⟨hphase, c, ?_, hc⟩
  have hok := hown.cpuOk c
  cases hpc : s.cpu c <;> rw [hpc] at hok hc <;>
    simp_all [CpuPc.carries, Places.CpuOk, Phase.allows]

theorem target_eq_none (hown : Own s.toPlaces)
    (ht : ∀ c, s.status t = .running c → (s.cpu c).carries ≠ some t ∨ s.phase t ≠ .mustYield) :
    s.migrationTarget t = none := by
  by_contra hne
  obtain ⟨k, hk⟩ := Option.ne_none_iff_exists'.mp hne
  obtain ⟨hphase, c, hst, hc⟩ := h.running_of_target hown hk
  rcases ht c hst with hno | hno
  · exact hno hc
  · exact hno hphase

theorem slot_eq_none (ht : ∀ c, s.status t ≠ .running c) : s.slot t = none := by
  by_contra hne
  obtain ⟨r, hr⟩ := Option.ne_none_iff_exists'.mp hne
  obtain ⟨-, -, -, c, hc⟩ := (h.tasks t).slot r hr
  exact ht c hc

theorem ops_at {p : Op} (hop : s.op o = p) : s.MaskOk cpus o p :=
  hop ▸ h.ops o

/-- Nobody requeues a task whose request slot is free. -/
theorem requeues_ne (hlock : s.slotLock t = none) (c : ℕ) : (s.cpu c).requeues ≠ some t := by
  intro hreq
  have hok := h.pcs c
  cases hpc : s.cpu c <;> rw [hpc] at hok hreq <;> cases hreq
  cases hlock.symm.trans hok.2

end

/-- A task without a migration target and without a request. -/
theorem taskOk_plain (hmask : s.created t = true → cpus.runnableAffinity (s.cpusAllowed t) = true)
    (hqueued : ∀ c, s.status t = .queued c → cpus.isAllowed (s.cpusAllowed t) c = true)
    (hhome : ∀ c, (s.status t).onCpu c → (s.cpu c).requeues ≠ some t →
      cpus.isAllowed (s.cpusAllowed t) c = true)
    (htarget : s.migrationTarget t = none) (hslot : s.slot t = none) : s.TaskOk cpus t where
  mask := hmask
  queued := hqueued
  home c hc _ hno := hhome c hc hno
  target k hk := by rw [htarget] at hk; cases hk
  slot r hr := by rw [hslot] at hr; cases hr

variable (h : Aff cpus s) {p : Op}
include h

/-- **The frame rule** for a step that concerns the task `t`. -/
theorem modify (htask : s'.TaskOk cpus t)
    (hop : ∀ o, s'.op o ≠ s.op o ∨ (s'.op o).owned = some t → s'.MaskOk cpus o (s'.op o))
    (hpc : ∀ c, s'.cpu c ≠ s.cpu c ∨ (s'.cpu c).reliesOn = some t → s'.AllowedOk cpus c (s'.cpu c))
    (hrequests : ∀ r, r < s'.nextRequest → cpus.runnableAffinity (s'.requests r).mask = true ∧
      cpus.isRunnable (s'.requests r).mask (s'.requests r).targetCpu = true)
    (hsame : ∀ u, u ≠ t → SameTask s s' u) (hnr : s.nextRequest ≤ s'.nextRequest)
    (hcarry : ∀ c u, u ≠ t → (s.cpu c).carries = some u → (s'.cpu c).carries = some u)
    (hreq : ∀ c u, u ≠ t → (s.cpu c).requeues = some u → (s'.cpu c).requeues = some u)
    (hrun : ∀ c u mask target, s.cpu c = .running u → s'.op (.task u) = .setCurrent mask target →
      s'.cpu c = .running u) : Aff cpus s' where
  tasks u := by
    by_cases hu : u = t
    · rw [hu]
      exact htask
    · exact (h.tasks u).congr (hsame u hu) hnr (fun c => hcarry c u hu) fun c => hreq c u hu
  ops o := by
    by_cases ho : s'.op o ≠ s.op o ∨ (s'.op o).owned = some t
    · exact hop o ho
    · push Not at ho
      refine (ho.1 ▸ h.ops o).congr (fun u hu => ?_) ?_
      · exact (hsame u fun hut => ho.2 (hut ▸ hu)).cpusAllowed
      · grind
  pcs c := by
    by_cases hc : s'.cpu c ≠ s.cpu c ∨ (s'.cpu c).reliesOn = some t
    · exact hpc c hc
    · push Not at hc
      refine (hc.1 ▸ h.pcs c).congr fun u hu => ?_
      have hu' := hsame u fun hut => hc.2 (hut ▸ hu)
      exact ⟨hu'.cpusAllowed, hu'.migrationTarget, hu'.slotLock⟩
  requests := hrequests

/-- A context moves and may give the task `t` another state; no mask changes. -/
theorem opMove (htask : s'.TaskOk cpus t) (hp : s'.MaskOk cpus o (s'.op o))
    (hsame : ∀ u, u ≠ t → SameTask s s' u) (hop : ∀ o', o' ≠ o → s'.op o' = s.op o')
    (hal : s'.cpusAllowed = s.cpusAllowed) (htg : s'.migrationTarget = s.migrationTarget)
    (hlk : s'.slotLock = s.slotLock) (hrq : s'.requests = s.requests)
    (hnr : s'.nextRequest = s.nextRequest) (hcpu : s'.cpu = s.cpu) : Aff cpus s' := by
  refine h.modify htask (fun o' _ => ?_) (fun c _ => ?_) ?_ hsame hnr.ge
    (by rw [hcpu]; exact fun _ _ _ => id) (by rw [hcpu]; exact fun _ _ _ => id)
    (by rw [hcpu]; exact fun _ _ _ _ hc _ => hc)
  · by_cases ho : o' = o
    · rw [ho]
      exact hp
    · rw [hop o' ho]
      exact (h.ops o').congr (by simp [hal]) (by rw [hcpu]; exact fun _ _ _ _ _ _ => id)
  · rw [hcpu]
    exact (h.pcs c).congr (by simp [hal, htg, hlk])
  · rw [hnr, hrq]
    exact h.requests

/-- A CPU moves, with its own task or with one that it takes; no mask changes. -/
theorem cpuMove (hold : ∀ u, (s.cpu c).owned = some u → u = t)
    (hcur : ∀ mask target, s.cpu c = .running t → s.op (.task t) ≠ .setCurrent mask target)
    (htask : s'.TaskOk cpus t) (hpc : s'.AllowedOk cpus c (s'.cpu c))
    (htg : s'.migrationTarget = s.migrationTarget) (hsame : ∀ u, u ≠ t → SameTask s s' u)
    (hcpu : ∀ d, d ≠ c → s'.cpu d = s.cpu d) (hal : s'.cpusAllowed = s.cpusAllowed)
    (hlk : s'.slotLock = s.slotLock) (hrq : s'.requests = s.requests)
    (hnr : s'.nextRequest = s.nextRequest) (hop : s'.op = s.op) : Aff cpus s' := by
  have hrun : ∀ d u mask target, s.cpu d = .running u → s'.op (.task u) = .setCurrent mask target →
      s'.cpu d = .running u := by
    intro d u mask target hd hu
    rw [hop] at hu
    by_cases hdc : d = c
    · rw [hdc] at hd
      obtain rfl : u = t := hold u (by rw [hd]; rfl)
      exact absurd hu (hcur mask target hd)
    · rw [hcpu d hdc]
      exact hd
  refine h.modify htask (fun o _ => ?_) (fun d _ => ?_) ?_ hsame hnr.ge
    (by grind [CpuPc.owned_of_carries]) (by grind [CpuPc.owned_of_requeues]) hrun
  · rw [hop]
    refine (h.ops o).congr (by simp [hal]) fun u mask target hp ho d hd => ?_
    exact hrun d u mask target hd (by rw [hop, ← ho]; exact hp)
  · by_cases hdc : d = c
    · rw [hdc]
      exact hpc
    · rw [hcpu d hdc]
      exact (h.pcs d).congr (by simp [hal, htg, hlk])
  · rw [hnr, hrq]
    exact h.requests

/-- A CPU goes on; it carries the task that it carried, and does not stop to requeue one. -/
theorem setCpu {pc : CpuPc} {current : ℕ → Option ℕ}
    (hcarry : ∀ u, (s.cpu c).carries = some u → pc.carries = some u)
    (hreq : (s.cpu c).requeues = none)
    (hcur : ∀ u mask target, s.cpu c = .running u → s.op (.task u) ≠ .setCurrent mask target)
    (hpc : s.AllowedOk cpus c pc) :
    Aff cpus { s with current := current, cpu := update s.cpu c pc } where
  tasks u := by
    refine (h.tasks u).congr ⟨rfl, rfl, rfl, rfl, rfl, rfl, rfl⟩ le_rfl (fun d hd => ?_)
      fun d hd => ?_ <;> simp only [update_apply] <;> split_ifs with hdc
    any_goals exact hd
    · exact hcarry u (hdc ▸ hd)
    · rw [hdc, hreq] at hd
      cases hd
  ops o := by exact (h.ops o).congr (fun _ _ => rfl) (by grind)
  pcs d := by
    simp only [update_apply]
    split_ifs with hdc
    · rw [hdc]
      exact hpc
    · exact h.pcs d
  requests := h.requests

/-- The mask of the task `t` changes, for which no other context has chosen a CPU. -/
theorem setAllowed {mask : ℕ} (hmask : cpus.runnableAffinity mask = true)
    (htarget : s.migrationTarget t = none) (hops : ∀ o', o' ≠ o → (s.op o').owned ≠ some t)
    (hstole : ∀ c, s.cpu c ≠ .stole t) (hrequeue : ∀ c, (s.cpu c).requeues ≠ some t)
    (hqueued : ∀ c, s.status t = .queued c → cpus.isAllowed mask c = true)
    (hhome : ∀ c, (s.status t).onCpu c → cpus.isAllowed mask c = true)
    (hp : (s.setAllowed t mask).MaskOk cpus o p) : Aff cpus ((s.setAllowed t mask).setOp o p) := by
  have hself : ((s.setAllowed t mask).setOp o p).cpusAllowed t = mask := update_self ..
  refine h.modify ?_ (fun o' ho' => ?_) (fun c hc => ?_) h.requests
    (fun u hu => ⟨rfl, rfl, update_of_ne hu .., rfl, rfl, rfl, rfl⟩) le_rfl (fun _ _ _ => id)
    (fun _ _ _ => id) fun _ _ _ _ hc _ => hc
  · constructor
    · rw [hself]
      exact fun _ => hmask
    · rw [hself]
      exact hqueued
    · rw [hself]
      exact fun c hc _ _ => hhome c hc
    · intro k hk
      cases htarget.symm.trans hk
    · exact (h.tasks t).slot
  · by_cases ho : o' = o
    · rw [ho]
      simp only [setOp, update_self]
      exact hp
    · simp only [setOp, update_of_ne ho] at ho' ⊢
      exact absurd (ho'.resolve_left fun hne => hne rfl) (hops o' ho)
  · have hc' : (s.cpu c).reliesOn = some t := hc.resolve_left fun hne => hne rfl
    have hok := h.pcs c
    cases hpc : s.cpu c <;> rw [hpc] at hc' hok
    case stole u => exact absurd (Option.some.inj hc' ▸ hpc) (hstole c)
    case requeue u target r => exact absurd (by rw [hpc]; exact hc') (hrequeue c)
    case requeued u r =>
      change AllowedOk cpus _ c (s.cpu c)
      rw [hpc]
      exact hok
    all_goals cases hc'

/-- **A context moves on** without touching a task. -/
theorem stepOp {m : Option Ctx} {registry : List ℕ} (hp : s.MaskOk cpus o p) :
    Aff cpus (({ s with manager := m, registry := registry } : State).setOp o p) where
  tasks u := (h.tasks u).congr ⟨rfl, rfl, rfl, rfl, rfl, rfl, rfl⟩ le_rfl (fun _ => id) fun _ => id
  ops o' := by
    simp only [State.setOp, update_apply]
    split_ifs with ho
    · subst ho
      exact hp
    · exact h.ops o'
  pcs := h.pcs
  requests := h.requests

end Aff
end MangoCore.Task
