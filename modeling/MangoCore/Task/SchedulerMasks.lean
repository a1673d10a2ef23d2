import MangoCore.Task.SchedulerSteps

/-!
# Masks are respected by every step

Every move of the scheduler keeps the affinity invariant, given ownership.
-/

namespace MangoCore.Task

open Function TaskStatus Option Places Cpus

/-- A result that respects the masks. -/
abbrev KeepsAff (cpus : Cpus) (r : Except Panic State) : Prop :=
  Outcome (Aff cpus) (fun p => p = .completedTwice) r

namespace Aff

open State

variable {cpus : Cpus} {s : State} {o : Ctx} {t c mask owner : ℕ} {ts : List ℕ} (h : Aff cpus s)
include h

theorem answered {r : Option ℕ} {result : RemoteAffinityState} :
    Aff cpus (s.answered r result) where
  tasks t := (h.tasks t).congr ⟨rfl, rfl, rfl, rfl, rfl, rfl, rfl⟩ le_rfl (fun _ => id) fun _ => id
  ops := h.ops
  pcs := h.pcs
  requests i hi := by grind [h.requests, State.answered]

/-- Whose request slot is free and who is not being stolen is not relied on. -/
theorem reliesOn_ne (hlock : s.slotLock t = none) {d : ℕ}
    (hstole : s.cpu d ≠ .stole t) : (s.cpu d).reliesOn ≠ some t := by
  intro hd
  have hok := h.pcs d
  cases hpc : s.cpu d <;> rw [hpc] at hd hok hstole
  case stole u => exact hstole (by rw [some.inj hd])
  case requeue u target r => exact h.requeues_ne hlock d (by rw [hpc]; exact hd)
  case requeued u r =>
    cases hd
    cases hlock.symm.trans hok
  all_goals cases hd

/-- A task whose request slot is held has no request. -/
theorem slot_eq_none_of_lock {x : Ctx} (hlock : s.slotLock t = some x) : s.slot t = none := by
  by_contra hne
  obtain ⟨i, hi⟩ := ne_none_iff_exists'.mp hne
  cases ((h.tasks t).slot i hi).2.2.1.symm.trans hlock

theorem postRequest {target : ℕ} (hmask : cpus.runnableAffinity mask = true)
    (htarget : cpus.isRunnable mask target = true)
    (hlock : s.slotLock t = none) (hnone : s.migrationTarget t = none)
    (hst : s.status t = .running owner) :
    Aff cpus ((s.postRequest t mask target).setOp o (.waitApplied s.nextRequest t mask)) := by
  refine h.modify ?_ (fun o' _ => ?_) (fun c _ => h.pcs c) (fun r hr => ?_)
    (fun u hu => ⟨rfl, rfl, rfl, rfl, rfl, update_of_ne hu .., rfl⟩) (Nat.le_succ s.nextRequest)
    (fun _ _ _ => id) (fun _ _ _ => id) fun _ _ _ _ hc _ => hc
  · refine { (h.tasks t) with slot := ?_ }
    intro r hr
    simp only [setOp, State.postRequest, setSlot, update_self] at hr ⊢
    exact ⟨some.inj hr ▸ Nat.lt_add_one _, hnone, hlock, owner, hst⟩
  · simp only [setOp, update_apply]
    split_ifs
    · exact hmask
    · exact h.ops o'
  · simp only [setOp, State.postRequest, update_apply] at hr ⊢
    grind [h.requests]

/-- The request slot is given back. -/
theorem unlockSlot (hslot : s.slot t = none)
    (hfree : ∀ d, (s.cpu d).reliesOn = some t → s.cpu d = .stole t) :
    Aff cpus (s.setSlotLock t none) := by
  refine h.modify { (h.tasks t) with slot := fun i hi => absurd (hslot.symm.trans hi) nofun }
    (fun o _ => h.ops o) (fun d hd => ?_) h.requests
    (fun u hu => ⟨rfl, rfl, rfl, rfl, rfl, rfl, update_of_ne hu ..⟩) le_rfl (fun _ _ _ => id)
    (fun _ _ _ => id) fun _ _ _ _ hc _ => hc
  have hd' := hfree d (hd.resolve_left fun hne => hne rfl)
  have hok := h.pcs d
  change AllowedOk cpus _ d (s.cpu d)
  rw [hd'] at hok ⊢
  exact hok

/-- A CPU is done with a task that it has put into a run queue. -/
theorem requeued {r : Option ℕ} (hpc : s.cpu c = .requeued t r) :
    Aff cpus ((s.setSlotLock t none).setCpu c .idle) := by
  have hlock : s.slotLock t = some (.idle c) := by
    have hok := h.pcs c
    rw [hpc] at hok
    exact hok
  have hidle : Aff cpus (s.setCpu c .idle) :=
    h.setCpu (by rw [hpc]; nofun) (by rw [hpc]; rfl) (by rw [hpc]; nofun) trivial
  refine hidle.unlockSlot (h.slot_eq_none_of_lock hlock) fun d hd => ?_
  by_cases hdc : d = c
  · rw [hdc] at hd
    simp only [State.setCpu, update_self] at hd
    cases hd
  · simp only [State.setCpu, update_of_ne hdc] at hd ⊢
    have hok := h.pcs d
    have hother : s.slotLock t ≠ some (.idle d) := fun heq =>
      hdc (Ctx.idle.inj (some.inj (heq.symm.trans hlock)))
    cases hpc' : s.cpu d <;> rw [hpc'] at hd hok
    case stole u => rw [some.inj hd]
    case requeue u target i => exact absurd (some.inj hd ▸ hok.2) hother
    case requeued u i => exact absurd (some.inj hd ▸ hok) hother
    all_goals cases hd

variable (hown : Own s.toPlaces) {target : ℕ} {queue : ℕ → List ℕ} {nrRunning : ℕ → ℕ} {p : Op}
  {r : Option ℕ} {st : TaskStatus}
include hown

/-! ## Contexts -/

/-- A context gives a task that is not running another state. -/
theorem relabel (hst : ∀ c, s.status t ≠ .running c)
    (hqueued : ∀ c, st = .queued c → cpus.isAllowed (s.cpusAllowed t) c = true)
    (hhome : ∀ c, st.onCpu c → cpus.isAllowed (s.cpusAllowed t) c = true) (hp : s.MaskOk cpus o p) :
    Aff cpus { s with
      status := update s.status t st
      queue := queue
      nrRunning := nrRunning
      op := update s.op o p } := by
  refine h.opMove (taskOk_plain (h.tasks t).mask ?_ ?_
    (h.target_eq_none hown fun c hc => absurd hc (hst c)) (h.slot_eq_none hst)) ?_
    (fun u hu => ⟨rfl, update_of_ne hu .., rfl, rfl, rfl, rfl, rfl⟩)
    (fun _ ho => update_of_ne ho ..) rfl rfl rfl rfl rfl rfl
  · simp only [update_self]
    exact hqueued
  · simp only [update_self]
    exact fun c hc _ => hhome c hc
  · simp only [update_self]
    exact hp

theorem wakeCancel (hst : s.status t = .blocking c) :
    Aff cpus ((s.setStatus t (.running c)).setOp o (.wakeDetach t ts)) := by
  have hnotrun : ∀ d, s.status t ≠ .running d := fun d => by simp [hst]
  refine h.relabel hown hnotrun (by simp) (fun d hd => ?_) trivial
  obtain rfl : c = d := eq_of_onCpu_running hd
  refine (h.tasks t).home c (.inr hst)
    (h.target_eq_none hown fun d hd => absurd hd (hnotrun d)) fun hreq => ?_
  -- A CPU that requeues a task has seen it running.
  have hok := hown.cpuOk c
  cases hpc : s.cpu c <;> rw [hpc] at hok hreq <;> cases hreq
  exact hnotrun _ hok

/-! ## Requests and affinity -/

/-- A task that nobody else owns gets another mask. -/
theorem store (hmask : cpus.runnableAffinity mask = true)
    (hst : ∀ c, ¬ (s.status t).onCpu c) (hmine : ∀ x, x ≠ .op o → s.owned x ≠ some t)
    (hqueued : ∀ c, s.status t = .queued c → mask.testBit c = true)
    (hp : (s.setAllowed t mask).MaskOk cpus o p) : Aff cpus ((s.setAllowed t mask).setOp o p) := by
  refine h.setAllowed hmask (h.target_eq_none hown fun c hc => absurd (.inl hc) (hst c))
    (fun o' ho' => hmine (.op o') fun heq => ho' (Holder.op.inj heq))
    (fun c hc => hmine (.cpu c) nofun (by rw [owned, hc]; rfl))
    (fun c hc => hmine (.cpu c) nofun (CpuPc.owned_of_requeues hc))
    (fun c hc => isAllowed_of_testBit ((h.tasks t).queued c hc) (hqueued c hc))
    (fun c hc => absurd hc (hst c)) hp

theorem storeBlocked (hop : s.op o = .setBlocked t mask) (hm : s.manager = none)
    (hst : s.status t = .blocked) : Aff cpus ((s.setAllowed t mask).setOp o .ready) := by
  have hfree := hown.unowned_of_blocked (fun o' => by
    rw [Op.attaching_of_locksManager (hown.locksManager_eq_false hm o')]; nofun) hst
  exact h.store hown (h.ops_at hop) (by simp [hst, onCpu]) (fun x _ => hfree x)
    (by simp [hst]) trivial

theorem storeQueued {source : ℕ} (hop : s.op o = .setQueuedAt t mask source none)
    (hst : s.status t = .queued source) : Aff cpus ((s.setAllowed t mask).setOp o .ready) := by
  obtain ⟨hmask, hchoice⟩ := h.ops_at hop
  exact h.store hown hmask (by simp [hst, onCpu])
    (fun x _ => hown.unowned_of_queued hst x)
    (fun c hc => queued.inj (hst.symm.trans hc) ▸ hchoice) trivial

theorem setMoving (hop : s.op o = .setMoving t mask target) :
    Aff cpus ((s.setAllowed t mask).setOp o (.setAttach t target)) := by
  have hst : s.status t = .migrating := hown.opOk_at hop
  obtain ⟨hmask, hrun⟩ := h.ops_at hop
  refine h.store hown hmask (by simp [hst, onCpu])
    (hown.unowned_of_ne (by rw [owned, hop]; rfl)) (by simp [hst]) ?_
  simp only [MaskOk, State.setAllowed, update_self]
  exact isAllowed_of_isRunnable hrun

theorem storeRunning (hop : s.op o = .setRunning t mask owner none)
    (hlock : s.slotLock t = none) (hnone : s.migrationTarget t = none)
    (hst : s.status t = .running owner) : Aff cpus ((s.setAllowed t mask).setOp o .ready) := by
  obtain ⟨hmask, hchoice⟩ := h.ops_at hop
  refine h.setAllowed hmask hnone (fun o' _ ho' => ?_) (fun c hc => ?_)
    (h.requeues_ne hlock) (fun c hc => ?_) (fun c hc => ?_) trivial
  · rcases hown.status_of_op ho' with ⟨hst', -⟩ | hst' | hst' <;> simp [hst] at hst'
  · grind [CpuOk, Own.cpuOk]
  · cases hst.symm.trans hc
  · have howner : owner = c := eq_of_onCpu_running (hst ▸ hc)
    exact isAllowed_of_testBit
      ((h.tasks t).home c hc hnone (h.requeues_ne hlock c)) (howner ▸ hchoice)

/-- A task changes its own mask, and carries a migration target if the mask excludes its CPU. -/
theorem setCurrentAffinity {target : Option ℕ}
    (hrun : s.cpu c = .running t) (hop : s.op (.task t) = .setCurrent mask target)
    (hlock : s.slotLock t = none) :
    Aff cpus (((((s.setSlot t none).setAllowed t mask).setMigrationTarget t target).setPhase t
      (if target.isSome then .mustYield else .awake)).setOp (.task t) (.retryDone (s.slot t))) := by
  have hawake : s.phase t = .awake := by
    have hok := hown.opOk_at hop
    exact hok t rfl
  have hst : s.status t = .running c := hown.status_of_awake hrun hawake
  have hmine := hown.unowned_of_ne (by rw [owned, hrun]; rfl)
  have hnone : s.migrationTarget t = none :=
    h.target_eq_none hown fun _ _ => .inr (by simp [hawake])
  have hallowed : cpus.isAllowed (s.cpusAllowed t) c = true :=
    (h.tasks t).home c (.inl hst) hnone (h.requeues_ne hlock c)
  obtain ⟨hmask, hchoice⟩ : cpus.runnableAffinity mask = true ∧ ChoiceOk cpus mask c target := by
    have hok := h.ops (.task t)
    rw [hop] at hok
    obtain ⟨d, hd, hchoice⟩ := hok.2 t rfl
    have hdc : d = c := by
      by_contra hne
      exact hmine (.cpu d) (fun heq => hne (Holder.cpu.inj heq)) (by rw [owned, hd]; rfl)
    exact ⟨hok.1, hdc ▸ hchoice⟩
  refine h.modify ?_ (fun o' ho' => ?_) (fun d hd => ?_) h.requests
    (fun u hu => ⟨rfl, rfl, update_of_ne hu .., update_of_ne hu .., update_of_ne hu ..,
      update_of_ne hu .., rfl⟩) le_rfl (fun _ _ _ => id) (fun _ _ _ => id) fun _ _ _ _ hc _ => hc
  · constructor
    · simp only [setOp, setPhase, setMigrationTarget, State.setAllowed, update_self]
      exact fun _ => hmask
    · exact fun d hd => absurd (hst.symm.trans hd) (by simp)
    · intro d hd htarget _
      simp only [setOp, setPhase, setMigrationTarget, State.setAllowed, update_self] at htarget ⊢
      have hdc : c = d := eq_of_onCpu_running (hst ▸ hd)
      rw [htarget] at hchoice
      exact hdc ▸ isAllowed_of_testBit hallowed hchoice
    · intro k hk
      simp only [setOp, setPhase, setMigrationTarget, State.setAllowed, update_self] at hk ⊢
      rw [hk] at hchoice ⊢
      exact ⟨rfl, isAllowed_of_isRunnable hchoice, c, by rw [setSlot, hrun]; rfl⟩
    · simp [setOp, setPhase, setMigrationTarget, State.setAllowed, setSlot]
  · by_cases ho : o' = .task t
    · rw [ho]
      simp only [setOp, update_self]
      trivial
    · simp only [setOp, update_of_ne ho] at ho'
      exact absurd (ho'.resolve_left fun hne => hne rfl) (hmine (.op o') (by simp))
  · refine absurd (hd.resolve_left fun hne => hne rfl) (h.reliesOn_ne hlock fun hstole => ?_)
    have hok := hown.cpuOk_at hstole
    cases hst.symm.trans hok

/-! ## The idle context -/

/-- A CPU gives a task that was not running another state. -/
theorem cpuRelabel {pc : CpuPc} (hold : ∀ u, (s.cpu c).owned = some u → u = t)
    (hcur : s.cpu c ≠ .running t) (hst : ∀ d, s.status t ≠ .running d) (hnq : ∀ d, st ≠ .queued d)
    (hhome : ∀ d, st.onCpu d → cpus.isAllowed (s.cpusAllowed t) d = true)
    (hpc : s.AllowedOk cpus c pc) :
    Aff cpus { s with
      status := update s.status t st
      queue := queue
      nrRunning := nrRunning
      cpu := update s.cpu c pc } := by
  refine h.cpuMove hold (fun _ _ hc => absurd hc hcur) (taskOk_plain (h.tasks t).mask ?_ ?_
    (h.target_eq_none hown fun d hd => absurd hd (hst d)) (h.slot_eq_none hst)) ?_ rfl
    (fun u hu => ⟨rfl, update_of_ne hu .., rfl, rfl, rfl, rfl, rfl⟩)
    (fun _ hd => update_of_ne hd ..) rfl rfl rfl rfl rfl
  · simp only [update_self]
    exact fun d hd => absurd hd (hnq d)
  · simp only [update_self]
    exact fun d hd _ => hhome d hd
  · simp only [update_self]
    exact hpc

/-- A task is put on its CPU; it carries no migration target. -/
theorem dispatch (hpc : s.cpu c = .claimed t) : Aff cpus (s.dispatch c t) := by
  have hst : s.status t = .running c := hown.cpuOk_at hpc
  have hnone : s.migrationTarget t = none := by grind [target_eq_none, CpuPc.carries]
  refine h.cpuMove (fun u hu => ?_) (by simp [hpc])
    { (h.tasks t) with home := fun d hd hn _ => ?_, target := fun k hk => ?_ } ?_
    rfl (fun u hu => ⟨rfl, rfl, rfl, rfl, update_of_ne hu .., rfl, rfl⟩)
    (fun _ hd => update_of_ne hd ..) rfl rfl rfl rfl rfl
  · rw [hpc] at hu
    exact (some.inj hu).symm
  · obtain rfl : c = d := eq_of_onCpu_running (hst ▸ hd)
    exact (h.tasks t).home c hd hn (by rw [hpc]; rintro ⟨⟩)
  · cases hnone.symm.trans hk
  · simp only [State.dispatch, State.setCpu, update_self]
    trivial

/-- `finish_switch_out` holds the request slot of its task, has taken the request and the migration
target, and has a mask and a CPU that fit each other. -/
theorem beginRequeue (hpc : s.cpu c = .switchOut t)
    (hst : s.status t = .running c) (hlock : s.slotLock t = none)
    (hmask : cpus.runnableAffinity mask = true) (hallowed : cpus.isAllowed mask target = true) :
    Aff cpus { s with
      cpusAllowed := update s.cpusAllowed t mask
      migrationTarget := update s.migrationTarget t none
      slot := update s.slot t none
      slotLock := update s.slotLock t (some (.idle c))
      cpu := update s.cpu c (.requeue t target r) } := by
  have hmine := hown.unowned_of_ne (by rw [owned, hpc]; rfl)
  refine h.modify (taskOk_plain ?_ ?_ ?_ ?_ ?_) (fun o ho => ?_) (fun d hd => ?_) h.requests
    (fun u hu => ⟨rfl, rfl, update_of_ne hu .., update_of_ne hu .., rfl, update_of_ne hu ..,
      update_of_ne hu ..⟩) le_rfl (by grind [CpuPc.carries]) (by grind [CpuPc.requeues]) (by grind)
  any_goals exact update_self ..
  · simp only [update_self]
    exact fun _ => hmask
  · exact fun d hd => absurd (hst.symm.trans hd) (by simp)
  · simp [hst, onCpu, CpuPc.requeues]
  · exact absurd (ho.resolve_left fun hne => hne rfl) (hmine (.op o) (by simp))
  · grind [AllowedOk, reliesOn_ne, CpuOk, Own.cpuOk]

theorem requeue (hpc : s.cpu c = .requeue t target r) :
    Aff cpus (((s.setStatus t (.queued target)).pushBack target t).setCpu c (.requeued t r)) := by
  have hst : s.status t = .running c := hown.cpuOk_at hpc
  obtain ⟨hallowed, hlock⟩ : cpus.isAllowed (s.cpusAllowed t) target = true ∧
      s.slotLock t = some (.idle c) := by
    have hok := h.pcs c
    rw [hpc] at hok
    exact hok
  have hnone : s.migrationTarget t = none := by grind [target_eq_none, CpuPc.carries]
  refine h.cpuMove (fun u hu => ?_) (by simp [hpc])
    (taskOk_plain (h.tasks t).mask ?_ ?_ hnone (h.slot_eq_none_of_lock hlock)) ?_ rfl
    (fun u hu => ⟨rfl, update_of_ne hu .., rfl, rfl, rfl, rfl, rfl⟩)
    (fun _ hd => update_of_ne hd ..) rfl rfl rfl rfl rfl
  · rw [hpc] at hu
    exact (some.inj hu).symm
  · simp only [State.setCpu, pushBack, setStatus, setQueue, update_self]
    exact fun d hd => queued.inj hd ▸ hallowed
  · simp only [State.setCpu, pushBack, setStatus, setQueue, update_self]
    intro d hd
    rcases hd with hd | hd <;> cases hd
  · simp only [State.setCpu, update_self]
    exact hlock

theorem bury {zombies : ℕ → List ℕ} (hpc : s.cpu c = .switchOut t) (hst : s.status t = .zombie) :
    Aff cpus
      (({ s.setMigrationTarget t none with zombies := zombies } : State).setCpu c .idle) := by
  have hnone : s.migrationTarget t = none :=
    h.target_eq_none hown fun d hd => absurd (hst.symm.trans hd) (by simp)
  refine h.cpuMove (fun u hu => ?_) (by simp [hpc]) (taskOk_plain (h.tasks t).mask
    (h.tasks t).queued (fun d hd _ => ?_) (update_self ..) (h.slot_eq_none fun d => by simp [hst]))
    ?_ (update_eq_self_iff.mpr hnone.symm)
    (fun u hu => ⟨rfl, rfl, rfl, update_of_ne hu .., rfl, rfl, rfl⟩)
    (fun _ hd => update_of_ne hd ..) rfl rfl rfl rfl rfl
  · rw [hpc] at hu
    exact (some.inj hu).symm
  · rcases hst ▸ hd with hd | hd <;> cases hd
  · simp only [State.setCpu, update_self]
    trivial

/-! ## Calls -/

/-- A task goes to sleep or exits, and takes the request out of its slot. -/
theorem leave {ph : Phase} {registry : List ℕ} {m : Option Ctx}
    (hpc : s.cpu c = .running t) (hawake : s.phase t = .awake) (hnq : ∀ d, st ≠ .queued d)
    (hon : ∀ d, st.onCpu d → d = c) (hp : ∀ s' : State, s'.MaskOk cpus (.task t) p) :
    Aff cpus (((({ s.setStatus t st with registry := registry, manager := m } : State).setSlot t
      none).setOp (.task t) p).setPhase t ph) := by
  have hst := hown.status_of_awake hpc hawake
  have hnone : s.migrationTarget t = none :=
    h.target_eq_none hown fun _ _ => .inr (by simp [hawake])
  refine h.opMove (taskOk_plain (h.tasks t).mask ?_ ?_ hnone (update_self ..)) ?_
    (fun u hu => ⟨rfl, update_of_ne hu .., rfl, rfl, update_of_ne hu .., update_of_ne hu ..,
      rfl⟩) (fun _ ho => update_of_ne ho ..) rfl rfl rfl rfl rfl rfl
  · simp only [setPhase, setOp, setSlot, setStatus, update_self]
    exact fun d hd => absurd hd (hnq d)
  · simp only [setPhase, setOp, setSlot, setStatus, update_self]
    intro d hd hno
    obtain rfl := hon d hd
    exact (h.tasks t).home d (.inl hst) hnone hno
  · simp only [setPhase, setOp, update_self]
    exact hp _

/-- A context builds a task with a mask that allows the CPU it has chosen. -/
theorem create {cpu : ℕ} (hcr : s.created t = false) (hmask : cpus.runnableAffinity mask = true)
    (hallowed : cpus.isAllowed mask cpu = true) :
    Aff cpus { (s.setAllowed t mask).setOp o (.publish t cpu) with
      created := update s.created t true } := by
  have hst : s.status t = .new := hown.fresh t hcr
  have hfree : ∀ x, s.owned x ≠ some t := fun x hx =>
    absurd (hcr.symm.trans (hown.created_of_owned hx)) (by simp)
  have hnotrun : ∀ d, s.status t ≠ .running d := fun d => by simp [hst]
  refine h.modify
    (taskOk_plain ?_ (fun d hd => absurd (hst.symm.trans hd) (by simp)) (fun d hd _ => ?_)
      (h.target_eq_none hown fun d hd => absurd hd (hnotrun d)) (h.slot_eq_none hnotrun))
    (fun o' ho' => ?_) (fun d hd => ?_) h.requests
    (fun u hu => ⟨update_of_ne hu .., rfl, update_of_ne hu .., rfl, rfl, rfl, rfl⟩) le_rfl
    (fun _ _ _ => id) (fun _ _ _ => id) fun _ _ _ _ hc _ => hc
  · simp only [setOp, State.setAllowed, update_self]
    exact fun _ => hmask
  · rcases hst ▸ hd with hd | hd <;> cases hd
  · by_cases ho : o' = o
    · rw [ho]
      simp only [setOp, update_self, MaskOk, State.setAllowed]
      exact hallowed
    · simp only [setOp, update_of_ne ho] at ho'
      exact absurd (ho'.resolve_left fun hne => hne rfl) (hfree (.op o'))
  · have hd' : (s.cpu d).reliesOn = some t := hd.resolve_left fun hne => hne rfl
    have hok := h.pcs d
    change AllowedOk cpus _ d (s.cpu d)
    cases hpc : s.cpu d <;> rw [hpc] at hd' hok
    case requeued u r => exact hok
    case stole u => exact absurd (by rw [owned, hpc]; exact hd') (hfree (.cpu d))
    case requeue u target r => exact absurd (by rw [owned, hpc]; exact hd') (hfree (.cpu d))
    all_goals cases hd'

/-- **Every move respects the masks.** -/
theorem perform {r : Except Panic State} (hmove : s.Move cpus c r) : KeepsAff cpus r := by
  obtain ⟨s', rfl⟩ := hmove.eq_ok
  change Aff cpus s'
  cases hmove with
  | goOn _ _ _ _ hmask => exact h.stepOp hmask
  | answer => exact h.answered.stepOp trivial
  | enqueue ho _ _ _ hmask _ hallowed =>
    refine h.relabel hown (fun e => ?_) (fun e he => queued.inj he ▸ hallowed)
      (by simp [onCpu]) hmask
    rcases hown.status_of_op ho with ⟨hst, -⟩ | hst | hst <;> simp [hst]
  | wakeBlocked | wakeDetach | abandon => exact h.stepOp trivial
  | wakeCancel hop hst => exact h.wakeCancel hown hst
  | wakeSelect hop hk => exact h.stepOp (isAllowed_of_isRunnable hk)
  | storeBlocked hop hm hst => exact h.storeBlocked hown hop hm hst
  | storeQueued hop hst => exact h.storeQueued hown hop hst
  | storeRunning hop hlock hnone hst => exact h.storeRunning hown hop hlock hnone hst
  | detachQueued hop hi =>
    have hst := (hown.queues.mem_iff ..).mp (List.mem_of_getElem? hi)
    have hok := h.ops_at hop
    exact h.relabel hown (by simp [hst]) (by simp) (by simp [onCpu]) hok
  | setMoving hop => exact h.setMoving hown hop
  | postRequest hop hlock hnone hst =>
    obtain ⟨hmask, hchoice⟩ := h.ops_at hop
    exact h.postRequest hmask hchoice hlock hnone hst
  | setCurrent hpc hop hlock => exact h.setCurrentAffinity hown hpc hop hlock
  | create _ _ hnew hmask hallowed => exact h.create hown hnew hmask hallowed
  | beginCurrent hpc hop hawake hmask hchoice =>
    refine h.stepOp ⟨hmask, fun v hv => ⟨c, ?_, hchoice⟩⟩
    rw [← Ctx.task.inj hv]
    exact hpc
  | sleep hpc hop hawake =>
    exact h.leave hown hpc hawake (by simp) (by simp [onCpu, eq_comm]) fun _ => trivial
  | exit hpc hop hawake =>
    exact h.leave hown hpc hawake (by simp) (by simp [onCpu]) fun _ => trivial
  | reap =>
    exact ⟨fun u => (h.tasks u).congr ⟨rfl, rfl, rfl, rfl, rfl, rfl, rfl⟩ le_rfl (fun _ => id)
      fun _ => id, h.ops, h.pcs, h.requests⟩
  | idle hold hready hpc =>
    refine h.setCpu (fun u hu => ?_) ?_ (fun u _ _ hu => ?_)
      (by rcases hpc with rfl | rfl <;> trivial)
    · simp [CpuPc.owned_of_carries hu] at hold
    · by_contra hne
      obtain ⟨u, hu⟩ := ne_none_iff_exists'.mp hne
      simp [CpuPc.owned_of_requeues hu] at hold
    · simp [hu, CpuPc.owned] at hold
  | fetch hpc hready hi =>
    have hst := (hown.queues.mem_iff ..).mp (List.mem_of_getElem? hi)
    refine h.cpuRelabel hown (by rw [hpc]; rintro _ ⟨⟩) (by simp [hpc])
      (by simp [hst]) (by simp) (fun d hd => ?_) trivial
    exact eq_of_onCpu_running hd ▸ (h.tasks _).queued c hst
  | steal hpc hi hallowed hnone =>
    have hst := (hown.queues.mem_iff ..).mp (List.mem_of_getElem? hi)
    exact h.cpuRelabel hown (by rw [hpc]; rintro _ ⟨⟩) (by simp [hpc])
      (by simp [hst]) (by simp) (by simp [onCpu]) ⟨hallowed, hnone⟩
  | claimStolen hpc =>
    have hst := hown.cpuOk_at hpc
    have hallowed := h.pcs c
    rw [hpc] at hallowed
    refine h.cpuRelabel hown (fun u hu => ?_) (by simp [hpc])
      (fun d => by rw [hst]; simp) (by simp) (fun d hd => ?_) trivial
    · rw [hpc] at hu
      exact (some.inj hu).symm
    · exact eq_of_onCpu_running hd ▸ hallowed.1
  | dispatch hpc => exact h.dispatch hown hpc
  | switch hpc hop =>
    refine h.setCpu (by rw [hpc]; exact fun _ => id) (by rw [hpc]; rfl) (fun u _ _ hu hset => ?_)
      trivial
    grind [Op.yields]
  | takeCurrent hpc =>
    exact h.setCpu (by rw [hpc]; exact fun _ => id) (by rw [hpc]; rfl) (by simp [hpc]) trivial
  | beginRequeue hpc hst hlock hmask hallowed =>
    exact h.beginRequeue hown hpc hst hlock hmask hallowed
  | block hpc hst =>
    refine h.cpuRelabel hown (fun u hu => ?_) (by simp [hpc]) (by simp [hst])
      (by simp) (by simp [onCpu]) trivial
    rw [hpc] at hu
    exact (some.inj hu).symm
  | bury hpc hst => exact h.bury hown hpc hst
  | requeue hpc => exact h.requeue hown hpc
  | requeued hpc => exact h.answered.requeued hpc

end Aff
end MangoCore.Task
