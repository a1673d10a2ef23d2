import MangoCore.Task.SchedulerAffinity
import MangoCore.Task.SchedulerRequests

/-!
# What a step does

`Move` lists what the code of the scheduler does to a state in which every task has its owner, masks
are respected and no request has two keepers.  In such a state all checks of the code are decided,
so that every step is one of these moves and none of them is a panic (`Sound.move_of_perform`).  The
invariants are then shown for the moves; here for ownership and for the requests, and for the masks
in `SchedulerMasks`.
-/

namespace MangoCore.Task

open Function CpuPc Option

/-- The panics that are about masks and requests, and not about who owns a task. -/
def Panic.affinity : Panic → Bool
  | .disallowedCpu | .noRunnableCpu | .migrationPending | .completedTwice => true
  | _ => false

/-- A result that keeps ownership. -/
abbrev KeepsOwn (r : Except Panic State) : Prop :=
  Outcome (fun s => Own s.toPlaces) (fun p => p.affinity = true) r

namespace State

/-- What every step of an orderly run keeps. -/
structure Sound (cpus : Cpus) (s : State) : Prop where
  own : Own s.toPlaces
  aff : Aff cpus s
  req : Req s

/-- **What a step of the CPU `c` does** to a sound state. -/
inductive Move (cpus : Cpus) (s : State) (c : ℕ) : Except Panic State → Prop
  /-- A context goes on to another point of the code, with or without the lock of the task manager.
  -/
  | goOn {o p m} (hidle : ∀ d, o = .idle d → s.cpu d = .idle)
      (hold : (s.op o).plain = true) (hp : p.plain = true) (hreq : p.request = none)
      (hmask : s.MaskOk cpus o p) (hlock : p.locksManager = true → m = some o)
      (hm : ∀ o', o' ≠ o → (s.op o').locksManager = true → m = some o') :
      Move cpus s c (.ok (({ s with manager := m } : State).setOp o p))
  /-- A context answers the request that it has taken out of a slot. -/
  | answer {o r m} (hr : (s.op o).request = r)
      (hidle : ∀ d, o = .idle d → s.cpu d = .idle) (hold : (s.op o).plain = true)
      (hm : ∀ o', o' ≠ o → (s.op o').locksManager = true → m = some o') :
      Move cpus s c (.ok (({ s.answered r .retry with manager := m } : State).setOp o .ready))
  /-- The task that a context owns enters a run queue. -/
  | enqueue {o t d q p} (ho : (s.op o).owned = some t)
      (hq : q.Perm (t :: s.queue d)) (hp : p.plain = true) (hreq : p.request = none)
      (hmask : s.MaskOk cpus o p) (hlock : p.locksManager = true → (s.op o).locksManager = true)
      (hallowed : cpus.isAllowed (s.cpusAllowed t) d = true) :
      Move cpus s c (.ok (({ s with
        status := update s.status t (.queued d)
        queue := update s.queue d q
        nrRunning := update s.nrRunning d (s.nrRunning d + 1) } : State).setOp o p))
  | wakeBlocked {o t ts} (hop : s.op o = .wakeNext (t :: ts))
      (hst : s.status t = .blocked) : Move cpus s c (.ok (s.setOp o (.wakeSelect t ts)))
  | wakeCancel {o t d ts} (hop : s.op o = .wakeCancel t d ts)
      (hst : s.status t = .blocking d) :
      Move cpus s c (.ok ((s.setStatus t (.running d)).setOp o (.wakeDetach t ts)))
  | wakeDetach {o t ts} (hop : s.op o = .wakeDetach t ts) :
      Move cpus s c (.ok (({ s with registry := s.registry.filter fun u => u != t } : State).setOp o
        (.wakeNext ts)))
  | wakeSelect {o t k ts} (hop : s.op o = .wakeSelect t ts)
      (hk : cpus.isRunnable (s.cpusAllowed t) k = true) :
      Move cpus s c (.ok (({ s with registry := s.registry.filter fun u => u != t } : State).setOp o
        (.wakeEnqueue t k ts)))
  /-- A new mask, for a sleeper, for a queued and for a running task. -/
  | storeBlocked {o t mask} (hop : s.op o = .setBlocked t mask)
      (hm : s.manager = none) (hst : s.status t = .blocked) :
      Move cpus s c (.ok ((s.setAllowed t mask).setOp o .ready))
  | storeQueued {o t mask source} (hop : s.op o = .setQueuedAt t mask source none)
      (hst : s.status t = .queued source) :
      Move cpus s c (.ok ((s.setAllowed t mask).setOp o .ready))
  | storeRunning {o t mask owner} (hop : s.op o = .setRunning t mask owner none)
      (hlock : s.slotLock t = none) (hnone : s.migrationTarget t = none)
      (hst : s.status t = .running owner) :
      Move cpus s c (.ok ((s.setAllowed t mask).setOp o .ready))
  | detachQueued {o t mask source target i}
      (hop : s.op o = .setQueuedAt t mask source (some target))
      (hi : (s.queue source)[i]? = some t) :
      Move cpus s c (.ok (((s.setStatus t .migrating).dequeueAt source i).setOp o
        (.setMoving t mask target)))
  | setMoving {o t mask target} (hop : s.op o = .setMoving t mask target) :
      Move cpus s c (.ok ((s.setAllowed t mask).setOp o (.setAttach t target)))
  | postRequest {o t mask owner target}
      (hop : s.op o = .setRunning t mask owner (some target)) (hlock : s.slotLock t = none)
      (hnone : s.migrationTarget t = none) (hst : s.status t = .running owner) :
      Move cpus s c
        (.ok ((s.postRequest t mask target).setOp o (.waitApplied s.nextRequest t mask)))
  | setCurrent {t mask target} (hpc : s.cpu c = .running t)
      (hop : s.op (.task t) = .setCurrent mask target) (hlock : s.slotLock t = none) :
      Move cpus s c (.ok (((((s.setSlot t none).setAllowed t mask).setMigrationTarget t
        target).setPhase t (if target.isSome then .mustYield else .awake)).setOp (.task t)
          (.retryDone (s.slot t))))
  /-- Calls. -/
  | create {o t mask cpu} (hop : s.op o = .ready)
      (hidle : ∀ d, o = .idle d → s.cpu d = .idle) (hnew : s.created t = false)
      (hmask : cpus.runnableAffinity mask = true) (hallowed : cpus.isAllowed mask cpu = true) :
      Move cpus s c (.ok { (s.setAllowed t mask).setOp o (.publish t cpu) with
        created := update s.created t true })
  | abandon {o t cpu} (hop : s.op o = .publish t cpu) :
      Move cpus s c (.ok (s.setOp o .ready))
  | beginCurrent {t mask target} (hpc : s.cpu c = .running t)
      (hop : s.op (.task t) = .ready) (hawake : s.phase t = .awake)
      (hmask : cpus.runnableAffinity mask = true) (hchoice : ChoiceOk cpus mask c target) :
      Move cpus s c (.ok (s.setOp (.task t) (.setCurrent mask target)))
  | sleep {t} (hpc : s.cpu c = .running t) (hop : s.op (.task t) = .ready)
      (hawake : s.phase t = .awake) (hm : s.manager = none) :
      Move cpus s c (.ok (((({ s.setStatus t (.blocking c) with
        registry := s.registry ++ [t], manager := some (.task t) } : State).setSlot t none).setOp
          (.task t) (.sleepDone (s.slot t))).setPhase t .slept))
  | exit {t} (hpc : s.cpu c = .running t) (hop : s.op (.task t) = .ready)
      (hawake : s.phase t = .awake) :
      Move cpus s c (.ok ((((s.setStatus t .zombie).setSlot t none).setOp (.task t)
        (.retryDone (s.slot t))).setPhase t .exited))
  | reap {rest} : Move cpus s c (.ok { s with zombies := update s.zombies c rest })
  /-- A CPU without a task. -/
  | idle {pc} (hold : (s.cpu c).owned = none) (hready : s.op (.idle c) = .ready)
      (hpc : pc = .idle ∨ pc = .stealing) : Move cpus s c (.ok (s.setCpu c pc))
  | fetch {t i} (hpc : s.cpu c = .idle) (hready : s.op (.idle c) = .ready)
      (hi : (s.queue c)[i]? = some t) :
      Move cpus s c (.ok (((s.dequeueAt c i).setStatus t (.running c)).setCpu c (.claimed t)))
  | steal {t victim i} (hpc : s.cpu c = .stealing) (hi : (s.queue victim)[i]? = some t)
      (hallowed : cpus.isAllowed (s.cpusAllowed t) c = true) (hnone : s.migrationTarget t = none) :
      Move cpus s c (.ok (((s.setStatus t .migrating).dequeueAt victim i).setCpu c (.stole t)))
  | claimStolen {t} (hpc : s.cpu c = .stole t) :
      Move cpus s c (.ok ((s.setStatus t (.running c)).setCpu c (.claimed t)))
  /-- A task is put on its CPU and leaves it. -/
  | dispatch {t} (hpc : s.cpu c = .claimed t) : Move cpus s c (.ok (s.dispatch c t))
  | switch {t} (hpc : s.cpu c = .running t) (hop : (s.op (.task t)).yields = true) :
      Move cpus s c (.ok (s.setCpu c (.leaving t)))
  | takeCurrent {t} (hpc : s.cpu c = .leaving t) :
      Move cpus s c (.ok ((s.setCurrent c none).setCpu c (.switchOut t)))
  /-- The mask and the CPU of a task that goes to a run queue come from its request, or from the
  task itself. -/
  | beginRequeue {t mask target} (hpc : s.cpu c = .switchOut t)
      (hst : s.status t = .running c) (hlock : s.slotLock t = none)
      (hmask : cpus.runnableAffinity mask = true) (hallowed : cpus.isAllowed mask target = true) :
      Move cpus s c (.ok { s with
        cpusAllowed := update s.cpusAllowed t mask
        migrationTarget := update s.migrationTarget t none
        slot := update s.slot t none
        slotLock := update s.slotLock t (some (.idle c))
        cpu := update s.cpu c (.requeue t target (s.slot t)) })
  | block {t} (hpc : s.cpu c = .switchOut t) (hst : s.status t = .blocking c) :
      Move cpus s c (.ok ((s.setStatus t .blocked).setCpu c (.clearing t)))
  | bury {t} (hpc : s.cpu c = .switchOut t) (hst : s.status t = .zombie) :
      Move cpus s c (.ok (({ s.setMigrationTarget t none with
        zombies := update s.zombies c (s.zombies c ++ [t]) } : State).setCpu c .idle))
  | requeue {t target r} (hpc : s.cpu c = .requeue t target r) :
      Move cpus s c
        (.ok (((s.setStatus t (.queued target)).pushBack target t).setCpu c (.requeued t r)))
  | requeued {t r} (hpc : s.cpu c = .requeued t r) :
      Move cpus s c (.ok (((s.answered r .applied).setSlotLock t none).setCpu c .idle))

theorem Move.eq_ok {cpus : Cpus} {s : State} {c : ℕ} {r : Except Panic State}
    (h : s.Move cpus c r) : ∃ s', r = .ok s' := by
  cases h <;> exact ⟨_, rfl⟩

end State

namespace Own

open State

variable {s : State} {o : Ctx} {t c : ℕ} {ts : List ℕ} {ph : Phase}

/-- The states of a task whose switch is not finished. -/
theorem status_of_allows {st : TaskStatus} (h : ph.allows c st) :
    st = .running c ∨ st = .blocking c ∨ st = .zombie := by
  cases ph <;> simp only [Phase.allows] at h <;> tauto

variable (h : Own s.toPlaces) {r : Option ℕ}
include h

/-- A task that is executed and has called nothing is running on its CPU. -/
theorem status_of_awake (hpc : s.cpu c = .running t)
    (hawake : s.phase t = .awake) : s.status t = .running c := by
  have hallows := (h.cpuOk_at hpc).2
  rwa [hawake] at hallows

/-- While a waker is about to wake a task, no task is between the registry and a run queue. -/
theorem moves_eq_none (hop : s.op o = .wakeSelect t ts) (o' : Ctx) :
    (s.op o').attaching = none ∧ (s.op o').detaching = none := by
  by_cases hl : (s.op o').locksManager = true
  · rw [h.locksManager_unique (by rw [hop]; rfl) hl, hop]
    exact ⟨rfl, rfl⟩
  · grind [Op.attaching_of_locksManager, Op.detaching_of_locksManager]

theorem mem_registry_of_wakeSelect (hop : s.op o = .wakeSelect t ts) : t ∈ s.registry := by
  have hst : s.status t = .blocked := h.opOk_at hop
  refine (h.registry.mem_iff t).mpr (.inl ⟨by rw [hst]; rfl, fun o' => ?_⟩)
  rw [(h.moves_eq_none hop o').1]
  nofun

theorem created_of_blocked (hst : s.status t = .blocked) : s.created t = true := by
  grind [h.fresh t]

/-- The CPU goes on with its task, whose state does not change. -/
theorem keepTask {pc : CpuPc} (hown : (s.cpu c).owned = some t)
    (hp : pc.owned = some t) (hheld : (s.cpu c).holds = some t → pc.holds = some t)
    (hok : s.CpuOk c pc) : Own (s.setCpu c pc).toPlaces := by
  have hself : update s.status t (s.status t) = s.status := update_eq_self t _
  have hmove := h.cpuStep pc (s.status t) hown
    (fun u hu => (some.inj (hp.symm.trans hu)).symm) (hself.symm ▸ h.queues) rfl
  simp only [hself] at hmove
  refine hmove hok fun d hd => ?_
  have hd' := h.cover d t hd
  have hdc : d = c := h.cpu_unique hown (owned_of_holds hd')
  exact ⟨hdc, hheld (hdc ▸ hd')⟩

/-- A sleeper is chosen to be woken and leaves the registry. -/
theorem wakeSelect (hop : s.op o = .wakeSelect t ts) {k : ℕ} :
    Own (({ s with registry := s.registry.filter fun u => u != t } : State).setOp o
      (.wakeEnqueue t k ts)).toPlaces := by
  have hlocked : (s.op o).locksManager = true := by rw [hop]; rfl
  have hst : s.status t = .blocked := h.opOk_at hop
  have hnone := h.moves_eq_none hop
  refine h.opAcquire (fun x _ => h.unowned_of_blocked (fun o' => by rw [(hnone o').1]; nofun) hst x)
    rfl (fun d => by rw [hst]; exact ⟨nofun, nofun⟩) (h.cpu_idle (by rw [hop]; nofun))
    (h.created_of_blocked hst) (fun _ => h.lock o hlocked)
    (h.registry.erase (.inr ⟨o, by simp only [update_self]; rfl⟩) ?_ ?_ ?_) hst
  · grind [Op.attaching]
  all_goals grind [Op.detaching]

/-- A woken task leaves the registry. -/
theorem wakeDetach (hop : s.op o = .wakeDetach t ts) :
    Own (({ s with registry := s.registry.filter fun u => u != t } : State).setOp o
      (.wakeNext ts)).toPlaces := by
  have hlocked : (s.op o).locksManager = true := by rw [hop]; rfl
  refine h.setOp (h.registry.erase (.inl (h.opOk_at hop)) ?_ ?_ ?_) rfl (Places.opOk_of_plain rfl)
    (h.cpu_idle (by rw [hop]; nofun)) (fun _ => h.lock o hlocked) fun o' _ hl => h.lock o' hl
  · grind [Op.attaching]
  · grind [Op.detaching]
  · grind [Op.detaching, Op.detaching_of_locksManager, h.locksManager_unique hlocked]

/-- `set_current_affinity` changes neither the state of the task nor a container. -/
theorem setCurrentAffinity {mask : ℕ} {target : Option ℕ}
    (hpc : s.cpu c = .running t) (hop : s.op (.task t) = .setCurrent mask target)
    (hph : ph.allows c (.running c)) :
    Own { s.toPlaces with
      phase := update s.phase t ph
      op := update s.op (.task t) (.retryDone r) } := by
  have hst : s.status t = .running c := h.status_of_awake hpc (h.opOk_at hop t rfl)
  have hself : update s.status t (.running c) = s.status := by
    rw [← hst, update_eq_self]
  have hmove := h.taskMove (p := .retryDone r) (.running c) ph s.registry s.manager hpc rfl
    hph nofun (fun d hd => ?_) nofun (fun o' _ hl => h.lock o' hl) nofun (by rw [hst]; nofun) ?_
  · rw [hself] at hmove
    exact hmove
  · simpa [eq_comm] using hd
  · rw [hself]
    exact h.registry_setOp (by rw [hop]; rfl) (by rw [hop]; rfl) rfl rfl

theorem dispatch (hpc : s.cpu c = .claimed t) : Own (s.dispatch c t).toPlaces := by
  have hown : (s.cpu c).owned = some t := by rw [hpc]; rfl
  have hst : s.status t = .running c := h.cpuOk_at hpc
  have hself : update s.status t (.running c) = s.status := by
    rw [← hst, update_eq_self]
  have hmove := h.cpuMove (.running t) (.running c) (some t) (h.unowned_of_ne hown)
    (fun u hu => (some.inj (hown.symm.trans hu)).symm)
    (fun u hu => (some.inj hu).symm) (h.idleOp c (by rw [hpc]; nofun))
    (h.created_of_owned (x := .cpu c) hown) (hself.symm ▸ h.queues) (by rw [hst])
    (by rw [hst]; nofun) (.inr rfl) ?_ ?_
  · rw [hself] at hmove
    exact hmove
  · simp only [Places.CpuOk, update_self, true_and]
    rfl
  · simp [holds]

/-- The idle context takes the task that has left the CPU. -/
theorem takeCurrent (hpc : s.cpu c = .leaving t) :
    Own ((s.setCurrent c none).setCpu c (.switchOut t)).toPlaces := by
  have hok := h.cpuOk_at hpc
  have hown : (s.cpu c).owned = some t := by rw [hpc]; rfl
  have hself : update s.status t (s.status t) = s.status := update_eq_self t _
  have hnb : s.status t ≠ .blocked := by
    rcases h.status_of_cpu hown with hst | hst | hst | hst <;> simp [hst]
  have hmove := h.cpuMove (.switchOut t) (s.status t) none (h.unowned_of_ne hown)
    (fun u hu => (some.inj (hown.symm.trans hu)).symm)
    (fun u hu => (some.inj hu).symm) (h.idleOp c (by rw [hpc]; nofun))
    (h.created_of_owned (x := .cpu c) hown) (hself.symm ▸ h.queues) rfl hnb (.inl rfl)
  simp only [update_eq_self] at hmove
  refine hmove hok.2 fun d hd => ⟨?_, rfl⟩
  exact h.cpu_unique hown (owned_of_holds (h.cover d t hd))

section

variable (hpc : s.cpu c = .running t) (hop : s.op (.task t) = .ready) (hawake : s.phase t = .awake)
include hpc hop hawake

theorem sleep (hm : s.manager = none) :
    Own { s.toPlaces with
      status := update s.status t (.blocking c)
      phase := update s.phase t .slept
      registry := s.registry ++ [t]
      manager := some (.task t)
      op := update s.op (.task t) (.sleepDone r) } := by
  have hst : s.status t = .running c := h.status_of_awake hpc hawake
  have hfree : ∀ o, (s.op o).locksManager = false := h.locksManager_eq_false hm
  refine h.taskMove (.blocking c) .slept (s.registry ++ [t]) (some (.task t)) hpc rfl (.inr rfl)
    nofun (fun d hd => ?_) (fun _ => rfl) (fun o _ hl => ?_) (fun _ => hfree) (by rw [hst]; nofun)
    (h.registry.push (by rw [hst]; rfl) (fun o => ?_) (fun o => ?_) fun o => ?_)
  · simpa [eq_comm] using hd
  · simp [hfree o] at hl
  · grind [Op.attaching]
  · grind [Op.detaching]
  · grind [Op.attaching_of_locksManager, Op.detaching_of_locksManager]

theorem exit :
    Own { s.toPlaces with
      status := update s.status t .zombie
      phase := update s.phase t .exited
      op := update s.op (.task t) (.retryDone r) } := by
  have hst : s.status t = .running c := h.status_of_awake hpc hawake
  refine h.taskMove .zombie .exited s.registry s.manager hpc rfl rfl nofun nofun nofun
    (fun o _ hl => h.lock o hl) nofun (by rw [hst]; nofun) ?_
  refine (h.registry_relabel (by rw [hst]; rfl)).congr (fun _ => rfl) (fun o => ?_) fun o => ?_ <;>
    grind [Op.attaching, Op.detaching]

end

/-- **Every move keeps ownership.** -/
theorem perform {cpus : Cpus} {r : Except Panic State} (hmove : s.Move cpus c r) : KeepsOwn r := by
  obtain ⟨s', rfl⟩ := hmove.eq_ok
  change Own s'.toPlaces
  -- a context at a plain point goes on to `ready`, and nothing changes that ownership depends on
  have hplain {o : Ctx} {q : Op} (hop : s.op o = q) (hq : q.plain = true) (hbusy : q ≠ .ready) :
      Own (s.setOp o .ready).toPlaces := by
    subst hop
    exact h.stepOp hq rfl (h.cpu_idle hbusy) nofun fun o' _ hl => h.lock o' hl
  cases hmove with
  | goOn hidle hold hp _ _ hlock hm => exact h.stepOp hold hp hidle hlock hm
  | answer _ hidle hold hm => exact h.stepOp hold rfl hidle nofun hm
  | enqueue ho hq hp _ _ hlock => exact h.opEnqueue ho hq hp hlock
  | wakeBlocked hop hst =>
    refine h.setOp (h.registry_setOp (by rw [hop]; rfl) (by rw [hop]; rfl) rfl rfl) rfl hst
      (h.cpu_idle (by rw [hop]; nofun)) (fun _ => h.lock _ (by rw [hop]; rfl))
      fun o' _ hl => h.lock o' hl
  | wakeCancel hop hst =>
    exact h.cancel (by rw [hop]; rfl) (by rw [hop]; rfl) (by rw [hop]; rfl) hst
  | wakeDetach hop => exact h.wakeDetach hop
  | wakeSelect hop => exact h.wakeSelect hop
  | storeBlocked hop => exact hplain hop rfl nofun
  | storeQueued hop => exact hplain hop rfl nofun
  | storeRunning hop => exact hplain hop rfl nofun
  | detachQueued hop hi =>
    exact h.opDequeue hi (by rw [hop]; rfl) (by rw [hop]; nofun) rfl rfl (update_self _ _ s.status)
  | setMoving hop =>
    have hst := h.opOk_at hop
    have hown := congrArg Op.owned hop
    exact h.opAcquire (h.unowned_of_ne hown) rfl (fun d => by rw [hst]; exact ⟨nofun, nofun⟩)
      (h.cpu_idle (by rw [hop]; nofun)) (h.created_of_owned (x := .op _) hown) nofun
      (h.registry_setOp (by rw [hop]; rfl) (by rw [hop]; rfl) rfl rfl) hst
  | postRequest hop =>
    exact h.stepOp (by rw [hop]; rfl) rfl (h.cpu_idle (by rw [hop]; nofun)) nofun
      fun o' _ hl => h.lock o' hl
  | setCurrent hpc hop => exact h.setCurrentAffinity hpc hop (by split_ifs <;> rfl)
  | @create _ t _ _ hop hidle hnew =>
    have h' := h.setCreated t
    have hst := h.fresh t hnew
    have hself := update_self t true s.created
    refine h'.opAcquire (fun x _ hx => ?_) rfl (fun d => by simp [hst]) hidle hself nofun
      (h'.registry_setOp (by rw [hop]; rfl) (by rw [hop]; rfl) rfl rfl) ⟨hst, hself⟩
    simp [h.created_of_owned hx] at hnew
  | abandon hop =>
    exact h.setOp (h.registry_setOp (by rw [hop]; rfl) (by rw [hop]; rfl) rfl rfl) rfl
      trivial (h.cpu_idle (by rw [hop]; nofun)) nofun fun o' _ hl => h.lock o' hl
  | beginCurrent hpc hop hawake =>
    refine h.setOp (h.registry_setOp (by rw [hop]; rfl) (by rw [hop]; rfl) rfl rfl) rfl ?_ nofun
      nofun fun o' _ hl => h.lock o' hl
    rintro v hv
    rw [← Ctx.task.inj hv]
    exact hawake
  | sleep hpc hop hawake hm => exact h.sleep hpc hop hawake hm
  | exit hpc hop hawake => exact h.exit hpc hop hawake
  | reap => exact h
  | idle hold hready hpc =>
    exact h.setCpu _ hold (by rcases hpc with rfl | rfl <;> rfl) hready
  | fetch hpc hready hi =>
    refine h.cpuDequeue (.claimed _) (.running c) hi (by rw [hpc]; rfl) hready rfl rfl nofun
      (update_self _ _ s.status) fun d hd => ?_
    simp only [reduceCtorEq, or_false, TaskStatus.running.injEq] at hd
    exact ⟨hd.symm, rfl⟩
  | steal hpc hi =>
    exact h.cpuDequeue (.stole _) .migrating hi (by rw [hpc]; rfl)
      (h.idleOp c (by rw [hpc]; nofun)) rfl rfl nofun (update_self _ _ s.status) nofun
  | claimStolen hpc =>
    have hown := congrArg owned hpc
    have hst := h.cpuOk_at hpc
    refine h.cpuStep (.claimed _) (.running c) hown (fun u hu => (some.inj hu).symm)
      (h.queues.relabel (h.not_queued (x := .cpu c) hown) nofun) (by rw [hst]; rfl)
      (update_self _ _ s.status) fun d hd => ?_
    simp only [reduceCtorEq, or_false, TaskStatus.running.injEq] at hd
    exact ⟨hd.symm, rfl⟩
  | dispatch hpc => exact h.dispatch hpc
  | switch hpc =>
    have hok := h.cpuOk_at hpc
    exact h.keepTask (congrArg owned hpc) rfl (fun _ => rfl) hok
  | takeCurrent hpc => exact h.takeCurrent hpc
  | beginRequeue hpc hst => exact h.keepTask (congrArg owned hpc) rfl (fun _ => rfl) hst
  | block hpc hst =>
    have hown := congrArg owned hpc
    exact h.cpuStep (.clearing _) .blocked hown nofun
      (h.queues.relabel (h.not_queued (x := .cpu c) hown) nofun) (by rw [hst]; rfl) trivial nofun
  | bury hpc hst =>
    have hself := hst ▸ update_eq_self _ s.status
    have hmove := h.cpuStep .idle .zombie (congrArg owned hpc) nofun
      (hself.symm ▸ h.queues) (by rw [hst]) trivial nofun
    rw [hself] at hmove
    exact hmove
  | requeue hpc =>
    have hown := congrArg owned hpc
    have hst := h.cpuOk_at hpc
    exact h.cpuStep (.requeued ..) (.queued _) hown nofun
      (h.queues.insert (h.not_queued (x := .cpu c) hown) List.perm_append_comm) (by rw [hst]; rfl)
      trivial nofun
  | requeued hpc =>
    exact h.setCpu .idle (by rw [hpc]; rfl) rfl (h.idleOp c (by rw [hpc]; nofun))

end Own

namespace Req

open State

/-- **Every move keeps the requests.** -/
theorem perform {cpus : Cpus} {s : State} {c : ℕ} {r : Except Panic State} (h : Req s)
    (hmove : s.Move cpus c r) : KeepsReq r := by
  obtain ⟨s', rfl⟩ := hmove.eq_ok
  change Req s'
  cases hmove with
  | goOn _ _ _ hreq | enqueue _ _ _ hreq => exact h.stepOp (by constructor <;> rfl) hreq
  | answer hr => exact h.answerOp hr
  | wakeBlocked | wakeCancel | wakeDetach | wakeSelect | storeBlocked | storeQueued | storeRunning
  | detachQueued | setMoving | abandon | beginCurrent =>
    exact h.stepOp (by constructor <;> rfl) rfl
  | create hop hidle hnew hmask hallowed =>
    exact h.stepOp (u := { s.setAllowed _ _ with created := update s.created _ true })
      ⟨rfl, rfl, rfl, rfl, rfl⟩ rfl
  | postRequest => exact h.postRequest rfl
  | setCurrent | sleep | exit => exact h.takeSlotOp rfl rfl rfl rfl rfl rfl
  | reap => exact h.frame (fun _ _ => id) (fun _ _ => id) (fun _ _ => id) rfl rfl
  | idle hold hready hpc =>
    refine h.setCpu ⟨rfl, rfl, rfl, rfl, rfl⟩ ?_
    rcases hpc with rfl | rfl <;> nofun
  | fetch | steal | claimStolen | dispatch | switch | takeCurrent | block | bury =>
    exact h.setCpu (by constructor <;> rfl) (by rintro _ ⟨⟩)
  | beginRequeue => exact h.takeSlotCpu rfl rfl rfl rfl rfl rfl
  | requeue hpc => exact h.setCpu (by constructor <;> rfl) (by rw [hpc]; exact fun _ => id)
  | requeued hpc => exact h.answerCpu (by rw [hpc]; rfl)

end Req
end MangoCore.Task
