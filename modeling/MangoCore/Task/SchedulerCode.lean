import MangoCore.Task.SchedulerSteps

/-!
# The code of the scheduler

Every function of the scheduler is one of the moves in a sound state: the checks that end in a panic
pass, because the state of a task is the one that its owner has left it in, because every mask and
every target fit each other, and because a request that is to be answered has no answer yet.
-/

namespace MangoCore.Task.State

open Option Function List

variable {cpus : Cpus} {s s' : State} {o : Ctx} {t c mask k source i : ℕ} {r : Except Panic State}

/-! ## The checks -/

/-- The CPU is checked, and then the state. -/
theorem allowed_eq {cpu : ℕ} {current next : TaskStatus} (hst : s.status t = current)
    (hcpu : cpus.isAllowed (s.cpusAllowed t) cpu = true) (f : State → State) :
    (do return f (← (← s.requireCpuAllowed cpus t cpu).requireSchedTransition t current next)) =
      .ok (f (s.setStatus t next)) := by
  rw [requireCpuAllowed, if_pos hcpu]
  change (s.requireSchedTransition t current next >>= fun s => pure (f s)) = _
  rw [requireSchedTransition, if_pos hst]
  rfl

theorem publish_eq (hst : s.status t = .new) (hcpu : cpus.isAllowed (s.cpusAllowed t) c = true) :
    s.publish cpus t c = .ok ((s.setStatus t (.queued c)).pushBack c t) :=
  allowed_eq hst hcpu fun s => s.pushBack c t

theorem requeueAfterSwitch_eq (hst : s.status t = .running source)
    (hcpu : cpus.isAllowed (s.cpusAllowed t) c = true) :
    s.requeueAfterSwitch cpus t source c = .ok ((s.setStatus t (.queued c)).pushBack c t) :=
  allowed_eq hst hcpu fun s => s.pushBack c t

theorem enqueueWoken_eq (hst : s.status t = .blocked)
    (hcpu : cpus.isAllowed (s.cpusAllowed t) c = true) :
    s.enqueueWoken cpus t c = .ok ((s.setStatus t (.queued c)).pushFront c t) :=
  allowed_eq hst hcpu fun s => s.pushFront c t

theorem attachQueued_eq (hst : s.status t = .migrating) :
    s.attachQueued t c = .ok ((s.setStatus t (.queued c)).pushBack c t) := by
  rw [attachQueued, requireSchedTransition, if_pos hst]
  rfl

theorem storeCpusAllowed_eq {expected : TaskStatus} (hst : s.status t = expected)
    (hmask : cpus.runnableAffinity mask = true) :
    s.storeCpusAllowed cpus t mask expected = .ok (s.setAllowed t mask) := by
  rw [storeCpusAllowed, if_pos hmask, if_pos hst]

theorem detachQueued_eq (hst : s.status t = .queued source) (hnr : s.nrRunning source ≠ 0) :
    s.detachQueued t source i = .ok ((s.setStatus t .migrating).dequeueAt source i) := by
  rw [detachQueued, requireSchedTransition, if_pos hst]
  exact if_neg hnr

theorem detach_eq (hnodup : s.registry.Nodup) (hmem : t ∈ s.registry) :
    s.detach t = .ok { s with registry := s.registry.filter fun u => u != t } := by
  rw [detach, removeInterruptible_eq hnodup, if_pos (by simpa using hmem)]

theorem complete_eq {i : Option ℕ} {result : RemoteAffinityState}
    (h : ∀ j, i = some j → (s.requests j).state = .pending) :
    s.complete i result = .ok (s.answered i result) := by
  cases i with
  | none => simp [complete, answered]
  | some j =>
    rw [complete, if_pos (h j rfl), answered]
    congr 2
    funext l
    by_cases hl : l = j
    · simp [hl]
    · simp [hl, Ne.symm hl]

theorem ready_of_executing (h : s.executing c t = true) : s.op (.task t) = .ready := by
  simpa only [beq_iff_eq] using (Bool.and_eq_true_iff.mp h).2

/-- The context that a CPU executes is not disturbed by another one. -/
theorem actor_idle {d : ℕ} (hcpu : s.cpu c = .idle ∨ s.actor c ≠ .idle c)
    (hd : s.actor c = .idle d) : s.cpu d = .idle := by
  rw [actor] at hcpu hd
  cases hpc : s.cpu c <;> simp_all

namespace Sound

variable (h : s.Sound cpus) {target : Option ℕ} {ts : List ℕ} {act : Act}
include h

/-- A context goes on to a plain point of the code. -/
theorem goOn {p q : Op} (hop : s.op o = q) (hq : q.plain = true) (hbusy : q ≠ .ready)
    (hp : p.plain = true) (hreq : p.request = none)
    (hlock : p.locksManager = true → q.locksManager = true)
    (hmask : s.MaskOk cpus o q → s.MaskOk cpus o p) : s.Move cpus c (.ok (s.setOp o p)) := by
  subst hop
  exact .goOn (h.own.cpu_idle hbusy) hq hp hreq (hmask (h.aff.ops o))
    (fun hl => h.own.lock o (hlock hl)) fun o' _ hl => h.own.lock o' hl

theorem start {p : Op} (hop : s.op o = .ready) (hidle : ∀ d, o = .idle d → s.cpu d = .idle)
    (hp : p.plain = true) (hreq : p.request = none) (hlock : p.locksManager = false)
    (hmask : s.MaskOk cpus o p) : s.Move cpus c (.ok (s.setOp o p)) :=
  .goOn hidle (by rw [hop]; rfl) hp hreq hmask (by rw [hlock]; nofun) fun o' _ hl =>
    h.own.lock o' hl

theorem move_of_wakeNext (hop : s.op o = .wakeNext ts) : s.Move cpus c (.ok (s.wakeNext o ts)) := by
  have hlocked : (s.op o).locksManager = true := by rw [hop]; rfl
  cases ts with
  | nil =>
    exact .goOn (h.own.cpu_idle (by rw [hop]; nofun)) (by rw [hop]; rfl) rfl rfl trivial nofun
      fun o' ho' hl => absurd (h.own.locksManager_unique hlocked hl) ho'
  | cons t ts =>
    rw [wakeNext]
    cases hst : s.status t with
    | blocked => exact .wakeBlocked hop hst
    | _ => exact h.goOn hop rfl nofun rfl rfl (fun _ => rfl) fun _ => trivial

theorem move_of_wakeSelect (hop : s.op o = .wakeSelect t ts)
    (hr : s.wakeSelect cpus o t ts k = some r) : s.Move cpus c r := by
  have hcreated := h.own.created_of_blocked (h.own.opOk_at hop)
  rw [wakeSelect, detach_eq h.own.registry.nodup (h.own.mem_registry_of_wakeSelect hop),
    if_pos (Cpus.hasRunnable_of_runnableAffinity ((h.aff.tasks t).mask hcreated))] at hr
  split_ifs at hr with hk
  exact some.inj hr ▸ .wakeSelect hop hk

theorem move_of_setRemote (hop : s.op o = .setRemote t mask)
    (hs' : s.setRemote cpus o t mask k = some s') : s.Move cpus c (.ok s') := by
  rw [setRemote] at hs'
  split at hs'
  · exact some.inj hs' ▸ h.goOn hop rfl nofun rfl rfl nofun id
  · exact some.inj hs' ▸ h.goOn hop rfl nofun rfl rfl nofun id
  · exact some.inj hs' ▸ h.goOn hop rfl nofun rfl rfl nofun id
  · cases hs'
  · obtain ⟨target, htarget, rfl⟩ := map_eq_some_iff.mp hs'
    exact h.goOn hop rfl nofun rfl rfl nofun fun hmask =>
      ⟨hmask, choiceOk_of_migrationChoice htarget⟩
  all_goals exact some.inj hs' ▸ h.goOn hop rfl nofun rfl rfl nofun fun _ => trivial

theorem move_of_updateBlockedAffinity (hop : s.op o = .setBlocked t mask) (hm : s.manager = none) :
    s.Move cpus c (s.updateBlockedAffinity cpus o t mask) := by
  rw [updateBlockedAffinity]
  split_ifs with hst
  · rw [storeCpusAllowed_eq hst.1 (h.aff.ops_at hop)]
    exact .storeBlocked hop hm hst.1
  · exact h.goOn hop rfl nofun rfl rfl nofun id

theorem move_of_queuedFailed {actual : TaskStatus} {q : Op} (hop : s.op o = q)
    (hq : q.plain = true) (hbusy : q ≠ .ready)
    (hmask : s.MaskOk cpus o q → cpus.runnableAffinity mask = true) :
    s.Move cpus c (.ok (s.queuedFailed o t mask actual)) := by
  cases actual with
  | blocked => exact h.goOn hop hq hbusy rfl rfl nofun hmask
  | _ => exact h.goOn hop hq hbusy rfl rfl nofun fun _ => trivial

theorem move_of_setQueued (hop : s.op o = .setQueued t mask)
    (hs' : s.setQueued cpus o t mask k = some s') : s.Move cpus c (.ok s') := by
  rw [setQueued] at hs'
  split at hs'
  · obtain ⟨target, htarget, rfl⟩ := map_eq_some_iff.mp hs'
    exact h.goOn hop rfl nofun rfl rfl nofun fun hmask =>
      ⟨hmask, choiceOk_of_migrationChoice htarget⟩
  · cases hs'
  · exact some.inj hs' ▸ h.move_of_queuedFailed hop rfl nofun id

theorem move_of_setQueuedAt (hop : s.op o = .setQueuedAt t mask source target) :
    s.Move cpus c (s.setQueuedAt cpus o t mask source target) := by
  rw [setQueuedAt.eq_def]
  split_ifs with hmem
  · have hst := (h.own.queues.mem_iff source t).mp hmem
    cases target with
    | none =>
      rw [storeCpusAllowed_eq hst (h.aff.ops_at hop).1]
      exact .storeQueued hop hst
    | some target =>
      have hget := getElem?_idxOf hmem
      rw [detachQueued_eq hst (h.own.queues.count_pos hget)]
      exact .detachQueued hop hget
  · split
    any_goals exact h.goOn hop rfl nofun rfl rfl nofun And.left
    · exact h.move_of_queuedFailed hop rfl nofun And.left

theorem move_of_setMoving {target : ℕ} (hop : s.op o = .setMoving t mask target) :
    s.Move cpus c (s.setMoving cpus o t mask target) := by
  obtain ⟨hmask, hrun⟩ := h.aff.ops_at hop
  have hallowed : cpus.isAllowed ((s.setAllowed t mask).cpusAllowed t) target = true := by
    simp only [setAllowed, update_self]
    exact Cpus.isAllowed_of_isRunnable hrun
  rw [setMoving, storeCpusAllowed_eq (h.own.opOk_at hop) hmask]
  change s.Move cpus c
    (do return (← (s.setAllowed t mask).requireCpuAllowed cpus t target).setOp o _)
  rw [requireCpuAllowed, if_pos hallowed]
  exact .setMoving hop

theorem move_of_setRunning {owner : ℕ}
    (hop : s.op o = .setRunning t mask owner target) (hlock : s.slotLock t = none) :
    s.Move cpus c (s.setRunning cpus o t mask owner target) := by
  rw [setRunning.eq_def]
  split
  · exact h.goOn hop rfl nofun rfl rfl nofun And.left
  · split_ifs with hc
    · exact h.goOn hop rfl nofun rfl rfl nofun And.left
    · push Not at hc
      have hnone : s.migrationTarget t = none := by simpa using hc.1
      cases target with
      | none =>
        rw [storeCpusAllowed_eq hc.2 (h.aff.ops_at hop).1]
        exact .storeRunning hop hlock hnone hc.2
      | some target => exact .postRequest hop hlock hnone hc.2

theorem move_of_setCurrentAffinity (hpc : s.cpu c = .running t)
    (hop : s.op (.task t) = .setCurrent mask target) (hlock : s.slotLock t = none) :
    s.Move cpus c (s.setCurrentAffinity c t mask target) := by
  have hawake : s.phase t = .awake := h.own.opOk_at hop t rfl
  have hnone : s.migrationTarget t = none :=
    h.aff.target_eq_none h.own fun _ _ => .inr (by simp [hawake])
  rw [setCurrentAffinity, if_pos (h.own.status_of_awake hpc hawake), if_neg (by simp [hnone])]
  exact .setCurrent hpc hop hlock

/-- **Every step inside the scheduler's code is a move.** -/
theorem move_of_nextOp (hctx : ∀ t, o = .task t → s.cpu c = .running t)
    (hr : s.nextOp cpus c o k = some r) : s.Move cpus c r := by
  have hlocks := fun (o' : Ctx) (_ : o' ≠ o) => h.own.lock o'
  rw [nextOp.eq_def] at hr
  generalize hop : s.op o = p at hr
  have hidle (hbusy : p ≠ .ready) := h.own.cpu_idle (hop ▸ hbusy)
  have hpending : ∀ i, p.request = some i → (s.requests i).state = .pending := fun i hi =>
    (h.req.pending (.op o) i ((congrArg Op.request hop).trans hi)).2
  cases p with
  | ready => cases hr
  | publish t cpu =>
    rw [← some.inj hr, publish_eq (h.own.opOk_at hop).1 (h.aff.ops_at hop)]
    exact .enqueue (by rw [hop]; rfl) perm_append_comm rfl rfl trivial
      nofun (h.aff.ops_at hop)
  | wakeLock ts =>
    simp only [isNone_iff_eq_none] at hr
    split_ifs at hr with hm
    exact some.inj hr ▸ .goOn (hidle nofun) (by rw [hop]; rfl) rfl rfl trivial (fun _ => rfl)
      fun o' _ hl => by simp [h.own.locksManager_eq_false hm o'] at hl
  | wakeNext ts => exact some.inj hr ▸ h.move_of_wakeNext hop
  | wakeCancel t cpu ts =>
    rw [← some.inj hr, wakeCancel]
    split_ifs with hst
    · exact .wakeCancel hop hst
    · exact h.goOn hop rfl nofun rfl rfl (fun _ => rfl) fun _ => trivial
  | wakeDetach t ts =>
    rw [← some.inj hr, detach_eq h.own.registry.nodup
      ((h.own.registry.mem_iff t).mpr (.inr ⟨o, by rw [hop]; rfl⟩))]
    exact .wakeDetach hop
  | wakeSelect t ts => exact h.move_of_wakeSelect hop hr
  | wakeEnqueue t cpu ts =>
    rw [← some.inj hr, enqueueWoken_eq (h.own.opOk_at hop) (h.aff.ops_at hop)]
    exact .enqueue (by rw [hop]; rfl) (.refl _) rfl rfl trivial
      (fun _ => by rw [hop]; rfl) (h.aff.ops_at hop)
  | sleepDone i =>
    rw [← some.inj hr, complete_eq (i := i) hpending]
    refine .answer (by rw [hop]; rfl) (hidle nofun) (by rw [hop]; rfl) ?_
    exact fun o' ho' hl => absurd (h.own.locksManager_unique (by rw [hop]; rfl) hl) ho'
  | retryDone i =>
    rw [← some.inj hr, complete_eq (i := i) hpending]
    exact .answer (by rw [hop]; rfl) (hidle nofun) (by rw [hop]; rfl) hlocks
  | setRemote t mask =>
    obtain ⟨s', hs', rfl⟩ := map_eq_some_iff.mp hr
    exact h.move_of_setRemote hop hs'
  | setBlocked t mask =>
    simp only [isNone_iff_eq_none] at hr
    split_ifs at hr with hm
    exact some.inj hr ▸ h.move_of_updateBlockedAffinity hop hm
  | setBlockedFailed t mask =>
    rw [← some.inj hr]
    split_ifs
    · exact h.goOn hop rfl nofun rfl rfl nofun fun _ => trivial
    · exact h.goOn hop rfl nofun rfl rfl nofun id
  | setQueued t mask =>
    obtain ⟨s', hs', rfl⟩ := map_eq_some_iff.mp hr
    exact h.move_of_setQueued hop hs'
  | setQueuedAt t mask source target => exact some.inj hr ▸ h.move_of_setQueuedAt hop
  | setMoving t mask target => exact some.inj hr ▸ h.move_of_setMoving hop
  | setAttach t target =>
    rw [← some.inj hr, attachQueued_eq (h.own.opOk_at hop)]
    exact .enqueue (by rw [hop]; rfl) perm_append_comm rfl rfl trivial
      nofun (h.aff.ops_at hop)
  | setRunning t mask owner target =>
    simp only [isNone_iff_eq_none] at hr
    split_ifs at hr with hlock
    exact some.inj hr ▸ h.move_of_setRunning hop hlock
  | waitSlot i t mask =>
    simp only at hr
    split_ifs at hr
    exact some.inj hr ▸ h.goOn hop rfl nofun rfl rfl nofun id
  | waitApplied i t mask =>
    simp only at hr
    split at hr
    · cases hr
    · exact some.inj hr ▸ h.goOn hop rfl nofun rfl rfl nofun fun _ => trivial
    · exact some.inj hr ▸ h.goOn hop rfl nofun rfl rfl nofun id
  | setCurrent mask target =>
    cases o with
    | idle d => cases hr
    | task t =>
      simp only [isNone_iff_eq_none] at hr
      split_ifs at hr with hlock
      exact some.inj hr ▸ h.move_of_setCurrentAffinity (hctx t rfl) hop hlock

/-! ## The idle context -/

theorem move_of_fetch (hidle : s.idling c = true) (hr : s.fetch c i = some r) :
    s.Move cpus c r := by
  have hidle' : s.cpu c = .idle ∧ s.op (.idle c) = .ready := by
    simpa only [idling, Bool.and_eq_true, beq_iff_eq] using hidle
  rw [fetch] at hr
  split_ifs at hr
  · exact some.inj hr ▸ .idle (by rw [hidle'.1]; rfl) hidle'.2 (.inr rfl)
  · obtain ⟨t, ht, rfl⟩ := map_eq_some_iff.mp hr
    have hst : (s.dequeueAt c i).status t = .queued c :=
      (h.own.queues.mem_iff c t).mp (mem_of_getElem? ht)
    rw [fetchAt, removeAt, if_neg (h.own.queues.count_pos ht)]
    change s.Move cpus c (do
      return (← (s.dequeueAt c i).requireSchedTransition t (.queued c) (.running c)).setCpu c _)
    rw [requireSchedTransition, if_pos hst]
    exact .fetch hidle'.1 hidle'.2 ht

theorem move_of_steal {victim : ℕ} (hpc : s.cpu c = .stealing)
    (hr : s.steal cpus c victim = some r) : s.Move cpus c r := by
  obtain ⟨i, hi, hr⟩ := bind_eq_some_iff.mp hr
  obtain ⟨t, ht, rfl⟩ := map_eq_some_iff.mp hr
  have hst := (h.own.queues.mem_iff victim t).mp (mem_of_getElem? ht)
  have hcandidate := find?_some hi
  simp only [ht, any_some, Bool.and_eq_true, isNone_iff_eq_none] at hcandidate
  rw [detachQueued_eq hst (h.own.queues.count_pos ht)]
  exact .steal hpc ht hcandidate.1 hcandidate.2

/-- The request of a running task decides on its mask and its CPU, or else the migration target. -/
theorem move_of_finishRunning (hpc : s.cpu c = .switchOut t) (hst : s.status t = .running c)
    (hlock : s.slotLock t = none) : s.Move cpus c (s.finishRunning cpus c t) := by
  have hcreated : s.created t = true :=
    h.own.created_of_owned (by rw [Places.owned, hpc]; rfl)
  rw [finishRunning]
  cases hslot : s.slot t with
  | some i =>
    obtain ⟨hi, hnone, -⟩ := (h.aff.tasks t).slot i hslot
    obtain ⟨hmask, htarget⟩ := h.aff.requests i hi
    simp only [hnone, isSome_none, Bool.false_eq_true, if_false]
    rw [storeCpusAllowed_eq hst hmask]
    have hmove := Move.beginRequeue hpc hst hlock hmask (Cpus.isAllowed_of_isRunnable htarget)
    have hself : update s.migrationTarget t none = s.migrationTarget := by
      rw [← hnone, update_eq_self]
    rw [hself, hslot] at hmove
    exact hmove
  | none =>
    have hallowed : cpus.isAllowed (s.cpusAllowed t) ((s.migrationTarget t).getD c) = true := by
      cases htarget : s.migrationTarget t with
      | none => exact (h.aff.tasks t).home c (.inl hst) htarget (h.aff.requeues_ne hlock c)
      | some k => exact ((h.aff.tasks t).target k htarget).2.1
    have hmove := Move.beginRequeue hpc hst hlock ((h.aff.tasks t).mask hcreated) hallowed
    have hself : update s.slot t none = s.slot := by
      rw [← hslot, update_eq_self]
    rw [hself, update_eq_self, hslot] at hmove
    exact hmove

theorem move_of_finishSwitchOut (hpc : s.cpu c = .switchOut t)
    (hr : s.finishSwitchOut cpus c t = some r) : s.Move cpus c r := by
  rw [finishSwitchOut] at hr
  rcases Own.status_of_allows (h.own.cpuOk_at hpc) with hst | hst | hst <;> rw [hst] at hr <;>
    simp only [if_pos, isNone_iff_eq_none] at hr
  · split_ifs at hr with hlock
    exact some.inj hr ▸ h.move_of_finishRunning hpc hst hlock
  · exact some.inj hr ▸ .block hpc hst
  · exact some.inj hr ▸ .bury hpc hst

/-- **Every step of a CPU that goes on with a call is a move**, if it does not drop a migration
target that was published after the task had been woken. -/
theorem move_of_next (hclear : ∀ t, s.cpu c = .clearing t → s.migrationTarget t = none)
    (hr : s.next cpus c k = some r) : s.Move cpus c r := by
  rw [next.eq_def] at hr
  generalize hpc : s.cpu c = p at hr
  have hready (hbusy : p ≠ .idle) := h.own.idleOp c (hpc ▸ hbusy)
  cases p with
  | idle => exact h.move_of_nextOp (by rintro _ ⟨⟩) hr
  | stealing => exact some.inj hr ▸ .idle (by rw [hpc]; rfl) (hready (by simp)) (.inl rfl)
  | stole t =>
    have hst : s.status t = .migrating := h.own.cpuOk_at hpc
    rw [← some.inj hr, claimStolen, requireSchedTransition, if_pos hst]
    exact .claimStolen hpc
  | claimed t => exact some.inj hr ▸ .dispatch hpc
  | running t => exact h.move_of_nextOp (by rintro _ ⟨⟩; exact hpc) hr
  | leaving t =>
    rw [← some.inj hr, takeCurrent, (h.own.cpuOk_at hpc).1]
    exact .takeCurrent hpc
  | switchOut t => exact h.move_of_finishSwitchOut hpc hr
  | requeue t target i =>
    have hok := h.aff.pcs c
    rw [hpc] at hok
    rw [← some.inj hr, requeueAfterSwitch_eq (h.own.cpuOk_at hpc) hok.1]
    exact .requeue hpc
  | requeued t i =>
    rw [← some.inj hr, finishRequeued, complete_eq fun j hj => (h.req.pending (.cpu c) j (by
      rw [request, hpc]; exact hj)).2]
    exact .requeued hpc
  | clearing t =>
    have hself : s.setMigrationTarget t none = s := by
      rw [setMigrationTarget, update_eq_self_iff.mpr (hclear t hpc).symm]
    rw [← some.inj hr, hself]
    exact .idle (by rw [hpc]; rfl) (hready (by simp)) (.inl rfl)

/-! ## Calls -/

theorem move_of_taskCall (hpc : s.cpu c = .running t) (hsleep : act = .sleep → s.phase t ≠ .exited)
    (hr : s.taskCall cpus c act t = some r) : s.Move cpus c r := by
  cases act with
  | sleep =>
    rw [taskCall] at hr
    split_ifs at hr with hc
    have hawake := hc.2.1.resolve_right (hsleep rfl)
    have hst := h.own.status_of_awake hpc hawake
    have hm : s.manager = none := by simpa using hc.2.2.1
    have heq : s.Move cpus c _ := .sleep hpc (ready_of_executing hc.1) hawake hm
    rw [← some.inj hr]
    simpa [beginInterruptibleSleep.eq_1, hst, requireSchedTransition, setStatus] using heq
  | exit =>
    rw [taskCall] at hr
    split_ifs at hr with hc
    have heq : s.Move cpus c _ := .exit hpc (ready_of_executing hc.1) hc.2.1
    rw [← some.inj hr]
    simpa [markZombie.eq_1, h.own.status_of_awake hpc hc.2.1, requireSchedTransition] using heq
  | switch =>
    rw [taskCall] at hr
    split_ifs at hr with hc
    exact some.inj hr ▸ .switch hpc hc.2
  | setAffinity u mask k =>
    rw [taskCall] at hr
    split_ifs at hr with hc
    · rw [beginCurrentAffinity, if_pos (h.own.status_of_awake hpc hc.2.1)] at hr
      obtain ⟨target, htarget, rfl⟩ := map_eq_some_iff.mp hr
      exact .beginCurrent hpc (ready_of_executing hc.1) hc.2.1 hc.2.2
        (choiceOk_of_migrationChoice htarget)
    · exact some.inj hr ▸ h.start (ready_of_executing hc.1) nofun rfl rfl rfl hc.2.2
  | _ => cases hr

/-- **Every step is a move**, if a zombie does not sleep and no migration target is dropped that was
published after the task had been woken. -/
theorem move_of_perform (hsleep : act = .sleep → ∀ t, s.cpu c = .running t → s.phase t ≠ .exited)
    (hclear : ∀ t, s.cpu c = .clearing t → s.migrationTarget t = none)
    (hr : s.perform cpus c act = some r) : s.Move cpus c r := by
  cases act with
  | create t mask cpu =>
    rw [perform] at hr
    split_ifs at hr
    obtain ⟨s', hs', rfl⟩ := map_eq_some_iff.mp hr
    have hcall : s.op (s.actor c) = .ready ∧ (s.cpu c = .idle ∨ s.actor c ≠ .idle c) := by
      grind [idling, mayCall.eq_def]
    rw [create] at hs'
    split_ifs at hs' with hnew
    exact some.inj hs' ▸ .create hcall.1 (fun d => actor_idle hcall.2) hnew.1 hnew.2.1 hnew.2.2
  | abandon =>
    rw [perform] at hr
    split at hr
    · rename_i t cpu hop
      exact some.inj hr ▸ .abandon hop
    · cases hr
  | wake ts =>
    rw [perform] at hr
    split_ifs at hr with hc
    exact some.inj hr ▸ h.start hc.1 (fun d => actor_idle hc.2) rfl rfl rfl trivial
  | fetch i => grind [perform, h.move_of_fetch]
  | steal victim => grind [perform, h.move_of_steal]
  | reap =>
    rw [perform] at hr
    split_ifs at hr
    obtain ⟨s', hs', rfl⟩ := map_eq_some_iff.mp hr
    rw [reap] at hs'
    split at hs'
    · cases hs'
    · exact some.inj hs' ▸ .reap
  | next k => exact h.move_of_next hclear hr
  | sleep | exit | switch | setAffinity u mask k => grind [perform.eq_def, h.move_of_taskCall]

end Sound
end MangoCore.Task.State
