import MangoCore.Task.RegistryLookup

/-!
# Runs of the registry

Every event keeps the owners and the entries, so the lookups are right in every state of a run that
meets the condition.  Without it, the late drop of a reaped process removes the entry of the process
that got its pid.
-/

namespace MangoCore.Task.Registry

open State OrdMap Option Refs

variable {s s' : State} {p t : ℕ} {pcb : Pcb} {tcb : Tcb} {a b : Pcb}

structure Sound (s : State) : Prop where
  owned : Owned s
  listed : Listed s
  pids : DistinctPids s

/-- The condition.  The allocator hands out an id whose earlier handle is released, and a process
gets a pid only after the control blocks of all earlier processes with this pid are gone. -/
def Guarded (s : State) : Event → Prop
  | .newProcess id => (∀ h, ¬ s.Holds h id) ∧
      ∀ p pcb, s.pcbs.get? p = some pcb → pcb.refs ≠ .dropped → pcb.pid ≠ id
  | .newThread _ id => ∀ h, ¬ s.Holds h id
  | _ => True

theorem DistinctPids.setPcb (h : DistinctPids s) (ha : s.pcbs.get? p = some a)
    (hpid : b.pid = a.pid) (hrefs : b.refs ≠ .dropped → a.refs ≠ .dropped) :
    DistinctPids (s.setPcb p b) := by
  have before : ∀ q c, (s.setPcb p b).pcbs.get? q = some c → c.refs ≠ .dropped →
      ∃ d, s.pcbs.get? q = some d ∧ d.refs ≠ .dropped ∧ c.pid = d.pid := by
    intro q c hc hne
    rcases get?_insert_cases hc with ⟨rfl, rfl⟩ | ⟨-, hold⟩
    · exact ⟨a, ha, hrefs hne, hpid⟩
    · exact ⟨c, hold, hne, rfl⟩
  intro p₁ p₂ c₁ c₂ h₁ h₂ hr₁ hr₂ heq
  obtain ⟨d₁, hd₁, hdr₁, hpid₁⟩ := before p₁ c₁ h₁ hr₁
  obtain ⟨d₂, hd₂, hdr₂, hpid₂⟩ := before p₂ c₂ h₂ hr₂
  exact h p₁ p₂ d₁ d₂ hd₁ hd₂ hdr₁ hdr₂ (by rw [← hpid₁, ← hpid₂, heq])

/-- A process that is on its way out is the only one that the removal of its entry concerns. -/
theorem Sound.unregister (h : Sound s) (hp : s.pcbs.get? p = some pcb)
    (hrefs : pcb.refs ≠ .dropped) (hout : ¬ pcb.Present) :
    Listed (s.unregisterProcess pcb.pid) := by
  refine h.listed.unregisterProcess fun q c hc hpid => hout ?_
  have hcrefs : c.refs ≠ .dropped := by
    rw [hc.2.1]
    exact noConfusion
  obtain rfl : q = p := h.pids q p c pcb hc.1 hp hcrefs hrefs hpid
  obtain rfl : c = pcb := some.inj (hc.1.symm.trans hp)
  exact hc.2

theorem no_live_of_hasLiveThread (h : s.hasLiveThread p = false) (u : ℕ) (c : Tcb)
    (hc : s.ThreadAt u c) : c.process ≠ p := by
  have hfalse := anyThread_eq_false.mp h u c hc.1
  intro heq
  exact of_decide_eq_false hfalse ⟨heq, hc.2⟩

/-- A process without a live thread may change in any way that does not bring it back. -/
theorem Owned.setPcb_of_no_live (h : Owned s) (ha : s.pcbs.get? p = some a)
    (hpid : b.pid = a.pid) (hhandle : b.pidHandle = a.pidHandle)
    (hpresent : b.Present → a.Present) (hzombie : b.reaped = true → b.zombie = true)
    (hnone : ∀ u c, s.ThreadAt u c → c.process ≠ p) : Owned (s.setPcb p b) :=
  h.setPcb ha hpid hhandle hpresent hzombie fun u c hc heq => absurd heq (hnone u c hc)

/-- A process that is a zombie, or whose control block is gone, has no live thread. -/
theorem Owned.no_live (h : Owned s) (hp : s.pcbs.get? p = some pcb)
    (hout : pcb.Present → pcb.zombie = true) (u : ℕ) (c : Tcb) (hc : s.ThreadAt u c) :
    c.process ≠ p := by
  grind [ProcessAt, host]

/-! ## Processes -/

section

variable {e : Event} (h : Sound s)
include h

section

variable (hp : s.pcbs.get? p = some pcb)
include hp

theorem Sound.releasePid (hzombie : pcb.zombie = true) :
    Sound ((s.releaseHandle pcb.pidHandle).setPcb p
      { pcb with reaped := true, reaping := true }) := by
  have hnone := h.owned.no_live hp fun _ => hzombie
  -- The process is reaped first, so that nobody needs the handle when it is released.
  have hreaped : Owned (s.setPcb p { pcb with reaped := true, reaping := true }) :=
    h.owned.setPcb_of_no_live hp rfl rfl (by rintro ⟨-, ⟨⟩⟩)
      (fun _ => hzombie) hnone
  have hcomm : ((s.setPcb p { pcb with reaped := true, reaping := true }).releaseHandle
      pcb.pidHandle) = (s.releaseHandle pcb.pidHandle).setPcb p
        { pcb with reaped := true, reaping := true } := by
    cases hh : s.handles.get? pcb.pidHandle <;> simp [releaseHandle, setPcb, hh]
  obtain ⟨hpcbs, htcbs, htasks, hprocesses, -⟩ := releaseHandle_rest s pcb.pidHandle
  refine ⟨?_, ⟨fun q c hc hreg => ?_, fun u c hc hreg => ?_⟩, ?_⟩
  · rw [← hcomm]
    refine hreaped.releaseHandle (fun q c hc heq => ?_) fun u c hc heq => ?_
    · rcases get?_insert_cases hc.1 with ⟨-, rfl⟩ | ⟨hne, hold⟩
      · cases hc.2.2
      · exact hne (h.owned.process_inj _ _ _ _ hold hp heq)
    · exact hnone u c hc (h.owned.leader u c p pcb hc hp heq)
  · change (s.releaseHandle pcb.pidHandle).processes.get? c.pid = some q
    rw [hprocesses]
    rw [setPcb, ProcessAt, hpcbs] at hc
    rcases get?_insert_cases hc.1 with ⟨-, rfl⟩ | ⟨-, hold⟩
    · cases hc.2.2
    · exact h.listed.process q c ⟨hold, hc.2⟩ hreg
  · grind [setPcb, ThreadAt, h.listed.thread]
  · grind [DistinctPids, DistinctPids.setPcb, pids]

/-- A process that is on its way out loses its entry. -/
theorem Sound.unregister_setPcb
    (hrefs : pcb.refs ≠ .dropped) (hout : ¬ pcb.Present) (hpid : b.pid = pcb.pid)
    (hhandle : b.pidHandle = pcb.pidHandle) (hbout : ¬ b.Present)
    (hzombie : b.reaped = true → b.zombie = true) :
    Sound ((s.unregisterProcess pcb.pid).setPcb p b) := by
  have hnone := h.owned.no_live hp fun hpresent => absurd hpresent hout
  refine ⟨?_, ?_, ?_⟩
  · exact (h.owned.setPcb_of_no_live hp hpid hhandle (fun hb => absurd hb hbout) hzombie
      hnone).of_eq rfl rfl rfl rfl
  · exact (h.unregister hp hrefs hout).setPcb hp fun hb => absurd hb hbout
  · exact h.pids.setPcb hp hpid fun _ => hrefs

theorem Sound.stepProcess (hguard : ∀ q id, e = .newThread q id → ∀ r, ¬ s.Holds r id)
    (hstep : s.stepProcess p pcb e = some s') : Sound s' := by
  cases e with
  | registerProcess q =>
    rw [stepProcess] at hstep
    split_ifs at hstep with hcond
    cases hstep
    have hreaped : pcb.reaped = false := by grind [h.owned.reaped_zombie]
    have hpresent : pcb.Present := ⟨hcond.1, hreaped⟩
    refine ⟨?_, h.listed.registerProcess h.owned ⟨hp, hpresent⟩, ?_⟩
    · exact (h.owned.setPcb (b := { pcb with registered := true }) hp rfl rfl
        (fun _ => hpresent) (h.owned.reaped_zombie p pcb hp)
        fun _ _ _ _ => ⟨hpresent, hcond.2⟩).of_eq rfl rfl rfl rfl
    · exact h.pids.setPcb (b := { pcb with registered := true }) hp rfl fun hb => hb
  | markZombie q =>
    rw [stepProcess] at hstep
    split_ifs at hstep with hcond
    cases hstep
    refine ⟨?_, h.listed.setPcb hp fun hb hreg => ⟨hb, hreg, rfl⟩, h.pids.setPcb hp rfl id⟩
    exact h.owned.setPcb_of_no_live hp rfl rfl (fun hb => hb) (fun _ => rfl)
      (no_live_of_hasLiveThread hcond.2)
  | releasePid q => grind [stepProcess, h.releasePid]
  | unregisterReaped q =>
    rw [stepProcess] at hstep
    split_ifs at hstep with hcond
    cases hstep
    obtain ⟨hrefs, hreaped, -⟩ := hcond
    have hout : ¬ pcb.Present :=
      fun hpresent => Bool.noConfusion (hreaped.symm.trans hpresent.2)
    refine h.unregister_setPcb hp ?_ hout rfl rfl hout (h.owned.reaped_zombie p pcb hp)
    rw [hrefs]
    exact noConfusion
  | loseProcess q =>
    rw [stepProcess] at hstep
    split_ifs at hstep with hcond
    cases hstep
    obtain ⟨hrefs, -, hthreads⟩ := hcond
    have hnone : ∀ u c, s.ThreadAt u c → c.process ≠ p := by
      intro u c hc heq
      refine of_decide_eq_false (anyThread_eq_false.mp hthreads u c hc.1) ⟨heq, ?_⟩
      rw [(h.owned.thread u c hc).1]
      exact noConfusion
    refine ⟨?_, h.listed.setPcb hp (fun hb => nomatch hb.1), h.pids.setPcb hp rfl ?_⟩
    · exact h.owned.setPcb_of_no_live hp rfl rfl (fun hb => nomatch hb.1)
        (h.owned.reaped_zombie p pcb hp) hnone
    · intro _
      rw [hrefs]
      exact noConfusion
  | dropProcess q =>
    rw [stepProcess] at hstep
    split_ifs at hstep with hcond
    cases hstep
    have hout : ¬ pcb.Present :=
      fun hpresent => noConfusion (hcond.symm.trans hpresent.1)
    refine h.unregister_setPcb hp ?_ hout rfl rfl (fun hb => nomatch hb.1)
      (h.owned.reaped_zombie p pcb hp)
    rw [hcond]
    exact noConfusion
  | newThread q id =>
    rw [stepProcess] at hstep
    split_ifs at hstep with hcond
    cases hstep
    obtain ⟨u, c, hc, hprocess⟩ : ∃ u c, s.ThreadAt u c ∧ c.process = p := by
      by_contra hnone
      rw [hasLiveThread, anyThread_eq_false.mpr] at hcond
      · cases hcond
      · intro u c hc
        refine decide_eq_false fun hlive => hnone ⟨u, c, ⟨hc, hlive.2⟩, hlive.1⟩
    refine ⟨h.owned.newThread (hguard q id rfl) (hprocess ▸ h.owned.host u c hc), ?_, h.pids⟩
    refine ⟨h.listed.process, fun v d hd hreg => ?_⟩
    rcases threadAt_insert hd.1 hd.2 with ⟨-, rfl⟩ | ⟨-, hold⟩
    · cases hreg
    · exact h.listed.thread v d hold hreg
  | _ => cases hstep

end

/-! ## Threads -/

/-- An event of one thread that leaves the registry alone. -/
theorem Sound.setTcb {b : Tcb} (ht : s.tcbs.get? t = some tcb)
    (hb : b.state ≠ .live) : Sound (s.setTcb t b) :=
  ⟨h.owned.setTcb ht fun hlive => absurd hlive hb,
    h.listed.setTcb ht fun hlive => absurd hlive hb, h.pids⟩

theorem Sound.exchangeExecTids (ht : s.ThreadAt t tcb) (hp : s.pcbs.get? tcb.process = some pcb)
    (honly : ∀ u c, s.ThreadAt u c → c.process = tcb.process → u = t)
    (hstep : s.exchangeExecTids t tcb pcb = some s') : Sound s' := by
  rw [State.exchangeExecTids] at hstep
  split_ifs at hstep
  obtain ⟨w, hover, rfl⟩ := map_eq_some_iff.mp hstep
  have hw : Sound w ∧ w.tasks = s.tasks ∧ w.pcbs = s.pcbs ∧ w.tcbs.get? t = s.tcbs.get? t ∧
      ∀ u c, w.ThreadAt u c → s.ThreadAt u c := by
    rcases handOver_spec hover with rfl | ⟨former, fcb, hformer, hzombie, rfl⟩
    · exact ⟨h, rfl, rfl, rfl, fun _ _ hc => hc⟩
    · have hz : fcb.state ≠ .live := by
        rw [hzombie]
        exact ThreadState.noConfusion
      refine ⟨h.setTcb hformer hz, rfl, rfl, get?_insert_of_ne _ ?_, fun u c hc => ?_⟩
      · rintro rfl
        rw [ht.1] at hformer
        cases hformer
        exact hz ht.2
      · grind [State.ThreadAt, threadAt_insert, State.setTcb]
  obtain ⟨hsound, htasks, hpcbs, htcb, hbefore⟩ := hw
  have howner : w.ThreadAt t tcb := ⟨htcb.trans ht.1, ht.2⟩
  have hpcb : w.pcbs.get? tcb.process = some pcb := hpcbs ▸ hp
  have honly' : ∀ u c, w.ThreadAt u c → c.process = tcb.process → u = t :=
    fun u c hc => honly u c (hbefore u c hc)
  refine ⟨(hsound.owned.becomeLeader howner hpcb honly').of_eq rfl rfl rfl rfl,
    ⟨hsound.listed.process, fun u c hc hreg => ?_⟩, hsound.pids⟩
  change ((w.tasks.erase tcb.tid).insert pcb.pid t).get? c.tid = some u
  rcases threadAt_insert hc.1 hc.2 with ⟨rfl, rfl⟩ | ⟨hut, hold⟩
  · exact get?_insert_self ..
  · -- No other live thread has the id that is given up, nor the pid.
    have hpid : c.tid ≠ pcb.pid := by
      intro heq
      obtain ⟨pcb', hpresent, -⟩ := hsound.owned.host t tcb howner
      obtain rfl : pcb = pcb' := some.inj (hpcb.symm.trans hpresent.1)
      exact hut (honly' u c hold (hsound.owned.process_eq_of_tid_eq hold hpresent heq))
    have htid : c.tid ≠ tcb.tid := fun heq => hut (hsound.owned.eq_of_tid_eq hold howner heq)
    rw [get?_insert_of_ne _ hpid, get?_erase_of_ne _ htid]
    exact hsound.listed.thread u c hold hreg

theorem Sound.stepThread (ht : s.tcbs.get? t = some tcb)
    (hstep : s.stepThread t tcb e = some s') : Sound s' := by
  cases e with
  | registerTask u =>
    rw [stepThread] at hstep
    split_ifs at hstep with hlive
    cases hstep
    refine ⟨?_, h.listed.registerTask h.owned ⟨ht, hlive⟩, h.pids⟩
    exact (h.owned.setTcb (b := { tcb with registered := true }) ht fun _ =>
      ⟨hlive, rfl, rfl, rfl, (h.owned.thread t tcb ⟨ht, hlive⟩).1⟩).of_eq rfl rfl rfl rfl
  | exitThread u => grind [stepThread, h.setTcb]
  | zombify u => grind [stepThread, h.setTcb]
  | loseThread u => grind [stepThread, h.setTcb]
  | dropThread u =>
    rw [stepThread] at hstep
    split_ifs at hstep with hdropping
    cases hstep
    have hdead : ∀ c, ¬ s.ThreadAt t c := by
      intro c hc
      obtain rfl : c = tcb := some.inj (hc.1.symm.trans ht)
      exact noConfusion (hdropping.symm.trans (h.owned.thread t c hc).1)
    have hrest : ∀ w : State, w = s.unregisterTaskIfMatch t tcb → w.handles = s.handles ∧
        w.pcbs = s.pcbs ∧ w.tcbs = s.tcbs ∧ w.nextRef = s.nextRef := by
      rintro w rfl
      rw [unregisterTaskIfMatch]
      split_ifs <;> exact ⟨rfl, rfl, rfl, rfl⟩
    obtain ⟨hhandles, hpcbs, htcbs, hnext⟩ := hrest _ rfl
    have hw : Sound (s.unregisterTaskIfMatch t tcb) := by
      refine ⟨h.owned.of_eq hhandles hpcbs htcbs hnext,
        h.listed.unregisterTaskIfMatch h.owned hdead, ?_⟩
      rw [DistinctPids, hpcbs]
      exact h.pids
    refine hw.setTcb (htcbs ▸ ht) fun hlive => ?_
    exact hdead tcb ⟨ht, hlive⟩
  | exchangeExecTids u =>
    rw [stepThread] at hstep
    cases hp : s.pcbs.get? tcb.process with
    | none =>
      rw [hp] at hstep
      cases hstep
    | some pcb =>
      rw [hp] at hstep
      split_ifs at hstep with hcond
      refine h.exchangeExecTids ⟨ht, hcond.1⟩ hp (fun u c hc hprocess => ?_) hstep
      have hall := List.all_eq_true.mp hcond.2 (u, c) (mem_entries_iff.mpr hc.1)
      rcases of_decide_eq_true hall with heq | hne | hne
      · exact heq
      · exact absurd hprocess hne
      · exact absurd hc.2 hne
  | _ => cases hstep

/-! ## Runs -/

theorem Sound.dropHandle {r : ℕ} (howned : s.handleOwned r = false) :
    Sound (s.releaseHandle r) := by
  obtain ⟨hpcbs, htcbs, htasks, hprocesses, -⟩ := releaseHandle_rest s r
  rw [handleOwned, Bool.or_eq_false_iff] at howned
  refine ⟨h.owned.releaseHandle (fun p pcb hp heq => ?_) fun t tcb ht heq => ?_,
    ⟨fun p pcb hp hreg => ?_, fun t tcb ht hreg => ?_⟩, ?_⟩
  · refine of_decide_eq_false (anyProcess_eq_false.mp howned.2 p pcb hp.1) ⟨heq, ?_⟩
    rw [hp.2.1]
    exact noConfusion
  · refine of_decide_eq_false (anyThread_eq_false.mp howned.1 t tcb ht.1) ⟨heq, ?_⟩
    rw [(h.owned.thread t tcb ht).1]
    exact noConfusion
  · grind [ProcessAt, h.listed.process]
  · grind [ThreadAt, h.listed.thread]
  · rw [DistinctPids, hpcbs]
    exact h.pids

theorem Sound.newProcess {id : ℕ} (hguard : Guarded s (.newProcess id)) :
    Sound (s.newProcess id) := by
  refine ⟨h.owned.newProcess hguard.1, ⟨fun q c hc hreg => ?_, fun u c hc hreg => ?_⟩, ?_⟩
  · grind [newProcess, get?_insert_cases, ProcessAt, Listed.process, listed]
  · grind [newProcess, threadAt_insert, ThreadAt, Listed.thread, listed]
  · intro p₁ p₂ c₁ c₂ h₁ h₂ hr₁ hr₂ heq
    rcases get?_insert_cases h₁ with ⟨rfl, rfl⟩ | ⟨-, hold₁⟩ <;>
      rcases get?_insert_cases h₂ with ⟨rfl, rfl⟩ | ⟨-, hold₂⟩
    · rfl
    · exact absurd heq.symm (hguard.2 p₂ c₂ hold₂ hr₂)
    · exact absurd heq (hguard.2 p₁ c₁ hold₁ hr₁)
    · exact h.pids p₁ p₂ c₁ c₂ hold₁ hold₂ hr₁ hr₂ heq

theorem Sound.step (hguard : Guarded s e) (hstep : s.step e = some s') : Sound s' := by
  cases e with
  | newProcess id =>
    cases hstep
    exact h.newProcess hguard
  | dropHandle r => grind [step, h.dropHandle]
  | findTaskByTid tid =>
    cases hstep
    have hlisted := h.listed.sweepTask h.owned tid
    rw [sweepTask] at hlisted ⊢
    cases hup : s.upgradeTask tid with
    | some r => exact h
    | none =>
      rw [hup] at hlisted
      exact ⟨h.owned.of_eq rfl rfl rfl rfl, hlisted, h.pids⟩
  | findProcessByPid pid =>
    cases hstep
    have hlisted := h.listed.sweepProcess pid
    rw [sweepProcess] at hlisted ⊢
    cases hup : s.upgradeProcess pid with
    | some r => exact h
    | none =>
      rw [hup] at hlisted
      exact ⟨h.owned.of_eq rfl rfl rfl rfl, hlisted, h.pids⟩
  | newThread p id =>
    obtain ⟨pcb, hp, hstep⟩ := bind_eq_some_iff.mp hstep
    refine h.stepProcess hp (fun q id' heq => ?_) hstep
    cases heq
    exact hguard
  | registerProcess p | markZombie p | releasePid p | unregisterReaped p | loseProcess p
  | dropProcess p =>
    obtain ⟨pcb, hp, hstep⟩ := bind_eq_some_iff.mp hstep
    refine h.stepProcess hp (fun q id' heq => ?_) hstep
    cases heq
  | registerTask t | exitThread t | zombify t | loseThread t | dropThread t
  | exchangeExecTids t =>
    obtain ⟨tcb, ht, hstep⟩ := bind_eq_some_iff.mp hstep
    exact h.stepThread ht hstep

end

theorem sound_initial : Sound .initial := by
  have noProcess : ∀ p pcb, initial.pcbs.get? p ≠ some pcb := fun _ _ hp => nomatch hp
  have noThread : ∀ t tcb, ¬ initial.ThreadAt t tcb := fun _ _ ht => nomatch ht.1
  refine ⟨⟨fun _ _ => ⟨rfl, rfl, rfl⟩, fun h _ id hh => ?_, fun p pcb hp => ?_, fun t tcb ht => ?_,
    fun t tcb ht => ?_, fun p pcb hp => ?_, fun p pcb hp => ?_, fun t _ tcb _ ht => ?_,
    fun t tcb _ _ ht => ?_, fun p _ pcb _ hp => ?_⟩, ⟨fun p pcb hp => ?_, fun t tcb ht => ?_⟩,
    fun p _ pcb _ hp => ?_⟩
  · cases hh
  · exact absurd hp.1 (noProcess p pcb)
  · exact absurd ht (noThread t tcb)
  · exact absurd ht (noThread t tcb)
  · exact absurd hp (noProcess p pcb)
  · exact absurd hp (noProcess p pcb)
  · exact absurd ht (noThread t tcb)
  · exact absurd ht (noThread t tcb)
  · exact absurd hp (noProcess p pcb)
  · exact absurd hp.1 (noProcess p pcb)
  · exact absurd ht (noThread t tcb)
  · exact absurd hp (noProcess p pcb)

theorem sound_of_guarded (hs : (system.restrict Guarded).Reachable s) : Sound s := by
  refine System.Reachable.invariant (fun u hu => ?_) (fun u e u' _ h hstep => ?_) hs
  · obtain rfl : u = .initial := hu
    exact sound_initial
  · exact h.step hstep.1 hstep.2

/-- **The lookups find the live.**  In every run in which the allocator hands out only released ids,
and pids only after the control blocks of their earlier processes are gone, the pid of a registered
process that is not reaped yields the process, and the id of a registered live thread the thread. -/
theorem registry_of_reachable (hs : (system.restrict Guarded).Reachable s) :
    (∀ p pcb, s.pcbs.get? p = some pcb → pcb.registered = true → pcb.refs = .held →
      pcb.reaped = false → s.findProcessByPid pcb.pid = some p) ∧
    ∀ t tcb, s.tcbs.get? t = some tcb → tcb.registered = true → tcb.state = .live →
      s.findTaskByTid tcb.tid = some t := by
  have hsound := sound_of_guarded hs
  constructor
  · intro p pcb hp hreg hrefs hreaped
    exact hsound.listed.upgradeProcess ⟨hp, hrefs, hreaped⟩ hreg
  · intro t tcb ht hreg hlive
    rw [findTaskByTid, hsound.listed.upgradeTask hsound.owned ⟨ht, hlive⟩ hreg, filter_some, ht]
    simp [hlive]

instance (s : State) (id : ℕ) : Decidable (∀ h, ¬ s.Holds h id) :=
  decidable_of_iff (∀ e ∈ s.handles.entries, e.2 ≠ ⟨id, false⟩) <| by
    constructor
    · intro hall h hh
      exact hall (h, ⟨id, false⟩) (mem_entries_iff.mpr hh) rfl
    · rintro hall ⟨h, handle⟩ hmem rfl
      exact hall h (mem_entries_iff.mp hmem)

instance (s : State) (id : ℕ) : Decidable (∀ p pcb, s.pcbs.get? p = some pcb →
    pcb.refs ≠ .dropped → pcb.pid ≠ id) :=
  decidable_of_iff (∀ e ∈ s.pcbs.entries, e.2.refs ≠ .dropped → e.2.pid ≠ id) <| by
    constructor
    · exact fun hall p pcb hp => hall (p, pcb) (mem_entries_iff.mpr hp)
    · rintro hall ⟨p, pcb⟩ hmem
      exact hall p pcb (mem_entries_iff.mp hmem)

instance (s : State) : (e : Event) → Decidable (Guarded s e)
  | .newProcess _ => inferInstanceAs (Decidable (_ ∧ _))
  | .newThread _ id => inferInstanceAs (Decidable (∀ h, ¬ s.Holds h id))
  | .registerProcess _ | .registerTask _ | .exitThread _ | .zombify _ | .markZombie _
  | .releasePid _ | .unregisterReaped _ | .loseThread _ | .dropThread _ | .loseProcess _
  | .dropProcess _ | .dropHandle _ | .exchangeExecTids _ | .findTaskByTid _
  | .findProcessByPid _ => isTrue trivial

/-- A second thread takes over the pid in an exec. -/
def execTakesPid : List Event :=
  [.newProcess 5, .registerProcess 0, .registerTask 0, .newThread 0 6, .registerTask 1,
    .exitThread 0, .zombify 0, .exchangeExecTids 1]

theorem exists_execTakesPid : ∃ s, (system.restrict Guarded).Reachable s ∧
    s.pcbs.get? 0 = some ⟨5, 0, .held, true, false, false, false⟩ ∧
    s.tcbs.get? 1 = some ⟨5, 0, 0, .held, true, .live⟩ :=
  System.exists_run_restrict execTakesPid rfl (by decide)

/-- It is then found under the pid. -/
theorem registry_execTakesPid : ∃ s, (system.restrict Guarded).Reachable s ∧
    s.findProcessByPid 5 = some 0 ∧ s.findTaskByTid 5 = some 1 := by
  obtain ⟨s, hreach, hpcb, htcb⟩ := exists_execTakesPid
  obtain ⟨hprocess, hthread⟩ := registry_of_reachable hreach
  exact ⟨s, hreach, hprocess 0 _ hpcb rfl rfl rfl, hthread 1 _ htcb rfl rfl⟩

/-- **No id is in use twice** in such a run, by live threads or by processes that are not reaped,
and the id of a live thread is a pid only of its own process. -/
theorem distinct_of_guarded (hs : (system.restrict Guarded).Reachable s) :
    (∀ t u a b, s.ThreadAt t a → s.ThreadAt u b → a.tid = b.tid → t = u) ∧
    (∀ p q a b, s.ProcessAt p a → s.ProcessAt q b → a.pid = b.pid → p = q) ∧
    ∀ t p a b, s.ThreadAt t a → s.ProcessAt p b → a.tid = b.pid → a.process = p := by
  have howned := (sound_of_guarded hs).owned
  exact ⟨fun t u a b => howned.eq_of_tid_eq, fun p q a b => howned.eq_of_pid_eq,
    fun t p a b => howned.process_eq_of_tid_eq⟩

/-- After the exec the second thread is the only one with the pid, and its process the only one. -/
theorem distinct_execTakesPid : ∃ s, (system.restrict Guarded).Reachable s ∧
    (∀ t a, s.ThreadAt t a → a.tid = 5 → t = 1) ∧ ∀ p a, s.ProcessAt p a → a.pid = 5 → p = 0 := by
  obtain ⟨s, hreach, hpcb, htcb⟩ := exists_execTakesPid
  obtain ⟨hthread, hprocess, -⟩ := distinct_of_guarded hreach
  exact ⟨s, hreach, fun t a ht htid => hthread t 1 a _ ht ⟨htcb, rfl⟩ htid,
    fun p a hp hpid => hprocess p 0 a _ hp ⟨hpcb, rfl, rfl⟩ hpid⟩

/-- A process is reaped, its pid goes to a new process, and then the last reference to the first
control block is dropped: the new process is live and cannot be found any more. -/
theorem drop_removes_other_entry : ∃ s, system.Reachable s ∧ ∃ p pcb,
    s.pcbs.get? p = some pcb ∧ pcb.registered = true ∧ pcb.refs = .held ∧ pcb.zombie = false ∧
      pcb.reaped = false ∧ s.findProcessByPid pcb.pid = none := by
  let events : List Event := [.newProcess 5, .registerProcess 0, .registerTask 0, .exitThread 0,
    .markZombie 0, .zombify 0, .releasePid 0, .unregisterReaped 0, .newProcess 5,
    .registerProcess 1, .registerTask 1, .loseThread 0, .dropThread 0, .loseProcess 0,
    .dropProcess 0]
  obtain ⟨s, hreach, hpcb, hlost⟩ : ∃ s, system.Reachable s ∧
      s.pcbs.get? 1 = some ⟨5, 1, .held, true, false, false, false⟩ ∧ s.findProcessByPid 5 = none :=
    System.exists_run events rfl (by decide)
  exact ⟨s, hreach, 1, _, hpcb, rfl, rfl, rfl, rfl, hlost⟩
end MangoCore.Task.Registry
