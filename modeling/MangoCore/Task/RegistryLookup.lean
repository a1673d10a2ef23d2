import MangoCore.Task.Registry

/-!
# Looking up a live process or thread

An id identifies its owner as long as its handle is not released: two handles that are not released
have different ids, a live thread and a process that is not reaped own such a handle, and two live
threads never own the same one, also not after an exec (`Owned`).  So an entry of a live thread is
overwritten only by the thread itself, and the drop of another thread leaves it alone, because
`unregister_task_if_match` compares the references.

For processes the last step fails: a reaper, and the drop of a control block, remove the entry of
the pid without a comparison, after the pid has been released.  The lookups are right in the runs in
which no process gets a pid while the control block of an earlier process with this pid is there
(`Guarded`).
-/

namespace MangoCore.Task.Registry

open OrdMap State

/-- The process is there and nobody has begun to reap it. -/
def Pcb.Present (pcb : Pcb) : Prop := pcb.refs = .held ∧ pcb.reaped = false

namespace State

variable (s : State)

/-- The handle has the id and is not released. -/
def Holds (h id : ℕ) : Prop := s.handles.get? h = some ⟨id, false⟩

/-- The process is not reaped. -/
def ProcessAt (p : ℕ) (pcb : Pcb) : Prop := s.pcbs.get? p = some pcb ∧ pcb.Present

/-- The thread is live. -/
def ThreadAt (t : ℕ) (tcb : Tcb) : Prop :=
  s.tcbs.get? t = some tcb ∧ tcb.state = .live

end State

/-- Who owns which id. -/
structure Owned (s : State) : Prop where
  fresh : ∀ r, s.nextRef ≤ r →
    s.handles.get? r = none ∧ s.pcbs.get? r = none ∧ s.tcbs.get? r = none
  holds_inj : ∀ h₁ h₂ id, s.Holds h₁ id → s.Holds h₂ id → h₁ = h₂
  process : ∀ p pcb, s.ProcessAt p pcb → s.Holds pcb.pidHandle pcb.pid
  thread : ∀ t tcb, s.ThreadAt t tcb → tcb.refs = .held ∧ s.Holds tcb.tidHandle tcb.tid
  host : ∀ t tcb, s.ThreadAt t tcb →
    ∃ pcb, s.ProcessAt tcb.process pcb ∧ pcb.zombie = false
  pidHandle_lt : ∀ p pcb, s.pcbs.get? p = some pcb → pcb.pidHandle < s.nextRef
  reaped_zombie : ∀ p pcb, s.pcbs.get? p = some pcb → pcb.reaped = true → pcb.zombie = true
  thread_inj : ∀ t₁ t₂ tcb₁ tcb₂, s.ThreadAt t₁ tcb₁ → s.ThreadAt t₂ tcb₂ →
    tcb₁.tidHandle = tcb₂.tidHandle → t₁ = t₂
  leader : ∀ t tcb p pcb, s.ThreadAt t tcb → s.pcbs.get? p = some pcb →
    tcb.tidHandle = pcb.pidHandle → tcb.process = p
  process_inj : ∀ p₁ p₂ pcb₁ pcb₂, s.pcbs.get? p₁ = some pcb₁ → s.pcbs.get? p₂ = some pcb₂ →
    pcb₁.pidHandle = pcb₂.pidHandle → p₁ = p₂

/-- The entries of the registry. -/
structure Listed (s : State) : Prop where
  process : ∀ p pcb, s.ProcessAt p pcb → pcb.registered = true →
    s.processes.get? pcb.pid = some p
  thread : ∀ t tcb, s.ThreadAt t tcb → tcb.registered = true → s.tasks.get? tcb.tid = some t

/-- No two processes that are still there had the same pid. -/
def DistinctPids (s : State) : Prop :=
  ∀ p₁ p₂ pcb₁ pcb₂, s.pcbs.get? p₁ = some pcb₁ → s.pcbs.get? p₂ = some pcb₂ →
    pcb₁.refs ≠ .dropped → pcb₂.refs ≠ .dropped → pcb₁.pid = pcb₂.pid → p₁ = p₂

variable {s s' : State} {p t id r id' h' : ℕ} {pcb : Pcb} {tcb : Tcb} {a b : Tcb}

theorem anyThread_eq_false {f : Tcb → Bool} :
    s.anyThread f = false ↔ ∀ t tcb, s.tcbs.get? t = some tcb → f tcb = false := by
  simp [anyThread, mem_entries_iff]

theorem anyProcess_eq_false {f : Pcb → Bool} :
    s.anyProcess f = false ↔ ∀ p pcb, s.pcbs.get? p = some pcb → f pcb = false := by
  simp [anyProcess, mem_entries_iff]

/-! ## Owners -/

/-- Two live threads with one id are the same. -/
theorem Owned.eq_of_tid_eq (h : Owned s) {t₁ t₂ : ℕ} {tcb₁ tcb₂ : Tcb} (h₁ : s.ThreadAt t₁ tcb₁)
    (h₂ : s.ThreadAt t₂ tcb₂) (htid : tcb₁.tid = tcb₂.tid) : t₁ = t₂ := by
  have hold₁ := (h.thread _ _ h₁).2
  have hold₂ := (h.thread _ _ h₂).2
  rw [← htid] at hold₂
  exact h.thread_inj _ _ _ _ h₁ h₂ (h.holds_inj _ _ _ hold₁ hold₂)

/-- Two processes that are not reaped and have one pid are the same. -/
theorem Owned.eq_of_pid_eq (h : Owned s) {p₁ p₂ : ℕ} {pcb₁ pcb₂ : Pcb}
    (h₁ : s.ProcessAt p₁ pcb₁) (h₂ : s.ProcessAt p₂ pcb₂) (hpid : pcb₁.pid = pcb₂.pid) :
    p₁ = p₂ := by
  have hold₁ := h.process _ _ h₁
  have hold₂ := h.process _ _ h₂
  rw [← hpid] at hold₂
  exact h.process_inj _ _ _ _ h₁.1 h₂.1 (h.holds_inj _ _ _ hold₁ hold₂)

/-- A live thread whose id is the pid of a process that is not reaped belongs to the process. -/
theorem Owned.process_eq_of_tid_eq (h : Owned s) (ht : s.ThreadAt t tcb)
    (hp : s.ProcessAt p pcb) (hid : tcb.tid = pcb.pid) : tcb.process = p := by
  have hold₁ := (h.thread _ _ ht).2
  have hold₂ := h.process _ _ hp
  rw [← hid] at hold₂
  exact h.leader _ _ _ _ ht hp.1 (h.holds_inj _ _ _ hold₁ hold₂)

/-- A step in which objects only lose: no id changes, nothing becomes live again, and the handles
that are still needed are not released. -/
structure Weakens (s s' : State) : Prop where
  nextRef : s'.nextRef = s.nextRef
  fresh : ∀ r, s.handles.get? r = none ∧ s.pcbs.get? r = none ∧ s.tcbs.get? r = none →
    s'.handles.get? r = none ∧ s'.pcbs.get? r = none ∧ s'.tcbs.get? r = none
  holds : ∀ h id, s'.Holds h id → s.Holds h id
  pcbs : ∀ p b, s'.pcbs.get? p = some b → ∃ a, s.pcbs.get? p = some a ∧ b.pid = a.pid ∧
    b.pidHandle = a.pidHandle ∧ (b.Present → a.Present ∧ s'.Holds a.pidHandle a.pid) ∧
    (b.reaped = true → b.zombie = true)
  tcbs : ∀ t b, s'.ThreadAt t b → ∃ a, s.ThreadAt t a ∧ b.tid = a.tid ∧
    b.tidHandle = a.tidHandle ∧ b.process = a.process ∧ b.refs = .held ∧
    s'.Holds a.tidHandle a.tid ∧ ∃ pcb, s'.ProcessAt a.process pcb ∧ pcb.zombie = false

theorem Owned.weaken (h : Owned s) (hw : Weakens s s') : Owned s' where
  fresh r hr := hw.fresh r (h.fresh r (hw.nextRef ▸ hr))
  holds_inj h₁ h₂ id hold₁ hold₂ := h.holds_inj _ _ _ (hw.holds _ _ hold₁) (hw.holds _ _ hold₂)
  process p b hp := by
    obtain ⟨a, -, hpid, hhandle, hpresent, -⟩ := hw.pcbs p b hp.1
    rw [hpid, hhandle]
    exact (hpresent hp.2).2
  thread t b ht := by
    obtain ⟨a, -, htid, hhandle, -, hrefs, hold, -⟩ := hw.tcbs t b ht
    rw [htid, hhandle]
    exact ⟨hrefs, hold⟩
  host t b ht := by
    obtain ⟨a, -, -, -, hprocess, -, -, hhost⟩ := hw.tcbs t b ht
    rw [hprocess]
    exact hhost
  pidHandle_lt p b hp := by
    obtain ⟨a, ha, -, hhandle, -⟩ := hw.pcbs p b hp
    rw [hhandle, hw.nextRef]
    exact h.pidHandle_lt p a ha
  reaped_zombie p b hp := by
    obtain ⟨a, -, -, -, -, hzombie⟩ := hw.pcbs p b hp
    exact hzombie
  thread_inj t₁ t₂ b₁ b₂ h₁ h₂ heq := by
    obtain ⟨a₁, ha₁, -, hhandle₁, -⟩ := hw.tcbs t₁ b₁ h₁
    obtain ⟨a₂, ha₂, -, hhandle₂, -⟩ := hw.tcbs t₂ b₂ h₂
    exact h.thread_inj _ _ _ _ ha₁ ha₂ (by rw [← hhandle₁, ← hhandle₂, heq])
  leader t b p b' ht hp heq := by grind [hw.tcbs, hw.pcbs, h.leader]
  process_inj p₁ p₂ b₁ b₂ h₁ h₂ heq := by grind [hw.pcbs, h.process_inj]

theorem Owned.of_eq (h : Owned s) (hhandles : s'.handles = s.handles) (hpcbs : s'.pcbs = s.pcbs)
    (htcbs : s'.tcbs = s.tcbs) (hnext : s'.nextRef = s.nextRef) : Owned s' := by
  obtain ⟨handles, pcbs, tcbs, tasks, processes, nextRef⟩ := s'
  subst hhandles hpcbs htcbs hnext
  exact ⟨h.fresh, h.holds_inj, h.process, h.thread, h.host, h.pidHandle_lt, h.reaped_zombie,
    h.thread_inj, h.leader, h.process_inj⟩

/-- The control block of a thread changes; a thread does not become live. -/
theorem Owned.setTcb (h : Owned s) (ha : s.tcbs.get? t = some a)
    (hb : b.state = .live → a.state = .live ∧ b.tid = a.tid ∧ b.tidHandle = a.tidHandle ∧
      b.process = a.process ∧ b.refs = .held) : Owned (s.setTcb t b) := by
  refine h.weaken ⟨rfl, fun r hr => ⟨hr.1, hr.2.1, ?_⟩, fun _ _ hh => hh, fun p pcb hp => ?_,
    fun u c hc => ?_⟩
  · change (s.tcbs.insert t b).get? r = none
    grind [get?_insert]
  · exact ⟨pcb, hp, rfl, rfl, fun hpresent => ⟨hpresent, h.process p pcb ⟨hp, hpresent⟩⟩,
      h.reaped_zombie p pcb hp⟩
  · obtain ⟨hget, hlive⟩ := hc
    change (s.tcbs.insert t b).get? u = some c at hget
    rcases get?_insert_cases hget with ⟨rfl, rfl⟩ | ⟨-, hget⟩
    · obtain ⟨halive, htid, hhandle, hprocess, hrefs⟩ := hb hlive
      exact ⟨a, ⟨ha, halive⟩, htid, hhandle, hprocess, hrefs, (h.thread u a ⟨ha, halive⟩).2,
        h.host u a ⟨ha, halive⟩⟩
    · have hc : s.ThreadAt u c := ⟨hget, hlive⟩
      exact ⟨c, hc, rfl, rfl, rfl, (h.thread u c hc).1, (h.thread u c hc).2, h.host u c hc⟩

/-- The control block of a process changes; without live threads it may become a zombie or be
reaped or dropped. -/
theorem Owned.setPcb (h : Owned s) {a b : Pcb} (ha : s.pcbs.get? p = some a)
    (hpid : b.pid = a.pid) (hhandle : b.pidHandle = a.pidHandle) (hpresent : b.Present → a.Present)
    (hzombie : b.reaped = true → b.zombie = true)
    (hlive : ∀ t tcb, s.ThreadAt t tcb → tcb.process = p → b.Present ∧ b.zombie = false) :
    Owned (s.setPcb p b) := by
  refine h.weaken ⟨rfl, fun r hr => ⟨hr.1, ?_, hr.2.2⟩, fun _ _ hh => hh, fun q c hc => ?_,
    fun t tcb ht => ?_⟩
  · change (s.pcbs.insert p b).get? r = none
    grind [get?_insert]
  · change (s.pcbs.insert p b).get? q = some c at hc
    rcases get?_insert_cases hc with ⟨rfl, rfl⟩ | ⟨-, hc⟩
    · exact ⟨a, ha, hpid, hhandle, fun hb => ⟨hpresent hb, h.process q a ⟨ha, hpresent hb⟩⟩,
        hzombie⟩
    · exact ⟨c, hc, rfl, rfl, fun hb => ⟨hb, h.process q c ⟨hc, hb⟩⟩, h.reaped_zombie q c hc⟩
  · have hthread : s.ThreadAt t tcb := ht
    refine ⟨tcb, hthread, rfl, rfl, rfl, (h.thread t tcb hthread).1, (h.thread t tcb hthread).2, ?_⟩
    by_cases tcb.process = p
    · grind [ProcessAt, setPcb, get?_insert_self]
    · grind [ProcessAt, setPcb, host, get?_insert_of_ne]

theorem get?_releaseHandle {h : ℕ} :
    (s.releaseHandle h).handles.get? h' =
      if h' = h then (s.handles.get? h).map fun handle => { handle with released := true }
      else s.handles.get? h' := by
  rw [releaseHandle]
  cases hget : s.handles.get? h with
  | none =>
    split_ifs with heq
    · rw [heq, hget]
      rfl
    · rfl
  | some handle =>
    rw [get?_insert]
    split_ifs <;> rfl

theorem releaseHandle_rest (s : State) (h : ℕ) :
    (s.releaseHandle h).pcbs = s.pcbs ∧ (s.releaseHandle h).tcbs = s.tcbs ∧
      (s.releaseHandle h).tasks = s.tasks ∧ (s.releaseHandle h).processes = s.processes ∧
      (s.releaseHandle h).nextRef = s.nextRef := by
  grind [releaseHandle]

theorem holds_releaseHandle {h : ℕ} : (s.releaseHandle h).Holds h' id ↔ h' ≠ h ∧ s.Holds h' id := by
  grind [releaseHandle, State.Holds.eq_1, get?_releaseHandle]

/-- A handle that no live thread and no process needs is released. -/
theorem Owned.releaseHandle (h : Owned s)
    (hprocess : ∀ p pcb, s.ProcessAt p pcb → pcb.pidHandle ≠ r)
    (hthread : ∀ t tcb, s.ThreadAt t tcb → tcb.tidHandle ≠ r) : Owned (s.releaseHandle r) := by
  obtain ⟨hpcbs, htcbs, -, -, hnext⟩ := releaseHandle_rest s r
  refine h.weaken ⟨hnext, fun u hu => ⟨?_, ?_, ?_⟩,
    fun _ _ hh => (holds_releaseHandle.mp hh).2, fun p pcb hp => ?_, fun t tcb ht => ?_⟩
  · grind [get?_releaseHandle]
  · rw [hpcbs]
    exact hu.2.1
  · rw [htcbs]
    exact hu.2.2
  · rw [hpcbs] at hp
    refine ⟨pcb, hp, rfl, rfl, fun hb => ⟨hb, ?_⟩, h.reaped_zombie p pcb hp⟩
    exact holds_releaseHandle.mpr ⟨hprocess p pcb ⟨hp, hb⟩, h.process p pcb ⟨hp, hb⟩⟩
  · rw [ThreadAt, htcbs] at ht
    refine ⟨tcb, ht, rfl, rfl, rfl, (h.thread t tcb ht).1,
      holds_releaseHandle.mpr ⟨hthread t tcb ht, (h.thread t tcb ht).2⟩, ?_⟩
    simp only [ProcessAt, hpcbs]
    exact h.host t tcb ht

/-! ### New objects -/

theorem Owned.lt_of_holds (h : Owned s) (hh : s.Holds r id) : r < s.nextRef := by
  by_contra hle
  rw [Holds, (h.fresh r (not_lt.mp hle)).1] at hh
  cases hh

theorem Owned.holds_inj_insert (h : Owned s) (hid : ∀ r, ¬ s.Holds r id)
    {h₁ h₂ : ℕ} (hold₁ : (s.handles.insert s.nextRef ⟨id, false⟩).get? h₁ = some ⟨id', false⟩)
    (hold₂ : (s.handles.insert s.nextRef ⟨id, false⟩).get? h₂ = some ⟨id', false⟩) : h₁ = h₂ := by
  rcases get?_insert_cases hold₁ with ⟨rfl, ⟨⟩⟩ | ⟨-, hold₁⟩ <;>
    rcases get?_insert_cases hold₂ with ⟨rfl, ⟨⟩⟩ | ⟨-, hold₂⟩
  · rfl
  · exact absurd hold₂ (hid _)
  · exact absurd hold₁ (hid _)
  · exact h.holds_inj _ _ _ hold₁ hold₂

theorem Owned.holds_insert_of_holds (h : Owned s) (hh : s.Holds r id') :
    (s.handles.insert s.nextRef ⟨id, false⟩).get? r = some ⟨id', false⟩ := by
  rw [get?_insert_of_ne _ (ne_of_lt (h.lt_of_holds hh))]
  exact hh

theorem Owned.fresh_of_lt (h : Owned s) (hr : s.nextRef + 1 ≤ r) :
    r ≠ s.nextRef ∧ s.handles.get? r = none ∧ s.pcbs.get? r = none ∧ s.tcbs.get? r = none :=
  ⟨by omega, h.fresh r (by omega)⟩

theorem threadAt_insert {tcbs : OrdMap ℕ Tcb}
    {new : Tcb} (ht : (tcbs.insert r new).get? t = some tcb) (hlive : tcb.state = .live) :
    t = r ∧ tcb = new ∨ t ≠ r ∧ tcbs.get? t = some tcb ∧ tcb.state = .live :=
  (get?_insert_cases ht).imp_right fun hold => ⟨hold.1, hold.2, hlive⟩

/-- A new entry whose handle no other entry has keeps the handles apart. -/
theorem inj_insert {β : Type} {m : OrdMap ℕ β} {k₁ k₂ : ℕ} {new b₁ b₂ : β} {P : β → Prop}
    {f : β → ℕ} (hnew : ∀ k b, m.get? k = some b ∧ P b → f b ≠ f new)
    (hinj : ∀ k₁ k₂ b₁ b₂, m.get? k₁ = some b₁ ∧ P b₁ → m.get? k₂ = some b₂ ∧ P b₂ →
      f b₁ = f b₂ → k₁ = k₂) (h₁ : (m.insert r new).get? k₁ = some b₁ ∧ P b₁)
    (h₂ : (m.insert r new).get? k₂ = some b₂ ∧ P b₂) (heq : f b₁ = f b₂) : k₁ = k₂ := by
  rcases get?_insert_cases h₁.1 with ⟨rfl, rfl⟩ | ⟨-, hold₁⟩ <;>
    rcases get?_insert_cases h₂.1 with ⟨rfl, rfl⟩ | ⟨-, hold₂⟩
  · rfl
  · exact absurd heq.symm (hnew _ _ ⟨hold₂, h₂.2⟩)
  · exact absurd heq (hnew _ _ ⟨hold₁, h₁.2⟩)
  · exact hinj _ _ _ _ ⟨hold₁, h₁.2⟩ ⟨hold₂, h₂.2⟩ heq

/-- A new thread of a process with a live thread, under an id that nobody holds. -/
theorem Owned.newThread (h : Owned s) (hid : ∀ r, ¬ s.Holds r id)
    (hhost : ∃ pcb, s.ProcessAt p pcb ∧ pcb.zombie = false) : Owned (s.newThread p id) where
  fresh r hr := by grind [newThread, fresh_of_lt, get?_insert_of_ne]
  holds_inj h₁ h₂ id' hold₁ hold₂ := h.holds_inj_insert hid hold₁ hold₂
  process q pcb hq := h.holds_insert_of_holds (h.process q pcb hq)
  thread t tcb ht := by
    rcases threadAt_insert ht.1 ht.2 with ⟨-, rfl⟩ | ⟨-, hold⟩
    · exact ⟨rfl, get?_insert_self _⟩
    · exact ⟨(h.thread t tcb hold).1, h.holds_insert_of_holds (h.thread t tcb hold).2⟩
  host t tcb ht := by
    rcases threadAt_insert ht.1 ht.2 with ⟨-, rfl⟩ | ⟨-, hold⟩
    · exact hhost
    · exact h.host t tcb hold
  pidHandle_lt q pcb hq := Nat.lt_succ_of_lt (h.pidHandle_lt q pcb hq)
  reaped_zombie := h.reaped_zombie
  thread_inj _ _ _ _ ht₁ ht₂ heq :=
    inj_insert (P := fun tcb : Tcb => tcb.state = .live)
      (fun t tcb ht => Nat.ne_of_lt (h.lt_of_holds (h.thread t tcb ht).2))
      h.thread_inj ht₁ ht₂ heq
  leader t tcb q pcb ht hq heq := by
    rcases threadAt_insert ht.1 ht.2 with ⟨rfl, rfl⟩ | ⟨-, hold⟩
    · exact absurd heq.symm (Nat.ne_of_lt (h.pidHandle_lt q pcb hq))
    · exact h.leader _ _ _ _ hold hq heq
  process_inj := h.process_inj

/-- A new process under an id that nobody holds. -/
theorem Owned.newProcess (h : Owned s) (hid : ∀ r, ¬ s.Holds r id) : Owned (s.newProcess id) where
  fresh r hr := by grind [newProcess, fresh_of_lt, get?_insert_of_ne]
  holds_inj h₁ h₂ id' hold₁ hold₂ := h.holds_inj_insert hid hold₁ hold₂
  process q pcb hq := by
    rcases get?_insert_cases hq.1 with ⟨-, rfl⟩ | ⟨-, hold⟩
    · exact get?_insert_self _
    · exact h.holds_insert_of_holds (h.process q pcb ⟨hold, hq.2⟩)
  thread t tcb ht := by
    rcases threadAt_insert ht.1 ht.2 with ⟨-, rfl⟩ | ⟨-, hold⟩
    · exact ⟨rfl, get?_insert_self _⟩
    · exact ⟨(h.thread t tcb hold).1, h.holds_insert_of_holds (h.thread t tcb hold).2⟩
  host t tcb ht := by
    rcases threadAt_insert ht.1 ht.2 with ⟨-, rfl⟩ | ⟨-, hold⟩
    · exact ⟨_, ⟨get?_insert_self _, rfl, rfl⟩, rfl⟩
    · obtain ⟨pcb, hpcb, hzombie⟩ := h.host t tcb hold
      refine ⟨pcb, ⟨?_, hpcb.2⟩, hzombie⟩
      refine (get?_insert_of_ne _ ?_).trans hpcb.1
      intro heq
      have hnone := (h.fresh _ le_rfl).2.1
      rw [← heq, hpcb.1] at hnone
      cases hnone
  pidHandle_lt q pcb hq := by
    rcases get?_insert_cases hq with ⟨-, rfl⟩ | ⟨-, hold⟩
    · exact Nat.lt_succ_self _
    · exact Nat.lt_succ_of_lt (h.pidHandle_lt q pcb hold)
  reaped_zombie q pcb hq := by
    rcases get?_insert_cases hq with ⟨-, rfl⟩ | ⟨-, hold⟩
    · exact fun hreaped => nomatch hreaped
    · exact h.reaped_zombie q pcb hold
  thread_inj _ _ _ _ ht₁ ht₂ heq :=
    inj_insert (P := fun tcb : Tcb => tcb.state = .live)
      (fun t tcb ht => Nat.ne_of_lt (h.lt_of_holds (h.thread t tcb ht).2))
      h.thread_inj ht₁ ht₂ heq
  leader t tcb q pcb ht hq heq := by
    rcases threadAt_insert ht.1 ht.2 with ⟨rfl, rfl⟩ | ⟨-, hold⟩ <;>
      rcases get?_insert_cases hq with ⟨rfl, rfl⟩ | ⟨-, hold'⟩
    · rfl
    · exact absurd heq.symm (Nat.ne_of_lt (h.pidHandle_lt q pcb hold'))
    · exact absurd heq (Nat.ne_of_lt (h.lt_of_holds (h.thread _ _ hold).2))
    · exact h.leader _ _ _ _ hold hold' heq
  process_inj _ _ _ _ hp₁ hp₂ heq :=
    inj_insert (P := fun _ => True) (fun p pcb hp => Nat.ne_of_lt (h.pidHandle_lt p pcb hp.1))
      (fun _ _ _ _ h₁ h₂ => h.process_inj _ _ _ _ h₁.1 h₂.1) ⟨hp₁, trivial⟩ ⟨hp₂, trivial⟩ heq

/-! ### Exec -/

/-- The only live thread of a process takes the handle of the pid. -/
theorem Owned.becomeLeader (h : Owned s) (ht : s.ThreadAt t tcb)
    (hp : s.pcbs.get? tcb.process = some pcb)
    (honly : ∀ u c, s.ThreadAt u c → c.process = tcb.process → u = t) :
    Owned (s.setTcb t { tcb with tid := pcb.pid, tidHandle := pcb.pidHandle }) := by
  obtain ⟨pcb', hpresent, hzombie⟩ := h.host t tcb ht
  obtain rfl : pcb = pcb' := Option.some.inj (hp.symm.trans hpresent.1)
  have htaken : ∀ u c, s.ThreadAt u c → c.tidHandle = pcb.pidHandle → u = t :=
    fun u c hc heq => honly u c hc (h.leader u c _ _ hc hp heq)
  have hcases : ∀ u c, (s.setTcb t { tcb with tid := pcb.pid, tidHandle := pcb.pidHandle }).ThreadAt
      u c → u = t ∧ c = { tcb with tid := pcb.pid, tidHandle := pcb.pidHandle } ∨
        u ≠ t ∧ s.ThreadAt u c :=
    fun u c hc => threadAt_insert hc.1 hc.2
  refine ⟨fun r hr => ?_, h.holds_inj, h.process, fun u c hc => ?_, fun u c hc => ?_,
    h.pidHandle_lt, h.reaped_zombie, fun t₁ t₂ c₁ c₂ h₁ h₂ heq => ?_,
    fun u c q qcb hc hq heq => ?_, h.process_inj⟩
  · grind [State.setTcb, fresh, get?_insert_of_ne, State.ThreadAt]
  · rcases hcases u c hc with ⟨-, rfl⟩ | ⟨-, hold⟩
    · exact ⟨(h.thread t tcb ht).1, h.process _ _ hpresent⟩
    · exact h.thread u c hold
  · grind [State.ProcessAt, State.setTcb, host]
  · grind [h.thread_inj]
  · grind [State.setTcb, process_inj, leader]

/-- The hand-over changes the id of a zombie at most. -/
theorem handOver_spec {owner : Tcb} {leaderTid : ℕ} (hstep : s.handOver leaderTid owner = some s') :
    s' = s ∨ ∃ former tcb, s.tcbs.get? former = some tcb ∧ tcb.state = .zombie ∧
      s' = s.setTcb former { tcb with tid := owner.tid, tidHandle := owner.tidHandle } := by
  grind [handOver.eq_1]

/-! ## Entries -/

variable (h : Listed s)
include h

/-- The entry of a listed live thread can be upgraded. -/
theorem Listed.upgradeTask (hs : Owned s) (ht : s.ThreadAt t tcb)
    (hreg : tcb.registered = true) : s.upgradeTask tcb.tid = some t := by
  rw [State.upgradeTask, h.thread t tcb ht hreg, Option.filter_some, ht.1]
  simp [(hs.thread t tcb ht).1]

theorem Listed.upgradeProcess (hp : s.ProcessAt p pcb)
    (hreg : pcb.registered = true) : s.upgradeProcess pcb.pid = some p := by
  rw [State.upgradeProcess, h.process p pcb hp hreg, Option.filter_some, hp.1]
  simp [hp.2.1]

/-- The objects change and the registry does not: no id is new to a listed object. -/
theorem Listed.setTcb (ha : s.tcbs.get? t = some a)
    (hb : b.state = .live → b.registered = true →
      a.state = .live ∧ a.registered = true ∧ b.tid = a.tid) : Listed (s.setTcb t b) := by
  refine ⟨h.process, fun u c hc hreg => ?_⟩
  rcases threadAt_insert hc.1 hc.2 with ⟨rfl, rfl⟩ | ⟨-, hold⟩
  · obtain ⟨hlive, hareg, htid⟩ := hb hc.2 hreg
    rw [htid]
    exact h.thread u a ⟨ha, hlive⟩ hareg
  · exact h.thread u c hold hreg

theorem Listed.setPcb {a b : Pcb} (ha : s.pcbs.get? p = some a)
    (hb : b.Present → b.registered = true →
      a.Present ∧ a.registered = true ∧ b.pid = a.pid) : Listed (s.setPcb p b) := by
  refine ⟨fun q c hc hreg => ?_, h.thread⟩
  rcases get?_insert_cases hc.1 with ⟨rfl, rfl⟩ | ⟨-, hold⟩
  · obtain ⟨hpresent, hareg, hpid⟩ := hb hc.2 hreg
    rw [hpid]
    exact h.process q a ⟨ha, hpresent⟩ hareg
  · exact h.process q c ⟨hold, hc.2⟩ hreg

theorem Listed.registerTask (hs : Owned s) (ht : s.ThreadAt t tcb) :
    Listed (s.registerTask t tcb) := by
  refine ⟨h.process, fun u c hc hreg => ?_⟩
  change (s.tasks.insert tcb.tid t).get? c.tid = some u
  rcases threadAt_insert hc.1 hc.2 with ⟨rfl, rfl⟩ | ⟨hne, hold⟩
  · exact get?_insert_self ..
  · rw [get?_insert_of_ne]
    · exact h.thread u c hold hreg
    · exact fun htid => hne (hs.eq_of_tid_eq hold ht htid)

theorem Listed.registerProcess (hs : Owned s) (hp : s.ProcessAt p pcb) :
    Listed (s.registerProcess p pcb) := by
  refine ⟨fun q c hc hreg => ?_, h.thread⟩
  change (s.processes.insert pcb.pid p).get? c.pid = some q
  rcases get?_insert_cases hc.1 with ⟨rfl, rfl⟩ | ⟨hne, hold⟩
  · exact get?_insert_self ..
  · rw [get?_insert_of_ne]
    · exact h.process q c ⟨hold, hc.2⟩ hreg
    · exact fun hpid => hne (hs.eq_of_pid_eq ⟨hold, hc.2⟩ hp hpid)

/-- **The comparison protects the threads.**  The drop of a control block that is not live leaves
the entries of all live threads. -/
theorem Listed.unregisterTaskIfMatch (hs : Owned s)
    (hdead : ∀ c, ¬ s.ThreadAt t c) : Listed (s.unregisterTaskIfMatch t tcb) := by
  rw [State.unregisterTaskIfMatch]
  split_ifs with hremove
  · refine ⟨h.process, fun u c hc hreg => ?_⟩
    rw [get?_erase_of_ne]
    · exact h.thread u c hc hreg
    · intro htid
      have hup := h.upgradeTask hs hc hreg
      rw [htid] at hup
      rw [hup] at hremove
      have heq : u = t := by simpa using hremove
      exact hdead c (heq ▸ hc)
  · exact h

/-- **Nothing protects the processes** but that no other process with this pid is there. -/
theorem Listed.unregisterProcess {pid : ℕ}
    (hnone : ∀ q c, s.ProcessAt q c → c.pid ≠ pid) : Listed (s.unregisterProcess pid) := by
  refine ⟨fun q c hc hreg => ?_, h.thread⟩
  change (s.processes.erase pid).get? c.pid = some q
  rw [get?_erase_of_ne _ (hnone q c hc)]
  exact h.process q c hc hreg

theorem Listed.sweepTask (hs : Owned s) (tid : ℕ) : Listed (s.sweepTask tid) := by
  rw [State.sweepTask]
  cases hup : s.upgradeTask tid with
  | some r => exact h
  | none =>
    refine ⟨h.process, fun u c hc hreg => ?_⟩
    refine (get?_erase_of_ne _ ?_).trans (h.thread u c hc hreg)
    rintro rfl
    rw [h.upgradeTask hs hc hreg] at hup
    cases hup

theorem Listed.sweepProcess (pid : ℕ) : Listed (s.sweepProcess pid) := by
  rw [State.sweepProcess]
  cases hup : s.upgradeProcess pid with
  | some r => exact h
  | none =>
    refine ⟨fun q c hc hreg => ?_, h.thread⟩
    refine (get?_erase_of_ne _ ?_).trans (h.process q c hc hreg)
    rintro rfl
    rw [h.upgradeProcess hc hreg] at hup
    cases hup
end MangoCore.Task.Registry
