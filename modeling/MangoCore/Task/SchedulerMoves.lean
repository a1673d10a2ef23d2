import MangoCore.Lib.Outcome
import MangoCore.Task.SchedulerOwners
import Mathlib.Data.List.Nodup

/-!
# What the steps do to the containers

The lemmas on the run queues, the registry and the owners that the steps of the scheduler use: a
task enters a run queue, leaves one, or changes its state outside of the run queues.
-/

namespace MangoCore.Task

open Function Places List TaskStatus Holder Option

/-! ## Run queues -/

namespace Queues

variable {status : ℕ → TaskStatus} {queue : ℕ → List ℕ} {nrRunning : ℕ → ℕ} {st : TaskStatus}
  {t c i : ℕ} (h : Queues status queue nrRunning)
include h

theorem not_mem (ht : ∀ c, status t ≠ .queued c) : t ∉ queue c :=
  fun hmem => ht c ((h.mem_iff c t).mp hmem)

/-- A task that is in no run queue changes to a state that names none. -/
theorem relabel (ht : ∀ c, status t ≠ .queued c) (hst : ∀ c, st ≠ .queued c) :
    Queues (update status t st) queue nrRunning where
  mem_iff c u := by grind [h.mem_iff c u]
  nodup := h.nodup
  count := h.count

/-- A task enters a run queue, at either end. -/
theorem insert {q : List ℕ} (ht : ∀ c, status t ≠ .queued c) (hq : q.Perm (t :: queue c)) :
    Queues (update status t (.queued c)) (update queue c q)
      (update nrRunning c (nrRunning c + 1)) where
  mem_iff d u := by
    have hmem : u ∈ q ↔ u = t ∨ u ∈ queue c := by rw [hq.mem_iff, mem_cons]
    grind [h.mem_iff]
  nodup d := by
    have hq' : q.Nodup := hq.nodup_iff.mpr (nodup_cons.mpr ⟨h.not_mem ht, h.nodup c⟩)
    grind [h.nodup d]
  count d := by grind [hq.length_eq, h.count]

theorem remove (hi : (queue c)[i]? = some t) (hst : ∀ c, st ≠ .queued c) :
    Queues (update status t st) (update queue c ((queue c).eraseIdx i))
      (update nrRunning c (nrRunning c - 1)) := by
  obtain ⟨hlt, hget⟩ := List.getElem?_eq_some_iff.mp hi
  have hmem : t ∈ queue c := hget ▸ List.getElem_mem hlt
  have htc : status t = .queued c := (h.mem_iff c t).mp hmem
  have herase : (queue c).eraseIdx i = (queue c).erase t := by
    rw [← hget, (h.nodup c).erase_getElem i hlt]
  refine ⟨fun d u => ?_, fun d => ?_, fun d => ?_⟩
  · grind [(h.nodup c).mem_erase_iff, h.mem_iff]
  · grind [h.nodup d]
  · grind [h.count]

theorem count_pos (hi : (queue c)[i]? = some t) : nrRunning c ≠ 0 := by
  grind [h.count]

end Queues

/-! ## The registry -/

/-- On a registry without duplicates the three branches of `remove_interruptible` do the same. -/
theorem removeInterruptible_eq {registry : List ℕ} (h : registry.Nodup) (t : ℕ) :
    State.removeInterruptible registry t =
      (registry.filter (fun u => u != t), decide (t ∈ registry)) := by
  rw [State.removeInterruptible]
  split_ifs with hhead hlast
  · grind [head?_eq_some_iff, filter_eq_self]
  · obtain ⟨l, rfl⟩ := getLast?_eq_some_iff.mp hlast
    have hnot : t ∉ l := fun hmem =>
      (nodup_append.mp h).2.2 t hmem t (mem_singleton_self t) rfl
    have hkeep : l.filter (fun u => u != t) = l :=
      filter_eq_self.mpr fun u hu => bne_iff_ne.mpr fun heq => hnot (heq ▸ hu)
    simp [hkeep]
  · refine Prod.ext rfl ?_
    by_cases hmem : t ∈ registry
    · simp [hmem]
    · grind [filter_eq_self]

namespace Registry

variable {status status' : ℕ → TaskStatus} {registry : List ℕ} {op op' : Ctx → Op} {t : ℕ}
  {st : TaskStatus} (h : Registry status registry op) {o : Ctx}
include h

/-- Nobody falls asleep or wakes up, and no wake-up begins or ends to move a task. -/
theorem congr (hst : ∀ t, (status' t).asleep = (status t).asleep)
    (hat : ∀ o, (op' o).attaching = (op o).attaching)
    (hde : ∀ o, (op' o).detaching = (op o).detaching) : Registry status' registry op' where
  mem_iff t := by simp only [hst, hat, hde, h.mem_iff t]
  nodup := h.nodup

/-- A task that nobody moves falls asleep. -/
theorem push {c : ℕ} (ht : (status t).asleep = false)
    (hat : ∀ o, (op' o).attaching = (op o).attaching)
    (hde : ∀ o, (op' o).detaching = (op o).detaching)
    (hfree : ∀ o, (op o).attaching ≠ some t ∧ (op o).detaching ≠ some t) :
    Registry (update status t (.blocking c)) (registry ++ [t]) op' where
  mem_iff u := by
    simp only [mem_append, mem_singleton, h.mem_iff u, hat, hde]
    grind [asleep]
  nodup := by grind [h.mem_iff, h.nodup]

/-- A sleeper runs again; the context `o` takes it out of the registry next. -/
theorem cancel (ht : (status t).asleep = true) (hself : (op' o).detaching = some t)
    (hat : ∀ o', (op o').attaching = none ∧ (op' o').attaching = none)
    (hde : ∀ o' u, u ≠ t → ((op' o').detaching = some u ↔ (op o').detaching = some u)) :
    Registry (update status t st) registry op' where
  mem_iff u := by
    rw [h.mem_iff u]
    by_cases hu : u = t
    · grind
    · simp only [update_of_ne hu, (hat _).1, (hat _).2, hde _ u hu]
  nodup := h.nodup

/-- A task leaves the registry: it was woken, or the context that wakes it now owns it. -/
theorem erase (ht : (status t).asleep = false ∨ ∃ o, (op' o).attaching = some t)
    (hat : ∀ o u, u ≠ t → ((op' o).attaching = some u ↔ (op o).attaching = some u))
    (hde : ∀ o u, u ≠ t → ((op' o).detaching = some u ↔ (op o).detaching = some u))
    (hgone : ∀ o, (op' o).detaching ≠ some t) :
    Registry status (registry.filter fun u => u != t) op' where
  mem_iff u := by
    rw [mem_filter, h.mem_iff u, bne_iff_ne]
    by_cases hu : u = t
    · grind
    · simp only [ne_eq, hu, not_false_eq_true, and_true, hat _ u hu, hde _ u hu]
  nodup := h.nodup.filter _

/-- The blocked task that a context owns goes to a run queue. -/
theorem enqueue (hself : (op o).attaching = some t) (hst : st.asleep = false)
    (hde : ∀ o', (op' o').detaching = (op o').detaching)
    (hat : ∀ o' u, u ≠ t → ((op' o').attaching = some u ↔ (op o').attaching = some u)) :
    Registry (update status t st) registry op' where
  mem_iff u := by
    rw [h.mem_iff u]
    grind
  nodup := h.nodup

end Registry

/-! ## Owners -/

namespace Own

variable {s : Places} {ph : Phase}

theorem cpuOk_at (h : Own s) {c : ℕ} {pc : CpuPc} (hpc : s.cpu c = pc) : s.CpuOk c pc :=
  hpc ▸ h.cpuOk c

variable {t : ℕ} {o : Ctx} {p : Op} {c : ℕ} {queue : ℕ → List ℕ} {nrRunning : ℕ → ℕ}
  {registry : List ℕ} {x : Holder} {m : Option Ctx} (h : Own s) {d : ℕ}
include h

theorem opOk_at (hop : s.op o = p) : s.OpOk o p :=
  hop ▸ h.opOk o

theorem unowned_of_ne (hx : s.owned x = some t) (y : Holder) (hy : y ≠ x) : s.owned y ≠ some t :=
  fun hy' => hy (h.owners y x t hy' hx)

/-- The states of a task that belongs to a CPU. -/
theorem status_of_cpu (hc : (s.cpu c).owned = some t) :
    s.status t = .migrating ∨ s.status t = .running c ∨ s.status t = .blocking c ∨
      s.status t = .zombie := by
  have hok := h.cpuOk c
  have hallows : (s.phase t).allows c (s.status t) → s.status t = .running c ∨
      s.status t = .blocking c ∨ s.status t = .zombie := by
    cases s.phase t <;> simp only [Phase.allows] <;> tauto
  cases hpc : s.cpu c <;> rw [hpc] at hc hok <;> simp_all [CpuPc.owned, CpuOk]

/-- The states of a task that belongs to a context. -/
theorem status_of_op (ho : (s.op o).owned = some t) :
    (s.status t = .new ∧ s.created t = true) ∨ s.status t = .blocked ∨ s.status t = .migrating := by
  have hok := h.opOk o
  cases hop : s.op o <;> rw [hop] at ho hok <;> simp_all [Op.owned, OpOk]

/-- A task that belongs to a CPU or to a context is in no run queue. -/
theorem not_queued (hx : s.owned x = some t) (c : ℕ) : s.status t ≠ .queued c := by
  cases x with
  | cpu d => rcases h.status_of_cpu hx with hst | hst | hst | hst <;> simp [hst]
  | op o => rcases h.status_of_op hx with ⟨hst, -⟩ | hst | hst <;> simp [hst]

/-- A control block that was not allocated belongs to nobody. -/
theorem created_of_owned (hx : s.owned x = some t) : s.created t = true := by
  by_contra hcr
  have hnew := h.fresh t (by simpa using hcr)
  cases x with
  | cpu d => rcases h.status_of_cpu hx with hst | hst | hst | hst <;> simp [hst] at hnew
  | op o => rcases h.status_of_op hx with ⟨-, hc⟩ | hst | hst <;> simp_all

theorem cpu_unique (hc : (s.cpu c).owned = some t) (hd : (s.cpu d).owned = some t) : d = c :=
  cpu.inj (h.owners (.cpu d) (.cpu c) t hd hc)

theorem unowned_of_queued (ht : s.status t = .queued c) (x : Holder) : s.owned x ≠ some t :=
  fun hx => h.not_queued hx c ht

/-- Only one context is inside a section of the task manager. -/
theorem locksManager_unique {o' : Ctx} (ho : (s.op o).locksManager = true)
    (ho' : (s.op o').locksManager = true) : o' = o :=
  some.inj ((h.lock o' ho').symm.trans (h.lock o ho))

/-- While the lock of the task manager is free nobody is inside one of its sections. -/
theorem locksManager_eq_false (hm : s.manager = none) (o : Ctx) :
    (s.op o).locksManager = false := by
  grind [h.lock o]

/-- **A context moves on** without changing the state of a task, possibly taking or giving back the
lock of the task manager or taking a woken task out of the registry. -/
theorem setOp
    (hregistry : Registry s.status registry (update s.op o p)) (hown : p.owned = none)
    (hok : s.OpOk o p) (hidle : ∀ c, o = .idle c → s.cpu c = .idle)
    (hlock : p.locksManager = true → m = some o)
    (hm : ∀ o', o' ≠ o → (s.op o').locksManager = true → m = some o') :
    Own { s with op := update s.op o p, manager := m, registry := registry } where
  queues := h.queues
  registry := hregistry
  owners := h.owners.mono fun x t hx => by
    cases x <;> grind [owned]
  cpuOk := h.cpuOk
  opOk o' := by
    by_cases ho : o' = o
    · subst ho
      simp only [update_self]
      exact hok
    · simp only [update_of_ne ho]
      exact h.opOk o'
  cover := h.cover
  idleOp c hc := by grind [h.idleOp c]
  fresh := h.fresh
  lock o' ho' := by grind

/-- A context inside the scheduler's code is not disturbed by its CPU. -/
theorem cpu_idle (ho : s.op o ≠ .ready) (c : ℕ) (hoc : o = .idle c) : s.cpu c = .idle := by
  by_contra hne
  exact ho (hoc ▸ h.idleOp c hne)

/-- Neither the old nor the new point of the code has to do with a task of the registry. -/
theorem registry_setOp (hatt : (s.op o).attaching = none)
    (hdet : (s.op o).detaching = none) (hatt' : p.attaching = none) (hdet' : p.detaching = none) :
    Registry s.status s.registry (update s.op o p) := by
  refine h.registry.congr (fun _ => rfl) (fun o' => ?_) fun o' => ?_ <;>
    grind

/-- A context goes from one plain point of the code to another. -/
theorem stepOp (hold : (s.op o).plain = true)
    (hp : p.plain = true) (hidle : ∀ c, o = .idle c → s.cpu c = .idle)
    (hlock : p.locksManager = true → m = some o)
    (hm : ∀ o', o' ≠ o → (s.op o').locksManager = true → m = some o') :
    Own { s with op := update s.op o p, manager := m } :=
  h.setOp (h.registry_setOp (Op.attaching_of_plain hold) (Op.detaching_of_plain hold)
    (Op.attaching_of_plain hp) (Op.detaching_of_plain hp)) (Op.owned_of_plain hp)
    (opOk_of_plain hp) hidle hlock hm

/-- A CPU moves on without a task. -/
theorem setCpu (pc : CpuPc) (hold : (s.cpu c).owned = none)
    (hpc : pc.owned = none) (hready : s.op (.idle c) = .ready) :
    Own { s with cpu := update s.cpu c pc } where
  queues := h.queues
  registry := h.registry
  owners := h.owners.mono fun x t hx => by
    cases x <;> grind [owned]
  cpuOk d := by
    by_cases hd : d = c
    · subst hd
      simp only [update_self]
      cases pc <;> trivial
    · simp only [update_of_ne hd]
      exact h.cpuOk d
  opOk := h.opOk
  cover d t ht := by grind [h.cover d t ht, CpuPc.owned_of_holds]
  idleOp d hd := by grind [h.idleOp d]
  fresh := h.fresh
  lock := h.lock

/-- A context that relies on `t` without owning it is not disturbed when `t` changes its state: a
waker that has seen `t` blocked holds the lock that keeps it so, and one that has woken `t` holds
the lock that keeps it from going to sleep. -/
theorem opOk_relabel (st : TaskStatus) (hfree : (s.op o).owned ≠ some t)
    (hblocked : s.status t = .blocked → (s.op o).locksManager = false)
    (hsleep : st.asleep = true → (s.status t).asleep = true ∨ (s.op o).locksManager = false)
    (hph : o = .task t → ph = s.phase t ∨ ph = .awake) (hrel : (s.op o).reliesOn o = some t) :
    OpOk { s with
      status := update s.status t st
      phase := update s.phase t ph } o (s.op o) := by
  have hok := h.opOk o
  cases hop : s.op o with
  | wakeDetach u ts => grind [OpOk, Op.locksManager]
  | wakeSelect u ts => grind [Op.locksManager, OpOk]
  | setCurrent mask target =>
    rw [hop] at hok
    intro u hu
    have hawake := hok u hu
    simp only [update_apply]
    split_ifs
    · grind
    · exact hawake
  | publish u cpu | wakeEnqueue u cpu ts | setMoving u mask target | setAttach u target =>
    rw [hop] at hrel hfree
    exact absurd hrel hfree
  | _ => trivial

/-- **A context hands a task on**, or takes one: `t` changes its state, the containers follow, and
nobody but the context `o` owned `t`. -/
theorem opMove {st : TaskStatus}
    (hmine : ∀ x, x ≠ op o → s.owned x ≠ some t) (hp : ∀ u, p.owned = some u → u = t)
    (hst : ∀ c, st ≠ .running c ∧ st ≠ .blocking c) (hidle : ∀ c, o = .idle c → s.cpu c = .idle)
    (hcreated : s.created t = true) (hlock : p.locksManager = true → s.manager = some o)
    (hqueues : Queues (update s.status t st) queue nrRunning)
    (hregistry : Registry (update s.status t st) registry (update s.op o p))
    (hok : OpOk { s with status := update s.status t st } o p)
    (hothers : ∀ o', o' ≠ o → (s.op o').reliesOn o' = some t →
      OpOk { s with status := update s.status t st } o' (s.op o')) :
    Own { s with
      status := update s.status t st
      queue := queue
      nrRunning := nrRunning
      registry := registry
      op := update s.op o p } := by
  refine h.modify t (fun u hu => update_of_ne hu ..) (fun _ _ => rfl) (fun _ _ => rfl)
    (fun _ _ _ _ => rfl) hqueues hregistry ?_ ?_ ?_ ?_ (fun _ _ _ => id) ?_ ?_ ?_
  · refine h.owners.acquire (.op o) (fun x hx u hu => ?_) fun u hu x hx => ?_
    · cases x <;> grind [owned]
    · grind [owned]
  · rintro c (hc | hc)
    · exact absurd rfl hc
    · exact absurd hc (hmine (.cpu c) nofun)
  · intro o' ho'
    by_cases ho : o' = o
    · subst ho
      simp only [update_self]
      exact hok
    · simp only [update_of_ne ho, ne_eq, not_true_eq_false, false_or] at ho' ⊢
      exact hothers o' ho ho'
  · grind
  · grind [h.idleOp]
  · simp [hcreated]
  · grind [h.lock]

/-- A context takes a task that nobody else owns, or keeps it. -/
theorem opAcquire (hfree : ∀ x, x ≠ op o → s.owned x ≠ some t) (hp : p.owned = some t)
    (hst : ∀ c, s.status t ≠ .running c ∧ s.status t ≠ .blocking c)
    (hidle : ∀ c, o = .idle c → s.cpu c = .idle) (hcreated : s.created t = true)
    (hlock : p.locksManager = true → s.manager = some o)
    (hregistry : Registry s.status registry (update s.op o p)) (hok : s.OpOk o p) :
    Own { s with registry := registry, op := update s.op o p } := by
  have hself : update s.status t (s.status t) = s.status := update_eq_self t _
  have hmove := h.opMove hfree
    (fun u hu => (some.inj (hp.symm.trans hu)).symm) hst hidle hcreated hlock
    (hself.symm ▸ h.queues) (hself.symm ▸ hregistry)
  simp only [hself] at hmove
  exact hmove hok fun o' _ _ => h.opOk o'

/-- The state of a task changes, and neither the old nor the new state is that of a sleeper. -/
theorem registry_relabel {st : TaskStatus} (hold : (s.status t).asleep = st.asleep) :
    Registry (update s.status t st) s.registry s.op := by
  refine h.registry.congr (fun u => ?_) (fun _ => rfl) fun _ => rfl
  grind

/-- **A context takes a task out of its run queue.** -/
theorem opDequeue {i : ℕ} (hi : (s.queue c)[i]? = some t)
    (hold : (s.op o).plain = true) (hbusy : s.op o ≠ .ready) (hp : p.owned = some t)
    (hlock : p.locksManager = false)
    (hok : OpOk { s with status := update s.status t .migrating } o p) :
    Own { s with
      status := update s.status t .migrating
      queue := update s.queue c ((s.queue c).eraseIdx i)
      nrRunning := update s.nrRunning c (s.nrRunning c - 1)
      op := update s.op o p } := by
  have hst : s.status t = .queued c := (h.queues.mem_iff c t).mp (mem_of_getElem? hi)
  have hcreated : s.created t = true := by grind [h.fresh t]
  refine h.opMove (fun x _ => h.unowned_of_queued hst x)
    (fun u hu => (some.inj (hp.symm.trans hu)).symm) (fun _ => ⟨nofun, nofun⟩)
    (h.cpu_idle hbusy) hcreated (by rw [hlock]; nofun) (h.queues.remove hi nofun) ?_ hok ?_
  · refine (h.registry_relabel (by rw [hst]; rfl)).congr (fun _ => rfl) (fun o' => ?_)
      fun o' => ?_ <;>
      grind [Op.attaching_of_locksManager, Op.attaching_of_plain, Op.detaching_of_locksManager,
        Op.detaching_of_plain]
  · intro o' _ hrel
    have hok' := h.opOk_relabel .migrating (h.unowned_of_queued hst (.op o'))
      (fun hb => by rw [hst] at hb; cases hb) nofun (fun _ => .inl rfl) hrel
    grind [update_eq_self]

theorem setCreated (t : ℕ) :
    Own { s with created := update s.created t true } where
  queues := h.queues
  registry := h.registry
  owners := h.owners
  cpuOk := h.cpuOk
  opOk o := by
    have hok := h.opOk o
    cases hop : s.op o <;> grind [OpOk]
  cover := h.cover
  idleOp := h.idleOp
  fresh u hu := by grind [h.fresh u]
  lock := h.lock

/-- Nobody owns a blocked task in the registry. -/
theorem unowned_of_blocked (hatt : ∀ o, (s.op o).attaching ≠ some t)
    (hst : s.status t = .blocked) (x : Holder) : s.owned x ≠ some t := by
  intro hx
  cases x with
  | cpu d => rcases h.status_of_cpu hx with hst' | hst' | hst' | hst' <;> simp [hst] at hst'
  | op o =>
    have hx' : (s.op o).owned = some t := hx
    have hok := h.opOk o
    have hno := hatt o
    cases hop : s.op o <;> rw [hop] at hx' hok hno <;>
      simp_all [Op.owned, OpOk, Op.attaching]

section

variable (pc : CpuPc) (st : TaskStatus)
include pc st

/-- **A CPU takes a task, keeps it or hands it on.**  Nobody but the CPU owned `t`, and `t` neither
falls asleep nor wakes up. -/
theorem cpuMove (current : Option ℕ)
    (hmine : ∀ x, x ≠ cpu c → s.owned x ≠ some t)
    (hold : ∀ u, (s.cpu c).owned = some u → u = t) (hp : ∀ u, pc.owned = some u → u = t)
    (hready : s.op (.idle c) = .ready) (hcreated : s.created t = true)
    (hqueues : Queues (update s.status t st) queue nrRunning)
    (hasleep : (s.status t).asleep = st.asleep) (hnb : s.status t ≠ .blocked)
    (hph : ph = s.phase t ∨ ph = .awake)
    (hok : CpuOk { s with
      status := update s.status t st
      phase := update s.phase t ph
      current := update s.current c current } c pc)
    (hcover : ∀ d, st = .running d ∨ st = .blocking d → d = c ∧ pc.holds = some t) :
    Own { s with
      status := update s.status t st
      phase := update s.phase t ph
      current := update s.current c current
      queue := queue
      nrRunning := nrRunning
      cpu := update s.cpu c pc } := by
  refine h.modify t (fun u hu => update_of_ne hu ..)
    (fun u hu => update_of_ne hu ..) (fun _ _ => rfl) ?_ hqueues
    (h.registry_relabel hasleep) ?_ ?_ ?_ ?_ ?_ ?_ ?_ h.lock
  · grind
  · refine h.owners.acquire (.cpu c) (fun x hx u hu => ?_) fun u hu x hx => ?_
    · cases x <;> grind [owned]
    · grind [owned]
  · intro d hd
    by_cases hdc : d = c
    · subst hdc
      simp only [update_self]
      exact hok
    · simp only [update_of_ne hdc, ne_eq, not_true_eq_false, false_or] at hd
      exact absurd hd (hmine (.cpu d) fun heq => hdc (cpu.inj heq))
  · rintro o (ho | ho)
    · exact absurd rfl ho
    · exact h.opOk_relabel st (hmine (.op o) nofun) (fun hb => absurd hb hnb)
        (fun hs => .inl (hasleep.trans hs)) (fun _ => hph) ho
  · grind
  · grind [CpuPc.owned_of_holds]
  · grind [h.idleOp]
  · simp [hcreated]

/-- A CPU goes on with the task it owns, or hands it on. -/
theorem cpuStep (hown : (s.cpu c).owned = some t) (hp : ∀ u, pc.owned = some u → u = t)
    (hqueues : Queues (update s.status t st) queue nrRunning)
    (hasleep : (s.status t).asleep = st.asleep)
    (hok : CpuOk { s with status := update s.status t st } c pc)
    (hcover : ∀ d, st = .running d ∨ st = .blocking d → d = c ∧ pc.holds = some t) :
    Own { s with
      status := update s.status t st
      queue := queue
      nrRunning := nrRunning
      cpu := update s.cpu c pc } := by
  have hnb : s.status t ≠ .blocked := by
    rcases h.status_of_cpu hown with hst | hst | hst | hst <;> simp [hst]
  have hready : s.op (.idle c) = .ready := h.idleOp c fun hidle => by rw [hidle] at hown; cases hown
  have hmove := h.cpuMove pc st (s.current c) (h.unowned_of_ne hown)
    (fun u hu => (some.inj (hown.symm.trans hu)).symm) hp hready
    (h.created_of_owned (x := .cpu c) hown) hqueues hasleep hnb (.inl rfl)
  simp only [update_eq_self] at hmove
  exact hmove hok hcover

/-- **A CPU takes a task out of a run queue.** -/
theorem cpuDequeue {i : ℕ} (hi : (s.queue d)[i]? = some t) (hold : (s.cpu c).owned = none)
    (hready : s.op (.idle c) = .ready) (hp : pc.owned = some t) (hst : st.asleep = false)
    (hnq : ∀ e, st ≠ .queued e)
    (hok : CpuOk { s with status := update s.status t st } c pc)
    (hcover : ∀ d, st = .running d ∨ st = .blocking d → d = c ∧ pc.holds = some t) :
    Own { s with
      status := update s.status t st
      queue := update s.queue d ((s.queue d).eraseIdx i)
      nrRunning := update s.nrRunning d (s.nrRunning d - 1)
      cpu := update s.cpu c pc } := by
  have hq : s.status t = .queued d := (h.queues.mem_iff d t).mp (mem_of_getElem? hi)
  have hcreated : s.created t = true := by grind [h.fresh t]
  have hmove := h.cpuMove pc st (s.current c)
    (fun x _ => h.unowned_of_queued hq x) (by rw [hold]; nofun)
    (fun u hu => (some.inj (hp.symm.trans hu)).symm) hready hcreated
    (h.queues.remove hi hnq) (by rw [hq, hst]; rfl) (by rw [hq]; nofun) (.inl rfl)
  simp only [update_eq_self] at hmove
  exact hmove hok hcover

end

/-- **A task in its own context** goes to sleep or exits. -/
theorem taskMove (st : TaskStatus) (ph : Phase)
    (registry : List ℕ) (m : Option Ctx) (hrun : s.cpu c = .running t) (hp : p.plain = true)
    (hallows : ph.allows c st) (hnq : ∀ d, st ≠ .queued d)
    (hst : ∀ d, st = .running d ∨ st = .blocking d → d = c)
    (hlock : p.locksManager = true → m = some (.task t))
    (hm : ∀ o, o ≠ .task t → (s.op o).locksManager = true → m = some o)
    (hsleep : st.asleep = true → ∀ o, (s.op o).locksManager = false) (hnb : s.status t ≠ .blocked)
    (hregistry : Registry (update s.status t st) registry
      (update s.op (.task t) p)) :
    Own { s with
      status := update s.status t st
      phase := update s.phase t ph
      registry := registry
      manager := m
      op := update s.op (.task t) p } := by
  have hc : (s.cpu c).owned = some t := by rw [hrun, CpuPc.owned]
  have hmine := h.unowned_of_ne (x := .cpu c) hc
  have hcur : s.current c = some t := (h.cpuOk_at hrun).1
  refine h.modify t (fun u hu => update_of_ne hu ..)
    (fun u hu => update_of_ne hu ..) (fun _ _ => rfl) (fun _ _ _ _ => rfl)
    (h.queues.relabel (h.not_queued (x := .cpu c) hc) hnq) hregistry ?_ ?_ ?_ ?_ (fun _ _ _ => id)
    ?_ ?_ ?_
  · refine h.owners.mono fun x u hx => ?_
    cases x <;> grind [owned, Op.owned_of_plain]
  · grind [h.cpu_unique, CpuOk]
  · intro o ho
    by_cases hot : o = .task t
    · grind [opOk_of_plain]
    · simp only [update_of_ne hot, ne_eq, not_true_eq_false, false_or] at ho ⊢
      exact h.opOk_relabel st (hmine (.op o) (by simp)) (fun hb => absurd hb hnb)
        (fun hs => .inr (hsleep hs o)) (fun heq => absurd heq hot) ho
  · grind [CpuPc.holds]
  · grind [h.idleOp]
  · simp [h.created_of_owned (x := .cpu c) hc]
  · grind

/-- **A wake-up cancels a sleep** that its task has not finished to enter. -/
theorem cancel {ts : List ℕ} (hold : (s.op o).locksManager = true) (hplain : (s.op o).owned = none)
    (hdet : (s.op o).detaching = none) (hst : s.status t = .blocking d) : Own { s with
      status := update s.status t (.running d)
      op := update s.op o (.wakeDetach t ts) } := by
  have hheld := h.cover d t (.inr hst)
  have hc := CpuPc.owned_of_holds hheld
  have hmine := h.unowned_of_ne (x := .cpu d) hc
  have hlocked : ∀ o', o' ≠ o → (s.op o').locksManager = false := by
    grind [h.locksManager_unique hold]
  refine h.modify t (fun u hu => update_of_ne hu ..) (fun _ _ => rfl) (fun _ _ => rfl)
    (fun _ _ _ _ => rfl) (h.queues.relabel (h.not_queued (x := .cpu d) hc) (by simp)) ?_ ?_ ?_ ?_ ?_
    (fun _ _ _ => id) ?_ ?_ ?_
  · refine h.registry.cancel (o := o) (by rw [hst, asleep]) ?_ (fun o' => ?_)
      fun o' u hu => ?_
    · simp only [update_self, Op.detaching]
    · by_cases ho : o' = o
      · subst ho
        refine ⟨?_, by simp only [update_self, Op.attaching]⟩
        cases hp : s.op o' <;> rw [hp] at hplain <;> first | rfl | cases hplain
      · grind [Op.attaching_of_locksManager]
    · grind [Op.detaching]
  · refine h.owners.mono fun x u hx => ?_
    cases x <;> grind [owned, Op.owned]
  · rintro c (hd | hd)
    · exact absurd rfl hd
    · obtain rfl : c = d := h.cpu_unique hc hd
      have hok := h.cpuOk c
      -- only a task that has gone to sleep since it was put on its CPU is blocking
      have hallows : (s.phase t).allows c (.blocking c) → (s.phase t).allows c (.running c) := by
        cases s.phase t <;> simp [Phase.allows]
      cases hpc : s.cpu c <;> rw [hpc] at hok hheld <;>
        simp_all [CpuOk, CpuPc.holds]
  · intro o' ho'
    by_cases ho : o' = o
    · subst ho
      simp only [update_self, OpOk]
      rfl
    · simp only [update_of_ne ho, ne_eq, not_true_eq_false, false_or] at ho' ⊢
      have hok := h.opOk_relabel (.running d) (hmine (.op o') (by simp))
        (fun hb => hlocked o' ho) (by rintro ⟨⟩) (fun _ => .inl rfl) ho'
      simp_all [hok.congr]
  · grind
  · grind [h.idleOp, Op.locksManager]
  · simp [h.created_of_owned (x := .cpu d) hc]
  · grind [h.lock]

/-- **A context puts the task it owns into a run queue.** -/
theorem opEnqueue {q : List ℕ}
    (ho : (s.op o).owned = some t) (hq : q.Perm (t :: s.queue c)) (hp : p.plain = true)
    (hlock : p.locksManager = true → (s.op o).locksManager = true) :
    Own { s with
      status := update s.status t (.queued c)
      queue := update s.queue c q
      nrRunning := update s.nrRunning c (s.nrRunning c + 1)
      op := update s.op o p } := by
  have hmine := h.unowned_of_ne (x := .op o) ho
  have hbusy : s.op o ≠ .ready := fun hr => by rw [hr] at ho; cases ho
  have hatt := Op.attaching_of_plain hp
  have hdet := Op.detaching_of_plain hp
  have hdet' : (s.op o).detaching = none := by cases hop : s.op o <;> rw [hop] at ho <;> trivial
  have hupdate : ∀ o', (update s.op o p o').detaching = (s.op o').detaching := by
    grind
  refine h.opMove hmine (by simp [Op.owned_of_plain hp]) (fun _ => ⟨by simp, by simp⟩)
    (h.cpu_idle hbusy)
    (h.created_of_owned (x := .op o) ho) (fun hl => h.lock o (hlock hl))
    (h.queues.insert (h.not_queued (x := .op o) ho) hq) ?_ ?_ ?_
  · by_cases hself : (s.op o).attaching = some t
    · refine h.registry.enqueue hself rfl hupdate fun o' u hu => ?_
      grind
    · have hst : (s.status t).asleep = false := by
        have hok := h.opOk o
        cases hop : s.op o <;> rw [hop] at ho hok hself <;>
          simp_all [Op.owned, Op.attaching, OpOk, asleep]
      refine h.registry.congr (fun u => ?_) (fun o' => ?_) hupdate
      · grind [asleep]
      · by_cases hoo : o' = o
        · rw [hoo, update_self, hatt]
          cases hop : s.op o <;> rw [hop] at ho hself <;>
            simp_all [Op.owned, Op.attaching]
        · rw [update_of_ne hoo]
  · exact opOk_of_plain hp
  · intro o' hoo hrel'
    have hfree := hmine (.op o') fun heq => hoo (op.inj heq)
    have hok := h.opOk_relabel (.queued c) hfree (fun hb => ?_) (by rintro ⟨⟩)
      (fun _ => .inl rfl) hrel'
    · grind [update_eq_self]
    · -- the owner of a blocked task holds the lock of the task manager
      by_contra hl
      have hown := h.opOk o
      have hlocked : (s.op o).locksManager = true := by
        cases hop : s.op o <;> rw [hop] at ho hown <;>
          simp_all [Op.owned, OpOk, Op.locksManager]
      exact hoo (h.locksManager_unique hlocked (by simpa using hl))

end Own
end MangoCore.Task
