import MangoCore.Ipc.SharedMemoryAttach
import Mathlib.Algebra.BigOperators.Group.Finset.Piecewise

/-!
# Shared memory in all runs

The table of attachments knows nothing of the other mapping calls.  When a process unmaps an
attachment with `munmap` and maps something else there, `shmdt` removes that other mapping
(`shmdt_unmaps_other`).

`Proper` says which calls have to be kept out: mapping calls that touch the pages of segments, and
failures of cleaning up.  In runs of proper calls the table and the mappings agree in every state
(`attachments_of_reachable`).
-/

namespace MangoCore.Ipc.Shm

open MangoCore.Mm ShmState ShmSegment VirtAddr Option List OrdMap

variable {cfg : Config} {s : ShmState} {seg : ShmSegment} {r r' : ShmRegistry}
  {result : ShmState × Answer} {shmid id : ℕ} {l : Label} {c : Caller} {nsId pid : ℕ}

/-! ## All runs -/

/-- The calls of a run that keeps attachments and mappings in step: mapping calls keep away from the
pages of segments, and cleaning up does not fail. -/
def Proper (cfg : Config) (s : ShmState) : Label → Bool
  | .shmat pid _ _ a env => properShmat cfg s pid a env
  | .shmdt _ _ fault => fault.isNone
  | .fork _ _ (.late _) => false
  | .exit _ forgotten => forgotten.isEmpty
  | .mmap pid start len fixed noreplace _ =>
    !fixed || noreplace ||
      (s.space pid).shmFree (floor start) (ceil (start + len))
  | .munmap pid start len _ =>
    (s.space pid).shmFree (floor start) (ceil (start + len))
  | _ => true

/-- **Every proper call keeps the invariant.** -/
theorem Inv.step (h : Inv cfg.arch s) (hproper : Proper cfg s l = true)
    (hstep : s.step cfg l = some result) : Inv cfg.arch result.1 := by
  cases l with
  | shmget pid => grind [step, h.shmget]
  | shmat pid c =>
    rw [step] at hstep
    split_ifs at hstep with hpid
    cases hstep
    exact h.shmat hpid hproper
  | shmdt pid addr fault =>
    rw [step] at hstep
    split_ifs at hstep
    cases hstep
    rw [isNone_iff_eq_none.mp hproper]
    exact h.shmdt pid addr
  | rmid pid c nsId shmid => grind [step, h.rmid]
  | fork pid child outcome =>
    rw [step] at hstep
    split_ifs at hstep with hpids
    cases hstep
    cases outcome with
    | ok => exact h.fork hpids.2
    | early e => exact h
    | late e => cases hproper
  | exit pid forgotten =>
    rw [step] at hstep
    split_ifs at hstep
    cases hstep
    rw [isEmpty_iff.mp hproper]
    exact h.exit pid
  | mmap pid start len fixed noreplace env =>
    rw [step] at hstep
    split_ifs at hstep
    cases hstep
    refine h.setSpace (sameShm_mmap fun hfixed hnoreplace => ?_)
    have hfree : (!fixed || noreplace || _) = true := hproper
    rw [hfixed, hnoreplace] at hfree
    exact hfree
  | munmap pid start len fault =>
    rw [step] at hstep
    split_ifs at hstep
    cases hstep
    exact h.setSpace (sameShm_munmap hproper)

/-- The attachments of all processes together. -/
theorem length_eq_sum {procs : Finset ℕ} {l : List ShmAttachment} (h : ∀ a ∈ l, a.pid ∈ procs) :
    l.length = ∑ p ∈ procs, (l.filter fun a => a.pid = p).length := by
  induction l with
  | nil => exact (Finset.sum_eq_zero fun _ _ => rfl).symm
  | cons a l ih =>
    have hone : ∑ p ∈ procs, (if a.pid = p then 1 else 0) = 1 := by
      rw [Finset.sum_ite_eq, if_pos (h a mem_cons_self)]
    have hsplit : ∀ p, ((a :: l).filter fun a => a.pid = p).length =
        (l.filter fun a => a.pid = p).length + if a.pid = p then 1 else 0 := fun p => by
      rw [filter_cons]
      split_ifs with hp hp' hp'
      any_goals rfl
      · exact absurd (of_decide_eq_true hp) hp'
      · exact absurd (decide_eq_true hp') hp
    simp_all [Finset.sum_add_distrib]

/-- The call marks a segment as removed. -/
def Label.marks : Label → ℕ → Prop
  | .rmid _ _ _ shmid, id => shmid = id
  | _, _ => False

/-- The call ends an attachment. -/
def Label.detaches : Label → ShmAttachment → Prop
  | .shmdt pid addr _, a => a = ⟨pid, addr⟩
  | .exit pid _, a => a.pid = pid
  | _, _ => False

/-- **What the table of attachments promises in a state.** -/
structure Sound (cfg : Config) (s : ShmState) : Prop where
  /-- The pages of segments that a process has mapped are those of its attachments. -/
  mapped : ∀ pid vpn id i,
    s.space pid vpn = some (.shm id i) ↔ Backed s.registry.segments pid vpn id i
  /-- `shmdt` unmaps only pages of the segment that it detaches. -/
  shmdt : ∀ pid addr fault result, s.step cfg (.shmdt pid addr fault) = some result →
    ∀ pid' vpn, result.1.space pid' vpn ≠ s.space pid' vpn → pid' = pid ∧ ∃ id seg i,
      s.registry.segments.get? id = some seg ∧ ⟨pid, addr⟩ ∈ seg.attachments ∧
      s.space pid vpn = some (.shm id i)
  /-- The count of a segment is that of its attachments in all processes. -/
  nattch : ∀ id seg, s.registry.segments.get? id = some seg →
    seg.nattch = ∑ p ∈ s.procs, (seg.attachments.filter fun a => a.pid = p).length
  /-- A removed segment is freed as soon as its count is 0. -/
  used : ∀ id seg, s.registry.segments.get? id = some seg → seg.removed = true → seg.nattch ≠ 0
  /-- A segment is freed only when it is removed, and the call ends its last attachments. -/
  freed : ∀ l result id seg, s.step cfg l = some result →
    s.registry.segments.get? id = some seg → result.1.registry.segments.get? id = none →
    (seg.removed = true ∨ l.marks id) ∧ ∀ a ∈ seg.attachments, l.detaches a

/-- `shmdt` changes only the pages of its attachment. -/
theorem Inv.shmdt_pages (h : Inv cfg.arch s) {addr : ℕ} {fault : Option Errno} {pid' vpn : ℕ}
    (hne : (s.shmdt cfg pid addr fault).1.space pid' vpn ≠ s.space pid' vpn) :
    pid' = pid ∧ ∃ id seg i, s.registry.segments.get? id = some seg ∧
      ⟨pid, addr⟩ ∈ seg.attachments ∧ s.space pid vpn = some (.shm id i) := by
  rw [ShmState.shmdt] at hne
  cases hdt : s.registry.shmdt pid addr with
  | none =>
    rw [hdt] at hne
    exact absurd rfl hne
  | some result =>
    obtain ⟨seg, r⟩ := result
    obtain ⟨id, old, hget, hmem, hseg, -⟩ := ShmRegistry.shmdt_eq_some hdt
    have hsize : seg.size = old.size := by rw [hseg]
    have hgood := h.good id old hget
    simp only [hdt] at hne
    have hchange : Function.update s.space pid
        (munmap cfg.arch (s.space pid) addr seg.size fault).2 pid' vpn ≠ s.space pid' vpn := hne
    by_cases hpid : pid' = pid
    · subst hpid
      rw [Function.update_self] at hchange
      cases fault with
      | some e =>
        refine absurd ?_ hchange
        rw [munmap.eq_def]
        split
        · rfl
        · split_ifs <;> rfl
      | none =>
        rw [hsize, munmap_aligned (hgood.aligned _ hmem) hgood.size_pos
          (hgood.inside _ hmem)] at hchange
        have hin : addr / pageSize ≤ vpn ∧ vpn < addr / pageSize + pageCount old.size := by
          by_contra hout
          exact hchange (if_neg hout)
        exact ⟨rfl, id, old, _, hget, hmem, h.page_of_attachment hget hmem hin.1 hin.2⟩
    · simp_all

/-- A registry with a segment for every identifier that had one. -/
def ShmRegistry.Extends (r r' : ShmRegistry) : Prop :=
  ∀ id seg, r.segments.get? id = some seg → r'.segments.get? id ≠ none

theorem ShmRegistry.Extends.refl : r.Extends r := fun id seg hget hnone => by
  rw [hget] at hnone
  cases hnone

theorem ShmRegistry.extends_setSegment (hsegs : r'.segments = r.segments)
    {id₀ : ℕ} {seg₀ : ShmSegment} : r.Extends (r'.setSegment id₀ seg₀) := by
  intro id seg hget hnone
  have hins : (r'.segments.insert id₀ seg₀).get? id = none := hnone
  rw [hsegs, get?_insert, hget] at hins
  split_ifs at hins

theorem ShmRegistry.extends_shmget {a : ShmgetArgs} :
    r.Extends (r.shmget c nsId a).2 := by
  have hcreate : r.Extends (r.createSegment c nsId a).2 := by
    rw [createSegment]
    cases halloc : r.allocId with
    | none =>
      simp only
      split_ifs <;> exact .refl
    | some result =>
      obtain ⟨id, r'⟩ := result
      simp only
      split_ifs
      any_goals exact .refl
      · exact extends_setSegment (Inv.allocId_spec halloc).2.1
  rw [shmget]
  by_cases hprivate : a.key = 0
  · rw [if_pos hprivate]
    exact hcreate
  · grind [Extends.refl]

theorem ShmRegistry.extends_shmatSegment (c : Caller) (nsId : ℕ) (a : ShmatArgs)
    (env : ShmatEnv) : r.Extends (r.shmatSegment c nsId a env).2 := by
  rw [shmatSegment.eq_def]
  cases r.segments.get? a.shmid with
  | none => exact .refl
  | some seg =>
    simp only
    generalize (if seg.frames = 0 then { seg with frames := pageCount seg.size } else seg) = seg'
    split_ifs
    any_goals exact .refl
    all_goals exact extends_setSegment rfl

theorem ShmRegistry.Extends.setSegment (h : r.Extends r') (id₀ : ℕ)
    (seg₀ : ShmSegment) : r.Extends (r'.setSegment id₀ seg₀) := by
  intro id seg hget hnone
  cases hget' : r'.segments.get? id with
  | none => exact h id seg hget hget'
  | some seg' => exact extends_setSegment rfl id seg' hget' hnone

theorem ShmState.extends_shmat {a : ShmatArgs} {env : ShmatEnv} :
    s.registry.Extends (s.shmat cfg pid c nsId a env).1.registry := by
  have hsection := s.registry.extends_shmatSegment c nsId a env
  rw [shmat]
  split_ifs
  · exact .refl
  cases hr : s.registry.shmatSegment c nsId a env with
  | mk answer r =>
    rw [hr] at hsection
    cases answer with
    | error e => exact hsection
    | ok seg =>
      simp only
      cases attachAddr cfg a with
      | error e => exact hsection
      | ok start => grind [setSpace, attach.eq_1, ShmRegistry.Extends.setSegment]

/-- Only an unused segment is freed. -/
theorem ShmRegistry.unused_of_removeIfDetached (hget : r.segments.get? id = some seg)
    (hnone : (r.removeIfDetached shmid).segments.get? id = none) :
    id = shmid ∧ seg.removed = true ∧ seg.attachments = [] := by
  rw [removeIfDetached.eq_def] at hnone
  cases hshmid : r.segments.get? shmid with
  | none =>
    rw [hshmid, hget] at hnone
    cases hnone
  | some old =>
    simp only [hshmid] at hnone
    grind [get?_erase]

/-- The same after a change of the segment. -/
theorem ShmRegistry.unused_of_setSegment {seg' : ShmSegment} (hget : r.segments.get? id = some seg)
    (hnone : ((r.setSegment shmid seg').removeIfDetached shmid).segments.get? id = none) :
    id = shmid ∧ seg'.removed = true ∧ seg'.attachments = [] := by
  by_cases hid : id = shmid
  · subst hid
    exact unused_of_removeIfDetached (get?_insert_self ..) hnone
  · have hget' : (r.setSegment shmid seg').segments.get? id = some seg :=
      (get?_insert_of_ne _ hid).trans hget
    exact absurd (unused_of_removeIfDetached hget' hnone).1 hid

/-- **What is freed is removed and has no attachment left.** -/
theorem freed_of_step
    (hstep : s.step cfg l = some result) (hget : s.registry.segments.get? id = some seg)
    (hnone : result.1.registry.segments.get? id = none) :
    (seg.removed = true ∨ l.marks id) ∧ ∀ a ∈ seg.attachments, l.detaches a := by
  have hkept : ¬ s.registry.Extends result.1.registry := fun hext => hext id seg hget hnone
  cases l with
  | shmget pid => grind [step, s.registry.extends_shmget]
  | shmat pid c => grind [step, s.extends_shmat]
  | shmdt pid addr fault =>
    rw [step] at hstep
    split_ifs at hstep
    cases hstep
    rw [shmdt] at hnone
    cases hdt : s.registry.shmdt pid addr with
    | none => grind
    | some found =>
      obtain ⟨seg', r⟩ := found
      simp only [hdt] at hnone
      obtain ⟨id₀, old, hold, -, rfl, rfl⟩ := ShmRegistry.shmdt_eq_some hdt
      obtain ⟨rfl, hremoved, hempty⟩ := ShmRegistry.unused_of_setSegment hget hnone
      rw [hget] at hold
      cases hold
      refine ⟨.inl hremoved, fun a ha => ?_⟩
      by_contra hne
      have hmem : a ∈ seg.attachments.erase ⟨pid, addr⟩ := (mem_erase_of_ne hne).mpr ha
      grind
  | rmid pid c nsId shmid =>
    rw [step] at hstep
    split_ifs at hstep
    cases hstep
    cases hold : s.registry.segments.get? shmid with
    | none => grind
    | some old =>
      simp only [hold] at hnone
      split_ifs at hnone
      · exact absurd hnone (ShmRegistry.Extends.refl id seg hget)
      · exact absurd hnone (ShmRegistry.Extends.refl id seg hget)
      · obtain ⟨rfl, -, hempty⟩ := ShmRegistry.unused_of_setSegment hget hnone
        rw [hget] at hold
        cases hold
        refine ⟨.inr rfl, fun a ha => ?_⟩
        rw [show seg.attachments = [] from hempty] at ha
        cases ha
  | fork pid child outcome =>
    have hclone : s.registry.Extends (s.registry.cloneAttachments pid child) := by
      intro id seg hget hnone
      have hmap : (s.registry.segments.mapValues (·.cloneAttachments pid child)).get? id = none :=
        hnone
      rw [get?_mapValues, hget] at hmap
      cases hmap
    rw [step] at hstep
    split_ifs at hstep
    cases hstep
    cases outcome with
    | early e => exact absurd (.refl) hkept
    | _ => exact absurd hclone hkept
  | exit pid forgotten =>
    rw [step] at hstep
    split_ifs at hstep
    cases hstep
    have hfilter : (s.registry.detachProcess pid forgotten).segments.get? id = none := hnone
    rw [get?_detachProcess_eq, hget, map_some, filter_eq_none_iff] at hfilter
    have hnot := hfilter _ rfl
    rw [Bool.or_eq_true, not_or, Bool.not_eq_true', Bool.not_eq_false, Bool.and_eq_true,
      List.isEmpty_iff] at hnot
    obtain ⟨⟨hremoved, hempty⟩, -⟩ := hnot
    refine ⟨.inl hremoved, fun a ha => ?_⟩
    by_contra hne
    have hmem : a ∈ (seg.detachProcess pid).attachments :=
      mem_filter.mpr ⟨ha, decide_eq_true hne⟩
    rw [hempty] at hmem
    cases hmem
  | mmap pid start len fixed noreplace env => grind [setSpace, step.eq_7]
  | munmap pid start len fault => grind [setSpace, step.eq_8]

theorem Inv.sound (h : Inv cfg.arch s) : Sound cfg s where
  mapped := h.mapped
  shmdt pid addr fault result hstep pid' vpn hne := by grind [ShmState.step, h.shmdt_pages]
  nattch id seg hget := length_eq_sum (h.good id seg hget).live
  used id seg hget hremoved hzero :=
    (h.good id seg hget).used hremoved (length_eq_zero_iff.mp hzero)
  freed _ _ _ _ hstep hget hnone := freed_of_step hstep hget hnone

/-- **Attachments and mappings in every state of a run of proper calls.** -/
theorem attachments_of_reachable (cfg : Config) {s : ShmState}
    (h : ((sharedMemory cfg).restrict fun s l => Proper cfg s l = true).Reachable s) :
    Sound cfg s := by
  refine Inv.sound (h.invariant (I := Inv cfg.arch) ?_ ?_)
  · rintro _ rfl
    refine ⟨fun pid vpn id i => ⟨nofun, ?_⟩, nofun, nofun⟩
    rintro ⟨addr, size, ⟨seg, hget, -⟩, -⟩
    cases hget
  · rintro s l _ - hinv ⟨hproper, hstep⟩
    obtain ⟨result, hresult, rfl⟩ := map_eq_some_iff.mp hstep
    exact hinv.step hproper hresult

/-- The superuser, a segment of one page, and where it goes. -/
def superuser : Caller := ⟨0, 0, 1, 0⟩

def onePage : ShmgetArgs := ⟨0, 4096, true, false, true, true, 0o600⟩

def mapAt (vpn : ℕ) : MapEnv := ⟨some vpn, none, none⟩

/-- A new segment is attached. -/
def attachOne : List Label :=
  [.shmget 1 superuser 0 onePage,
    .shmat 1 superuser 0 ⟨1, 0, false, false, false, false⟩ ⟨true, true, mapAt 0x20000, true, none⟩]

/-- It has two attachments after a fork. -/
theorem attachments_attachOne :
    ∃ s, ((sharedMemory .riscv).restrict fun s l => Proper .riscv s l = true).Reachable s ∧
      Sound .riscv s ∧ (s.registry.segments.get? 1).map nattch = some 2 ∧
      s.space 2 0x20000 = some (.shm 1 0) := by
  obtain ⟨s, hreach, hgoal⟩ : ∃ s,
      ((sharedMemory .riscv).restrict fun s l => Proper .riscv s l = true).Reachable s ∧
        (s.registry.segments.get? 1).map nattch = some 2 ∧
        s.space 2 0x20000 = some (.shm 1 0) :=
    System.exists_run_restrict (attachOne ++ [Label.fork 1 2 .ok]) rfl (by decide)
  exact ⟨s, hreach, attachments_of_reachable .riscv hreach, hgoal⟩

/-- The process unmaps the attachment and maps something else there. -/
def mapOver : List Label :=
  attachOne ++ [.munmap 1 0x20000000 4096 none, .mmap 1 0x20000000 4096 true false (mapAt 0)]

/-- **`shmdt` unmaps a page that belongs to no segment.**  The attachment is still recorded when its
pages are gone. -/
theorem shmdt_unmaps_other : ∃ s s', (sharedMemory .riscv).Reachable s ∧
    (s.registry.segments.get? 1).map nattch = some 1 ∧ s.space 1 0x20000 = some .other ∧
    s.step .riscv (.shmdt 1 0x20000000 none) = some (s', .ok 0) ∧ s'.space 1 0x20000 = none := by
  obtain ⟨s, hs, hcount, hother, hstep⟩ : ∃ s, (sharedMemory .riscv).Reachable s ∧
      (s.registry.segments.get? 1).map nattch = some 1 ∧
      s.space 1 0x20000 = some .other ∧
      ((s.step .riscv (.shmdt 1 0x20000000 none)).any fun result =>
        decide (result.2.toOption = some 0 ∧ result.1.space 1 0x20000 = none)) = true :=
    System.exists_run mapOver rfl (by decide)
  obtain ⟨⟨s', answer⟩, hs', hafter⟩ := (any_eq_true _ _).mp hstep
  obtain ⟨hanswer, hgone⟩ := of_decide_eq_true hafter
  cases answer with
  | error e => cases hanswer
  | ok n =>
    cases hanswer
    exact ⟨s, s', hs, hcount, hother, hs', hgone⟩
end MangoCore.Ipc.Shm
