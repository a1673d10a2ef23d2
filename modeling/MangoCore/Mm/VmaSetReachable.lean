import MangoCore.Lib.System
import MangoCore.Mm.VmaSetRuns

/-!
# The reachable sets of mappings

An address space starts with an empty `VmaSet` and calls its operations in any order, each with any
arguments, any page table behind it and any value of the soft limit on the number of mappings.  The
system `calls` collects them.  Every state it reaches is `Consistent`: this is the list of
conditions that the self-check `check_invariants` of the source goes through.

Two of the operations are internal.  `reserve_mmap_range` and `release_mmap_range` move pages
between the holes and the mappings without touching the mappings, so a call of one of them alone
leaves pages that are neither; the operations call them on the way, and a state between the two
halves is not one another caller can see.  What the callers promise in addition is in
`Op.Admissible`: the protection given to `protect_range` has the user bit, and an inserted mapping
fits its file.
-/

namespace MangoCore.Mm.VmaSet

open IntervalMap VmaSet

/-- The calls of the operations, with their arguments.  `pages` is what a page fault or the memory
reclaimer does: it changes a mapping in place. -/
inductive Op (M : Type) where
  | insertVma (area : Vma)
  | removeArea (mapper : M) (startVpn : ℕ)
  | splitForRange (areaStart startVpn endVpn : ℕ)
  | unmapRange (mapper : M) (startVpn endVpn : ℕ) (allowEmpty : Bool)
  | protectRange (mapper : M) (startVpn endVpn : ℕ) (prot : MapPermission)
  | adviseRange (mapper : M) (startVpn endVpn advice : ℕ)
  | tryMergeLazyPrivateMmap (startVa len : ℕ) (prot : MapPermission) (flags : MapFlags)
  | expandGrowsdownForFault (faultVpn : ℕ)
  | reserveMmapRange (startVpn endVpn : ℕ)
  | releaseMmapRange (startVpn endVpn : ℕ)
  | unmapAll (mapper : M)
  | clear
  | pages (areaStart : ℕ) (change : Vma → Vma)

variable {M : Type} [UserMapper M]

/-- The set that a call leaves; `none` if the call does not return. -/
def Op.apply (arch : Arch) (maxMapCount : ℕ) (s : VmaSet) : Op M → Option VmaSet
  | .insertVma area => some (s.insertVma arch maxMapCount area).2
  | .removeArea mapper startVpn => some (s.removeAreaWithStart arch mapper startVpn).2.1
  | .splitForRange areaStart startVpn endVpn =>
    some (s.splitForRange maxMapCount areaStart startVpn endVpn).2
  | .unmapRange mapper startVpn endVpn allowEmpty =>
    (s.unmapRange arch maxMapCount mapper startVpn endVpn allowEmpty).map fun r => r.2.1
  | .protectRange mapper startVpn endVpn prot =>
    some (s.protectRange maxMapCount mapper startVpn endVpn prot).2.1
  | .adviseRange mapper startVpn endVpn advice =>
    some (s.adviseRange maxMapCount mapper startVpn endVpn advice).2.1
  | .tryMergeLazyPrivateMmap startVa len prot flags =>
    some (s.tryMergeLazyPrivateMmap arch startVa len prot flags).2
  | .expandGrowsdownForFault faultVpn => some (s.expandGrowsdownForFault arch faultVpn).2
  | .reserveMmapRange startVpn endVpn => some (s.reserveMmapRange arch startVpn endVpn)
  | .releaseMmapRange startVpn endVpn => some (s.releaseMmapRange arch startVpn endVpn)
  | .unmapAll mapper => some (s.unmapAll arch mapper).2.1
  | .clear => some (s.clear arch)
  | .pages areaStart change =>
    match s.vmas.get? areaStart with
    | none => some s
    | some area => some (s.updateVma areaStart (change area))

/-- What the callers of an operation promise. -/
def Op.Admissible : Op M → Prop
  | .insertVma area => area.Fits
  | .protectRange _ _ _ prot => prot.contains .U = true
  | .reserveMmapRange _ _ => False
  | .releaseMmapRange _ _ => False
  | .pages _ change => ∀ a : Vma, a.SameShape (change a)
  | _ => True

/-- Any calls, from the empty set; the label carries the soft limit at the time of the call. -/
def calls (arch : Arch) (M : Type) [UserMapper M] : System VmaSet (ℕ × Op M) where
  init s := s = new arch
  step s a t := a.2.apply arch a.1 s = some t

/-- The calls that keep the callers' promises. -/
def admissibleCalls (arch : Arch) (M : Type) [UserMapper M] : System VmaSet (ℕ × Op M) where
  init s := s = new arch
  step s a t := a.2.Admissible ∧ a.2.apply arch a.1 s = some t

/-- The mappings that count as user mappings. -/
def userVmas (s : VmaSet) : List Vma := (s.vmas.entries.map Prod.snd).filter Vma.vmIsUser

/-- The mappings, the holes and the counters say the same. -/
structure Consistent (arch : Arch) (s : VmaSet) : Prop where
  key_eq_start : ∀ k a, s.vmas.get? k = some a → a.vmStart = k
  vma_nonempty : ∀ k a, s.vmas.get? k = some a → a.vmStart < a.vmEnd
  vma_disjoint : ∀ k a k' a', s.vmas.get? k = some a → s.vmas.get? k' = some a' → k ≠ k' →
    a.vmEnd ≤ a'.vmStart ∨ a'.vmEnd ≤ a.vmStart
  hole_nonempty : ∀ k e, s.mmapHoles.get? k = some e → k < e
  hole_apart : ∀ k e k' e', s.mmapHoles.get? k = some e → s.mmapHoles.get? k' = some e' →
    k ≠ k' → e < k' ∨ e' < k
  hole_in_arena : ∀ k e, s.mmapHoles.get? k = some e →
    arch.mmapBounds.1 ≤ k ∧ e ≤ arch.mmapBounds.2
  hole_iff : ∀ p, (∃ k e, s.mmapHoles.get? k = some e ∧ k ≤ p ∧ p < e) ↔
    (arch.mmapBounds.1 ≤ p ∧ p < arch.mmapBounds.2) ∧
      ¬ ∃ k a, s.vmas.get? k = some a ∧ a.vmStart ≤ p ∧ p < a.vmEnd
  area_count : s.userAreaCount = s.userVmas.length
  page_count : s.userPageCount = (s.userVmas.map Vma.areaPageCount).sum

variable {arch : Arch} {s : VmaSet}

/-! ## The invariant is what the self-check asks for -/

theorem sum_userAreas : s.vmas.sum userAreas = s.userVmas.length := by
  unfold OrdMap.sum userVmas userAreas
  induction s.vmas.entries with
  | nil => rfl
  | cons e l ih => grind

theorem sum_userPages :
    s.vmas.sum userPages = (s.userVmas.map Vma.areaPageCount).sum := by
  unfold OrdMap.sum userVmas userPages
  induction s.vmas.entries with
  | nil => rfl
  | cons e l ih => grind

/-- A page is in a mapping, read off the ends of the mapping. -/
theorem MapInv.mapped_iff {vmas : OrdMap ℕ Vma} (h : MapInv vmas) {p : ℕ} :
    Mapped vmas p ↔ ∃ k a, vmas.get? k = some a ∧ a.vmStart ≤ p ∧ p < a.vmEnd := by
  constructor <;> rintro ⟨k, a, hk, hp⟩
  · exact ⟨k, a, hk, by rw [h.key k a hk]; exact hp⟩
  · exact ⟨k, a, hk, by rw [h.key k a hk] at hp; exact hp⟩

theorem Inv.consistent (h : Inv arch s) : Consistent arch s where
  key_eq_start := h.map.key
  vma_nonempty _ _ hk := h.map.nonempty hk
  vma_disjoint k a k' a' hk hk' hne := by
    rw [h.map.key k a hk, h.map.key k' a' hk']
    rcases lt_or_gt_of_ne hne with hlt | hgt
    · exact .inl (h.map.spaced.apart k a k' a' hk hk' hlt)
    · exact .inr (h.map.spaced.apart k' a' k a hk' hk hgt)
  hole_nonempty := h.holes.nonempty
  hole_apart k e k' e' hk hk' hne := by
    rcases lt_or_gt_of_ne hne with hlt | hgt
    · exact .inl (h.holes.apart k e k' e' hk hk' hlt)
    · exact .inr (h.holes.apart k' e' k e hk' hk hgt)
  hole_in_arena k e hk := by
    -- the first and the last page of the hole are in the arena
    have hlt : k < e := h.holes.nonempty k e hk
    have hfirst := ((h.cover k).mp ⟨k, e, hk, le_rfl, hlt⟩).1
    have hlast := ((h.cover (e - 1)).mp ⟨k, e, hk, by omega, Nat.sub_lt (by omega) one_pos⟩).1
    unfold InArena at hfirst hlast
    omega
  hole_iff p := by
    rw [← h.map.mapped_iff]
    exact h.cover p
  area_count := by rw [h.areaCount, sum_userAreas]
  page_count := by rw [h.pageCount, sum_userPages]

/-! ## Every call -/

/-- A call that keeps its promises returns, and leaves the structures in agreement. -/
theorem Inv.apply (h : Inv arch s) (maxMapCount : ℕ) {op : Op M} (hop : op.Admissible) :
    ∃ t, op.apply arch maxMapCount s = some t ∧ Inv arch t := by
  cases op with
  | insertVma area => exact ⟨_, rfl, h.insertVma hop⟩
  | removeArea mapper startVpn => exact ⟨_, rfl, h.removeAreaWithStart⟩
  | splitForRange areaStart startVpn endVpn =>
    exact ⟨_, rfl, h.splitForRange maxMapCount areaStart startVpn endVpn⟩
  | unmapRange mapper startVpn endVpn allowEmpty =>
    obtain ⟨r, hr⟩ := exists_unmapRange h mapper startVpn endVpn allowEmpty
    exact ⟨r.2.1, by rw [Op.apply, hr, Option.map_some],
      unmapRangeLoop_inv h hr⟩
  | protectRange mapper startVpn endVpn prot =>
    exact ⟨_, rfl, h.protectRange mapper startVpn endVpn hop⟩
  | adviseRange mapper startVpn endVpn advice => exact ⟨_, rfl, Inv.adviseLoop _ _ _ _ h⟩
  | tryMergeLazyPrivateMmap startVa len prot flags =>
    exact ⟨_, rfl, h.tryMergeLazyPrivateMmap startVa len prot flags⟩
  | expandGrowsdownForFault faultVpn => exact ⟨_, rfl, h.expandGrowsdownForFault faultVpn⟩
  | unmapAll | clear => exact ⟨_, rfl, Inv.clear⟩
  | pages areaStart change =>
    cases hk : s.vmas.get? areaStart with
    | none => exact ⟨s, by simp only [Op.apply, hk], h⟩
    | some area => exact ⟨_, by simp only [Op.apply, hk], h.updateVma_of_sameShape hk (hop area)⟩
  | _ => exact hop.elim

theorem inv_of_reachable (h : (admissibleCalls arch M).Reachable s) : Inv arch s := by
  refine h.invariant (fun s hs => ?_) fun s a t _ hinv hstep => ?_
  · rw [show s = new arch from hs]
    exact Inv.new arch
  · obtain ⟨hadm, happly⟩ := hstep
    obtain ⟨t', happly', hinv'⟩ := hinv.apply a.1 hadm
    rw [happly] at happly'
    rwa [Option.some.inj happly']

/-- **Every reachable set of mappings is consistent**, and every call made on it that keeps the
callers' promises returns and leaves a consistent set. -/
theorem consistent_of_reachable (h : (admissibleCalls arch M).Reachable s) :
    Consistent arch s ∧ ∀ (maxMapCount : ℕ) (op : Op M), op.Admissible →
      ∃ t, op.apply arch maxMapCount s = some t ∧ Consistent arch t := by
  refine ⟨(inv_of_reachable h).consistent, fun maxMapCount op hop => ?_⟩
  obtain ⟨t, happly, hinv⟩ := (inv_of_reachable h).apply maxMapCount hop
  exact ⟨t, happly, hinv.consistent⟩

/-- A page table without entries. -/
inductive NoPages where
  | mk

instance : UserMapper NoPages where
  isMapped _ _ := false
  unmapUserPageIfMapped m _ := (.ok false, m)
  setUserFlags m _ _ := (.error .notMapped, m)
  retireFrame m _ := m

/-- Two readable and writable anonymous pages at the bottom of the arena. -/
def twoPages : Vma :=
  Vma.tryNew 0x20000000 0x20002000 (.union .R (.union .W .U)) none 0 (by decide)

/-- The set with the two pages inserted is reachable. -/
theorem consistent_insert_twoPages :
    let s := (insertVma .riscv 8 (new .riscv) twoPages).2
    s.userPageCount = 2 ∧ Consistent .riscv s ∧ ∀ (maxMapCount : ℕ) (op : Op NoPages),
      op.Admissible → ∃ t, op.apply .riscv maxMapCount s = some t ∧ Consistent .riscv t :=
  ⟨by decide, consistent_of_reachable (.step (a := (8, .insertVma twoPages)) (.init rfl)
    ⟨Vma.fits_tryNew _ (by decide) fun h => absurd h (by decide), rfl⟩)⟩

/-! ## The promises are needed -/

/-- Three pages of a file, of which the last one lies past the greatest offset. -/
def threeFilePages : Vma :=
  Vma.tryNew 0x20000000 0x20003000 (.union .R .U) (some 0) (usizeRange - 2 * pageSize) (by decide)

def afterReserve : VmaSet := (new .riscv).reserveMmapRange .riscv 0x20000 0x20001

def afterKernelProtect : VmaSet :=
  (protectRange 8 (insertVma .riscv 8 (new .riscv) twoPages).2 NoPages.mk
    0x20000 0x20002 .R).2.1

def afterOffsetOverflow : VmaSet :=
  (splitForRange 8 (insertVma .riscv 8 (new .riscv) threeFilePages).2
    0x20000 0x20001 0x20002).2

/-- **Calls that break a promise leave an inconsistent set**: a range reserved alone is neither a
hole nor mapped, a protection without the user bit makes the counters stale, and a cut whose file
offset overflows loses the pages behind it. -/
theorem not_consistent_of_calls :
    ((calls .riscv NoPages).Reachable afterReserve ∧ ¬ Consistent .riscv afterReserve) ∧
    ((calls .riscv NoPages).Reachable afterKernelProtect ∧ ¬ Consistent .riscv afterKernelProtect) ∧
    ((calls .riscv NoPages).Reachable afterOffsetOverflow ∧
      ¬ Consistent .riscv afterOffsetOverflow) := by
  refine ⟨⟨?_, fun h => ?_⟩, ⟨?_, fun h => ?_⟩, ?_, fun h => ?_⟩
  · exact .step (a := (8, .reserveMmapRange 0x20000 0x20001)) (.init rfl) rfl
  · obtain ⟨k, e, hk, hle, -⟩ := (h.hole_iff 0x20000).mpr ⟨by decide, fun ⟨k, a, hk, _⟩ => by
      exact absurd hk (by simp [afterReserve, new])⟩
    -- the only hole left starts after the reserved page
    have hmem := OrdMap.mem_entries_iff.mpr hk
    rw [show afterReserve.mmapHoles.entries = [(0x20001, 0xb8000)] by decide,
      List.mem_singleton, Prod.mk.injEq] at hmem
    omega
  · exact .step (a := (8, .protectRange .mk 0x20000 0x20002 .R))
      (.step (a := (8, .insertVma twoPages)) (.init rfl) rfl) rfl
  · exact absurd h.area_count (by decide)
  · exact .step (a := (8, .splitForRange 0x20000 0x20001 0x20002))
      (.step (a := (8, .insertVma threeFilePages)) (.init rfl) rfl) rfl
  · exact absurd h.page_count (by decide)
end MangoCore.Mm.VmaSet
