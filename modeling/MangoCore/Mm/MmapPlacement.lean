import MangoCore.Mm.AddressSpace
import MangoCore.Mm.UnmapRounds

/-!
# Where `mmap` puts a mapping

Without a fixed address `mmap` takes the hint if it is free and else the first hole of the arena
that is long enough.  It looks at the table of holes only.  Since the holes are exactly the unmapped
pages of the arena and no two of them touch, this is sound (what it returns overlaps no mapping) and
complete (it fails only if no run of unmapped pages of the arena is long enough).
-/

namespace MangoCore.Mm

open IntervalMap VirtAddr VmaSet

/-- The start of a page is aligned already. -/
theorem alignUp_mul_pageSize {k : ℕ} (h : k < pageNumRange) :
    alignUp (k * pageSize) pageSize = some (k * pageSize) := by
  have hlt : k * pageSize + (pageSize - 1) < usizeRange := by
    unfold pageNumRange at h
    unfold pageSize usizeRange
    omega
  unfold alignUp
  rw [if_neg (by decide), if_pos hlt]
  congr 1
  have hbits : BitVec.ofNat 64 (k * pageSize + (pageSize - 1))
      &&& ~~~ BitVec.ofNat 64 (pageSize - 1) = BitVec.ofNat 64 (k * pageSize) := by
    apply BitVec.eq_of_getLsbD_eq
    intro i hi
    have hsum := Nat.testBit_two_pow_mul_add k (show 2 ^ 12 - 1 < 2 ^ 12 by decide) i
    have hbase := Nat.testBit_two_pow_mul_add k (show 0 < 2 ^ 12 by decide) i
    rw [add_zero, Nat.zero_testBit] at hbase
    rw [Nat.testBit_two_pow_sub_one] at hsum
    rw [BitVec.getLsbD_and, BitVec.getLsbD_not, BitVec.getLsbD_ofNat, BitVec.getLsbD_ofNat,
      BitVec.getLsbD_ofNat, show pageSize = 2 ^ 12 from rfl, mul_comm k, hsum, hbase,
      Nat.testBit_two_pow_sub_one]
    by_cases hlow : i < 12
    · simp [hlow]
    · simp [hlow, hi]
  rw [hbits, BitVec.toNat_ofNat]
  exact Nat.mod_eq_of_lt (lt_of_le_of_lt (Nat.le_add_right ..) hlt)

/-- The number of pages of a range that begins on a page. -/
theorem ceil_add_mul_pageSize {k len : ℕ} (hlen : 0 < len) :
    ceil (k * pageSize + len) = k + ceil len := by
  grind [ceil, pageSize]

theorem len_le_of_ceil_le {k e len : ℕ} (h : k + ceil len ≤ e) :
    k * pageSize + len ≤ e * pageSize := by
  unfold ceil pageSize at *
  split_ifs at h <;> omega

theorem ceil_le_of_len_le {k e len : ℕ} (hlen : 0 < len)
    (h : k * pageSize + len ≤ e * pageSize) : k + ceil len ≤ e := by
  unfold ceil pageSize at *
  rw [if_neg (by omega)]
  omega

theorem ceil_pos {len : ℕ} (hlen : 0 < len) : 0 < ceil len := by
  unfold ceil pageSize
  rw [if_neg (by omega)]
  omega

namespace VmaSet

variable {arch : Arch} {s : VmaSet}

/-- No hole reaches beyond the arena. -/
theorem Inv.hole_le (h : Inv arch s) {hole : ℕ × ℕ} (hmem : hole ∈ s.mmapHoles.entries) :
    hole.1 ≤ arch.mmapBounds.2 ∧ hole.2 ≤ arch.mmapBounds.2 := by
  have hget := OrdMap.mem_entries_iff.mp hmem
  have hlt := h.holes.nonempty _ _ hget
  have hle := (h.consistent.hole_in_arena _ _ hget).2
  exact ⟨(le_of_lt hlt).trans hle, hle⟩

/-- **The search through the holes.**  It returns the start of the first hole that is long enough,
and fails only if there is none, as long as no address overflows. -/
theorem findFreeLoop_spec {len bound : ℕ} (hbound : bound * pageSize + len < usizeRange)
    {holes : List (ℕ × ℕ)} (hle : ∀ hole ∈ holes, hole.1 ≤ bound ∧ hole.2 ≤ bound) :
    (∀ a, findFreeLoop len pageSize holes = .ok a →
      ∃ hole ∈ holes, a = hole.1 * pageSize ∧ a + len ≤ hole.2 * pageSize) ∧
    ∀ e, findFreeLoop len pageSize holes = .error e →
      e = .ENOMEM ∧ ∀ hole ∈ holes, hole.2 * pageSize < hole.1 * pageSize + len := by
  induction holes with
  | nil => simp [findFreeLoop]
  | cons hole holes ih =>
    obtain ⟨ihok, iherr⟩ := ih fun hole' hmem => hle hole' (List.mem_cons_of_mem _ hmem)
    obtain ⟨hk, he⟩ := hle hole List.mem_cons_self
    have hpages : ∀ j ≤ bound, j < pageNumRange := fun j hj => by
      unfold pageSize usizeRange at hbound
      unfold pageNumRange
      omega
    have hmul : hole.1 * pageSize ≤ bound * pageSize := Nat.mul_le_mul_right _ hk
    unfold findFreeLoop
    rw [ofVpn_of_lt (hpages _ hk), ofVpn_of_lt (hpages _ he), alignUp_mul_pageSize (hpages _ hk)]
    dsimp only
    rw [if_neg (not_le.mpr (lt_of_le_of_lt (Nat.add_le_add_right hmul len) hbound))]
    by_cases hole.1 * pageSize + len ≤ hole.2 * pageSize
    all_goals grind

/-- A run of pages that are all in holes is in one hole, since holes do not touch. -/
theorem exists_hole_of_run {holes : OrdMap ℕ ℕ} (hm : HolesMerged holes) {q n : ℕ} (hn : 0 < n)
    (hrun : ∀ p, q ≤ p → p < q + n → InHole holes p) :
    ∃ k e, holes.get? k = some e ∧ k ≤ q ∧ q + n ≤ e := by
  obtain ⟨k, e, hk, hle, hlt⟩ := hrun q le_rfl (by omega)
  refine ⟨k, e, hk, hle, ?_⟩
  by_contra hover
  -- the page right after the hole would be in another one
  obtain ⟨k', e', hk', hle', hlt'⟩ := hrun e (le_of_lt hlt) (Nat.lt_of_not_le hover)
  simp only [id] at hlt hlt'
  rcases lt_trichotomy k k' with h | h | h
  · have hapart := hm.apart k e k' e' hk hk' h
    simp only [id] at hapart
    omega
  · rw [h, hk'] at hk
    have := Option.some.inj hk
    omega
  · have hapart := hm.apart k' e' k e hk' hk h
    simp only [id] at hapart
    omega

/-- A merge reports the start of the range that was asked for. -/
theorem tryMergeLazyPrivateMmap_result {startVa len : ℕ} {prot : MapPermission} {flags : MapFlags}
    {a : ℕ} {t : VmaSet}
    (h : s.tryMergeLazyPrivateMmap arch startVa len prot flags = (.ok (some a), t)) :
    a = startVa := by
  unfold tryMergeLazyPrivateMmap at h
  split_ifs at h
  any_goals simp at h
  split at h
  · simp at h
  split at h
  · simp at h
  split at h
  · simp at h
  · grind

end VmaSet

/-- The range is made of unmapped pages of the arena, and starts on a page. -/
structure Placed (arch : Arch) (vmas : OrdMap ℕ Vma) (a len : ℕ) : Prop where
  aligned : a % pageSize = 0
  unmapped : ∀ p, VirtAddr.floor a ≤ p → p < VirtAddr.ceil (a + len) →
    InArena arch p ∧ ¬ Mapped vmas p

namespace AddressSpace

variable {M : Type} {arch : Arch} {as as' : AddressSpace M} {start len a : ℕ} {args : MmapArgs}
  {env : MmapEnv} {pf : Platform}

section

variable (hend : arch.mmapBounds.2 * pageSize + len < usizeRange) (h : Inv arch as.vmas)
include hend h

theorem placed_of_mmapPlacement (hstart : start % pageSize = 0) (hlen : 0 < len)
    (ha : as.mmapPlacement arch start len = .ok a) : Placed arch as.vmas.vmas a len := by
  unfold mmapPlacement at ha
  split_ifs at ha with hhint
  · injection ha with ha
    rw [Bool.and_eq_true] at hhint
    rw [← ha]
    exact ⟨hstart, fun p h₁ h₂ =>
      (h.cover p).mp (inHole_of_isMmapRangeFree hhint.2 h₁ h₂)⟩
  · obtain ⟨hole, hmem, rfl, hfit⟩ :=
      (findFreeLoop_spec hend fun hole hmem => h.hole_le hmem).1 a ha
    refine ⟨Nat.mul_mod_left .., fun p h₁ h₂ => (h.cover p).mp ?_⟩
    rw [ceil_add_mul_pageSize hlen] at h₂
    rw [floor, Nat.mul_div_cancel _ (by decide)] at h₁
    exact ⟨hole.1, hole.2, OrdMap.mem_entries_iff.mp hmem, h₁,
      lt_of_lt_of_le h₂ (ceil_le_of_len_le hlen hfit)⟩

/-- It finds nothing only if there is no room. -/
theorem full_of_mmapPlacement {e : Errno} (hlen : 0 < len)
    (he : as.mmapPlacement arch start len = .error e) :
    e = .ENOMEM ∧ ¬ ∃ q, ∀ p, q ≤ p → p < q + ceil len →
      InArena arch p ∧ ¬ Mapped as.vmas.vmas p := by
  unfold mmapPlacement at he
  split_ifs at he
  obtain ⟨rfl, hshort⟩ := (findFreeLoop_spec hend fun hole hmem => h.hole_le hmem).2 e he
  refine ⟨rfl, fun ⟨q, hrun⟩ => ?_⟩
  -- the run would lie in one hole, and that hole was tried
  obtain ⟨k, stop, hk, hle, hfit⟩ := exists_hole_of_run h.holes (ceil_pos hlen)
    fun p h₁ h₂ => (h.cover p).mpr (hrun p h₁ h₂)
  have hlong : k * pageSize + len ≤ stop * pageSize := len_le_of_ceil_le (by omega)
  exact absurd (hshort (k, stop) (OrdMap.mem_entries_iff.mpr hk)) (not_lt.mpr hlong)

end

theorem placeAuto_result {place : Place} (h : as.placeAuto arch args = (.ok place, as')) :
    ∃ a, as.mmapPlacement arch args.start args.len = .ok a ∧
      (place = .at a ∨ place = .merged a) := by
  unfold placeAuto at h
  cases hplace : as.mmapPlacement arch args.start args.len with
  | error e =>
    rw [hplace] at h
    simp at h
  | ok a =>
    refine ⟨a, rfl, ?_⟩
    rw [hplace] at h
    split_ifs at h
    · grind
    · grind [tryMergeLazyPrivateMmap_result]

theorem mapAt_result {startVa : ℕ}
    (h : (as.mapAt arch env args startVa).1 = .ok a) : a = startVa := by
  unfold mapAt at h
  dsimp only at h
  split_ifs at h
  repeat' split at h
  all_goals first | exact (Except.ok.inj h).symm | cases h

variable [UserMapper M]

/-- Without a fixed address `mmap` returns the place it found. -/
theorem mmapPlacement_of_doMmap
    (hauto : isFixed args.flags = false) (h : doMmap pf env as args = some (.ok a, as')) :
    args.start % pageSize = 0 ∧
      (∃ stop, checkedUserRange pf.toArch args.start args.len = .ok stop) ∧
      as.mmapPlacement pf.toArch args.start args.len = .ok a := by
  rcases doMmap_cases h with ⟨e, he, -⟩ | ⟨stop, placed, haligned, hrange, hplaced, hsettle⟩
  · cases he
  rw [hauto] at hplaced
  obtain ⟨hfixed, -⟩ | ⟨-, hplaced⟩ := hplaced
  · exact absurd hfixed (by decide)
  refine ⟨haligned, ⟨stop, hrange⟩, ?_⟩
  obtain ⟨result, as₁⟩ := placed
  cases result with
  | error e => simp [settle] at hsettle
  | ok place => grind [placeAuto_result, settle, mapAt_result]

/-- The arena ends far below the top of the addresses. -/
theorem mmapBounds_add_lt (hpf : pf = .riscv ∨ pf = .loongarch64) {stop : ℕ}
    (hrange : checkedUserRange pf.toArch start len = .ok stop) :
    0 < len ∧ pf.mmapBounds.2 * pageSize + len < usizeRange := by
  have hbounds : pf.mmapBounds.2 * pageSize < 2 ^ 63 := by
    rcases hpf with rfl | rfl
    all_goals decide
  have huser := pf.userVaEnd_lt
  unfold checkedUserRange at hrange
  split_ifs at hrange with hzero hoverflow hend
  simp only [Bool.or_eq_true, decide_eq_true_eq, not_or, not_le, not_lt] at hend
  unfold usizeRange
  omega

/-- **The automatic placement is sound and complete.**  On every reachable set of mappings, for
every hint and every length that pass the checks of `mmap`, what the search returns is a range of
unmapped pages of the arena, and the search fails with `ENOMEM` only if no run of unmapped pages of
the arena is long enough.  A mapping without a fixed address goes where the search says. -/
theorem placement_of_reachable {pf : Platform} (hpf : pf = .riscv ∨ pf = .loongarch64)
    (h : (admissibleCalls pf.toArch M).Reachable as.vmas) (start len : ℕ) :
    (∀ stop, start % pageSize = 0 → checkedUserRange pf.toArch start len = .ok stop →
      (∀ a, as.mmapPlacement pf.toArch start len = .ok a → Placed pf.toArch as.vmas.vmas a len) ∧
      ∀ e, as.mmapPlacement pf.toArch start len = .error e → e = .ENOMEM ∧
        ¬ ∃ q, ∀ p, q ≤ p → p < q + VirtAddr.ceil len →
          InArena pf.toArch p ∧ ¬ Mapped as.vmas.vmas p) ∧
    ∀ env args a as', args.start = start → args.len = len → isFixed args.flags = false →
      doMmap pf env as args = some (.ok a, as') → Placed pf.toArch as.vmas.vmas a len := by
  have hinv := inv_of_reachable h
  refine ⟨fun stop hstart hrange => ?_, ?_⟩
  · obtain ⟨hlen, hend⟩ := mmapBounds_add_lt hpf hrange
    exact ⟨fun a => placed_of_mmapPlacement hend hinv hstart hlen,
      fun e => full_of_mmapPlacement hend hinv hlen⟩
  · rintro env args a as' rfl rfl hauto hmmap
    obtain ⟨hstart, ⟨stop, hrange⟩, hplacement⟩ := mmapPlacement_of_doMmap hauto hmmap
    obtain ⟨hlen, hend⟩ := mmapBounds_add_lt hpf hrange
    exact placed_of_mmapPlacement hend hinv hstart hlen hplacement

/-- An address space with two pages at the bottom of the arena. -/
def twoPagesSpace : AddressSpace NoPages where
  vmas := twoPagesSet
  mapper := .mk
  heapBottom := 0x10000000
  heapPt := 0x10000000
  lockedPages := ∅

/-- The hint is taken, so the request goes to the hole behind the two pages. -/
theorem placement_behind_twoPages :
    twoPagesSpace.mmapPlacement .riscv 0x20001000 pageSize = .ok 0x20002000 ∧
      Placed .riscv twoPagesSpace.vmas.vmas 0x20002000 pageSize := by
  have hreach : (admissibleCalls Platform.riscv.toArch NoPages).Reachable twoPagesSpace.vmas :=
    .step (a := (8, .insertVma twoPages)) (.init rfl)
      ⟨Vma.fits_tryNew _ (by decide) fun h => absurd h (by decide), rfl⟩
  exact ⟨by decide, ((placement_of_reachable (.inl rfl) hreach 0x20001000 pageSize).1
    0x20002000 (by decide) rfl).1 _ (by decide)⟩

end AddressSpace
end MangoCore.Mm
