import MangoCore.Mm.VmaSetReachable

/-!
# Growing a stack

`expand_growsdown_for_fault` extends a grow-down mapping to a faulting page below it.  The new pages
are the only ones that change, and below them the guard gap is free.  What the code bounds is the
distance of the fault from the mapping: it never looks at the size of the stack, so that a stack of
the greatest size grows on, one fault at a time (`grows_past_limit`).
-/

namespace MangoCore.Mm.VmaSet

open VirtAddr OrdMap

variable {arch : Arch} {s : VmaSet} {t : VmaSet} {a b : Vma} {faultVpn p : ℕ}

/-- The mapping at `oldStart` passes all tests of a fault at `faultVpn`. -/
structure Growable (arch : Arch) (s : VmaSet) (faultVpn oldStart : ℕ) (area : Vma) : Prop where
  stack : s.vmas.get? oldStart = some area ∧ area.vmIsUser = true ∧
    area.flags.contains .MAP_GROWSDOWN = true
  below : faultVpn < oldStart
  limit : oldStart - faultVpn ≤ arch.userStackSize / pageSize
  guard : s.guardGapOk oldStart faultVpn = true
  free : ∀ p, faultVpn ≤ p → p < oldStart → ¬ Mapped s.vmas p

/-- A growth of the mapping `area` down to `faultVpn`. -/
structure Grown (arch : Arch) (s s' : VmaSet) (faultVpn oldStart : ℕ) (area : Vma) : Prop
    extends Growable arch s faultVpn oldStart area where
  /-- The pages of the guard gap are free. -/
  gap : ∀ p, p < faultVpn → faultVpn ≤ p + stackGuardGapPages → pageAt s'.vmas p = none
  added : ∀ p, faultVpn ≤ p → p < oldStart →
    ∃ view, pageAt s'.vmas p = some view ∧ view.mapPerm = area.mapPerm ∧ view.flags = area.flags
  others : ∀ p, ¬ (faultVpn ≤ p ∧ p < oldStart) → pageAt s'.vmas p = pageAt s.vmas p

/-- What a fault below a stack does: it grows the stack, or it changes no page and no hole. -/
structure GrowthOutcome (arch : Arch) (s : VmaSet) (faultVpn : ℕ)
    (result : Except MemoryError (Option ℕ) × VmaSet) : Prop where
  inv : Inv arch result.2
  grown : ∀ start, result.1 = .ok (some start) →
    start = faultVpn ∧ ∃ oldStart area, Grown arch s result.2 faultVpn oldStart area
  refused : (∀ start, result.1 ≠ .ok (some start)) → ∀ p,
    pageAt result.2.vmas p = pageAt s.vmas p ∧
      (InHole result.2.mmapHoles p ↔ InHole s.mmapHoles p)

/-- The holes are known from the pages. -/
theorem Inv.inHole_iff (h : Inv arch s) (ht : Inv arch t)
    (hp : pageAt t.vmas p = pageAt s.vmas p) : InHole t.mmapHoles p ↔ InHole s.mmapHoles p := by
  rw [h.cover, ht.cover, ← pageAt_eq_none_iff h.map, ← pageAt_eq_none_iff ht.map, hp]

/-- The flags of a mapping and the pages it had are the same after it grew. -/
theorem view_expandDownTo {newStart : ℕ} (h : a.expandDownTo newStart = .ok b) :
    b.flags = a.flags ∧ ∀ p, floor newStart ≤ p ∧ p < a.vmEnd →
      b.pageView p = a.pageView p := by
  unfold Vma.expandDownTo VmPageStore.setStart at h
  split_ifs at h with hlt hfile
  cases h
  refine ⟨rfl, fun p hp => ?_⟩
  have hframe : (a.inner.frames.retain fun vpn _ =>
      decide (floor newStart ≤ vpn) && decide (vpn < a.vmEnd)).get? p =
        a.inner.frames.get? p := by
    rw [get?_retain]
    cases a.inner.frames.get? p with
    | none => rfl
    | some frame => simp [hp]
  have hnone : a.mapFile = none := by simpa using hfile
  simp only [Vma.pageView, hnone, Option.map_none, PageView.mk.injEq, true_and]
  exact hframe

/-- Below a checked gap nothing is mapped. -/
theorem pageAt_of_guardGapOk (h : MapInv s.vmas)
    {oldStart : ℕ} (hguard : s.guardGapOk oldStart faultVpn = true) (hold : faultVpn < oldStart)
    (hp : p < faultVpn) (hgap : faultVpn ≤ p + stackGuardGapPages) : pageAt s.vmas p = none := by
  rw [pageAt_eq_none_iff h]
  rintro ⟨k, a, hk, hkp, hpa⟩
  unfold guardGapOk at hguard
  cases hlast : s.vmas.lastLT? oldStart with
  | none =>
    have hno := lastWhere?_eq_none_iff.mp hlast k a hk
    simp at hno
    omega
  | some e =>
    obtain ⟨hget, -, hmax⟩ := lastWhere?_eq_some_iff.mp hlast
    have hle := hmax k a hk (by simp; omega)
    rw [hlast] at hguard
    simp only [Bool.and_eq_true, decide_eq_true_eq] at hguard
    rcases hle.eq_or_lt with heq | hlt
    · rw [heq, hget] at hk
      cases hk
      omega
    · have hapart := h.spaced.apart _ _ _ _ hk hget hlt
      have hne := h.spaced.nonempty _ _ hget
      omega

/-- A mapping is taken out and comes back with pages added below it. -/
theorem pageAt_putVma_of_grown (h : MapInv s.vmas) {k : ℕ}
    (hk : s.vmas.get? k = some a) (ht : t.vmas = s.vmas.erase k) (hend : b.vmEnd = a.vmEnd)
    (hstart : b.vmStart ≤ a.vmStart) (hfits : b.Fits)
    (hfree : ∀ p, b.vmStart ≤ p → p < a.vmStart → ¬ Mapped s.vmas p) (p : ℕ) :
    pageAt (t.putVma b).vmas p =
      if b.vmStart ≤ p ∧ p < a.vmEnd then some (b.pageView p) else pageAt s.vmas p := by
  have hout := pageAt_erase h hk
  have hne := h.nonempty hk
  have hmap : MapInv t.vmas := ht ▸ h.erase k
  rw [(hmap.putVma (by omega) hfits fun q h₁ h₂ => ?_).2, hend] <;> rw [ht, hout]
  · split_ifs <;> first | rfl | omega
  · split_ifs
    · rfl
    · exact (pageAt_eq_none_iff h).mpr (hfree q h₁ (by omega))

/-- A fault is refused at once, or the mapping is taken out and comes back, grown or not. -/
theorem expandGrowsdownForFault_cases (h : MapInv s.vmas) :
    s.expandGrowsdownForFault arch faultVpn = (.ok none, s) ∨
      ∃ oldStart area, ∃ t : VmaSet, Growable arch s faultVpn oldStart area ∧
        t.vmas = s.vmas.erase oldStart ∧
          ((∃ e, (s.expandGrowsdownForFault arch faultVpn).1 = .error e ∧
              (s.expandGrowsdownForFault arch faultVpn).2.vmas = (t.putVma area).vmas) ∨
            ∃ grown, area.expandDownTo (ofVpn faultVpn) = .ok grown ∧
              s.expandGrowsdownForFault arch faultVpn =
                (.ok (some grown.vmStart), t.putVma grown)) := by
  unfold VmaSet.expandGrowsdownForFault
  cases hfirst : s.vmas.firstGE? faultVpn with
  | none => exact .inl rfl
  | some e =>
    obtain ⟨hget, -, -⟩ := (firstGE?_eq_some_iff).mp hfirst
    dsimp only
    split_ifs with hno hfar hguard hover
    any_goals exact .inl rfl
    simp only [Bool.or_eq_true, Bool.not_eq_true', decide_eq_true_eq, not_or, not_le,
      Bool.not_eq_false] at hno
    have hgrowable : Growable arch s faultVpn e.1 e.2 :=
      ⟨⟨hget, hno.1.2, hno.2⟩, hno.1.1, not_lt.mp hfar, by simpa using hguard,
        hasOverlap_eq_false h hno.1.1 (by simpa using hover)⟩
    have htaken : ((s.reserveMmapRange arch faultVpn e.1).without e.1).vmas =
        s.vmas.erase e.1 := by simp [without]
    rw [takeVma_of_get? (by simpa using hget)]
    dsimp only
    cases hgrow : e.2.expandDownTo (ofVpn faultVpn) with
    | error errno =>
      exact .inr ⟨e.1, e.2, _, hgrowable, htaken, .inl ⟨_, rfl, releaseMmapRange_vmas⟩⟩
    | ok grown =>
      refine .inr ⟨e.1, e.2, _, hgrowable, ?_, .inr ⟨grown, hgrow, rfl⟩⟩
      rw [if_pos hno.1.2]
      exact htaken

/-- **A stack grows over free pages and keeps its guard gap**, by no more than the stack limit at a
time; a fault that does not grow a stack changes nothing. -/
theorem growth_of_fault (h : Inv arch s) (faultVpn : ℕ) :
    GrowthOutcome arch s faultVpn (s.expandGrowsdownForFault arch faultVpn) := by
  have hinv := h.expandGrowsdownForFault faultVpn
  rcases expandGrowsdownForFault_cases h.map with
    heq | ⟨oldStart, area, t, hg, ht, ⟨e, herr, hvmas⟩ | ⟨grown, hgrow, heq⟩⟩
  · rw [heq]
    exact ⟨h, nofun, fun _ p => ⟨rfl, Iff.rfl⟩⟩
  · refine ⟨hinv, by simp [herr], fun _ p => ?_⟩
    have hp : pageAt (s.expandGrowsdownForFault arch faultVpn).2.vmas p = pageAt s.vmas p := by
      rw [hvmas, pageAt_putVma_of_grown h.map hg.stack.1 ht rfl le_rfl
        (h.map.fits _ _ hg.stack.1) fun q h₁ h₂ => absurd h₂ h₁.not_gt]
      split_ifs with hin
      · exact (pageAt_of_get? h.map hg.stack.1 hin).symm
      · rfl
    exact ⟨hp, h.inHole_iff hinv hp⟩
  · have hkey := h.map.key _ _ hg.stack.1
    have hne := h.map.nonempty hg.stack.1
    have hbelow := hg.below
    have hfits := h.map.fits _ _ hg.stack.1
    obtain ⟨hstart, hend, hperm, hfile, -⟩ := Vma.expandDownTo_eq_ok hgrow
    have hsmall : faultVpn < pageNumRange := by
      have := hfits.vmEnd_le
      omega
    rw [floor_ofVpn hsmall] at hstart
    have hpage := pageAt_putVma_of_grown h.map hg.stack.1 ht hend (by omega)
      ⟨hend.le.trans hfits.vmEnd_le, fun hsome => by simp [hfile] at hsome⟩
      fun p h₁ h₂ => hg.free p (by omega) (by omega)
    rw [hstart] at hpage
    have hothers (p : ℕ) (hp : ¬ (faultVpn ≤ p ∧ p < oldStart)) :
        pageAt (t.putVma grown).vmas p = pageAt s.vmas p := by
      rw [hpage]
      split_ifs
      · have hold : area.vmStart ≤ p ∧ p < area.vmEnd := by omega
        rw [pageAt_of_get? h.map hg.stack.1 hold, (view_expandDownTo hgrow).2 p
          (by rw [floor_ofVpn hsmall]; omega)]
      · rfl
    rw [heq] at hinv ⊢
    refine ⟨hinv, fun start hok => ?_, fun hno => absurd rfl (hno _)⟩
    cases hok
    refine ⟨hstart, oldStart, area, hg, fun p h₁ h₂ => ?_, fun p h₁ h₂ => ?_, hothers⟩
    · rw [hothers p (by omega)]
      exact pageAt_of_guardGapOk h.map hg.guard hbelow h₁ h₂
    · exact ⟨grown.pageView p, by rw [hpage, if_pos (by omega)], hperm,
        (view_expandDownTo hgrow).1⟩

/-- A stack of the greatest size, with free pages below. -/
def fullStack : Vma :=
  { Vma.tryNew 0x21000000 0x21100000 (.union .R (.union .W .U)) none 0 (by decide) with
    flags := .MAP_GROWSDOWN }

def fullStackSet : VmaSet := (VmaSet.insertVma .riscv 8 (VmaSet.new .riscv) fullStack).2

theorem fullStackSet_inv : Inv .riscv fullStackSet :=
  (Inv.new .riscv).insertVma ⟨by decide, fun h => absurd h (by decide)⟩

theorem growth_of_fullStack : GrowthOutcome .riscv fullStackSet 0x20fff
    (fullStackSet.expandGrowsdownForFault .riscv 0x20fff) :=
  growth_of_fault fullStackSet_inv 0x20fff

/-- A stack of the greatest size still grows. -/
theorem grows_past_limit : Inv .riscv fullStackSet ∧
    fullStack.vmEnd - fullStack.vmStart = Arch.riscv.userStackSize / pageSize ∧
      ∃ grown, (fullStackSet.expandGrowsdownForFault .riscv 0x20fff).1 = .ok (some 0x20fff) ∧
        (fullStackSet.expandGrowsdownForFault .riscv 0x20fff).2.vmas.get? 0x20fff = some grown ∧
          Arch.riscv.userStackSize / pageSize < grown.vmEnd - grown.vmStart := by
  have hsize : ((fullStackSet.expandGrowsdownForFault .riscv 0x20fff).2.vmas.get? 0x20fff).any
      (fun grown => Arch.riscv.userStackSize / pageSize < grown.vmEnd - grown.vmStart) = true := by
    decide
  obtain ⟨grown, hget, hlt⟩ := (Option.any_eq_true ..).mp hsize
  exact ⟨fullStackSet_inv, by decide, grown, by decide +kernel, hget, by simpa using hlt⟩

end MangoCore.Mm.VmaSet
