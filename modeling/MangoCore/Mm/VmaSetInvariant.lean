import MangoCore.Mm.VmaSetHoles

/-!
# The invariant of the set of mappings

The set of mappings keeps the same information three times over: the mappings, the holes between
them, and two counters.  `Inv` says that the three agree.  It is broken in the middle of every
operation, when a mapping has been taken out or a range reserved, and the operations differ mainly
in how they get back.

## The debt

Between two calls of `take_vma` and `put_vma` a range of pages is neither mapped nor in a hole, and
the counters are off by a known amount.  `Owing arch s pages lo hi da dp` is `Inv` with such a debt:
of the set `pages` that is to be mapped in the end the range `[lo, hi)` is missing, and the counters
exceed the mappings by `da` areas and `dp` pages.
Taking a mapping or reserving a range creates a debt (`Owing.takeVma`, `Inv.reserve`), storing a
mapping inside it pays a part (`Owing.putVmaInside`), releasing the range pays the rest
(`Owing.release`), and a debt of nothing is `Inv` again (`Owing.settle`).  Every operation is a path
through these lemmas.
-/

namespace MangoCore.Mm.VmaSet

open IntervalMap OrdMap Vma

/-- A page belongs to a mapping. -/
def Mapped (vmas : OrdMap ℕ Vma) (p : ℕ) : Prop := Covers vmEnd vmas p

/-- What a mapping adds to the number of user mappings. -/
def userAreas (a : Vma) : ℕ := if a.vmIsUser then 1 else 0

/-- What a mapping adds to the number of user pages. -/
def userPages (a : Vma) : ℕ := if a.vmIsUser then a.areaPageCount else 0

/-- The mappings are stored under their first pages, non-empty, disjoint, and fit their files. -/
structure MapInv (vmas : OrdMap ℕ Vma) : Prop where
  key : ∀ k a, vmas.get? k = some a → a.vmStart = k
  spaced : Spaced 0 vmEnd vmas
  fits : ∀ k a, vmas.get? k = some a → a.Fits

/-- The three structures agree. -/
structure Inv (arch : Arch) (s : VmaSet) : Prop where
  map : MapInv s.vmas
  holes : HolesMerged s.mmapHoles
  cover : ∀ p, InHole s.mmapHoles p ↔ InArena arch p ∧ ¬ Mapped s.vmas p
  areaCount : s.userAreaCount = s.vmas.sum userAreas
  pageCount : s.userPageCount = s.vmas.sum userPages

/-- The three structures agree but for a debt.  `pages` is what is mapped once it is paid. -/
structure Owing (arch : Arch) (s : VmaSet) (pages : ℕ → Prop) (lo hi : ℕ) (da dp : ℤ) : Prop where
  map : MapInv s.vmas
  holes : HolesMerged s.mmapHoles
  free : ∀ p, lo ≤ p → p < hi → ¬ Mapped s.vmas p
  total : ∀ p, pages p ↔ Mapped s.vmas p ∨ (lo ≤ p ∧ p < hi)
  cover : ∀ p, InHole s.mmapHoles p ↔ InArena arch p ∧ ¬ pages p
  areaCount : (s.userAreaCount : ℤ) = s.vmas.sum userAreas + da
  pageCount : (s.userPageCount : ℤ) = s.vmas.sum userPages + dp

variable {arch : Arch} {s : VmaSet} {pages : ℕ → Prop} {lo hi : ℕ} {da dp : ℤ}

/-! ## Single mappings -/

theorem adopt_sameShape (s : VmaSet) (a : Vma) : a.SameShape (s.adopt a) := by
  unfold adopt
  cases s.owner with
  | none => exact Vma.SameShape.refl
  | some owner => exact ⟨rfl, rfl, rfl, rfl, rfl⟩

variable {a b : Vma} {vmas : OrdMap ℕ Vma} {k : ℕ}

theorem userAreas_eq_of_perm (h : b.mapPerm = a.mapPerm) : userAreas b = userAreas a := by
  unfold userAreas vmIsUser
  rw [h]

theorem userPages_eq_of_sameShape (h : a.SameShape b) : userPages b = userPages a := by
  unfold userPages vmIsUser areaPageCount
  rw [h.mapPerm, h.vmStart, h.vmEnd]

theorem Fits_of_sameShape (h : a.SameShape b) (hfits : a.Fits) : b.Fits := by
  constructor
  · rw [h.vmEnd]
    exact hfits.vmEnd_le
  · intro hfile
    rw [h.mapFile] at hfile
    have hle := hfits.offset_le hfile
    unfold areaPageCount at hle ⊢
    rw [h.mapFileOffset, h.vmStart, h.vmEnd]
    exact hle

theorem MapInv.nonempty (h : MapInv vmas) (hk : vmas.get? k = some a) : a.vmStart < a.vmEnd := by
  rw [h.key k a hk]
  exact h.spaced.nonempty k a hk

theorem MapInv.erase (h : MapInv vmas) (k : ℕ) : MapInv (vmas.erase k) := by
  have hsub : ∀ k' a, (vmas.erase k).get? k' = some a → vmas.get? k' = some a := by
    simp [get?_erase]
  exact ⟨fun k' a hk' => h.key k' a (hsub k' a hk'), h.spaced.erase k,
    fun k' a hk' => h.fits k' a (hsub k' a hk')⟩

/-- A mapping may be stored where no page is mapped. -/
theorem MapInv.insert (h : MapInv vmas) (hlt : a.vmStart < a.vmEnd) (hfits : a.Fits)
    (hfree : ∀ p, a.vmStart ≤ p → p < a.vmEnd → ¬ Mapped vmas p) :
    MapInv (vmas.insert a.vmStart a) := by
  refine ⟨fun k b hk => ?_, h.spaced.insert hlt fun k b hk _ => ?_, fun k b hk => ?_⟩
  · grind [get?_insert, h.key]
  · exact h.spaced.clear_of_not_covers hlt hfree hk
  · grind [get?_insert, h.fits]

/-! ## Moving through a debt -/

theorem Owing.settle (h : Owing arch s pages lo hi da dp) (hle : hi ≤ lo) (hda : da = 0)
    (hdp : dp = 0) : Inv arch s ∧ ∀ p, Mapped s.vmas p ↔ pages p := by
  have hpages : ∀ p, Mapped s.vmas p ↔ pages p := by grind [h.total]
  refine ⟨⟨h.map, h.holes, fun p => ?_, ?_, ?_⟩, hpages⟩
  · rw [h.cover p, hpages p]
  · have := h.areaCount
    omega
  · have := h.pageCount
    omega

theorem Owing.congr {da' dp' : ℤ} (h : Owing arch s pages lo hi da dp) (hda : da' = da)
    (hdp : dp' = dp) : Owing arch s pages lo hi da' dp' := hda ▸ hdp ▸ h

theorem Inv.owing (h : Inv arch s) {p : ℕ} : Owing arch s (Mapped s.vmas) p p 0 0 := by
  refine ⟨h.map, h.holes, fun q h₁ h₂ => by omega, fun q => ?_, h.cover, ?_, ?_⟩
  · grind
  · rw [h.areaCount]
    omega
  · rw [h.pageCount]
    omega

/-- The set without one of its mappings. -/
def without (s : VmaSet) (k : ℕ) : VmaSet :=
  { s with vmas := s.vmas.erase k, fileRmaps := s.fileRmaps.erase k }

theorem takeVma_of_get? (h : s.vmas.get? k = some a) : s.takeVma k = (.ok a, s.without k) := by
  rw [takeVma, h]
  rfl

section

variable (h : Owing arch s pages lo hi da dp) {lo' hi' : ℕ}
include h

/-- **Taking a mapping** creates a debt of its pages, which joins the one that there is. -/
theorem Owing.take (hk : s.vmas.get? k = some a)
    (hjoin : ∀ p, (lo' ≤ p ∧ p < hi') ↔ (lo ≤ p ∧ p < hi) ∨ (a.vmStart ≤ p ∧ p < a.vmEnd)) :
    Owing arch (s.without k) pages lo' hi' (da + userAreas a) (dp + userPages a) := by
  have hkey : a.vmStart = k := h.map.key k a hk
  have hmapped : ∀ p, Mapped (s.without k).vmas p ↔
      Mapped s.vmas p ∧ ¬ (a.vmStart ≤ p ∧ p < a.vmEnd) := by
    intro p
    rw [Mapped, without, h.map.spaced.covers_erase hk, hkey]
    rfl
  have hin : ∀ p, a.vmStart ≤ p ∧ p < a.vmEnd → Mapped s.vmas p := fun p hp =>
    ⟨k, a, hk, by omega, hp.2⟩
  refine ⟨h.map.erase k, h.holes, fun p h₁ h₂ => ?_, fun p => ?_, h.cover, ?_, ?_⟩
  · grind [h.free]
  · rw [h.total p, hmapped p, hjoin p]
    constructor
    all_goals grind
  · grind [sum_erase, areaCount, without]
  · grind [sum_erase, pageCount, without]

/-- A debt that ends where the mapping begins is extended. -/
theorem Owing.takeVma (hk : s.vmas.get? k = some a) (hhi : hi = a.vmStart) (hlo : lo ≤ hi) :
    Owing arch (s.without k) pages lo a.vmEnd (da + userAreas a) (dp + userPages a) :=
  h.take hk fun p => by
    have hne := h.map.nonempty hk
    omega

/-- **Storing a mapping** inside the debt pays its pages and leaves the rest. -/
theorem Owing.store {u : VmaSet}
    (hu : u = { s with vmas := s.vmas.insert a.vmStart a, fileRmaps := u.fileRmaps })
    (hlt : a.vmStart < a.vmEnd) (hfits : a.Fits) (hsplit : ∀ p, (lo ≤ p ∧ p < hi) ↔
      (a.vmStart ≤ p ∧ p < a.vmEnd) ∨ (lo' ≤ p ∧ p < hi'))
    (hdisj : ∀ p, lo' ≤ p → p < hi' → ¬ (a.vmStart ≤ p ∧ p < a.vmEnd)) :
    Owing arch u pages lo' hi' (da - userAreas a) (dp - userPages a) := by
  have hfree : ∀ p, a.vmStart ≤ p → p < a.vmEnd → ¬ Mapped s.vmas p := fun p h₁ h₂ =>
    have hp := (hsplit p).mpr (.inl ⟨h₁, h₂⟩)
    h.free p hp.1 hp.2
  have hnone := h.map.spaced.get?_eq_none_of_not_covers (hfree _ le_rfl hlt)
  have hmapped : ∀ p, Mapped (s.vmas.insert a.vmStart a) p ↔
      (a.vmStart ≤ p ∧ p < a.vmEnd) ∨ Mapped s.vmas p := covers_insert hnone
  rw [hu]
  refine ⟨h.map.insert hlt hfits hfree, h.holes, fun p h₁ h₂ => ?_, fun p => ?_, h.cover, ?_, ?_⟩
  · grind [h.free]
  · rw [h.total p, hmapped p, hsplit p]
    constructor
    all_goals grind
  · grind [sum_insert, h.areaCount]
  · grind [sum_insert, h.pageCount]

theorem Owing.putVmaInside (hlt : a.vmStart < a.vmEnd) (hfits : a.Fits)
    (hsplit : ∀ p, (lo ≤ p ∧ p < hi) ↔ (a.vmStart ≤ p ∧ p < a.vmEnd) ∨ (lo' ≤ p ∧ p < hi'))
    (hdisj : ∀ p, lo' ≤ p → p < hi' → ¬ (a.vmStart ≤ p ∧ p < a.vmEnd)) :
    Owing arch (s.putVma a) pages lo' hi' (da - userAreas a) (dp - userPages a) := by
  have hshape := adopt_sameShape s a
  rw [← userAreas_eq_of_perm hshape.mapPerm, ← userPages_eq_of_sameShape hshape]
  rw [← hshape.vmStart, ← hshape.vmEnd] at hlt hsplit hdisj
  exact h.store rfl hlt (Fits_of_sameShape hshape hfits) hsplit hdisj

/-- The left end of the debt is paid. -/
theorem Owing.putVma (hstart : a.vmStart = lo)
    (hlt : a.vmStart < a.vmEnd) (hend : a.vmEnd ≤ hi) (hfits : a.Fits) :
    Owing arch (s.putVma a) pages a.vmEnd hi (da - userAreas a) (dp - userPages a) :=
  h.putVmaInside hlt hfits (fun p => by omega) fun p h₁ h₂ => by omega

/-- The right end of the debt is paid. -/
theorem Owing.putVmaRight (hend : a.vmEnd = hi)
    (hlt : a.vmStart < a.vmEnd) (hstart : lo ≤ a.vmStart) (hfits : a.Fits) :
    Owing arch (s.putVma a) pages lo a.vmStart (da - userAreas a) (dp - userPages a) :=
  h.putVmaInside hlt hfits (fun p => by omega) fun p h₁ h₂ => by omega

/-- **Changing a mapping in place** may extend it to the right, into the debt. -/
theorem Owing.updateVma
    (hk : s.vmas.get? k = some a) (hlo : lo = a.vmEnd) (hstart : b.vmStart = a.vmStart)
    (hle : a.vmEnd ≤ b.vmEnd) (hhi : b.vmEnd ≤ hi) (hfits : b.Fits) :
    Owing arch (s.updateVma k b) pages b.vmEnd hi (da + userAreas a - userAreas b)
      (dp + userPages a - userPages b) := by
  have hkey : a.vmStart = k := h.map.key k a hk
  have hne : a.vmStart < a.vmEnd := h.map.nonempty hk
  have hu : s.updateVma k b = { s.without k with
      vmas := (s.without k).vmas.insert b.vmStart b, fileRmaps := s.fileRmaps } := by
    rw [hstart, hkey, without, insert_erase_self]
    rfl
  have howe : Owing arch _ pages a.vmStart hi _ _ := h.take hk fun p => by omega
  exact howe.store hu (by omega) hfits (fun p => by omega) fun p h₁ h₂ => by omega

end

/-- **Reserving** a range without mappings creates a debt of its pages. -/
theorem Inv.reserve (h : Inv arch s) (hfree : ∀ p, lo ≤ p → p < hi → ¬ Mapped s.vmas p) :
    Owing arch (s.reserveMmapRange arch lo hi)
      (fun p => Mapped s.vmas p ∨ (lo ≤ p ∧ p < hi)) lo hi 0 0 := by
  obtain ⟨hm, hcov⟩ := reserveMmapRange_spec h.holes
  obtain ⟨holes, heq⟩ := reserveMmapRange_eq
  rw [heq] at hm hcov ⊢
  refine ⟨h.map, hm, hfree, fun p => Iff.rfl, fun p => ?_, ?_, ?_⟩
  · rw [hcov p, h.cover p]
    constructor
    all_goals grind
  · simp [h.areaCount]
  · simp [h.pageCount]

/-- **Releasing** the owed range settles it. -/
theorem Owing.release (h : Owing arch s pages lo hi 0 0) :
    Inv arch (s.releaseMmapRange arch lo hi) ∧
      ∀ p, Mapped (s.releaseMmapRange arch lo hi).vmas p ↔ pages p ∧ ¬ (lo ≤ p ∧ p < hi) := by
  obtain ⟨hm, hcov⟩ := releaseMmapRange_spec h.holes
  obtain ⟨holes, heq⟩ := releaseMmapRange_eq
  rw [heq] at hm hcov ⊢
  have hmapped : ∀ p, Mapped s.vmas p ↔ pages p ∧ ¬ (lo ≤ p ∧ p < hi) := by grind [h.total, h.free]
  refine ⟨⟨h.map, hm, fun p => ?_, ?_, ?_⟩, hmapped⟩
  · rw [hcov p, h.cover p, hmapped p]
    constructor
    all_goals grind
  · have := h.areaCount
    show s.userAreaCount = _
    dsimp only
    omega
  · have := h.pageCount
    show s.userPageCount = _
    dsimp only
    omega

/-- **Untracking** a mapping that was taken out settles the counters. -/
theorem Owing.untrackArea (h : Owing arch s pages lo hi (userAreas a) (userPages a)) :
    Owing arch (s.untrackArea a) pages lo hi 0 0 := by
  have harea := h.areaCount
  have hpage := h.pageCount
  unfold VmaSet.untrackArea
  split_ifs with huser
  · have hareas : userAreas a = 1 := if_pos huser
    have hpages : userPages a = a.areaPageCount := if_pos huser
    refine { h with areaCount := ?_, pageCount := ?_ } <;> dsimp only
    all_goals omega
  · grind [userAreas, userPages]

theorem Owing.addCounts (h : Owing arch s pages lo hi da dp) (areas newPages : ℕ) :
    Owing arch { s with
      userAreaCount := s.userAreaCount + areas
      userPageCount := s.userPageCount + newPages } pages lo hi (da + areas) (dp + newPages) := by
  have harea := h.areaCount
  have hpage := h.pageCount
  refine { h with areaCount := ?_, pageCount := ?_ } <;> dsimp only
  all_goals omega

theorem Owing.countSplit (h : Owing arch s pages lo hi da dp) (isUser : Bool) (pieces : ℕ) :
    Owing arch (s.countSplit isUser pieces) pages lo hi
      (da + if isUser then (pieces : ℤ) else 0) dp := by
  have hadd := h.addCounts pieces 0
  grind [VmaSet.countSplit]

/-! ## Looking at the mappings -/

theorem Inv.new (arch : Arch) : Inv arch (VmaSet.new arch) := by
  have hlt : arch.mmapBounds.1 < arch.mmapBounds.2 := arch.mmapBase_lt
  refine ⟨⟨fun k a h => absurd h (by simp [VmaSet.new]), spaced_empty,
    fun k a h => absurd h (by simp [VmaSet.new])⟩, ?_, fun p => ?_, rfl, rfl⟩
  · exact spaced_empty.insert hlt fun k e hk => absurd hk (by simp)
  · have hcov := @covers_insert ℕ id _ _ arch.mmapBounds.2 (get?_empty arch.mmapBounds.1) p
    constructor
    · intro hp
      rcases hcov.mp hp with hp | hp
      · exact ⟨hp, not_covers_empty⟩
      · exact absurd hp not_covers_empty
    · rintro ⟨hp, -⟩
      exact hcov.mpr (.inl hp)

/-- `has_overlap` finds out whether a page of the range is mapped. -/
theorem hasOverlap_eq_false (h : MapInv s.vmas) {startVpn endVpn : ℕ} (hlt : startVpn < endVpn)
    (hover : s.hasOverlap startVpn endVpn = false) (p : ℕ) (h₁ : startVpn ≤ p) (h₂ : p < endVpn) :
    ¬ Mapped s.vmas p := by
  intro hp
  unfold hasOverlap at hover
  rw [if_neg (by omega), Bool.or_eq_false_iff] at hover
  obtain ⟨hprev, hnext⟩ := hover
  rcases (h.spaced.exists_covers_iff_neighbours hlt).mp ⟨p, h₁, h₂, hp⟩ with
    ⟨k, a, hk, hlt'⟩ | ⟨k, a, hk, hlt'⟩
  · rw [hk] at hprev
    simp at hprev
    omega
  · grind [h.key, firstGE?_eq_some_iff]

/-- `find_user_vma_key` finds a user mapping of the page. -/
theorem findUserVmaKey_eq_some {vpn : ℕ} (h : s.findUserVmaKey vpn = some k) :
    ∃ a, s.vmas.get? k = some a ∧ a.vmIsUser = true ∧ a.vmStart ≤ vpn ∧ vpn < a.vmEnd := by
  unfold findUserVmaKey findVmaKey at h
  cases hlast : s.vmas.lastLE? vpn with
  | none =>
    rw [hlast] at h
    cases h
  | some e =>
    have hget := (lastLE?_eq_some_iff).mp hlast
    rw [hlast] at h
    grind [vmContains]
end MangoCore.Mm.VmaSet
