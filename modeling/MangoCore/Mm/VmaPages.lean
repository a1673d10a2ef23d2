import MangoCore.Mm.VmaSetInvariant

/-!
# The pages of a set of mappings

Which mapping a page belongs to is a matter of bookkeeping: mappings are split and moved between
records all the time.  What a process can notice of a page is what its mapping says about it, and
that is its `PageView`: permissions, flags, the place in the backing file, the marks that fork looks
at, and the frame behind it.  `pageAt` reads the set of mappings as a partial function from pages to
views.

In these terms a split is invisible (`Split.pages`), and a round of `unmap_range` removes the pages
of one mapping in its range and does nothing else (`unmapStep_cases`).
-/

namespace MangoCore.Mm.VmaSet

open IntervalMap Option OrdMap Vma

/-- The view of a page, if it is mapped. -/
def pageAt (vmas : OrdMap ℕ Vma) (p : ℕ) : Option PageView :=
  (valueAt vmEnd vmas p).map fun a => a.pageView p

variable {arch : Arch} {s t : VmaSet} {maxMapCount k : ℕ} {a b : Vma}

/-! ## Storing and taking mappings -/

@[simp] theorem pageView_adopt {p : ℕ} : (s.adopt a).pageView p = a.pageView p := by
  unfold adopt
  cases s.owner <;> rfl

section

variable (h : MapInv s.vmas) {p : ℕ}
include h

/-- A page of a user mapping leads to the mapping. -/
theorem findUserVmaKey_of_get? (hk : s.vmas.get? k = some a) (huser : a.vmIsUser = true)
    (hp : a.vmStart ≤ p ∧ p < a.vmEnd) : s.findUserVmaKey p = some k := by
  have hkey := h.key k a hk
  obtain ⟨k', a', hlast, hlt⟩ :=
    h.spaced.covers_iff_lastLE?.mp ⟨k, a, hk, by omega, hp.2⟩
  obtain ⟨hget, hle, -⟩ := lastLE?_eq_some_iff.mp hlast
  obtain rfl := h.spaced.eq_of_common hk hget ⟨by omega, hp.2⟩ ⟨hle, hlt⟩
  cases hk.symm.trans hget
  have hin : a.vmContains p = true := by
    rw [vmContains, Bool.and_eq_true, decide_eq_true_eq, decide_eq_true_eq]
    exact hp
  unfold findUserVmaKey findVmaKey
  simp [hlast, hin, hk, huser]

theorem pageAt_of_get? (hk : s.vmas.get? k = some a)
    (hp : a.vmStart ≤ p ∧ p < a.vmEnd) : pageAt s.vmas p = some (a.pageView p) := by
  grind [h.key, pageAt, h.spaced.valueAt_eq_some_iff]

/-- A mapped page lies in a mapping, and a page of the user in a mapping that a fault finds. -/
theorem exists_of_pageAt {v : PageView} (hp : pageAt s.vmas p = some v) : ∃ k a,
    s.vmas.get? k = some a ∧ (a.vmStart ≤ p ∧ p < a.vmEnd) ∧ a.pageView p = v ∧
      (v.mapPerm.contains .U = true → s.findUserVmaKey p = some k) := by
  obtain ⟨a, ha, rfl⟩ := map_eq_some_iff.mp hp
  obtain ⟨k, hk, hle, hlt⟩ := h.spaced.valueAt_eq_some_iff.mp ha
  refine ⟨k, a, hk, ⟨h.key k a hk ▸ hle, hlt⟩, rfl, fun huser => ?_⟩
  exact findUserVmaKey_of_get? h hk huser ⟨h.key k a hk ▸ hle, hlt⟩

theorem pageAt_eq_none_iff : pageAt s.vmas p = none ↔ ¬ Mapped s.vmas p := by
  rw [pageAt, map_eq_none_iff, h.spaced.valueAt_eq_none_iff]
  rfl

theorem pageAt_erase (hk : s.vmas.get? k = some a) (p : ℕ) : pageAt (s.vmas.erase k) p =
      if a.vmStart ≤ p ∧ p < a.vmEnd then none else pageAt s.vmas p := by
  rw [pageAt, h.spaced.valueAt_erase hk, h.key k a hk]
  split_ifs
  · rfl
  · rfl

/-- A mapping may be stored where no page is mapped. -/
theorem MapInv.putVma (hlt : a.vmStart < a.vmEnd) (hfits : a.Fits)
    (hfree : ∀ p, a.vmStart ≤ p → p < a.vmEnd → pageAt s.vmas p = none) :
    MapInv (s.putVma a).vmas ∧ ∀ p, pageAt (s.putVma a).vmas p =
      if a.vmStart ≤ p ∧ p < a.vmEnd then some (a.pageView p) else pageAt s.vmas p := by
  have hshape := adopt_sameShape s a
  have hlt' : (s.adopt a).vmStart < (s.adopt a).vmEnd := by
    rw [hshape.vmStart, hshape.vmEnd]
    exact hlt
  have hfree' : ∀ p, (s.adopt a).vmStart ≤ p → p < (s.adopt a).vmEnd → ¬ Mapped s.vmas p := by
    grind [hshape.vmStart, hshape.vmEnd, pageAt_eq_none_iff]
  refine ⟨h.insert hlt' (Fits_of_sameShape hshape hfits) hfree', fun p => ?_⟩
  show (valueAt vmEnd (s.vmas.insert (s.adopt a).vmStart (s.adopt a)) p).map _ = _
  rw [h.spaced.valueAt_insert hlt' hfree', hshape.vmStart, hshape.vmEnd]
  split_ifs
  · rw [map_some, pageView_adopt]
  · rfl

/-- A mapping is changed where it is stored, without moving its ends. -/
theorem MapInv.updateVma (hk : s.vmas.get? k = some a)
    (hstart : b.vmStart = a.vmStart) (hend : b.vmEnd = a.vmEnd) (hfits : b.Fits) :
    MapInv (s.updateVma k b).vmas ∧ ∀ p, pageAt (s.updateVma k b).vmas p =
      if a.vmStart ≤ p ∧ p < a.vmEnd then some (b.pageView p) else pageAt s.vmas p := by
  have hkey := h.key k a hk
  have hne := h.nonempty hk
  have herase := h.erase k
  have hvmas : (s.updateVma k b).vmas = (s.vmas.erase k).insert k b :=
    insert_erase_self.symm
  have hfree : ∀ p, b.vmStart ≤ p → p < b.vmEnd → ¬ Mapped (s.vmas.erase k) p := by
    intro p h₁ h₂
    have hview := pageAt_erase h hk p
    rw [if_pos (by omega)] at hview
    exact (pageAt_eq_none_iff (s := s.without k) herase).mp hview
  have hbk : b.vmStart = k := by omega
  have hins := herase.insert (by omega) hfits hfree
  rw [hbk] at hins hfree
  rw [hvmas]
  refine ⟨hins, fun p => ?_⟩
  rw [pageAt, herase.spaced.valueAt_insert (by omega) hfree, ← hkey, hend]
  by_cases hp : a.vmStart ≤ p ∧ p < a.vmEnd
  · rw [if_pos hp, if_pos hp, map_some]
  · have hview := pageAt_erase h hk p
    rw [if_neg hp] at hview
    rw [if_neg hp, if_neg hp, ← hview, hkey]
    rfl

end

/-! ## Splitting -/

theorem get?_putVma :
    (s.putVma a).vmas.get? k = if k = a.vmStart then some (s.adopt a) else s.vmas.get? k := by
  rw [putVma]
  rw [get?_insert, (adopt_sameShape s a).vmStart]

@[simp] theorem countSplit_vmas {isUser : Bool} {pieces : ℕ} :
    (s.countSplit isUser pieces).vmas = s.vmas := by
  unfold countSplit
  split_ifs <;> rfl

theorem userPages_eq_of_perm (h : b.mapPerm = a.mapPerm) :
    userPages b = if a.vmIsUser then b.areaPageCount else 0 := by
  unfold userPages vmIsUser
  rw [h]

/-- The parts of a mapping are stored. -/
def putAll (s : VmaSet) (parts : List Vma) : VmaSet := parts.foldl putVma s

/-- A split that was made: `area` is replaced by its parts, and one of them is the range. -/
structure Split (s : VmaSet) (k startVpn endVpn : ℕ) (area target : Vma) (left right : List Vma)
    (s' : VmaSet) : Prop where
  get : s.vmas.get? k = some area
  parts : area.Parts area.vmStart (left ++ target :: right) area.vmEnd
  start : target.vmStart = startVpn
  stop : target.vmEnd = endVpn
  length : left.length + right.length = splitAdditional area startVpn endVpn
  eq : s' = (putAll (s.without k) (left ++ target :: right)).countSplit area.vmIsUser
    (left.length + right.length)

theorem ensureCanAdd_eq_ok {additional : ℕ} : s.ensureCanAdd maxMapCount additional = .ok () ↔
      s.userAreaCount + additional ≤ maxMapCount + 1 := by
  unfold ensureCanAdd
  simp

/-- **`split_for_range`.**  It is refused and changes nothing, or the mapping is replaced by its
parts.  No cut inside a mapping that fits its file can fail, so the branches that would drop pages
are not taken. -/
theorem splitForRange_cases (h : MapInv s.vmas) (maxMapCount k startVpn endVpn : ℕ) :
    (∃ e, s.splitForRange maxMapCount k startVpn endVpn = (.error e, s) ∧
        ((e = .EINVAL ∧ ∀ area, s.vmas.get? k = some area →
            ¬ (area.vmStart ≤ startVpn ∧ endVpn ≤ area.vmEnd ∧ startVpn < endVpn)) ∨
          (e = .ENOMEM ∧ ∀ area, s.vmas.get? k = some area →
            maxMapCount + 1 < s.userAreaCount + splitAdditional area startVpn endVpn))) ∨
      ∃ area target left right s', Split s k startVpn endVpn area target left right s' ∧
        s.userAreaCount + splitAdditional area startVpn endVpn ≤ maxMapCount + 1 ∧
        s.splitForRange maxMapCount k startVpn endVpn = (.ok target.vmStart, s') := by
  unfold splitForRange
  cases hk : s.vmas.get? k with
  | none => exact .inl ⟨_, rfl, .inl ⟨rfl, nofun⟩⟩
  | some area =>
    dsimp only
    split_ifs with hbad
    · refine .inl ⟨_, rfl, .inl ⟨rfl, fun a ha => ?_⟩⟩
      rw [← some.inj ha]
      simp at hbad
      omega
    have hrange : area.vmStart ≤ startVpn ∧ endVpn ≤ area.vmEnd ∧ startVpn < endVpn := by
      simp at hbad
      omega
    have hfits := h.fits k area hk
    by_cases hroom : s.userAreaCount + splitAdditional area startVpn endVpn ≤ maxMapCount + 1
    · rw [ensureCanAdd_eq_ok.mpr hroom, takeVma_of_get? hk]
      dsimp only
      refine .inr ?_
      split_ifs with hwhole hleft hright
      · -- the whole mapping
        have hpart : area.IsPart area := ⟨by omega, hfits, fun _ _ _ => rfl⟩
        refine ⟨area, area, [], [], _, ⟨hk, .cons rfl hpart .nil, by omega, by omega, ?_, rfl⟩,
          hroom, ?_⟩
        · simp [splitAdditional, hwhole]
        · cases area.vmIsUser <;> rfl
      · -- a left part
        obtain ⟨first, second, htwo, h₁s, h₁e, hp₁, h₂s, h₂e, hp₂⟩ :=
          exists_intoTwo_of_lt hfits endVpn (by omega) (by omega)
        rw [htwo]
        refine ⟨area, first, [], [second], _, ⟨hk, ?_, by omega, h₁e, ?_, rfl⟩, hroom, rfl⟩
        · exact .cons h₁s hp₁ (.cons (by omega) hp₂ (h₂e ▸ .nil))
        · rw [splitAdditional, if_neg hwhole, if_pos (.inl hleft)]
          rfl
      · -- a right part
        obtain ⟨first, second, htwo, h₁s, h₁e, hp₁, h₂s, h₂e, hp₂⟩ :=
          exists_intoTwo_of_lt hfits startVpn (by omega) (by omega)
        rw [htwo]
        refine ⟨area, second, [first], [], _, ⟨hk, ?_, h₂s, by omega, ?_, rfl⟩, hroom, rfl⟩
        · exact .cons h₁s hp₁ (.cons (by omega) hp₂ (h₂e ▸ .nil))
        · simp [splitAdditional, hleft, hright]
      · -- a part in the middle
        obtain ⟨first, second, third, hthree, ⟨h₁s, h₁e, hp₁⟩, ⟨h₂s, h₂e, hp₂⟩, h₃s, h₃e, hp₃⟩ :=
          exists_intoThree_of_lt hfits startVpn endVpn (by omega) (by omega) (by omega)
        rw [hthree]
        refine ⟨area, second, [first], [third], _, ⟨hk, ?_, h₂s, h₂e, ?_, rfl⟩, hroom, rfl⟩
        · exact .cons h₁s hp₁ (.cons (by omega) hp₂ (.cons (by omega) hp₃ (h₃e ▸ .nil)))
        · simp [splitAdditional, hleft, hright]
    · rw [ensureCanAdd, if_pos (Nat.lt_of_not_le hroom)]
      refine .inl ⟨_, rfl, .inr ⟨rfl, fun a ha => ?_⟩⟩
      rw [← some.inj ha]
      exact Nat.lt_of_not_le hroom

variable {l : List Vma} {lo mid hi p : ℕ}

/-- **The parts of a mapping pay its debt.** -/
theorem Owing.putAll {pages : ℕ → Prop} (hparts : a.Parts lo l mid) (hle : mid ≤ hi) :
    ∀ {s : VmaSet} {da dp : ℤ}, Owing arch s pages lo hi da dp →
      Owing arch (s.putAll l) pages mid hi (da - if a.vmIsUser then (l.length : ℤ) else 0)
        (dp - if a.vmIsUser then ((mid : ℤ) - lo) else 0) := by
  induction hparts with
  | nil =>
    intro s da dp h
    simpa [VmaSet.putAll] using h
  | @cons lo b l mid hstart hpart hrest ih =>
    intro s da dp h
    have hmid := hrest.le
    have hne := hpart.nonempty
    have hpay := ih hle (h.putVma hstart hne (hmid.trans hle) hpart.fits)
    have hcount : (b.areaPageCount : ℤ) = b.vmEnd - lo := by
      unfold areaPageCount
      omega
    rw [userAreas_eq_of_perm hpart.mapPerm, userPages_eq_of_perm hpart.mapPerm, userAreas] at hpay
    refine hpay.congr ?_ ?_ <;> cases a.vmIsUser <;> simp
    all_goals omega

/-- A part that is stored is not touched by the later ones. -/
theorem get?_putAll (hparts : a.Parts lo l hi) (hk : k < lo) :
    ∀ s : VmaSet, (s.putAll l).vmas.get? k = s.vmas.get? k := by
  induction hparts with
  | nil => exact fun _ => rfl
  | cons hstart hpart _ ih =>
    intro s
    have hne := hpart.nonempty
    refine (ih (by omega) _).trans ?_
    rw [get?_putVma, if_neg (by omega)]

@[simp] theorem putAll_userAreaCount (l : List Vma) :
    ∀ s : VmaSet, (s.putAll l).userAreaCount = s.userAreaCount := by
  induction l with
  | nil => exact fun _ => rfl
  | cons a l ih => exact fun s => ih (s.putVma a)

/-! ### The pages -/

/-- The mappings are the same but for the pages `[lo, hi)`, which are not mapped yet. -/
structure Missing (s t : VmaSet) (lo hi : ℕ) : Prop where
  map : MapInv t.vmas
  pages : ∀ p, pageAt t.vmas p = if lo ≤ p ∧ p < hi then none else pageAt s.vmas p

theorem Missing.take (h : MapInv s.vmas) (hk : s.vmas.get? k = some a) :
    Missing s (s.without k) a.vmStart a.vmEnd :=
  ⟨h.erase k, fun p => pageAt_erase h hk p⟩

/-- The first of the missing pages are stored again, as they were. -/
theorem Missing.put (h : Missing s t lo hi)
    (hstart : b.vmStart = lo) (hlt : b.vmStart < b.vmEnd) (hend : b.vmEnd ≤ hi) (hfits : b.Fits)
    (hview : ∀ p, b.vmStart ≤ p → p < b.vmEnd → pageAt s.vmas p = some (b.pageView p)) :
    Missing s (t.putVma b) b.vmEnd hi := by
  obtain ⟨hmap, hpages⟩ := h.map.putVma hlt hfits fun p h₁ h₂ => by
    rw [h.pages p, if_pos (by omega)]
  refine ⟨hmap, fun p => ?_⟩
  rw [hpages p, h.pages p]
  by_cases hin : b.vmStart ≤ p ∧ p < b.vmEnd
  · rw [if_pos hin, if_neg (by omega), hview p hin.1 hin.2]
  · grind

/-- The parts of a mapping are stored in its place. -/
theorem Missing.putAll (hparts : a.Parts lo l mid) (hle : mid ≤ hi)
    (hpage : ∀ p, lo ≤ p → p < hi → pageAt s.vmas p = some (a.pageView p)) :
    ∀ {t : VmaSet}, Missing s t lo hi → Missing s (t.putAll l) mid hi := by
  induction hparts with
  | nil => exact fun h => h
  | cons hstart hpart hrest ih =>
    intro t h
    have hmid := hrest.le
    have hne := hpart.nonempty
    refine ih hle (fun p h₁ h₂ => hpage p (by omega) h₂)
      (h.put hstart hne (hmid.trans hle) hpart.fits fun p h₁ h₂ => ?_)
    rw [hpart.view p h₁ h₂]
    exact hpage p (by omega) (by omega)

namespace Split

variable {startVpn endVpn : ℕ} {area target : Vma} {left right : List Vma} {s' : VmaSet}
  (hs : Split s k startVpn endVpn area target left right s')
include hs

/-- The range is a mapping of its own. -/
theorem stored : ∃ stored, s'.vmas.get? target.vmStart = some stored ∧ target.SameShape stored := by
  obtain ⟨hpart, hright⟩ := hs.parts.split
  refine ⟨_, ?_, adopt_sameShape ((s.without k).putAll left) target⟩
  rw [hs.eq, countSplit_vmas, VmaSet.putAll, List.foldl_append, List.foldl_cons]
  refine (get?_putAll hright hpart.nonempty _).trans ?_
  rw [get?_putVma, if_pos rfl]
  rfl

theorem inv (h : Inv arch s) : Inv arch s' := by
  have hne := h.map.nonempty hs.get
  have hpay := (Owing.putAll hs.parts le_rfl (h.owing.takeVma hs.get rfl
    le_rfl)).countSplit area.vmIsUser (left.length + right.length)
  rw [hs.eq]
  refine (hpay.settle le_rfl ?_ ?_).1
  · unfold userAreas
    cases area.vmIsUser <;> simp
    omega
  · unfold userPages areaPageCount
    cases area.vmIsUser <;> simp
    omega

/-- **A split is invisible.** -/
theorem pages (h : MapInv s.vmas) : MapInv s'.vmas ∧ ∀ p, pageAt s'.vmas p = pageAt s.vmas p := by
  have hput := (Missing.take h hs.get).putAll hs.parts le_rfl fun p h₁ h₂ =>
    pageAt_of_get? h hs.get ⟨h₁, h₂⟩
  rw [hs.eq, countSplit_vmas]
  refine ⟨hput.map, fun p => ?_⟩
  rw [hput.pages p, if_neg (by omega)]

theorem count : s'.userAreaCount =
    s.userAreaCount + if area.vmIsUser then splitAdditional area startVpn endVpn else 0 := by
  rw [hs.eq, ← hs.length, countSplit]
  split_ifs
  · exact congrArg (· + _) (putAll_userAreaCount ..)
  · exact putAll_userAreaCount ..

end Split

/-! ## Unmapping -/

@[simp] theorem untrackArea_vmas : (s.untrackArea a).vmas = s.vmas := by
  unfold untrackArea
  split_ifs <;> rfl

@[simp] theorem releaseMmapRange_vmas {startVpn endVpn : ℕ} :
    (s.releaseMmapRange arch startVpn endVpn).vmas = s.vmas := by
  unfold releaseMmapRange
  split <;> rfl

/-- A range without an overlapping mapping has no mapped page. -/
theorem firstOverlapKey_eq_none (h : MapInv s.vmas) {startVpn endVpn : ℕ}
    (hnone : s.firstOverlapKey startVpn endVpn = none) (hp : startVpn ≤ p ∧ p < endVpn) :
    pageAt s.vmas p = none := by
  rw [pageAt_eq_none_iff h]
  rintro ⟨k, a, hk, hkp, hpa⟩
  have hkey := h.key k a hk
  have hover : a.vmOverlaps startVpn endVpn = true := by grind [vmOverlaps]
  -- the search behind the start finds any mapping that begins there
  have hafter : (s.vmas.entries.find? fun e =>
      startVpn ≤ e.1 && e.2.vmOverlaps startVpn endVpn) = none → k < startVpn := by
    intro hfind
    by_contra hge
    have hnot := List.find?_eq_none.mp hfind (k, a) (mem_entries_iff.mpr hk)
    exact hnot (by simp [hover]; omega)
  unfold firstOverlapKey at hnone
  cases hlast : s.vmas.lastLE? startVpn with
  | none => grind [map_eq_none_iff, lastLE?_eq_none_iff]
  | some e =>
    rw [hlast] at hnone
    dsimp only at hnone
    split_ifs at hnone
    have hlt := hafter (map_eq_none_iff.mp hnone)
    obtain ⟨hget, hle, hmax⟩ := (lastLE?_eq_some_iff).mp hlast
    have hke := hmax k a hk (by omega)
    have heq : k = e.1 := by
      by_contra hne
      have hapart := h.spaced.apart k a e.1 e.2 hk hget (by omega)
      omega
    grind

/-- The mapping that a round of `unmap_range` looks at is the first one that meets the range. -/
theorem firstOverlapKey_eq_some (h : MapInv s.vmas)
    (hsome : s.firstOverlapKey startVpn endVpn = some k) :
    ∃ a, s.vmas.get? k = some a ∧ a.vmStart < endVpn ∧ startVpn < a.vmEnd ∧
      ∀ p, startVpn ≤ p → p < endVpn → Mapped s.vmas p → a.vmStart ≤ p := by
  unfold firstOverlapKey at hsome
  have hover : ∀ b : Vma, b.vmOverlaps startVpn endVpn = true ↔
      startVpn < b.vmEnd ∧ b.vmStart < endVpn := fun b => by
    rw [vmOverlaps, Bool.and_eq_true, decide_eq_true_eq, decide_eq_true_eq]
  -- a mapping with a page of the range either begins before the range or is found by the search
  have hafter : (∀ j b, s.vmas.get? j = some b → j < startVpn → b.vmEnd ≤ startVpn) →
      ∀ e, (s.vmas.entries.find? fun e =>
          startVpn ≤ e.1 && e.2.vmOverlaps startVpn endVpn) = some e →
      ∃ a, s.vmas.get? e.1 = some a ∧ a.vmStart < endVpn ∧ startVpn < a.vmEnd ∧
        ∀ p, startVpn ≤ p → p < endVpn → Mapped s.vmas p → a.vmStart ≤ p := by
    intro hbefore e hfind
    obtain ⟨hget, htest, hmin⟩ := find?_entries hfind
    rw [Bool.and_eq_true, hover] at htest
    refine ⟨e.2, hget, htest.2.2, htest.2.1, ?_⟩
    rintro p h₁ h₂ ⟨j, b, hj, hjp, hpb⟩
    rw [h.key _ _ hget]
    rcases lt_or_ge j startVpn with hlt | hge
    · have hle := hbefore j b hj hlt
      omega
    · grind [h.key]
  cases hlast : s.vmas.lastLE? startVpn with
  | none => grind [map_eq_some_iff, lastLE?_eq_none_iff]
  | some e =>
    rw [hlast] at hsome
    dsimp only at hsome
    obtain ⟨hget, hle, hmax⟩ := (lastLE?_eq_some_iff).mp hlast
    have hkey := h.key _ _ hget
    split_ifs at hsome
    · grind
    · obtain ⟨e', hfind, rfl⟩ := map_eq_some_iff.mp hsome
      refine hafter (fun j b hj hlt => ?_) e' hfind
      have hje := hmax j b hj hlt.le
      rcases Nat.eq_or_lt_of_le hje with rfl | hjlt
      · rw [hget] at hj
        rw [← some.inj hj]
        -- the range is not empty, so a mapping before it that reached it would overlap it
        obtain ⟨hget', htest', -⟩ := find?_entries hfind
        grind [h.key]
      · have hapart := h.spaced.apart j b e.1 e.2 hj hget hjlt
        omega

@[simp] theorem reserveMmapRange_vmas {startVpn endVpn : ℕ} :
    (s.reserveMmapRange arch startVpn endVpn).vmas = s.vmas := by
  grind [reserveMmapRange]

/-- A mapping is taken out for good and its pages go back to the holes. -/
def dropArea (arch : Arch) (s : VmaSet) (a : Vma) : VmaSet :=
  ((s.without a.vmStart).untrackArea a).releaseMmapRange arch a.vmStart a.vmEnd

theorem Inv.drop (h : Inv arch s) (hk : s.vmas.get? a.vmStart = some a) :
    Inv arch (s.dropArea arch a) := by
  have howe := h.owing.takeVma hk rfl le_rfl
  rw [zero_add, zero_add] at howe
  exact howe.untrackArea.release.1

theorem pageAt_dropArea (h : MapInv s.vmas) (hk : s.vmas.get? a.vmStart = some a) :
    pageAt (s.dropArea arch a).vmas p =
      if a.vmStart ≤ p ∧ p < a.vmEnd then none else pageAt s.vmas p := by
  rw [dropArea, releaseMmapRange_vmas, untrackArea_vmas]
  exact pageAt_erase h hk p

/-- The limit of user mappings has room for the one that is dropped. -/
theorem Inv.userAreaCount_drop (h : Inv arch s) (hk : s.vmas.get? a.vmStart = some a)
    (huser : a.vmIsUser = true) : (s.dropArea arch a).userAreaCount + 1 = s.userAreaCount := by
  have hpositive : 0 < s.userAreaCount := by
    rw [h.areaCount, sum_erase userAreas hk, userAreas, if_pos huser]
    omega
  obtain ⟨holes, heq⟩ := releaseMmapRange_eq
  rw [dropArea, heq, untrackArea, if_pos huser]
  exact Nat.sub_add_cancel hpositive

section Mapper

variable {M : Type} [UserMapper M] {startVpn endVpn : ℕ}

/-- The part of a mapping inside a range. -/
def overlapStart (a : Vma) (startVpn : ℕ) : ℕ :=
  if a.vmStart < startVpn then startVpn else a.vmStart

def overlapEnd (a : Vma) (endVpn : ℕ) : ℕ := if endVpn < a.vmEnd then endVpn else a.vmEnd

theorem overlap_bounds (hne : a.vmStart < a.vmEnd)
    (hover : a.vmStart < endVpn ∧ startVpn < a.vmEnd) (hrange : startVpn < endVpn) :
    a.vmStart ≤ overlapStart a startVpn ∧ overlapEnd a endVpn ≤ a.vmEnd ∧
      overlapStart a startVpn < overlapEnd a endVpn := by
  unfold overlapStart overlapEnd
  split_ifs <;> omega

/-- How many mappings a round adds before it takes one away. -/
def roundCost (a : Vma) (startVpn endVpn : ℕ) : ℕ :=
  splitAdditional a (overlapStart a startVpn) (overlapEnd a endVpn)

/-- **A round of `unmap_range`.**  It is refused and nothing has changed, because the mapping is not
one of the user or the limit is reached.  Otherwise the part of the mapping inside the range is
gone. -/
theorem unmapStep_cases (h : Inv arch s) (mapper : M) (maxMapCount k startVpn endVpn : ℕ) :
    (∃ e, s.unmapStep arch maxMapCount mapper k startVpn endVpn = (.error e, s, mapper) ∧
      ∀ a, s.vmas.get? k = some a → (a.vmStart < endVpn ∧ startVpn < a.vmEnd) → startVpn < endVpn →
        a.vmIsUser = false ∨ maxMapCount + 1 < s.userAreaCount + roundCost a startVpn endVpn) ∨
    ∃ a s' mapper', s.vmas.get? k = some a ∧ a.vmIsUser = true ∧
      s.unmapStep arch maxMapCount mapper k startVpn endVpn = (.ok (), s', mapper') ∧
      overlapStart a startVpn < overlapEnd a endVpn ∧ Inv arch s' ∧ s'.userAreaCount ≤ maxMapCount ∧
      ∀ p, pageAt s'.vmas p = if overlapStart a startVpn ≤ p ∧ p < overlapEnd a endVpn then none
        else pageAt s.vmas p := by
  cases hk : s.vmas.get? k with
  | none => exact .inl ⟨.EINVAL, by rw [unmapStep, hk], by simp⟩
  | some area =>
    cases huser : area.vmIsUser with
    | false =>
      refine .inl ⟨.EINVAL, by simp [unmapStep, hk, huser], fun a ha _ _ => .inl ?_⟩
      rw [← some.inj ha]
      exact huser
    | true =>
      rcases splitForRange_cases h.map maxMapCount k (overlapStart area startVpn)
        (overlapEnd area endVpn) with ⟨e, hsplit, hreason⟩ |
        ⟨area', target, left, right, s', hs, hroom, hsplit⟩
      · refine .inl ⟨e, ?_, fun a ha hover hrange => .inr ?_⟩
        · simp only [overlapStart, overlapEnd] at hsplit
          simp [unmapStep, hk, huser, hsplit]
        · cases ha
          rcases hreason with ⟨-, hbad⟩ | ⟨-, hfull⟩
          · exact absurd (overlap_bounds (h.map.nonempty hk) hover hrange) (hbad area hk)
          · exact hfull area hk
      · cases hk.symm.trans hs.get
        obtain ⟨stored, htarget, hshape⟩ := hs.stored
        obtain ⟨hmap, hpages⟩ := hs.pages h.map
        have hinv := hs.inv h
        have hstart : stored.vmStart = overlapStart area startVpn := hshape.vmStart.trans hs.start
        have hend : stored.vmEnd = overlapEnd area endVpn := hshape.vmEnd.trans hs.stop
        have hcount := hs.count
        rw [huser, if_pos rfl] at hcount
        have hget : s'.vmas.get? stored.vmStart = some stored := hshape.vmStart ▸ htarget
        have huser' : stored.vmIsUser = true := by
          rw [vmIsUser, hshape.mapPerm, hs.parts.split.1.mapPerm]
          exact huser
        have hdrop := hinv.userAreaCount_drop hget huser'
        refine .inr ⟨area, s'.dropArea arch stored, (stored.unmap mapper).2.2, rfl, huser, ?_, ?_,
          hinv.drop hget, ?_, fun p => ?_⟩
        · simp only [overlapStart, overlapEnd] at hsplit
          simp [unmapStep, hk, huser, hsplit, takeVma_of_get? htarget, dropArea, hshape.vmStart]
        · rw [← hstart, ← hend]
          exact hmap.nonempty hget
        · omega
        · rw [← hstart, ← hend, ← hpages p]
          exact pageAt_dropArea hmap hget

end Mapper
end MangoCore.Mm.VmaSet
