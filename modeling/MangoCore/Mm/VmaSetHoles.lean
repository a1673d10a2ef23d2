import MangoCore.Mm.VmaSet

/-!
# The holes of the mmap arena

The free ranges of the arena are a map of intervals any two of which have a page between them
(`Spaced 1`): they are disjoint and no two could be joined.  Reserving a range takes exactly its
pages out of the holes, releasing one puts exactly its pages in, and both leave such a map, however
the range lies across the holes.

* `carveHole_spec`, `reserveHoles_spec`: the carving loop, one hole at a time.
* `absorbPrev_spec`, `absorbNext_spec`, `releaseHoles_spec`: the two absorbing phases.
* `reserveMmapRange_spec`, `releaseMmapRange_spec`: the same after clipping to the arena.
-/

namespace MangoCore.Mm.VmaSet

open IntervalMap OrdMap List

/-- A page lies in a hole. -/
def InHole (holes : OrdMap ℕ ℕ) (p : ℕ) : Prop := Covers id holes p

/-- The holes are non-empty, disjoint, and never adjacent. -/
def HolesMerged (holes : OrdMap ℕ ℕ) : Prop := Spaced 1 id holes

variable {holes : OrdMap ℕ ℕ} {startVpn endVpn : ℕ} {hole : ℕ × ℕ}

/-! ## Reserving -/

section

variable (hm : HolesMerged holes) (hget : holes.get? hole.1 = some hole.2)
include hm hget

/-- A hole other than the carved one stays. -/
theorem get?_carveHole_of_ne {k e : ℕ} (hover : hole.1 < endVpn)
    (hk : holes.get? k = some e) (hne : k ≠ hole.1) :
    (carveHole startVpn endVpn holes hole).get? k = some e := by
  -- the right remainder starts inside the carved hole, so no other hole starts there
  have hne' : ¬ (endVpn < hole.2 ∧ k = endVpn) := by
    rintro ⟨hright, rfl⟩
    have hlt := hm.nonempty k e hk
    exact hne (hm.eq_of_common hk hget ⟨le_rfl, hlt⟩ ⟨hover.le, hright⟩)
  rw [carveHole, get?_insertNonempty, if_neg hne', get?_insertNonempty,
    if_neg fun h => hne h.2, get?_erase_of_ne _ hne]
  exact hk

/-- **Carving one hole.**  The result is merged and lost exactly the pages of the hole inside the
range. -/
theorem carveHole_spec (hover : hole.1 < endVpn ∧ startVpn < hole.2)
    (hlt : startVpn < endVpn) : HolesMerged (carveHole startVpn endVpn holes hole) ∧
      ∀ p, InHole (carveHole startVpn endVpn holes hole) p ↔
        InHole holes p ∧ ¬ (startVpn ≤ p ∧ p < endVpn ∧ hole.1 ≤ p ∧ p < hole.2) := by
  have hab : hole.1 < hole.2 := hm.nonempty _ _ hget
  have hfar : ∀ k e, (holes.erase hole.1).get? k = some e → e + 1 ≤ hole.1 ∨ hole.2 + 1 ≤ k := by
    intro k e hk
    rw [get?_erase] at hk
    split_ifs at hk with hka
    rcases lt_or_gt_of_ne hka with hlt' | hgt
    · exact .inl (hm.apart k e _ _ hk hget hlt')
    · exact .inr (hm.apart _ _ k e hget hk hgt)
  -- the entries once the left remainder is back
  have hentries : ∀ k e, (insertNonempty (holes.erase hole.1) hole.1 startVpn).get? k = some e →
        (e + 1 ≤ hole.1 ∨ hole.2 + 1 ≤ k) ∨ e = startVpn := by
    intro k e hk
    rw [get?_insertNonempty] at hk
    split_ifs at hk with hc
    · exact .inr (Option.some.inj hk).symm
    · exact .inl (hfar k e hk)
  constructor
  · refine Spaced.insertNonempty (Spaced.insertNonempty (hm.erase _) ?_) ?_
    · intro _ k e hk _
      rcases hfar k e hk with h | h <;> omega
    · grind
  · intro p
    have hright : endVpn < hole.2 →
        (insertNonempty (holes.erase hole.1) hole.1 startVpn).get? endVpn = none := by
      intro hcut
      rw [get?_eq_none_iff]
      intro e he
      have hne : endVpn < e := by
        rw [get?_insertNonempty] at he
        split_ifs at he
        · omega
        · exact (hm.erase hole.1).nonempty _ _ he
      rcases hentries endVpn e he with (h | h) | h <;> omega
    rw [InHole, carveHole, covers_insertNonempty hright,
      covers_insertNonempty (fun _ => get?_erase_self ..), hm.covers_erase hget]
    simp only [id]
    change _ ↔ Covers id holes p ∧ _
    have hcov : hole.1 ≤ p ∧ p < hole.2 → Covers id holes p := fun h =>
      ⟨hole.1, hole.2, hget, h⟩
    constructor
    all_goals grind

end

/-- **The carving loop.**  The collected holes are entries with different starts; each round leaves
the remaining ones in place. -/
theorem foldl_carveHole_spec (hlt : startVpn < endVpn) :
    ∀ (l : List (ℕ × ℕ)) (holes : OrdMap ℕ ℕ), HolesMerged holes → (l.map Prod.fst).Nodup →
      (∀ hole ∈ l, holes.get? hole.1 = some hole.2 ∧ hole.1 < endVpn ∧ startVpn < hole.2) →
      HolesMerged (l.foldl (carveHole startVpn endVpn) holes) ∧
        ∀ p, InHole (l.foldl (carveHole startVpn endVpn) holes) p ↔ InHole holes p ∧
            ¬ (startVpn ≤ p ∧ p < endVpn ∧ ∃ hole ∈ l, hole.1 ≤ p ∧ p < hole.2) := by
  intro l
  induction l with
  | nil =>
    intro holes hm _ _
    exact ⟨hm, fun p => by simp⟩
  | cons hole l ih =>
    intro holes hm hnd hall
    rw [map_cons, nodup_cons] at hnd
    obtain ⟨hget, hover⟩ := hall hole mem_cons_self
    obtain ⟨hm', hcov⟩ := carveHole_spec hm hget hover hlt
    have hrest : ∀ h ∈ l, (carveHole startVpn endVpn holes hole).get? h.1 = some h.2 ∧
        h.1 < endVpn ∧ startVpn < h.2 := by
      intro h hh
      obtain ⟨hget', hover'⟩ := hall h (mem_cons_of_mem _ hh)
      have hne : h.1 ≠ hole.1 := fun heq => hnd.1 (mem_map.mpr ⟨h, hh, heq⟩)
      exact ⟨get?_carveHole_of_ne hm hget hover.1 hget' hne, hover'⟩
    obtain ⟨hm'', hcov'⟩ := ih _ hm' hnd.2 hrest
    refine ⟨hm'', fun p => ?_⟩
    rw [foldl_cons, hcov' p, hcov p]
    constructor
    · grind
    · rintro ⟨hp, hnot⟩
      exact ⟨⟨hp, fun ⟨h₁, h₂, hin⟩ => hnot ⟨h₁, h₂, hole, mem_cons_self, hin⟩⟩,
        fun ⟨h₁, h₂, h, hh, hin⟩ => hnot ⟨h₁, h₂, h, mem_cons_of_mem _ hh, hin⟩⟩

/-- **Reserving.**  The holes lose exactly the pages of the range and stay merged. -/
theorem reserveHoles_spec (hm : HolesMerged holes) (hlt : startVpn < endVpn) :
    HolesMerged (reserveHoles holes startVpn endVpn) ∧
      ∀ p, InHole (reserveHoles holes startVpn endVpn) p ↔
        InHole holes p ∧ ¬ (startVpn ≤ p ∧ p < endVpn) := by
  have hmem : ∀ hole : ℕ × ℕ,
      hole ∈ holes.entries.filter (fun hole => hole.1 < endVpn && startVpn < hole.2) ↔
        holes.get? hole.1 = some hole.2 ∧ hole.1 < endVpn ∧ startVpn < hole.2 := by
    intro hole
    rw [mem_filter, ← mem_entries_iff]
    simp
  have hnd : ((holes.entries.filter fun hole => hole.1 < endVpn && startVpn < hole.2).map
      Prod.fst).Nodup :=
    holes.nodup_keys.sublist (filter_sublist.map _)
  obtain ⟨hm', hcov⟩ := foldl_carveHole_spec hlt _ holes hm hnd fun hole h => (hmem hole).mp h
  refine ⟨hm', fun p => ?_⟩
  rw [reserveHoles, hcov p]
  constructor
  · rintro ⟨⟨k, e, hk, hp⟩, hnot⟩
    refine ⟨⟨k, e, hk, hp⟩, fun ⟨h₁, h₂⟩ => hnot ⟨h₁, h₂, (k, e), ?_, hp⟩⟩
    exact (hmem (k, e)).mpr ⟨hk, lt_of_le_of_lt hp.1 h₂, lt_of_le_of_lt h₁ hp.2⟩
  · grind

/-! ## Releasing -/

/-- Nothing at or before `startVpn` touches a range that starts there. -/
def LeftClear (holes : OrdMap ℕ ℕ) (startVpn : ℕ) : Prop :=
  ∀ k e, holes.get? k = some e → k ≤ startVpn → e < startVpn

/-- **The first phase** joins the hole on the left, if it touches. -/
theorem absorbPrev_spec (hm : HolesMerged holes) (hlt : startVpn < endVpn)
    {holes' : OrdMap ℕ ℕ} {start' end' : ℕ}
    (h : absorbPrev holes startVpn endVpn = (holes', start', end')) :
    HolesMerged holes' ∧ LeftClear holes' start' ∧ start' < end' ∧
      ∀ p, (InHole holes' p ∨ (start' ≤ p ∧ p < end')) ↔
        (InHole holes p ∨ (startVpn ≤ p ∧ p < endVpn)) := by
  unfold absorbPrev at h
  cases hprev : holes.lastLE? startVpn with
  | none => grind [LeftClear, lastLE?_eq_none_iff]
  | some prev =>
    obtain ⟨prevStart, prevEnd⟩ := prev
    obtain ⟨hget, hle, hmax⟩ := lastLE?_eq_some_iff.mp hprev
    have hne : prevStart < prevEnd := hm.nonempty _ _ hget
    rw [hprev] at h
    dsimp only at h
    rw [← max_def_lt] at h
    split_ifs at h
    · obtain ⟨rfl, rfl, rfl⟩ :
          holes.erase prevStart = holes' ∧ prevStart = start' ∧ max endVpn prevEnd = end' := by
        simpa using h
      refine ⟨hm.erase _, fun k e hk hkle => ?_, by omega, fun p => ?_⟩
      · rw [get?_erase] at hk
        split_ifs at hk
        exact hm.apart k e _ _ hk hget (by omega)
      · rw [InHole, hm.covers_erase hget]
        simp only [id, InHole]
        have hcov : prevStart ≤ p ∧ p < prevEnd → Covers id holes p := fun hp =>
          ⟨prevStart, prevEnd, hget, hp⟩
        constructor
        all_goals grind
    · obtain ⟨rfl, rfl, rfl⟩ : holes = holes' ∧ startVpn = start' ∧ endVpn = end' := by
        simpa using h
      refine ⟨hm, fun k e hk hkle => ?_, hlt, fun p => Iff.rfl⟩
      rcases lt_or_eq_of_le (hmax k e hk hkle) with hlt' | rfl
      · have := hm.apart k e _ _ hk hget hlt'
        simp only [id] at this
        omega
      · rw [hget] at hk
        rw [← Option.some.inj hk]
        omega

/-- **The second phase** joins the holes that begin in the range or right after it. -/
theorem absorbNext_spec :
    ∀ (fuel : ℕ) (holes : OrdMap ℕ ℕ) (endVpn : ℕ) {holes' : OrdMap ℕ ℕ} {end' : ℕ},
      holes.size ≤ fuel → HolesMerged holes → LeftClear holes startVpn → startVpn < endVpn →
      absorbNext startVpn fuel holes endVpn = (holes', end') →
      HolesMerged holes' ∧ LeftClear holes' startVpn ∧ startVpn < end' ∧
        (∀ k e, holes'.get? k = some e → startVpn ≤ k → end' < k) ∧
        ∀ p, (InHole holes' p ∨ (startVpn ≤ p ∧ p < end')) ↔
          (InHole holes p ∨ (startVpn ≤ p ∧ p < endVpn)) := by
  intro fuel
  induction fuel with
  | zero =>
    intro holes endVpn holes' end' hsize hm hleft hlt h
    obtain ⟨rfl, rfl⟩ : holes = holes' ∧ endVpn = end' := by simpa [absorbNext] using h
    grind [get?_eq_none_of_size_eq_zero]
  | succ fuel ih =>
    intro holes endVpn holes' end' hsize hm hleft hlt h
    rw [absorbNext] at h
    cases hnext : holes.firstGE? startVpn with
    | none =>
      rw [hnext] at h
      obtain ⟨rfl, rfl⟩ : holes = holes' ∧ endVpn = end' := by simpa using h
      refine ⟨hm, hleft, hlt, fun k e hk hle => ?_, fun p => Iff.rfl⟩
      have := firstGE?_eq_none_iff.mp hnext k e hk
      omega
    | some next =>
      obtain ⟨nextStart, nextEnd⟩ := next
      obtain ⟨hget, hge, hmin⟩ := firstGE?_eq_some_iff.mp hnext
      have hne : nextStart < nextEnd := hm.nonempty _ _ hget
      rw [hnext] at h
      dsimp only at h
      rw [← max_def_lt] at h
      split_ifs at h with hfar
      · obtain ⟨rfl, rfl⟩ : holes = holes' ∧ endVpn = end' := by simpa using h
        refine ⟨hm, hleft, hlt, fun k e hk hle => ?_, fun p => Iff.rfl⟩
        exact lt_of_lt_of_le hfar (hmin k e hk hle)
      · have hsmaller := size_erase_lt hget
        have hleft' : LeftClear (holes.erase nextStart) startVpn := by
          intro k e hk hkle
          rw [get?_erase] at hk
          split_ifs at hk
          exact hleft k e hk hkle
        obtain ⟨hm', hl', hlt', hright, hcov⟩ :=
          ih (holes.erase nextStart) (max endVpn nextEnd) (by omega) (hm.erase _) hleft'
            (by omega) h
        refine ⟨hm', hl', hlt', hright, fun p => ?_⟩
        rw [hcov p, InHole, hm.covers_erase hget]
        simp only [id, InHole]
        have hin : nextStart ≤ p ∧ p < nextEnd → Covers id holes p := fun hp =>
          ⟨nextStart, nextEnd, hget, hp⟩
        constructor
        · rintro (⟨hp, -⟩ | hp)
          · exact .inl hp
          · by_cases hpe : p < endVpn
            · exact .inr ⟨hp.1, hpe⟩
            · exact .inl (hin (by omega))
        · rintro (hp | hp)
          · by_cases hpn : nextStart ≤ p ∧ p < nextEnd
            · exact .inr (by omega)
            · exact .inl ⟨hp, hpn⟩
          · exact .inr (by omega)

/-- **Releasing.**  The holes gain exactly the pages of the range and stay merged. -/
theorem releaseHoles_spec (hm : HolesMerged holes) (hlt : startVpn < endVpn) :
    HolesMerged (releaseHoles holes startVpn endVpn) ∧
      ∀ p, InHole (releaseHoles holes startVpn endVpn) p ↔
        InHole holes p ∨ (startVpn ≤ p ∧ p < endVpn) := by
  unfold releaseHoles
  rcases hprev : absorbPrev holes startVpn endVpn with ⟨holes₁, start₁, end₁⟩
  obtain ⟨hm₁, hleft₁, hlt₁, hcov₁⟩ := absorbPrev_spec hm hlt hprev
  rcases hnext : absorbNext start₁ holes₁.size holes₁ end₁ with ⟨holes₂, end₂⟩
  obtain ⟨hm₂, hleft₂, hlt₂, hright₂, hcov₂⟩ :=
    absorbNext_spec _ holes₁ end₁ le_rfl hm₁ hleft₁ hlt₁ hnext
  dsimp only
  rw [hnext]
  have hnone : holes₂.get? start₁ = none := by grind [get?_eq_none_iff]
  refine ⟨hm₂.insert hlt₂ fun k e hk _ => ?_, fun p => ?_⟩
  · rcases le_or_gt k start₁ with hle | hgt
    · exact .inl (hleft₂ k e hk hle)
    · exact .inr (hright₂ k e hk hgt.le)
  · grind [InHole, covers_insert]

/-! ## Clipping to the arena -/

/-- A page of the arena. -/
def InArena (arch : Arch) (p : ℕ) : Prop := arch.mmapBounds.1 ≤ p ∧ p < arch.mmapBounds.2

variable {arch : Arch} {s : VmaSet}

theorem clipMmapRange_eq_some {a b : ℕ} (h : clipMmapRange arch startVpn endVpn = some (a, b)) :
    a < b ∧ ∀ p, (a ≤ p ∧ p < b) ↔ (InArena arch p ∧ startVpn ≤ p ∧ p < endVpn) := by
  unfold clipMmapRange at h
  split_ifs at h <;>
    · grind [InArena]

theorem clipMmapRange_eq_none (h : clipMmapRange arch startVpn endVpn = none) {p : ℕ} :
    ¬ (InArena arch p ∧ startVpn ≤ p ∧ p < endVpn) := by
  unfold clipMmapRange at h
  dsimp only at h
  unfold InArena
  split_ifs at h <;> omega

theorem reserveMmapRange_eq :
    ∃ holes, s.reserveMmapRange arch startVpn endVpn = { s with mmapHoles := holes } := by
  unfold reserveMmapRange
  cases clipMmapRange arch startVpn endVpn with
  | none => exact ⟨s.mmapHoles, rfl⟩
  | some range => exact ⟨_, rfl⟩

theorem releaseMmapRange_eq :
    ∃ holes, s.releaseMmapRange arch startVpn endVpn = { s with mmapHoles := holes } := by
  unfold releaseMmapRange
  cases clipMmapRange arch startVpn endVpn with
  | none => exact ⟨s.mmapHoles, rfl⟩
  | some range => exact ⟨_, rfl⟩

/-- **`reserve_mmap_range`** takes the pages of the range that lie in the arena out of the holes. -/
theorem reserveMmapRange_spec (hm : HolesMerged s.mmapHoles) :
    HolesMerged (s.reserveMmapRange arch startVpn endVpn).mmapHoles ∧
      ∀ p, InHole (s.reserveMmapRange arch startVpn endVpn).mmapHoles p ↔
        InHole s.mmapHoles p ∧ ¬ (InArena arch p ∧ startVpn ≤ p ∧ p < endVpn) := by
  unfold reserveMmapRange
  cases hclip : clipMmapRange arch startVpn endVpn with
  | none => exact ⟨hm, fun p => ⟨fun h => ⟨h, clipMmapRange_eq_none hclip⟩, fun h => h.1⟩⟩
  | some range => grind [clipMmapRange_eq_some, reserveHoles_spec]

/-- **`release_mmap_range`** puts the pages of the range that lie in the arena into the holes. -/
theorem releaseMmapRange_spec (hm : HolesMerged s.mmapHoles) :
    HolesMerged (s.releaseMmapRange arch startVpn endVpn).mmapHoles ∧
      ∀ p, InHole (s.releaseMmapRange arch startVpn endVpn).mmapHoles p ↔
        InHole s.mmapHoles p ∨ (InArena arch p ∧ startVpn ≤ p ∧ p < endVpn) := by
  unfold releaseMmapRange
  grind [clipMmapRange_eq_none, clipMmapRange_eq_some, releaseHoles_spec]

/-- **On sets of pages**, of any range exactly the part in the arena leaves the holes when it is
reserved and joins them when it is released, and the holes stay merged. -/
theorem inHole_reserve_release (hm : HolesMerged s.mmapHoles) :
    let range := {p | InArena arch p ∧ startVpn ≤ p ∧ p < endVpn}
    let reserved := (s.reserveMmapRange arch startVpn endVpn).mmapHoles
    let released := (s.releaseMmapRange arch startVpn endVpn).mmapHoles
    HolesMerged reserved ∧ {p | InHole reserved p} = {p | InHole s.mmapHoles p} \ range ∧
      HolesMerged released ∧ {p | InHole released p} = {p | InHole s.mmapHoles p} ∪ range := by
  obtain ⟨hreserved, hremoved⟩ := reserveMmapRange_spec hm
  obtain ⟨hreleased, hadded⟩ := releaseMmapRange_spec hm
  exact ⟨hreserved, Set.ext hremoved, hreleased, Set.ext hadded⟩

/-- A set without holes. -/
def full : VmaSet := { new .riscv with mmapHoles := empty }

theorem holesMerged_full : HolesMerged full.mmapHoles := spaced_empty

/-- A set with three holes of sixteen pages. -/
def threeHoles : VmaSet :=
  ((full.releaseMmapRange .riscv 0x20010 0x20020).releaseMmapRange .riscv 0x20030
    0x20040).releaseMmapRange .riscv 0x20050 0x20060

theorem holesMerged_threeHoles : HolesMerged threeHoles.mmapHoles :=
  (releaseMmapRange_spec (releaseMmapRange_spec (releaseMmapRange_spec holesMerged_full).1).1).1

/-- The pages between the first two holes join them, and a reservation from the first hole to the
last cuts both and takes the one between them away. -/
theorem inHole_threeHoles :
    (threeHoles.mmapHoles.entries = [(0x20010, 0x20020), (0x20030, 0x20040), (0x20050, 0x20060)] ∧
      (threeHoles.releaseMmapRange .riscv 0x20020 0x20030).mmapHoles.entries =
        [(0x20010, 0x20040), (0x20050, 0x20060)] ∧
      (threeHoles.reserveMmapRange .riscv 0x20018 0x20058).mmapHoles.entries =
        [(0x20010, 0x20018), (0x20058, 0x20060)]) ∧
    {p | InHole (threeHoles.releaseMmapRange .riscv 0x20020 0x20030).mmapHoles p} =
      {p | InHole threeHoles.mmapHoles p} ∪ {p | InArena .riscv p ∧ 0x20020 ≤ p ∧ p < 0x20030} ∧
    {p | InHole (threeHoles.reserveMmapRange .riscv 0x20018 0x20058).mmapHoles p} =
      {p | InHole threeHoles.mmapHoles p} \ {p | InArena .riscv p ∧ 0x20018 ≤ p ∧ p < 0x20058} :=
  ⟨by decide +kernel, (inHole_reserve_release holesMerged_threeHoles).2.2.2,
    (inHole_reserve_release holesMerged_threeHoles).2.1⟩

/-- The page below the arena does not become a hole when it is released. -/
theorem release_below_arena : HolesMerged full.mmapHoles ∧
    ¬ InHole (full.releaseMmapRange .riscv 0x1ffff 0x20001).mmapHoles 0x1ffff := by
  refine ⟨holesMerged_full, fun h => ?_⟩
  rcases ((releaseMmapRange_spec holesMerged_full).2 _).mp h with h | ⟨h, -⟩
  · exact not_covers_empty h
  · exact absurd h.1 (by decide)

end MangoCore.Mm.VmaSet
