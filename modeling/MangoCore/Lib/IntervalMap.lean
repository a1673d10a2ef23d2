import MangoCore.Lib.OrdMap

/-!
# Maps of half-open intervals

An ordered map from starts to values, with a function `stop` that reads the end of the interval off
the value, stands for a set of half-open intervals `[k, stop v)`.  Two properties are what its
users keep up: the intervals are non-empty, and consecutive ones are at least `gap` points apart
(`Spaced`).  A gap of `0` is disjointness; a gap of `1` says in addition that no two intervals
touch, so that the map is the coarsest one with its union.

The union is the predicate `Covers`.  The lemmas say how the updates of the map move it, and how a
point or a range is tested by looking at its neighbours only (`covers_iff_lastLE?`,
`exists_covers_iff_neighbours`).  `valueAt` reads the map as a partial function on the points.
-/

namespace MangoCore.IntervalMap

open OrdMap

universe v

variable {V : Type v} {stop : V → ℕ} {gap : ℕ} {m : OrdMap ℕ V} {k p : ℕ} {v v' : V} {a b : ℕ}
  {k' : ℕ}

/-- A point is in one of the intervals. -/
def Covers (stop : V → ℕ) (m : OrdMap ℕ V) (p : ℕ) : Prop :=
  ∃ k v, m.get? k = some v ∧ k ≤ p ∧ p < stop v

/-- The intervals are non-empty and at least `gap` points lie between any two. -/
structure Spaced (gap : ℕ) (stop : V → ℕ) (m : OrdMap ℕ V) : Prop where
  nonempty : ∀ k v, m.get? k = some v → k < stop v
  apart : ∀ k v k' v', m.get? k = some v → m.get? k' = some v' → k < k' → stop v + gap ≤ k'

theorem spaced_empty : Spaced gap stop (empty : OrdMap ℕ V) :=
  ⟨fun k v h => absurd h (by simp), fun k v _ _ h => absurd h (by simp)⟩

theorem not_covers_empty : ¬ Covers stop (empty : OrdMap ℕ V) p := by
  rintro ⟨k, v, h, -⟩
  cases h

section

variable (h : Spaced gap stop m)
include h

/-- Two intervals with a common point are one. -/
theorem Spaced.eq_of_common
    (hk : m.get? k = some v) (hk' : m.get? k' = some v') (hp : k ≤ p ∧ p < stop v)
    (hp' : k' ≤ p ∧ p < stop v') : k = k' := by
  rcases lt_trichotomy k k' with hlt | heq | hlt
  · have := h.apart k v k' v' hk hk' hlt
    omega
  · exact heq
  · have := h.apart k' v' k v hk' hk hlt
    omega

/-! ## Updates -/

theorem Spaced.erase (k : ℕ) : Spaced gap stop (m.erase k) := by
  have hsub : ∀ k' v', (m.erase k).get? k' = some v' → m.get? k' = some v' := by
    simp [get?_erase]
  exact ⟨fun k' v' hk' => h.nonempty k' v' (hsub k' v' hk'),
    fun k₁ v₁ k₂ v₂ h₁ h₂ hlt => h.apart k₁ v₁ k₂ v₂ (hsub _ _ h₁) (hsub _ _ h₂) hlt⟩

/-- An interval may be added when every other one keeps its distance from it. -/
theorem Spaced.insert (hkv : k < stop v)
    (hfar : ∀ k' v', m.get? k' = some v' → k' ≠ k → stop v' + gap ≤ k ∨ stop v + gap ≤ k') :
    Spaced gap stop (m.insert k v) := by
  constructor
  · intro k' v' hk'
    rcases get?_insert_cases hk' with ⟨rfl, rfl⟩ | ⟨-, hk'⟩
    · exact hkv
    · exact h.nonempty k' v' hk'
  · intro k₁ v₁ k₂ v₂ h₁ h₂ hlt
    rw [get?_insert] at h₁ h₂
    split_ifs at h₁ h₂
    · omega
    · grind [nonempty]
    · grind
    · exact h.apart k₁ v₁ k₂ v₂ h₁ h₂ hlt

end

/-- What an insertion at a free key adds. -/
theorem covers_insert (hk : m.get? k = none) (p : ℕ) :
    Covers stop (m.insert k v) p ↔ (k ≤ p ∧ p < stop v) ∨ Covers stop m p := by
  constructor
  · grind [Covers, get?_insert]
  · rintro (hp | ⟨k', v', hk', hp⟩)
    · exact ⟨k, v, get?_insert_self m, hp⟩
    · have hne : k' ≠ k := by
        rintro rfl
        rw [hk] at hk'
        cases hk'
      exact ⟨k', v', by rw [get?_insert_of_ne m hne]; exact hk', hp⟩

section

variable (h : Spaced gap stop m)
include h

theorem Spaced.covers_erase (hk : m.get? k = some v) :
    Covers stop (m.erase k) p ↔ Covers stop m p ∧ ¬ (k ≤ p ∧ p < stop v) := by
  constructor
  · grind [Covers, get?_erase, eq_of_common]
  · rintro ⟨⟨k', v', hk', hp⟩, hnot⟩
    have hne : k' ≠ k := by grind
    exact ⟨k', v', by rw [get?_erase_of_ne m hne]; exact hk', hp⟩

/-- A key that is not covered is free. -/
theorem Spaced.get?_eq_none_of_not_covers (hk : ¬ Covers stop m k) : m.get? k = none := by
  rw [get?_eq_none_iff]
  intro v hv
  exact hk ⟨k, v, hv, le_rfl, h.nonempty k v hv⟩

/-- An interval none of whose points is covered keeps clear of all others. -/
theorem Spaced.clear_of_not_covers (hab : a < b) (hfree : ∀ p, a ≤ p → p < b → ¬ Covers stop m p)
    (hk' : m.get? k' = some v') : stop v' ≤ a ∨ b ≤ k' := by
  by_contra hcon
  have hne := h.nonempty k' v' hk'
  refine hfree (max a k') (by omega) (by omega) ⟨k', v', hk', by omega, by omega⟩

end

/-! ## Maps of bare intervals

When the value is the end itself, an empty interval has no entry. -/

/-- The interval is added unless it is empty. -/
def insertNonempty (m : OrdMap ℕ ℕ) (k e : ℕ) : OrdMap ℕ ℕ := if k < e then m.insert k e else m

variable {n : OrdMap ℕ ℕ} {e : ℕ}

theorem get?_insertNonempty :
    (insertNonempty n k e).get? k' = if k < e ∧ k' = k then some e else n.get? k' := by
  grind [insertNonempty, get?_insert]

theorem Spaced.insertNonempty (h : Spaced gap id n)
    (hfar : k < e → ∀ k' e', n.get? k' = some e' → k' ≠ k → e' + gap ≤ k ∨ e + gap ≤ k') :
    Spaced gap id (insertNonempty n k e) := by
  rw [IntervalMap.insertNonempty]
  split_ifs with hlt
  · exact h.insert hlt (hfar hlt)
  · exact h

theorem covers_insertNonempty (hk : k < e → n.get? k = none) :
    Covers id (insertNonempty n k e) p ↔ (k ≤ p ∧ p < e) ∨ Covers id n p := by
  grind [insertNonempty, covers_insert]

/-! ## Tests by neighbours -/

/-- A point is covered exactly when the last interval that starts at or before it reaches it. -/
theorem Spaced.covers_iff_lastLE? (h : Spaced gap stop m) :
    Covers stop m p ↔ ∃ k v, m.lastLE? p = some (k, v) ∧ p < stop v := by
  constructor
  · rintro ⟨k, v, hk, hkp, hp⟩
    refine ⟨k, v, lastLE?_eq_some_iff.mpr ⟨hk, hkp, fun k' v' hk' hle => ?_⟩, hp⟩
    by_contra hlt
    have := h.apart k v k' v' hk hk' (by omega)
    omega
  · grind [Covers, lastLE?_eq_some_iff]

/-- A range meets the union exactly when the last interval at or before its start reaches into it
or the first interval from its start on begins inside it. -/
theorem Spaced.exists_covers_iff_neighbours (h : Spaced gap stop m) (hab : a < b) :
    (∃ p, a ≤ p ∧ p < b ∧ Covers stop m p) ↔ (∃ k v, m.lastLE? a = some (k, v) ∧ a < stop v) ∨
        ∃ k v, m.firstGE? a = some (k, v) ∧ k < b := by
  constructor
  · rintro ⟨p, hap, hpb, k, v, hk, hkp, hp⟩
    by_cases hka : k ≤ a
    · left
      by_cases hav : a < stop v
      · exact h.covers_iff_lastLE?.mp ⟨k, v, hk, hka, hav⟩
      · omega
    · right
      cases hf : m.firstGE? a with
      | none =>
        have := firstGE?_eq_none_iff.mp hf k v hk
        omega
      | some e => grind [firstGE?_eq_some_iff]
  · rintro (⟨k, v, hk, hp⟩ | ⟨k, v, hk, hkb⟩)
    · obtain ⟨hget, hle, -⟩ := lastLE?_eq_some_iff.mp hk
      exact ⟨a, le_rfl, hab, k, v, hget, hle, hp⟩
    · obtain ⟨hget, hle, -⟩ := firstGE?_eq_some_iff.mp hk
      exact ⟨k, hle, hkb, k, v, hget, le_rfl, h.nonempty k v hget⟩

/-! ## The map as a function on points -/

/-- The value whose interval a point is in. -/
def valueAt (stop : V → ℕ) (m : OrdMap ℕ V) (p : ℕ) : Option V :=
  match m.lastLE? p with
  | some (_, v) => if p < stop v then some v else none
  | none => none

section

variable (h : Spaced gap stop m)
include h

theorem Spaced.valueAt_eq_some_iff :
    valueAt stop m p = some v ↔ ∃ k, m.get? k = some v ∧ k ≤ p ∧ p < stop v := by
  unfold valueAt
  constructor
  · grind [lastLE?_eq_some_iff]
  · rintro ⟨k, hk, hle, hlt⟩
    obtain ⟨k', v', hlast, hlt'⟩ := h.covers_iff_lastLE?.mp ⟨k, v, hk, hle, hlt⟩
    grind [lastLE?_eq_some_iff, h.eq_of_common]

theorem Spaced.valueAt_eq_none_iff : valueAt stop m p = none ↔ ¬ Covers stop m p := by
  constructor
  · rintro hnone ⟨k, v, hk, hp⟩
    grind [h.valueAt_eq_some_iff]
  · grind [Covers, valueAt, valueAt_eq_some_iff]

theorem Spaced.valueAt_erase (hk : m.get? k = some v) :
    valueAt stop (m.erase k) p = if k ≤ p ∧ p < stop v then none else valueAt stop m p := by
  apply Option.ext
  intro w
  rw [(h.erase k).valueAt_eq_some_iff]
  constructor
  · grind [get?_erase, h.eq_of_common, h.valueAt_eq_some_iff]
  · intro hw
    split_ifs at hw
    obtain ⟨k', hk', hp⟩ := h.valueAt_eq_some_iff.mp hw
    have hne : k' ≠ k := by grind
    exact ⟨k', by rw [get?_erase_of_ne m hne]; exact hk', hp⟩

end

/-- An interval is added where nothing is covered. -/
theorem Spaced.valueAt_insert (h : Spaced 0 stop m) (hkv : k < stop v)
    (hfree : ∀ p, k ≤ p → p < stop v → ¬ Covers stop m p) :
    valueAt stop (m.insert k v) p = if k ≤ p ∧ p < stop v then some v else valueAt stop m p := by
  have hspaced : Spaced 0 stop (m.insert k v) :=
    h.insert hkv fun k' v' hk' _ => h.clear_of_not_covers hkv hfree hk'
  split_ifs with hin
  · exact hspaced.valueAt_eq_some_iff.mpr ⟨k, get?_insert_self m, hin⟩
  · apply Option.ext
    intro w
    rw [hspaced.valueAt_eq_some_iff, h.valueAt_eq_some_iff]
    constructor
    · grind [get?_insert]
    · rintro ⟨k', hk', hp⟩
      have hne : k' ≠ k := by grind [Covers]
      exact ⟨k', by rw [get?_insert_of_ne m hne]; exact hk', hp⟩
end MangoCore.IntervalMap
