import Mathlib.Data.List.Nodup
import Mathlib.Data.List.Perm.Subperm

/-!
# Things in places

Every place holds a list of things, and `Placed` says that a thing is in one place at most, and
there once.  The rules say that things may be taken out, that a thing that is nowhere may be put
somewhere, and that everything in one place may be moved to another.
-/

namespace MangoCore

open Function List

universe u v

variable {ι : Type u} {α : Type v}

/-- The thing at the index is taken out, and the last thing takes its place. -/
def swapRemove (l : List α) (i : ℕ) : List α :=
  match l.getLast? with
  | none => []
  | some a => (l.set i a).dropLast

/-- Up to the order, the thing at the index is erased. -/
theorem swapRemove_perm {l : List α} {i : ℕ} (hi : i < l.length) :
    (swapRemove l i).Perm (l.eraseIdx i) := by
  obtain rfl | ⟨init, a, rfl⟩ := l.eq_nil_or_concat'
  · exact absurd hi (Nat.not_lt_zero i)
  · rw [swapRemove, getLast?_concat]
    dsimp only
    rw [length_append, length_singleton] at hi
    rcases Nat.lt_or_ge i init.length with hlt | hge
    · rw [set_append_left _ _ hlt, dropLast_concat, eraseIdx_append_of_lt_length hlt]
      exact (set_perm_cons_eraseIdx hlt a).trans (perm_append_singleton ..).symm
    · obtain rfl : i = init.length := by omega
      rw [set_append_right _ _ (Nat.le_refl _), Nat.sub_self, set_cons_zero,
        dropLast_concat, eraseIdx_append_of_length_le (Nat.le_refl _), Nat.sub_self,
        eraseIdx_cons_zero, append_nil]

/-- No thing is in two places, or twice in one. -/
def Placed (c : ι → List α) : Prop :=
  (∀ i, (c i).Nodup) ∧ ∀ i j a, a ∈ c i → a ∈ c j → i = j

namespace Placed

variable {c c' : ι → List α}

/-- Taking things out, in any places. -/
theorem mono (h : Placed c) (hsub : ∀ i, (c' i).Subperm (c i)) : Placed c' := by
  refine ⟨fun i => ?_, fun i j a hi hj => h.2 i j a ((hsub i).subset hi) ((hsub j).subset hj)⟩
  obtain ⟨l, hperm, hl⟩ := hsub i
  exact hperm.nodup_iff.mp ((h.1 i).sublist hl)

variable [DecidableEq ι]

/-- Putting a thing that is nowhere. -/
theorem push (h : Placed c) {a : α} (ha : ∀ i, a ∉ c i) {i : ι} :
    Placed (update c i (c i ++ [a])) := by
  have hmem : ∀ j b, b ∈ update c i (c i ++ [a]) j → b ∈ c j ∨ j = i ∧ b = a := by grind
  refine ⟨fun j => ?_, fun j k b hj hk => ?_⟩
  · by_cases hj : j = i
    · subst hj
      rw [update_self]
      exact nodup_append.mpr ⟨h.1 j, nodup_singleton a, fun b hb d hd =>
        fun heq => ha j (by rwa [← mem_singleton.mp hd, ← heq])⟩
    · rw [update_of_ne hj]
      exact h.1 j
  · rcases hmem j b hj with inj | ⟨hji, rfl⟩ <;> rcases hmem k b hk with ink | ⟨hki, hb⟩
    · exact h.2 j k b inj ink
    · exact absurd (hb ▸ inj) (ha j)
    · exact absurd ink (ha k)
    · rw [hji, hki]

/-- Moving everything from one place to another. -/
theorem transfer (h : Placed c) {i j : ι} (hij : i ≠ j) :
    Placed (update (update c i []) j (c j ++ c i)) := by
  have hmem : ∀ k b, b ∈ update (update c i []) j (c j ++ c i) k →
      k ≠ i ∧ b ∈ c k ∨ k = j ∧ b ∈ c i := by
    intro k b hb
    by_cases hk : k = j
    all_goals grind
  refine ⟨fun k => ?_, fun k l b hk hl => ?_⟩
  · by_cases hk : k = j
    · subst hk
      rw [update_self]
      exact nodup_append.mpr ⟨h.1 k, h.1 i, fun b hb d hd heq =>
        hij (h.2 i k b (heq ▸ hd) hb)⟩
    · rw [update_of_ne hk]
      by_cases hki : k = i
      · subst hki
        rw [update_self]
        exact nodup_nil
      · rw [update_of_ne hki]
        exact h.1 k
  · rcases hmem k b hk with ⟨hki, ink⟩ | ⟨hkj, ink⟩ <;>
      rcases hmem l b hl with ⟨hli, inl⟩ | ⟨hlj, inl⟩
    · exact h.2 k l b ink inl
    · exact absurd (h.2 k i b ink inl) hki
    · exact absurd (h.2 l i b inl ink) hli
    · rw [hkj, hlj]

end Placed
end MangoCore
