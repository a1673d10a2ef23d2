import Mathlib.Tactic.Common

/-!
# Exclusive holders

Each index holds at most one thing, and `Exclusive` says that no thing is held at two indices.  This
is how a lock, a task or a message that is handed from one holder to the next is described: the
rules say that giving a thing up keeps exclusiveness, that taking a thing keeps it when nobody else
holds it, and that handing a thing over keeps it.
-/

namespace MangoCore

universe u v

variable {ι : Type u} {α : Type v}

/-- No two indices hold the same thing. -/
def Exclusive (f : ι → Option α) : Prop :=
  ∀ i j a, f i = some a → f j = some a → i = j

namespace Exclusive

variable {f g : ι → Option α}

/-- Giving things up, at any number of indices. -/
theorem mono (h : Exclusive f) (hg : ∀ i a, g i = some a → f i = some a) : Exclusive g :=
  fun i j a hi hj => h i j a (hg i a hi) (hg j a hj)

/-- **Taking a thing.**  At every index other than `i` nothing is new, and what `i` now holds was
held nowhere else. -/
theorem acquire (h : Exclusive f) (i : ι) (hg : ∀ j, j ≠ i → ∀ a, g j = some a → f j = some a)
    (hi : ∀ a, g i = some a → ∀ j, j ≠ i → f j ≠ some a) : Exclusive g := by
  intro j k a hj hk
  by_cases hji : j = i
  · grind
  · by_cases hki : k = i
    · exact absurd (hg j hji a hj) (hi a (hki ▸ hk) j hji)
    · exact h j k a (hg j hji a hj) (hg k hki a hk)

/-- **Handing over.**  What `i` now holds was held by `k`, which gives it up. -/
theorem handOver (h : Exclusive f) {i k : ι} (hk : g k = none)
    (hi : ∀ a, g i = some a → f k = some a)
    (hg : ∀ j, j ≠ i → ∀ a, g j = some a → f j = some a) : Exclusive g := by
  have hother : ∀ j a, j ≠ i → g i = some a → g j ≠ some a := by
    intro j a hj hia hja
    obtain rfl := h j k a (hg j hj a hja) (hi a hia)
    cases hk.symm.trans hja
  intro j l a hj hl
  by_cases hji : j = i
  · grind
  · by_cases hli : l = i
    · exact absurd hj (hother j a hji (hli ▸ hl))
    · exact h j l a (hg j hji a hj) (hg l hli a hl)

end Exclusive
end MangoCore
