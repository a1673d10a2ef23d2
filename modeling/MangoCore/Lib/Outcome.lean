import Mathlib.Tactic.Common

/-!
# Postconditions of computations that may fail

`Outcome P Q` says of a computation that its result meets `P` or that its failure meets `Q`.  A
sequence of steps that succeeds is taken apart by `bind_eq_ok`.
-/

namespace MangoCore

universe u v w

variable {ε : Type u} {α : Type v} {β : Type v} {x : Except ε α}

/-- A result meets `P`, a failure meets `Q`. -/
def Outcome (P : α → Prop) (Q : ε → Prop) : Except ε α → Prop
  | .ok a => P a
  | .error e => Q e

/-- A sequence of two steps succeeds when both do. -/
theorem bind_eq_ok {k : α → Except ε β} {b : β} (h : x >>= k = .ok b) :
    ∃ a, x = .ok a ∧ k a = .ok b := by
  cases x with
  | ok a => exact ⟨a, rfl, h⟩
  | error e => cases h

theorem map_eq_ok {f : α → β} {b : β} (h : x.map f = .ok b) : ∃ a, x = .ok a ∧ b = f a := by
  cases x with
  | ok a => exact ⟨a, rfl, (Except.ok.inj h).symm⟩
  | error e => cases h

theorem eq_ok_of_toOption {a : α} (h : x.toOption = some a) : x = .ok a := by
  cases x with
  | ok b => exact congrArg Except.ok (Option.some.inj h)
  | error e => cases h

end MangoCore
