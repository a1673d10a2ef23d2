import Mathlib.Algebra.Order.Ring.Int

/-!
# 64-bit signed integers

An `I64` is an integer with a proof that it fits.  The operations are those whose result is defined
on every argument: the two saturating steps, the larger of two values, and the truncating cast.
-/

namespace MangoCore

/-- A signed 64-bit integer. -/
@[ext]
structure I64 where
  val : ℤ
  ge : -2 ^ 63 ≤ val
  lt : val < 2 ^ 63
  deriving DecidableEq

namespace I64

def maxValue : I64 := ⟨2 ^ 63 - 1, by decide, by decide⟩

/-- `saturating_add(1)`. -/
def saturatingSucc (x : I64) : I64 :=
  if h : x.val + 1 < 2 ^ 63 then ⟨x.val + 1, by have := x.ge; omega, h⟩ else x

/-- `saturating_sub(1)`. -/
def saturatingPred (x : I64) : I64 :=
  if h : -2 ^ 63 ≤ x.val - 1 then ⟨x.val - 1, h, by have := x.lt; omega⟩ else x

/-- The larger of two values. -/
def max (x y : I64) : I64 := if x.val < y.val then y else x

/-- The cast that keeps the lower 64 bits. -/
def ofInt (x : ℤ) : I64 :=
  ⟨(x + 2 ^ 63) % 2 ^ 64 - 2 ^ 63, by omega, by omega⟩

variable {x : I64}

theorem saturatingSucc_of_lt (h : x.val + 1 < 2 ^ 63) : x.saturatingSucc.val = x.val + 1 := by
  rw [saturatingSucc, dif_pos h]

theorem saturatingPred_of_le (h : -2 ^ 63 ≤ x.val - 1) : x.saturatingPred.val = x.val - 1 := by
  rw [saturatingPred, dif_pos h]

theorem saturatingSucc_le : x.saturatingSucc.val ≤ x.val + 1 := by
  unfold saturatingSucc
  split_ifs
  · exact le_rfl
  · omega

theorem val_max (x y : I64) : (x.max y).val = Max.max x.val y.val := by
  unfold max
  split_ifs with h <;> omega

end I64
end MangoCore
