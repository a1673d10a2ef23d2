import Mathlib.Data.List.Range

/-!
# Arrays read as rings

The cells `0 … c - 1` of an array form a ring: the cell after the last is the first.  A queue in the
ring is the slice of `n` cells from `head` on (`slice`), and its tail is the cell behind it
(`Occupies`).  A program copies straight pieces of the array only, pieces that do not cross its end;
the lemmas say what such a copy is for the slice.

* `slice_add`: a slice in two parts.
* `slice_eq_segment`: a slice that does not cross the end is a straight piece.
* `slice_write_self`, `slice_write_behind`: a write at the tail appends to the slice.
-/

namespace MangoCore.Ring

open List

variable {α : Type} {cells : ℕ → α} {start : ℕ}

/-- The cell that `i` steps lead to. -/
theorem mod_eq_ite {c x : ℕ} (h : x < 2 * c) : x % c = if x < c then x else x - c := by
  split_ifs with hx
  · exact Nat.mod_eq_of_lt hx
  · rw [Nat.mod_eq_sub_mod (by omega), Nat.mod_eq_of_lt (by omega)]

section

variable (cells : ℕ → α)

variable (start c head n : ℕ)

/-- `n` cells of the ring from a cell on. -/
def slice : List α :=
  (range n).map fun i => cells ((head + i) % c)

/-- A straight piece of the array. -/
def segment : List α := (range' start n).map cells

/-- The array with a list written from a cell on. -/
def write (l : List α) : ℕ → α := fun k =>
  if h : start ≤ k ∧ k - start < l.length then l.get ⟨k - start, h.2⟩ else cells k

@[simp] theorem length_slice : (slice cells c head n).length = n := by simp [slice]

@[simp] theorem length_segment {n : ℕ} : (segment cells start n).length = n := by simp [segment]

/-- **A slice is a first part and the slice behind it.** -/
theorem slice_add (m n : ℕ) :
    slice cells c head (m + n) = slice cells c head m ++ slice cells c ((head + m) % c) n := by
  grind [slice, range_add, map_congr_left, Nat.mod_add_mod]

end

theorem slice_eq_segment {c head n : ℕ} (h : head + n ≤ c) :
    slice cells c head n = segment cells head n := by
  unfold slice segment
  rw [range'_eq_map_range, map_map]
  refine map_congr_left fun i hi => ?_
  rw [mem_range] at hi
  rw [Function.comp_apply, Nat.mod_eq_of_lt (by omega)]

theorem segment_append {m n : ℕ} :
    segment cells start m ++ segment cells (start + m) n = segment cells start (m + n) := by
  rw [segment, segment, segment, ← map_append, range'_append_1]

theorem take_segment {m n : ℕ} (h : n ≤ m) :
    (segment cells start m).take n = segment cells start n := by
  rw [← Nat.add_sub_cancel' h, ← segment_append]
  exact take_left' (length_segment ..)

/-- The written cells hold the list. -/
theorem slice_write_self {c : ℕ} {l : List α} (h : start + l.length ≤ c) :
    slice (write cells start l) c start l.length = l := by
  refine ext_get (by simp) fun i hi hi' => ?_
  simp only [slice, get_eq_getElem, getElem_map, getElem_range]
  rw [Nat.mod_eq_of_lt (by omega), write, dif_pos ⟨by omega, by omega⟩]
  simp

/-- A write outside the slice does not change it. -/
theorem slice_write_of_ne {c head n : ℕ} {l : List α}
    (h : ∀ i < n, ¬ (start ≤ (head + i) % c ∧ (head + i) % c < start + l.length)) :
    slice (write cells start l) c head n = slice cells c head n := by
  unfold slice
  refine map_congr_left fun i hi => dif_neg fun hin => ?_
  exact h i (mem_range.mp hi) ⟨hin.1, by omega⟩

/-- `u` cells from `head` on are in use, and `tail` is the cell behind them. -/
structure Occupies (c head tail u : ℕ) : Prop where
  head_lt : head < c
  tail_lt : tail < c
  used_le : u ≤ c
  tail_eq : tail = (head + u) % c

namespace Occupies

variable {c head tail u n : ℕ} {cells : ℕ → α} (h : Occupies c head tail u) {l : List α}
include h

theorem tail_eq_ite : tail = if head + u < c then head + u else head + u - c := by
  have := h.head_lt
  have := h.used_le
  rw [h.tail_eq, mod_eq_ite (by omega)]

/-- A write at the tail into free cells does not change the cells in use. -/
theorem slice_write_behind (hfree : u + l.length ≤ c) :
    slice (write cells tail l) c head u = slice cells c head u := by
  refine slice_write_of_ne fun i hi hin => ?_
  have hhead := h.head_lt
  have htail := h.tail_eq_ite
  rw [mod_eq_ite (by omega)] at hin
  split_ifs at hin htail <;> omega

/-- **A write at the tail appends.** -/
theorem slice_write (hfree : u + l.length ≤ c) (hend : tail + l.length ≤ c) :
    slice (write cells tail l) c head (u + l.length) = slice cells c head u ++ l := by
  rw [slice_add, h.slice_write_behind hfree, ← h.tail_eq, slice_write_self hend]

/-- The head moves over the first `n` cells in use. -/
theorem advance_head (hn : n ≤ u) (hend : head + n ≤ c) :
    Occupies c (if head + n = c then 0 else head + n) tail (u - n) := by
  have hhead := h.head_lt
  have htail := h.tail_eq_ite
  have hused := h.used_le
  refine ⟨by split_ifs <;> omega, h.tail_lt, by omega, ?_⟩
  split_ifs at htail ⊢ <;> rw [mod_eq_ite (by omega)] <;> split_ifs <;> omega

/-- The tail moves over `n` free cells. -/
theorem advance_tail (hn : u + n ≤ c) (hend : tail + n ≤ c) :
    Occupies c head (if tail + n = c then 0 else tail + n) (u + n) := by
  have hhead := h.head_lt
  have htail := h.tail_eq_ite
  refine ⟨hhead, by split_ifs <;> omega, hn, ?_⟩
  split_ifs at htail ⊢ <;> rw [mod_eq_ite (by omega)] <;> split_ifs <;> omega

/-- The head after the step, for the slice. -/
theorem head_add_mod (hend : head + n ≤ c) :
    (head + n) % c = if head + n = c then 0 else head + n := by
  have hhead := h.head_lt
  split_ifs with heq
  · rw [heq, Nat.mod_self]
  · exact Nat.mod_eq_of_lt (by omega)

/-- Head and tail meet in an empty ring and in a full one. -/
theorem head_eq_tail_iff : head = tail ↔ u = 0 ∨ u = c := by grind [h.head_lt, h.tail_eq_ite]

/-- The straight piece of used cells from the head on. -/
theorem straight_used (hpos : 0 < u) :
    let stop := if tail ≤ head then c else tail
    stop - head ≤ u ∧ 0 < stop - head ∧ stop ≤ c := by
  grind [h.head_lt, h.tail_eq_ite, h.used_le]

/-- The straight piece of free cells from the tail on. -/
theorem straight_free (hpos : u < c) :
    let stop := if tail < head then head else c
    stop - tail ≤ c - u ∧ 0 < stop - tail ∧ stop ≤ c := by
  grind [h.head_lt, h.tail_eq_ite]

end Occupies
end MangoCore.Ring
