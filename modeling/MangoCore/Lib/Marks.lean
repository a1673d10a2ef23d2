import Mathlib.Data.List.Range

/-!
# Tables of marks over ranges of numbers

A range of numbers that begins at `start` has a table with one mark for each of its numbers.  A mark
is read with `markAt` and written with `setMark`, or with `setMarks` for a run of consecutive
numbers; numbers outside the table read as unmarked and writing them does nothing.

Several such ranges that share no number are kept in a list, and a write finds its range with a test
(`modifyFirst`).  `any_modifyFirst` says that the write then changes the marks of the written
numbers and no others, whatever range they are in.
-/

namespace MangoCore

open List

/-! ## One table -/

section

variable (start : ℕ) (marks : List Bool) (n : ℕ) (value : Bool)

/-- The mark of a number. -/
def markAt : Bool :=
  if start ≤ n then marks.getD (n - start) false else false

/-- The table with one mark changed. -/
def setMark : List Bool :=
  if start ≤ n then marks.set (n - start) value else marks

/-- The table with the marks of `count` numbers from `first` on changed. -/
def setMarks (first count : ℕ) : List Bool :=
  (range' first count).foldl (fun marks n => setMark start marks n value) marks

end

variable {start : ℕ} {marks : List Bool} {value : Bool} {n : ℕ} {m : ℕ}

@[simp] theorem length_setMark (n : ℕ) : (setMark start marks n value).length = marks.length := by
  unfold setMark
  split_ifs <;> simp

theorem length_foldl_setMark {l : List ℕ} :
    (l.foldl (fun marks n => setMark start marks n value) marks).length = marks.length := by
  induction l generalizing marks with
  | nil => rfl
  | cons n l ih => rw [foldl_cons, ih, length_setMark]

@[simp] theorem length_setMarks (first count : ℕ) :
    (setMarks start marks value first count).length = marks.length :=
  length_foldl_setMark

/-- Only numbers of the table are marked. -/
theorem mem_table_of_markAt (h : markAt start marks n = true) :
    start ≤ n ∧ n < start + marks.length := by
  grind [markAt]

theorem markAt_replicate (count n : ℕ) : markAt start (replicate count value) n
      = (decide (start ≤ n ∧ n < start + count) && value) := by
  unfold markAt
  by_cases hle : start ≤ n
  · grind
  · rw [if_neg hle, decide_eq_false (by omega), Bool.false_and]

/-- A write inside the table changes one mark. -/
theorem markAt_setMark (hn : start ≤ n ∧ n < start + marks.length) :
    markAt start (setMark start marks n value) m
      = if m = n then value else markAt start marks m := by
  unfold markAt setMark
  rw [if_pos hn.1]
  by_cases hm : start ≤ m
  · grind
  · rw [if_neg hm, if_neg hm, if_neg (by omega)]

theorem markAt_foldl_setMark {l : List ℕ} (marks : List Bool)
    (hl : ∀ n ∈ l, start ≤ n ∧ n < start + marks.length) :
    markAt start (l.foldl (fun marks n => setMark start marks n value) marks) m
      = if m ∈ l then value else markAt start marks m := by
  induction l generalizing marks with
  | nil => simp
  | cons n l ih =>
    rw [foldl_cons, ih _ (fun k hk => by
      rw [length_setMark]; exact hl k (mem_cons_of_mem _ hk)),
      markAt_setMark (hl n mem_cons_self)]
    by_cases hm : m ∈ l
    · rw [if_pos hm, if_pos (mem_cons_of_mem _ hm)]
    · grind

/-- A write of consecutive numbers inside the table changes their marks. -/
theorem markAt_setMarks {first count : ℕ}
    (h : start ≤ first ∧ first + count ≤ start + marks.length) :
    markAt start (setMarks start marks value first count) m
      = if m ∈ range' first count then value else markAt start marks m := by
  refine markAt_foldl_setMark _ (fun n hn => ?_)
  rw [mem_range'_1] at hn
  omega

/-! ## A list of tables -/

/-- The first element that passes a test is changed. -/
def modifyFirst {α : Type} (p : α → Bool) (f : α → α) : List α → List α
  | [] => []
  | a :: l => if p a then f a :: l else a :: modifyFirst p f l

section ModifyFirst

variable {α : Type} {p : α → Bool} {f : α → α} {mark : α → ℕ → Bool} {l : List α}
  {has : α → ℕ → Prop}

/-- What the change keeps of an element it keeps of the list. -/
theorem map_modifyFirst {β : Type} {g : α → β} (hg : ∀ a, g (f a) = g a) :
    (modifyFirst p f l).map g = l.map g := by
  induction l with
  | nil => rfl
  | cons a l ih => grind [modifyFirst]

/-- **A write through the first matching range.**  The ranges of the list share no number (`has`), a
matching range has all the written numbers, and in it the write changes exactly their marks. -/
theorem any_modifyFirst {written : ℕ → Prop}
    [DecidablePred written] (hmark : ∀ a ∈ l, ∀ n, mark a n = true → has a n)
    (hhas : ∀ a, p a = true → ∀ n, written n → has a n)
    (hwrite : ∀ a, p a = true → ∀ n, mark (f a) n = if written n then value else mark a n)
    (hdisj : l.Pairwise fun a b => ∀ n, has a n → ¬ has b n) (hfound : l.any p = true) (n : ℕ) :
    (modifyFirst p f l).any (fun a => mark a n)
      = if written n then value else l.any fun a => mark a n := by
  induction l with
  | nil => exact Bool.noConfusion hfound
  | cons a l ih =>
    have hd := pairwise_cons.mp hdisj
    unfold modifyFirst
    by_cases hp : p a = true
    · -- the ranges behind the first match do not have the written numbers
      rw [if_pos hp, any_cons, any_cons, hwrite a hp]
      by_cases hw : written n
      · grind
      · rw [if_neg hw, if_neg hw]
    · rw [if_neg hp, any_cons, any_cons]
      rw [any_cons, Bool.eq_false_iff.mpr hp, Bool.false_or] at hfound
      rw [ih (fun b hb => hmark b (mem_cons_of_mem _ hb)) hd.2 hfound]
      by_cases hw : written n
      · grind
      · rw [if_neg hw, if_neg hw]

/-- A marked number has its mark in the range that has the number. -/
theorem mark_of_any (hmark : ∀ a ∈ l, ∀ n, mark a n = true → has a n)
    (hdisj : l.Pairwise fun a b => ∀ n, has a n → ¬ has b n)
    (hany : (l.any fun a => mark a n) = true) {a : α} (ha : a ∈ l) (hn : has a n) :
    mark a n = true := by
  obtain ⟨b, hb, hbn⟩ := any_eq_true.mp hany
  induction l with
  | nil => exact absurd ha not_mem_nil
  | cons c l ih =>
    have hd := pairwise_cons.mp hdisj
    rcases mem_cons.mp ha with rfl | ha'
    all_goals grind

end ModifyFirst
end MangoCore
