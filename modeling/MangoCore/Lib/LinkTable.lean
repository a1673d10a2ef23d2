import Mathlib.Data.List.Chain
import Mathlib.Data.List.Nodup

/-!
# Chains in a table of links

A table gives every cell the name of the cell after it or an end mark.  A list of cells is linked
when each cell names the next one and the last one carries an end mark.  Such a list is determined
by its first cell, grows by writing two entries and is cut by writing one.

* `Linked`, `Linked.congr`;
* `Linked.append_one`, `Linked.cut`;
* `follow`, `follow_of_linked`: walking the table from the first cell gives the list back.
-/

namespace MangoCore.LinkTable

open List

universe u

variable {α : Type u} (isEnd : α → Prop)

/-- Each cell of the list names the next one, and the last one carries an end mark. -/
def Linked (next : α → α) (l : List α) : Prop :=
  l.IsChain (fun a b => next a = b) ∧ ∀ t ∈ l.getLast?, isEnd (next t)

variable {isEnd} {next next' : α → α} {l m : List α} {c : α} {a : α}

theorem linked_nil : Linked isEnd next [] :=
  ⟨.nil, fun _ ht => nomatch ht⟩

/-- Only the entries of the cells matter. -/
theorem Linked.congr (h : Linked isEnd next l) (heq : ∀ a ∈ l, next' a = next a) :
    Linked isEnd next' l := by
  refine ⟨h.1.imp_of_mem_imp fun a b ha _ hab => (heq a ha).trans hab, fun t ht => ?_⟩
  rw [heq t (mem_of_getLast? ht)]
  exact h.2 t ht

/-- An entry of a chain is an end mark or names a cell of the chain. -/
theorem Linked.isEnd_or_mem (h : Linked isEnd next l) (ha : a ∈ l) :
    isEnd (next a) ∨ next a ∈ l := by
  induction l with
  | nil => cases ha
  | cons x l ih =>
    cases l with
    | nil =>
      obtain rfl := mem_singleton.mp ha
      exact .inl (h.2 a rfl)
    | cons y l => grind [Linked]

/-- The entry of the last cell names no cell of the list. -/
theorem isChain_of_eq_off_last (h : l.IsChain fun a b => next a = b) (hnodup : l.Nodup)
    (heq : ∀ a ∈ l, a ∉ l.getLast? → next' a = next a) : l.IsChain fun a b => next' a = b := by
  refine isChain_iff_getElem.mpr fun i hi => ?_
  have hne : l[i] ∉ l.getLast? := by grind [List.Nodup.getElem_inj_iff]
  rw [heq _ (getElem_mem _) hne]
  exact isChain_iff_getElem.mp h i hi

/-- A new cell that carries an end mark is appended by naming it in the last cell. -/
theorem Linked.append_one (h : Linked isEnd next l) (hnodup : l.Nodup) (hend : isEnd (next' c))
    (hlast : ∀ t ∈ l.getLast?, next' t = c)
    (heq : ∀ a ∈ l, a ∉ l.getLast? → next' a = next a) : Linked isEnd next' (l ++ [c]) := by
  refine ⟨isChain_append.mpr ⟨isChain_of_eq_off_last h.1 hnodup heq,
    isChain_singleton c, ?_⟩, fun t ht => ?_⟩
  · intro t ht y hy
    cases hy
    exact hlast t ht
  · grind

/-- The list is cut by an end mark in the cell before the cut. -/
theorem Linked.cut (h : Linked isEnd next (l ++ m)) (hnodup : l.Nodup)
    (hend : ∀ t ∈ l.getLast?, isEnd (next' t))
    (heq : ∀ a ∈ l, a ∉ l.getLast? → next' a = next a) : Linked isEnd next' l :=
  ⟨isChain_of_eq_off_last h.1.left_of_append hnodup heq, hend⟩

/-! ## Walking a chain -/

/-- The cells from `a` on, up to an entry at which the walk stops.  The walk has no result when the
fuel does not suffice. -/
def follow (stop : α → Bool) (next : α → α) : ℕ → α → Option (List α)
  | 0, _ => none
  | fuel + 1, a =>
    if stop (next a) then some [a]
    else (follow stop next fuel (next a)).map (a :: ·)

/-- **The walk from the first cell of a chain gives the chain**, when no cell is a stop. -/
theorem follow_of_linked {stop : α → Bool} (hstop : ∀ a, isEnd a → stop a = true)
    (h : Linked isEnd next (a :: l)) (hcell : ∀ b ∈ l, stop b = false) {fuel : ℕ}
    (hfuel : l.length < fuel) : follow stop next fuel a = some (a :: l) := by
  induction l generalizing a fuel with
  | nil =>
    cases fuel with
    | zero => cases hfuel
    | succ fuel => rw [follow, if_pos (hstop _ (h.2 a rfl))]
  | cons b l ih =>
    cases fuel with
    | zero => cases hfuel
    | succ fuel =>
      obtain ⟨hab, hrest⟩ := isChain_cons_cons.mp h.1
      have hlinked : Linked isEnd next (b :: l) :=
        ⟨hrest, fun t ht => h.2 t (by rwa [getLast?_cons_cons])⟩
      have hb : stop (next a) = false := by
        rw [hab]
        exact hcell b mem_cons_self
      rw [follow, hb, hab, ih hlinked (fun x hx => hcell x (mem_cons_of_mem _ hx))
        (Nat.lt_of_succ_lt_succ hfuel)]
      rfl
end MangoCore.LinkTable
