import Mathlib.Data.List.InsertIdx
import Mathlib.Data.List.Nodup

/-!
# Mailboxes

A mailbox is a queue of items with its history: every item gets a number when it is put in, and the
items that were taken out are kept in the order in which they were taken.  Items may be put in and
taken out anywhere.

`Ordered key` says what a client of a queue wants to know.  No number occurs twice, so no item is
taken twice; and among the items of one class (those with the same `key`) the items are taken in the
order of their numbers.  It is kept as long as an item is put behind those of its class, and the
item taken is the first of its class.
-/

namespace MangoCore

open List

universe u v

/-- A queue of numbered items with the items taken from it. -/
structure Mailbox (α : Type u) where
  waiting : List (ℕ × α)
  taken : List (ℕ × α)
  /-- The number of the next item. -/
  next : ℕ

namespace Mailbox

variable {α : Type u} {κ : Type v}

def empty : Mailbox α := ⟨[], [], 0⟩

section

variable (b : Mailbox α)

/-- The items in the queue. -/
def contents : List α := b.waiting.map Prod.snd

variable (i pos : ℕ) (a : α)

/-- A new item at a position. -/
def put : Mailbox α :=
  { b with waiting := b.waiting.insertIdx pos (b.next, a), next := b.next + 1 }

/-- The item at a position is taken. -/
def take : Mailbox α :=
  { b with waiting := b.waiting.eraseIdx i, taken := b.taken ++ (b.waiting[i]?).toList }

/-- All waiting items are thrown away. -/
def discard : Mailbox α := { b with waiting := [] }

theorem contents_put : (b.put pos a).contents = b.contents.insertIdx pos a := by
  rw [contents, put, map_insertIdx, contents]

theorem contents_take : (b.take i).contents = b.contents.eraseIdx i := by
  exact (eraseIdx_map ..).symm

end

theorem insertIdx_eq_append (a : α) : ∀ {l : List α} {n : ℕ}, n ≤ l.length →
    l.insertIdx n a = l.take n ++ a :: l.drop n
  | _, 0, _ => rfl
  | b :: l, n + 1, h => by
      rw [insertIdx_succ_cons, insertIdx_eq_append a (Nat.le_of_succ_le_succ h)]
      rfl

/-- The relation between two items of which the first is to be taken first. -/
def Before (key : α → κ) (x y : ℕ × α) : Prop := key x.2 = key y.2 → x.1 < y.1

/-- **No item twice, and each class in order.** -/
structure Ordered (key : α → κ) (b : Mailbox α) : Prop where
  lt_next : ∀ x ∈ b.taken ++ b.waiting, x.1 < b.next
  nodup : ((b.taken ++ b.waiting).map Prod.fst).Nodup
  before : (b.taken ++ b.waiting).Pairwise (Before key)

namespace Ordered

variable {key : α → κ} {b : Mailbox α}

theorem empty : Ordered key (Mailbox.empty : Mailbox α) :=
  ⟨nofun, nodup_nil, .nil⟩

theorem discard (h : Ordered key b) : Ordered key b.discard := by
  have hsub : (b.taken ++ []).Sublist (b.taken ++ b.waiting) :=
    (List.Sublist.refl _).append (nil_sublist _)
  exact ⟨fun x hx => h.lt_next x (hsub.subset hx), (hsub.map _).nodup h.nodup,
    h.before.sublist hsub⟩

/-- **Putting an item behind those of its class.** -/
theorem put (h : Ordered key b) {pos : ℕ} {a : α} (hpos : pos ≤ b.waiting.length)
    (hlast : ∀ x ∈ b.waiting.drop pos, key x.2 ≠ key a) : Ordered key (b.put pos a) := by
  have hsplit : b.waiting.insertIdx pos (b.next, a) =
      b.waiting.take pos ++ (b.next, a) :: b.waiting.drop pos := insertIdx_eq_append _ hpos
  have hperm : (b.taken ++ b.waiting.insertIdx pos (b.next, a)).Perm
      ((b.next, a) :: (b.taken ++ b.waiting)) :=
    ((perm_insertIdx _ _ hpos).append_left _).trans perm_middle
  have hnew : ∀ x ∈ b.taken ++ b.waiting, x.1 < b.next := h.lt_next
  refine ⟨fun x hx => ?_, ?_, ?_⟩
  · rcases mem_cons.mp (hperm.mem_iff.mp hx) with rfl | hx
    · exact Nat.lt_add_one _
    · exact Nat.lt_succ_of_lt (hnew x hx)
  · refine ((hperm.map Prod.fst).nodup_iff).mpr (nodup_cons.mpr ⟨fun hmem => ?_, h.nodup⟩)
    obtain ⟨x, hx, hfst⟩ := mem_map.mp hmem
    exact absurd hfst (Nat.ne_of_lt (hnew x hx))
  · have hold := h.before
    rw [← take_append_drop pos b.waiting, ← append_assoc] at hold
    obtain ⟨hfront, hback, hcross⟩ := pairwise_append.mp hold
    show (b.taken ++ b.waiting.insertIdx pos (b.next, a)).Pairwise (Before key)
    rw [hsplit, ← append_assoc]
    refine pairwise_append.mpr ⟨hfront, pairwise_cons.mpr ⟨fun y hy hkey => ?_, hback⟩,
      fun x hx y hy => ?_⟩
    · exact absurd hkey.symm (hlast y hy)
    · rcases mem_cons.mp hy with rfl | hy
      · -- everything older has a smaller number
        refine fun _ => hnew x ?_
        rcases mem_append.mp hx with hx | hx
        · exact mem_append_left _ hx
        · exact mem_append_right _ (mem_of_mem_take hx)
      · exact hcross x hx y hy

/-- **Taking the first item of its class.** -/
theorem take (h : Ordered key b) {i : ℕ} {x : ℕ × α} (hi : b.waiting[i]? = some x)
    (hfirst : ∀ y ∈ b.waiting.take i, key y.2 ≠ key x.2) : Ordered key (b.take i) := by
  obtain ⟨hlt, rfl⟩ := List.getElem?_eq_some_iff.mp hi
  have hsplit : b.waiting = b.waiting.take i ++ b.waiting[i] :: b.waiting.drop (i + 1) := by
    rw [List.getElem_cons_drop, List.take_append_drop]
  have hafter : (b.take i).taken ++ (b.take i).waiting =
      (b.taken ++ [b.waiting[i]]) ++ (b.waiting.take i ++ b.waiting.drop (i + 1)) := by
    rw [Mailbox.take, hi, Option.toList_some, eraseIdx_eq_take_drop_succ]
  have hperm : ((b.take i).taken ++ (b.take i).waiting).Perm (b.taken ++ b.waiting) := by
    rw [hafter, append_assoc]
    refine .append_left _ ?_
    conv_rhs => rw [hsplit]
    rw [singleton_append]
    exact perm_middle.symm
  refine ⟨fun y hy => h.lt_next y (hperm.mem_iff.mp hy), (hperm.map _).nodup_iff.mpr h.nodup, ?_⟩
  have hold := h.before
  rw [hsplit] at hold
  obtain ⟨htaken, hwaiting, hcross⟩ := pairwise_append.mp hold
  obtain ⟨hfront, hback, hfb⟩ := pairwise_append.mp hwaiting
  obtain ⟨hxback, hback⟩ := pairwise_cons.mp hback
  rw [hafter]
  refine pairwise_append.mpr ⟨pairwise_append.mpr ⟨htaken, pairwise_singleton ..,
    fun y hy z hz => ?_⟩, pairwise_append.mpr ⟨hfront, hback, fun y hy z hz => ?_⟩,
    fun y hy z hz => ?_⟩
  · grind
  · exact hfb y hy z (mem_cons_of_mem _ hz)
  · rcases mem_append.mp hy with hy | hy
    · grind
    · rw [mem_singleton.mp hy]
      rcases mem_append.mp hz with hz | hz
      · exact fun hkey => absurd hkey.symm (hfirst z hz)
      · exact hxback z hz

end Ordered
end Mailbox
end MangoCore
