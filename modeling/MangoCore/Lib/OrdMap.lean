import Mathlib.Algebra.Order.Ring.Int
import Mathlib.Data.List.Nodup

/-!
# Ordered maps

An ordered map is a list of key/value pairs whose keys strictly increase.  This is the part of a
balanced search tree that a client can observe: lookup, insertion, removal, and the neighbours of a
key in either direction.  Everything below is stated through `get?`, so that a client never has to
look at the list.

* `get?_insert`, `get?_erase`, `get?_retain`, `get?_mapValues`: what an update does to every lookup.
* `lastWhere?_eq_some_iff`, `firstWhere?_eq_some_iff`: the greatest and the least key of a class,
  with the four neighbours `lastLE?`, `lastLT?`, `firstGE?` and `firstGT?` as instances.
* `sum_insert`, `sum_erase`: how a weight summed over the entries follows an update.
-/

namespace MangoCore

open List

universe u v

/-- A map with its entries in strictly increasing order of their keys. -/
structure OrdMap (K : Type u) (V : Type v) [LinearOrder K] where
  entries : List (K × V)
  sorted : entries.Pairwise fun x y => x.1 < y.1

namespace OrdMap

variable {K : Type u} {V : Type v} [LinearOrder K] {m : OrdMap K V} {k b : K} {v : V} {p : K → Bool}
  {w : V → ℕ}

/-! ## Operations -/

/-- The map with no entry. -/
def empty : OrdMap K V := ⟨[], List.Pairwise.nil⟩

section

variable (m : OrdMap K V)

/-- The value stored at a key. -/
def get? (k : K) : Option V :=
  (m.entries.find? fun e => e.1 = k).map Prod.snd

/-- Insertion into a sorted list of entries; an entry of the same key is replaced. -/
def insertList (k : K) (v : V) : List (K × V) → List (K × V)
  | [] => [(k, v)]
  | e :: l =>
    if k < e.1 then (k, v) :: e :: l
    else if k = e.1 then (k, v) :: l
    else e :: insertList k v l

theorem mem_insertList_of_sorted {x : K × V} :
    ∀ {l : List (K × V)}, l.Pairwise (fun x y => x.1 < y.1) →
      (x ∈ insertList k v l ↔ x = (k, v) ∨ (x ∈ l ∧ x.1 ≠ k))
  | [], _ => by simp [insertList]
  | e :: l, h => by
    obtain ⟨hhead, htail⟩ := pairwise_cons.mp h
    unfold insertList
    split_ifs with hlt heq
    · -- the new key goes in front, so no entry has it
      constructor
      · intro hx
        rcases mem_cons.mp hx with rfl | hx
        · exact .inl rfl
        · refine .inr ⟨hx, ?_⟩
          rcases mem_cons.mp hx with rfl | hx
          · exact hlt.ne'
          · exact (hlt.trans (hhead x hx)).ne'
      · rintro (rfl | ⟨hx, -⟩)
        · exact mem_cons_self
        · exact mem_cons_of_mem _ hx
    · -- the head has the key and is replaced
      constructor
      · intro hx
        rcases mem_cons.mp hx with rfl | hx
        · exact .inl rfl
        · refine .inr ⟨mem_cons_of_mem _ hx, ?_⟩
          rw [heq]
          exact (hhead x hx).ne'
      · rintro (rfl | ⟨hx, hne⟩)
        · exact mem_cons_self
        · rcases mem_cons.mp hx with rfl | hx
          · exact absurd heq.symm hne
          · exact mem_cons_of_mem _ hx
    · rw [mem_cons, mem_insertList_of_sorted htail, mem_cons]
      constructor
      · rintro (rfl | rfl | ⟨hx, hne⟩)
        · exact .inr ⟨.inl rfl, fun h => heq h.symm⟩
        · exact .inl rfl
        · exact .inr ⟨.inr hx, hne⟩
      · rintro (rfl | ⟨rfl | hx, hne⟩)
        · exact .inr (.inl rfl)
        · exact .inl rfl
        · exact .inr (.inr ⟨hx, hne⟩)

theorem insertList_sorted (k : K) (v : V) :
    ∀ {l : List (K × V)}, l.Pairwise (fun x y => x.1 < y.1) →
      (insertList k v l).Pairwise fun x y => x.1 < y.1
  | [], _ => by simp [insertList]
  | e :: l, h => by
    obtain ⟨hhead, htail⟩ := pairwise_cons.mp h
    unfold insertList
    split_ifs with hlt heq
    · refine pairwise_cons.mpr ⟨fun x hx => ?_, h⟩
      rcases mem_cons.mp hx with rfl | hx
      · exact hlt
      · exact hlt.trans (hhead x hx)
    · refine pairwise_cons.mpr ⟨fun x hx => ?_, htail⟩
      show k < x.1
      rw [heq]
      exact hhead x hx
    · refine pairwise_cons.mpr ⟨fun x hx => ?_, insertList_sorted k v htail⟩
      rcases (mem_insertList_of_sorted htail).mp hx with rfl | ⟨hx, -⟩
      · exact lt_of_le_of_ne (not_lt.mp hlt) fun h => heq h.symm
      · exact hhead x hx

section

variable (p : K → Bool) (k : K)

/-- Insertion; an earlier value of the key is replaced. -/
def insert (v : V) : OrdMap K V :=
  ⟨insertList k v m.entries, insertList_sorted k v m.sorted⟩

/-- The entries that satisfy a test. -/
def retain (p : K → V → Bool) : OrdMap K V :=
  ⟨m.entries.filter fun e => p e.1 e.2, m.sorted.filter _⟩

/-- Removal of a key. -/
def erase : OrdMap K V :=
  m.retain fun k' _ => k' ≠ k

/-- All values changed in the same way. -/
def mapValues (f : V → V) : OrdMap K V :=
  ⟨m.entries.map fun e => (e.1, f e.2), pairwise_map.mpr m.sorted⟩

/-- The entry of the greatest key in a class of keys. -/
def lastWhere? : Option (K × V) :=
  (m.entries.filter fun e => p e.1).getLast?

/-- The entry of the least key in a class of keys. -/
def firstWhere? : Option (K × V) :=
  (m.entries.filter fun e => p e.1).head?

/-- The last entry at or before a key: `range(..=k).next_back()`. -/
def lastLE? : Option (K × V) := m.lastWhere? fun k' => k' ≤ k

/-- The last entry before a key: `range(..k).next_back()`. -/
def lastLT? : Option (K × V) := m.lastWhere? fun k' => k' < k

/-- The first entry at or after a key: `range(k..).next()`. -/
def firstGE? : Option (K × V) := m.firstWhere? fun k' => k ≤ k'

end

/-- The sum of a weight over all entries. -/
def sum (m : OrdMap K V) (w : V → ℕ) : ℕ := (m.entries.map fun e => w e.2).sum

/-- The number of entries. -/
def size : ℕ := m.entries.length

/-! ## Lookup -/

theorem nodup_keys : (m.entries.map Prod.fst).Nodup := by
  rw [Nodup, pairwise_map]
  exact m.sorted.imp fun h => h.ne

end

theorem eq_of_mem_of_fst_eq {x y : K × V} (hx : x ∈ m.entries)
    (hy : y ∈ m.entries) (h : x.1 = y.1) : x = y :=
  inj_on_of_nodup_map m.nodup_keys hx hy h

/-- **Membership is lookup.** -/
theorem mem_entries_iff : (k, v) ∈ m.entries ↔ m.get? k = some v := by
  unfold get?
  constructor
  · intro h
    cases hf : m.entries.find? (fun e => e.1 = k) with
    | none =>
      have := find?_eq_none.mp hf (k, v) h
      simp at this
    | some e => grind [eq_of_mem_of_fst_eq]
  · grind [Option.map_eq_some_iff]

theorem get?_eq_none_iff : m.get? k = none ↔ ∀ v, m.get? k ≠ some v := by
  cases m.get? k <;> simp

@[simp] theorem get?_empty (k : K) : (empty : OrdMap K V).get? k = none := rfl

section

variable (m : OrdMap K V) {k' : K}

theorem get?_insert :
    (m.insert k v).get? k' = if k' = k then some v else m.get? k' := by
  apply Option.ext
  intro w
  rw [← mem_entries_iff, insert, mem_insertList_of_sorted m.sorted, Prod.mk.injEq, mem_entries_iff]
  split_ifs with h
  · simp [h, eq_comm]
  · simp [h]

@[simp] theorem get?_insert_self : (m.insert k v).get? k = some v := by
  rw [get?_insert, if_pos rfl]

theorem get?_insert_of_ne (h : k' ≠ k) : (m.insert k v).get? k' = m.get? k' := by
  rw [get?_insert, if_neg h]

/-- The entries of a map after an insertion. -/
theorem get?_insert_cases {m : OrdMap K V} {w : V} (h : (m.insert k v).get? k' = some w) :
    k' = k ∧ w = v ∨ k' ≠ k ∧ m.get? k' = some w := by
  rw [get?_insert] at h
  split_ifs at h with hk
  · exact .inl ⟨hk, (Option.some.inj h).symm⟩
  · exact .inr ⟨hk, h⟩

theorem get?_retain {p : K → V → Bool} : (m.retain p).get? k = (m.get? k).filter (p k) := by
  apply Option.ext
  intro v
  rw [← mem_entries_iff, retain, mem_filter, mem_entries_iff, Option.filter_eq_some_iff]

theorem get?_mapValues {f : V → V} : (m.mapValues f).get? k = (m.get? k).map f := by
  apply Option.ext
  intro v
  rw [← mem_entries_iff, mapValues, mem_map, Option.map_eq_some_iff]
  constructor
  · grind [mem_entries_iff]
  · simp [mem_entries_iff]

theorem get?_erase : (m.erase k).get? k' = if k' = k then none else m.get? k' := by
  grind [get?, retain, erase.eq_1]

@[simp] theorem get?_erase_self : (m.erase k).get? k = none := by
  rw [get?_erase, if_pos rfl]

theorem get?_erase_of_ne (h : k' ≠ k) : (m.erase k).get? k' = m.get? k' := by
  rw [get?_erase, if_neg h]

end

/-- Two maps with the same lookups are equal. -/
theorem ext_get? {n : OrdMap K V} (h : ∀ k, m.get? k = n.get? k) : m = n := by
  have hnodup : ∀ m : OrdMap K V, m.entries.Nodup := fun m =>
    m.sorted.imp fun hlt heq => hlt.ne (congrArg Prod.fst heq)
  have hperm : m.entries.Perm n.entries := by grind [perm_ext_iff_of_nodup, mem_entries_iff]
  have heq : m.entries = n.entries :=
    hperm.eq_of_pairwise (fun a b _ _ hab hba => absurd hab hba.not_gt) m.sorted n.sorted
  cases m
  cases n
  cases heq
  rfl

/-- Removing a key that has just been inserted. -/
theorem erase_insert_self (h : m.get? k = none) : (m.insert k v).erase k = m := by
  refine ext_get? fun k' => ?_
  by_cases hk : k' = k
  · rw [hk, get?_erase_self, h]
  · rw [get?_erase_of_ne _ hk, get?_insert_of_ne _ hk]

/-- Replacing a value is removing the key and inserting it again. -/
theorem insert_erase_self : (m.erase k).insert k v = m.insert k v := by
  apply ext_get?
  intro k'
  rw [get?_insert, get?_insert, get?_erase]
  split_ifs <;> rfl

/-! ## Neighbours -/

theorem mem_class_iff :
    (k, v) ∈ m.entries.filter (fun e => p e.1) ↔ m.get? k = some v ∧ p k = true := by
  rw [mem_filter, mem_entries_iff]

/-- **The greatest key of a class.** -/
theorem lastWhere?_eq_some_iff : m.lastWhere? p = some (k, v) ↔ m.get? k = some v ∧ p k = true ∧
        ∀ k' v', m.get? k' = some v' → p k' = true → k' ≤ k := by
  have hsorted := m.sorted.filter fun e => p e.1
  unfold lastWhere?
  constructor
  · intro h
    have hmem := mem_class_iff.mp (mem_of_getLast? h)
    refine ⟨hmem.1, hmem.2, fun k' v' hk' hp => ?_⟩
    have hmem' := mem_class_iff.mpr ⟨hk', hp⟩
    grind [getLast?_eq_some_iff, mem_cons_self]
  · rintro ⟨hk, hp, hmax⟩
    have hmem := mem_class_iff.mpr ⟨hk, hp⟩
    grind [getLast?_eq_some_iff, mem_cons_self, mem_entries_iff]

theorem lastWhere?_eq_none_iff :
    m.lastWhere? p = none ↔ ∀ k v, m.get? k = some v → p k = false := by
  unfold lastWhere?
  simp [mem_entries_iff]

/-- **The least key of a class.** -/
theorem firstWhere?_eq_some_iff : m.firstWhere? p = some (k, v) ↔ m.get? k = some v ∧ p k = true ∧
        ∀ k' v', m.get? k' = some v' → p k' = true → k ≤ k' := by
  have hsorted := m.sorted.filter fun e => p e.1
  unfold firstWhere?
  constructor
  · intro h
    have hmem := mem_class_iff.mp (mem_of_mem_head? h)
    refine ⟨hmem.1, hmem.2, fun k' v' hk' hp => ?_⟩
    have hmem' := mem_class_iff.mpr ⟨hk', hp⟩
    grind [head?_eq_some_iff, pairwise_cons]
  · rintro ⟨hk, hp, hmin⟩
    have hmem := mem_class_iff.mpr ⟨hk, hp⟩
    cases hl : m.entries.filter fun e => p e.1 with
    | nil =>
      rw [hl] at hmem
      cases hmem
    | cons e ys =>
      have he : e ∈ m.entries.filter fun e => p e.1 := by
        rw [hl]
        exact mem_cons_self
      rw [mem_filter] at he
      rw [hl] at hmem hsorted
      rcases mem_cons.mp hmem with hin | hin
      · rw [hin, head?_cons]
      · grind [pairwise_cons, mem_entries_iff]

theorem firstWhere?_eq_none_iff :
    m.firstWhere? p = none ↔ ∀ k v, m.get? k = some v → p k = false := by
  unfold firstWhere?
  simp [mem_entries_iff]

theorem lastLE?_eq_some_iff : m.lastLE? b = some (k, v) ↔
      m.get? k = some v ∧ k ≤ b ∧ ∀ k' v', m.get? k' = some v' → k' ≤ b → k' ≤ k := by
  simp only [lastLE?, lastWhere?_eq_some_iff, decide_eq_true_eq]

theorem lastLE?_eq_none_iff : m.lastLE? b = none ↔ ∀ k v, m.get? k = some v → b < k := by
  simp only [lastLE?, lastWhere?_eq_none_iff, decide_eq_false_iff_not, not_le]

theorem firstGE?_eq_some_iff : m.firstGE? b = some (k, v) ↔
      m.get? k = some v ∧ b ≤ k ∧ ∀ k' v', m.get? k' = some v' → b ≤ k' → k ≤ k' := by
  simp only [firstGE?, firstWhere?_eq_some_iff, decide_eq_true_eq]

theorem firstGE?_eq_none_iff : m.firstGE? b = none ↔ ∀ k v, m.get? k = some v → k < b := by
  simp only [firstGE?, firstWhere?_eq_none_iff, decide_eq_false_iff_not, not_le]

/-- The first entry in the order of the keys with some property. -/
theorem find?_entries {p : K × V → Bool} {e : K × V} (h : m.entries.find? p = some e) :
    m.get? e.1 = some e.2 ∧ p e = true ∧ ∀ k v, m.get? k = some v → p (k, v) = true → e.1 ≤ k := by
  obtain ⟨hp, before, after, heq, hbefore⟩ := find?_eq_some_iff_append.mp h
  refine ⟨mem_entries_iff.mp (heq ▸ mem_append_right _ mem_cons_self), hp, fun k v hk hpk => ?_⟩
  have hmem := mem_entries_iff.mpr hk
  rw [heq, mem_append, mem_cons] at hmem
  rcases hmem with hmem | rfl | hmem
  · exact absurd hpk (by simpa using hbefore (k, v) hmem)
  · exact le_rfl
  · grind [m.sorted, pairwise_cons]

/-! ## Weights -/

theorem sum_insertList :
    ∀ {l : List (K × V)}, (∀ e ∈ l, e.1 ≠ k) →
      ((insertList k v l).map fun e => w e.2).sum = w v + (l.map fun e => w e.2).sum
  | [], _ => rfl
  | e :: l, h => by
    have hne : ¬ k = e.1 := fun heq => h e mem_cons_self heq.symm
    have htail : ∀ e ∈ l, e.1 ≠ k := fun x hx => h x (mem_cons_of_mem _ hx)
    unfold insertList
    split_ifs
    · rw [map_cons, sum_cons]
    · rw [map_cons, sum_cons, sum_insertList htail, map_cons, sum_cons]
      omega

theorem sum_insert (h : m.get? k = none) : (m.insert k v).sum w = w v + m.sum w := by
  refine sum_insertList fun e he heq => ?_
  grind [mem_entries_iff]

theorem sum_filter_ne :
    ∀ {l : List (K × V)}, (l.map Prod.fst).Nodup → (k, v) ∈ l → (l.map fun e => w e.2).sum =
        w v + ((l.filter fun e => decide (e.1 ≠ k)).map fun e => w e.2).sum
  | [], _, h => absurd h (by simp)
  | e :: l, hnd, h => by
    rw [map_cons, nodup_cons] at hnd
    rcases mem_cons.mp h with rfl | h
    · have hall : ∀ e ∈ l, e.1 ≠ k := fun x hx hxk =>
        hnd.1 (mem_map.mpr ⟨x, hx, hxk⟩)
      have hfilter : l.filter (fun e => decide (e.1 ≠ k)) = l :=
        filter_eq_self.mpr fun x hx => by simpa using hall x hx
      rw [filter_cons_of_neg (by simp), hfilter, map_cons, sum_cons]
    · have hne : e.1 ≠ k := fun heq => hnd.1 (mem_map.mpr ⟨(k, v), h, heq.symm⟩)
      rw [filter_cons_of_pos (by simpa using hne), map_cons, sum_cons,
        map_cons, sum_cons, sum_filter_ne hnd.2 h]
      omega

/-- A removed key takes its weight with it. -/
theorem sum_erase (w : V → ℕ) (h : m.get? k = some v) : m.sum w = w v + (m.erase k).sum w :=
  sum_filter_ne m.nodup_keys (mem_entries_iff.mpr h)

/-- A weight follows the replacement of a value. -/
theorem sum_insert_of_get? {old : V} (v : V) (w : V → ℕ)
    (h : m.get? k = some old) : (m.insert k v).sum w + w old = m.sum w + w v := by
  have hnone : (m.erase k).get? k = none := by rw [get?_erase, if_pos rfl]
  have hsum := sum_erase w h
  rw [← insert_erase_self, sum_insert hnone]
  omega

/-- A weight of one for each value of a class counts the class. -/
theorem sum_ite {p : V → Bool} :
    (m.sum fun v => if p v then 1 else 0) = m.entries.countP fun e => p e.2 := by
  unfold sum
  induction m.entries with
  | nil => rfl
  | cons e l ih =>
    rw [map_cons, sum_cons, ih, countP_cons, add_comm]

/-- A map without entries stores nothing. -/
theorem get?_eq_none_of_size_eq_zero (h : m.size = 0) : m.get? k = none := by
  rw [get?, eq_nil_of_length_eq_zero h]
  rfl

/-- A removed key leaves fewer entries. -/
theorem size_erase_lt (h : m.get? k = some v) : (m.erase k).size < m.size := by
  refine lt_of_le_of_ne (length_filter_le ..) fun heq => ?_
  have hall := length_filter_eq_length_iff.mp heq (k, v) (mem_entries_iff.mpr h)
  simp at hall

end OrdMap

end MangoCore
