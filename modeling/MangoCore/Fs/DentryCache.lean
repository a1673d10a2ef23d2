import Mathlib.Data.Prod.Lex
import Mathlib.Data.String.Basic
import MangoCore.Lib.OrdMap

/-!
# The dentry cache of a mount

A mount caches the inode that it found under a name of a directory.  The cache holds at most
`dentryCacheLimit` entries: an insertion beyond that walks the queue of keys once, gives every
referenced entry a second chance, and drops the first cold one.

For the names only one thing matters: no operation but an insertion puts an inode into the cache,
and an insertion never replaces one.  `node?` is what a lookup of the cache sees.
-/

namespace MangoCore.Fs

open OrdMap

/-- An inode: its number, and which of the inodes that had this number it is. -/
structure Inode where
  ino : ℕ
  birth : ℕ
  deriving DecidableEq, Repr

/-- `DentryKey`: a name in a directory. -/
structure DentryKey where
  parentIno : ℕ
  name : String
  deriving DecidableEq, Repr

namespace DentryKey

/-- The derived order of the source: by directory, then by name. -/
instance : LinearOrder DentryKey :=
  LinearOrder.lift' (fun key => toLex (key.parentIno, key.name)) fun a b h => by
    obtain ⟨aIno, aName⟩ := a
    obtain ⟨bIno, bName⟩ := b
    simpa using h

end DentryKey

structure CacheEntry where
  node : Inode
  referenced : Bool

/-- `DentryCache`: the entries, and the keys in the order in which the clock visits them. -/
structure DentryCache where
  map : OrdMap DentryKey CacheEntry
  order : List DentryKey

def dentryCacheLimit : ℕ := 256

namespace DentryCache

/-- `DentryCache::new`. -/
def new : DentryCache := ⟨empty, []⟩

/-- The inode that is cached under a key. -/
def node? (c : DentryCache) (key : DentryKey) : Option Inode :=
  (c.map.get? key).map CacheEntry.node

/-- `get`: the cached inode, whose entry is marked as referenced. -/
def get (c : DentryCache) (key : DentryKey) : Option (Inode × DentryCache) :=
  match c.map.get? key with
  | none => none
  | some entry =>
    some (entry.node, { c with map := c.map.insert key { entry with referenced := true } })

/-- The loop of `evict_locked`.  The first argument counts the keys of one pass that are still
unvisited: when none is left, the front entry goes unconditionally. -/
def evictLoop : ℕ → DentryCache → DentryCache
  | 0, c =>
    if c.map.size ≤ dentryCacheLimit then c else
    match c.order with
    | [] => c
    | key :: rest => ⟨c.map.erase key, rest⟩
  | n + 1, c =>
    if c.map.size ≤ dentryCacheLimit then c else
    match c.order with
    | [] => c
    | key :: rest =>
      match c.map.get? key with
      | none => evictLoop n ⟨c.map, rest⟩
      | some entry =>
        if entry.referenced then
          evictLoop n ⟨c.map.insert key { entry with referenced := false }, rest ++ [key]⟩
        else evictLoop n ⟨c.map.erase key, rest⟩

section

variable (c : DentryCache)

def evictLocked : DentryCache :=
  evictLoop c.order.length c

/-- `insert_or_get`: the cached inode if there is one, otherwise the new one. -/
def insertOrGet (key : DentryKey) (node : Inode) : Inode × DentryCache :=
  match c.map.get? key with
  | some entry =>
    (entry.node, { c with map := c.map.insert key { entry with referenced := true } })
  | none => (node, evictLocked ⟨c.map.insert key ⟨node, true⟩, c.order ++ [key]⟩)

def invalidate (key : DentryKey) : DentryCache :=
  ⟨c.map.erase key, c.order.erase key⟩

/-- `clear_parent`: the cached names of one directory go. -/
def clearParent (parentIno : ℕ) : DentryCache :=
  ((c.map.entries.map Prod.fst).filter fun key => key.parentIno = parentIno).foldl invalidate c

end

/-! ## What a lookup of the cache sees -/

variable {c : DentryCache} {key k : DentryKey} {node x : Inode} {order : List DentryKey}

/-- An entry with another referenced bit is the same to a lookup. -/
theorem node?_insert_referenced {entry : CacheEntry} (h : c.map.get? key = some entry) {b : Bool}
    (k : DentryKey) :
    node? ⟨c.map.insert key { entry with referenced := b }, order⟩ k = c.node? k := by
  rw [node?, node?, get?_insert]
  split_ifs with hk
  · rw [hk, h]
    rfl
  · rfl

theorem node?_erase : node? ⟨c.map.erase key, order⟩ k = if k = key then none else c.node? k := by
  rw [node?, node?, get?_erase]
  split_ifs <;> rfl

theorem node?_invalidate : (c.invalidate key).node? k = if k = key then none else c.node? k :=
  c.node?_erase

/-- A hit returns the cached inode and changes nothing that a lookup sees. -/
theorem get_spec {c' : DentryCache} (h : c.get key = some (x, c')) :
    c.node? key = some x ∧ ∀ k, c'.node? k = c.node? k := by
  rw [get] at h
  cases hentry : c.map.get? key with
  | none =>
    rw [hentry] at h
    cases h
  | some entry =>
    rw [hentry] at h
    cases h
    refine ⟨?_, node?_insert_referenced hentry⟩
    rw [node?, hentry]
    rfl

theorem node?_of_evictLoop {n : ℕ} (c : DentryCache)
    (h : (evictLoop n c).node? k = some x) : c.node? k = some x := by
  have of_erase : ∀ (c : DentryCache) (key : DentryKey) (order : List DentryKey),
      node? ⟨c.map.erase key, order⟩ k = some x → c.node? k = some x := by
    intro c key order h
    rw [node?_erase] at h
    split_ifs at h
    exact h
  induction n generalizing c with
  | zero => grind [evictLoop]
  | succ n ih =>
    rw [evictLoop] at h
    split_ifs at h
    · exact h
    · cases horder : c.order with
      | nil => rwa [horder] at h
      | cons key rest =>
        rw [horder] at h
        dsimp only at h
        cases hentry : c.map.get? key with
        | none =>
          rw [hentry] at h
          exact ih ⟨c.map, rest⟩ h
        | some entry => grind [node?_insert_referenced]

/-- An insertion returns the inode that is cached, or the new one; after it the cache holds what it
held before, and under the key the inode that is returned. -/
theorem insertOrGet_spec :
    (c.node? key = some (c.insertOrGet key node).1 ∨ (c.insertOrGet key node).1 = node) ∧
      ∀ k x, (c.insertOrGet key node).2.node? k = some x →
        c.node? k = some x ∨ k = key ∧ x = node := by
  rw [insertOrGet]
  cases hentry : c.map.get? key with
  | some entry =>
    refine ⟨.inl ?_, fun k x h => .inl ?_⟩
    · rw [node?, hentry]
      rfl
    · dsimp only at h
      rwa [node?_insert_referenced hentry] at h
  | none =>
    refine ⟨.inr rfl, fun k x h => ?_⟩
    have hkept := node?_of_evictLoop _ h
    rw [node?, get?_insert] at hkept
    split_ifs at hkept with hk
    · cases hkept
      exact .inr ⟨hk, rfl⟩
    · exact .inl hkept

theorem node?_of_foldl_invalidate {keys : List DentryKey}
    (h : (keys.foldl invalidate c).node? k = some x) : c.node? k = some x := by
  induction keys generalizing c with
  | nil => exact h
  | cons key keys ih => grind [node?_invalidate]

/-- Clearing a directory only removes. -/
theorem node?_of_clearParent {parentIno : ℕ} (h : (c.clearParent parentIno).node? k = some x) :
    c.node? k = some x :=
  node?_of_foldl_invalidate h

end DentryCache
end MangoCore.Fs
