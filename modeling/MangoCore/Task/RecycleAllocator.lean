import Mathlib.Algebra.Order.Ring.Int
import Mathlib.Data.List.GetD

/-!
# The recycling id allocator

Task ids come from one allocator behind one lock.  It counts upwards from 1 and keeps the ids that
were given back on a stack.  A bitmap says which entries of the stack count: an id that is taken by
a hint keeps its entry, and a later pop that finds the flag cleared drops the entry.

* `alloc` prefers the stack; it serves the slots of an address space.
* `allocFresh` counts upwards until the bound is near `pid_max`, except for one id that
  `/proc/sys/kernel/ns_last_pid` asked for.
* `setNextAllocHint` moves the bound forward, over ids that were never given out, or asks for a
  recycled id.

Ids are machine words, and both kernel profiles build without overflow checks, so an increment
wraps.  A vector cannot grow beyond `isize::MAX` bytes: the growth panics, as a failed assertion
does, and the kernel stops.  A call that panics has no result here.
-/

namespace MangoCore.Task

open List Option

/-- `usize` wraps here. -/
def wordSize : ℕ := 2 ^ 64

/-- `isize::MAX`, the most that a vector of bytes can hold. -/
def maxCapacity : ℕ := 2 ^ 63 - 1

def defaultPidMax : ℕ := 32768

def reservedPidReuseFloor : ℕ := 300

def freshReuseWatermark : ℕ := defaultPidMax - 1024

/-- The allocator; the top of the stack is the head of `recycled`. -/
structure RecycleAllocator where
  /-- The next id of the linear path. -/
  current : ℕ
  recycled : List ℕ
  recycledFlags : List Bool
  freshReuseHint : Option ℕ
  deriving DecidableEq

namespace RecycleAllocator

def new : RecycleAllocator := ⟨1, [], [], none⟩

/-- `Vec::resize` of the flags. -/
def resize (flags : List Bool) (len : ℕ) : List Bool :=
  flags.take len ++ replicate (len - flags.length) false

section

variable (a : RecycleAllocator)

def ensureFlagCapacity (id : ℕ) : Option RecycleAllocator :=
  if id ≥ a.recycledFlags.length then
    let len := (id + 1) % wordSize
    if len > maxCapacity then none
    else some { a with recycledFlags := resize a.recycledFlags len }
  else some a

def isRecycled (id : ℕ) : Bool :=
  a.recycledFlags.getD id false

def markRecycled (id : ℕ) (value : Bool) : Option RecycleAllocator := do
  let a ← a.ensureFlagCapacity id
  -- the index panics beyond the end
  if id < a.recycledFlags.length then
    some { a with recycledFlags := a.recycledFlags.set id value }
  else none

/-- The loop of `alloc_recycled`, over what is left of the stack. -/
def allocRecycledFrom (a : RecycleAllocator) : List ℕ → Option (Option ℕ × RecycleAllocator)
  | [] => some (none, { a with recycled := [] })
  | id :: rest =>
    if a.isRecycled id then do
      let a ← { a with recycled := rest }.markRecycled id false
      some (some id, a)
    else a.allocRecycledFrom rest

def allocRecycled : Option (Option ℕ × RecycleAllocator) :=
  a.allocRecycledFrom a.recycled

/-- The reserved ids go back in the order in which they were found. -/
def restore (skipped stack : List ℕ) : List ℕ :=
  skipped.foldl (fun stack id => id :: stack) stack

/-- The loop of `alloc_recycled_for_fresh`; `skipped` is the stack of the reserved ids. -/
def allocRecycledForFreshFrom (a : RecycleAllocator) :
    List ℕ → List ℕ → Option (Option ℕ × RecycleAllocator)
  | [], skipped => some (none, { a with recycled := restore skipped [] })
  | id :: rest, skipped =>
    if ¬ a.isRecycled id then a.allocRecycledForFreshFrom rest skipped
    else if id ≥ reservedPidReuseFloor then do
      let a ← a.markRecycled id false
      some (some id, { a with recycled := restore skipped rest })
    else a.allocRecycledForFreshFrom rest (id :: skipped)

def allocRecycledForFresh : Option (Option ℕ × RecycleAllocator) :=
  a.allocRecycledForFreshFrom a.recycled []

/-- The linear path that both allocations end with. -/
def allocLinear : Option (ℕ × RecycleAllocator) := do
  let a := { a with current := (a.current + 1) % wordSize }
  -- `current - 1` wraps back
  let id := (a.current + (wordSize - 1)) % wordSize
  let a ← a.ensureFlagCapacity id
  some (id, a)

def alloc : Option (ℕ × RecycleAllocator) := do
  match ← a.allocRecycled with
  | (some id, a) => some (id, a)
  | (none, a) => a.allocLinear

/-- What `alloc_fresh` does when the hint did not serve it. -/
def allocFreshUnhinted : Option (ℕ × RecycleAllocator) :=
  if a.current ≥ freshReuseWatermark then do
    match ← a.allocRecycledForFresh with
    | (some id, a) => some (id, a)
    | (none, a) => a.allocLinear
  else a.allocLinear

def allocFresh : Option (ℕ × RecycleAllocator) :=
  let b := { a with freshReuseHint := none }
  match a.freshReuseHint with
  | none => b.allocFreshUnhinted
  | some id =>
    if id < b.current ∧ b.isRecycled id then do
      let b ← b.markRecycled id false
      some (id, b)
    else b.allocFreshUnhinted

def setNextAllocHint (next : ℕ) : Option RecycleAllocator :=
  let next := max next 1
  if next ≥ a.current then do
    let a ← { a with current := next }.ensureFlagCapacity next
    some { a with freshReuseHint := none }
  else if a.isRecycled next then some { a with freshReuseHint := some next }
  else some a

def dealloc (id : ℕ) : Option RecycleAllocator :=
  if id < a.current ∧ ¬ a.isRecycled id then do
    let a ← a.markRecycled id true
    some { a with recycled := id :: a.recycled }
  else none

def releaseFreshId (id : ℕ) : Option RecycleAllocator :=
  if id < a.current then
    if ¬ a.isRecycled id then do
      let a ← a.markRecycled id true
      some { a with recycled := id :: a.recycled }
    else some a
  else none

def getAllocated : ℕ := a.current - 1 - a.recycledFlags.count true

end

/-! ## The flags -/

variable {a b c : RecycleAllocator} {id : ℕ} {flags : List Bool} {len : ℕ} {x : ℕ}
  {stack skipped : List ℕ}

theorem isRecycled_eq_of_flags (h : b.recycledFlags = a.recycledFlags) :
    b.isRecycled x = a.isRecycled x := by
  rw [isRecycled, isRecycled, h]

theorem lt_length_of_isRecycled (h : a.isRecycled id = true) : id < a.recycledFlags.length := by
  by_contra hge
  rw [isRecycled, getD_eq_default _ _ (by omega)] at h
  cases h

theorem getD_resize_of_le (hlen : flags.length ≤ len) (x : ℕ) :
    (resize flags len).getD x false = flags.getD x false := by
  rw [resize, take_of_length_le hlen]
  by_cases hx : x < flags.length
  · rw [getD_append _ _ _ _ hx]
  · rw [getD_append_right _ _ _ _ (by omega), getD_eq_default flags _ (by omega)]
    by_cases x - flags.length < len - flags.length
    · rw [getD_eq_getElem _ _ (by rwa [length_replicate]), getElem_replicate]
    · rw [getD_eq_default _ _ (by rw [length_replicate]; omega)]

theorem length_resize_of_le (hlen : flags.length ≤ len) : (resize flags len).length = len := by
  rw [resize, take_of_length_le hlen, length_append, length_replicate]
  omega

/-- The vector of flags grows, keeps its flags and covers `id`. -/
structure Grows (a : RecycleAllocator) (id : ℕ) (b : RecycleAllocator) : Prop where
  current : b.current = a.current
  recycled : b.recycled = a.recycled
  hint : b.freshReuseHint = a.freshReuseHint
  isRecycled : ∀ x, b.isRecycled x = a.isRecycled x
  covers : id < b.recycledFlags.length
  le : a.recycledFlags.length ≤ b.recycledFlags.length
  bounded : a.recycledFlags.length ≤ maxCapacity → b.recycledFlags.length ≤ maxCapacity

/-- An id whose successor is a word does not wrap. -/
theorem grows_of_ensureFlagCapacity (hid : id + 1 < wordSize)
    (h : a.ensureFlagCapacity id = some b) : Grows a id b := by
  rw [ensureFlagCapacity, Nat.mod_eq_of_lt hid] at h
  dsimp only at h
  split_ifs at h <;> cases h
  · have hlen : a.recycledFlags.length ≤ id + 1 := by omega
    have hlength := length_resize_of_le hlen
    refine ⟨rfl, rfl, rfl, getD_resize_of_le hlen, ?_, ?_, fun _ => ?_⟩
    · show id < (resize a.recycledFlags (id + 1)).length
      omega
    all_goals grind
  · exact ⟨rfl, rfl, rfl, fun _ => rfl, by omega, le_rfl, fun h => h⟩

/-- The flag of an id below the end of the flags is set in place. -/
theorem markRecycled_of_lt (hid : id < a.recycledFlags.length) (value : Bool) :
    a.markRecycled id value =
      some { a with recycledFlags := a.recycledFlags.set id value } := by
  have hcap : a.ensureFlagCapacity id = some a := by
    rw [ensureFlagCapacity, if_neg (by omega)]
  rw [markRecycled, hcap, bind_eq_bind, bind_some, if_pos hid]

theorem getD_set_flag (hid : id < flags.length) {value : Bool} :
    (flags.set id value).getD x false = if x = id then value else flags.getD x false := by
  rw [getD_eq_getElem?_getD, getD_eq_getElem?_getD, getElem?_set]
  by_cases hx : x = id
  · rw [if_pos hx, if_pos hx.symm, if_pos (hx ▸ hid), getD_some]
  · rw [if_neg hx, if_neg (Ne.symm hx)]

/-! ## What an allocation does -/

/-- An id leaves the recycled ones.  The stack keeps the entry of every other flagged id. -/
structure Takes (a : RecycleAllocator) (id : ℕ) (b : RecycleAllocator) : Prop where
  flagged : a.isRecycled id = true
  current : b.current = a.current
  isRecycled : ∀ x, b.isRecycled x = if x = id then false else a.isRecycled x
  length : b.recycledFlags.length = a.recycledFlags.length
  stack : ∀ x ∈ a.recycled, b.isRecycled x = true → x ∈ b.recycled

/-- No id is taken.  The stack loses nothing but entries that do not count. -/
structure Keeps (a b : RecycleAllocator) : Prop where
  current : b.current = a.current
  flags : b.recycledFlags = a.recycledFlags
  stack : ∀ x ∈ a.recycled, a.isRecycled x = true → x ∈ b.recycled

/-- Clearing the flag of a recycled id takes it. -/
theorem takes_of_markRecycled (hflag : a.isRecycled id = true)
    (hcurrent : c.current = a.current) (hflags : c.recycledFlags = a.recycledFlags)
    (hstack : ∀ x ∈ a.recycled, x ≠ id → a.isRecycled x = true → x ∈ b.recycled)
    (hb : b.current = c.current ∧ b.recycledFlags = c.recycledFlags.set id false) :
    Takes a id b := by
  have hlen := lt_length_of_isRecycled hflag
  have his : ∀ x, b.isRecycled x = if x = id then false else a.isRecycled x := by
    intro x
    rw [isRecycled, hb.2, hflags, getD_set_flag hlen]
    rfl
  refine ⟨hflag, hb.1.trans hcurrent, his, ?_, ?_⟩
  · rw [hb.2, hflags, length_set]
  · grind

/-- The loop of `alloc_recycled` from the stack that is left. -/
theorem allocRecycledFrom_spec (hstack : ∀ x ∈ a.recycled, a.isRecycled x = true → x ∈ stack) :
    (∃ id b, a.allocRecycledFrom stack = some (some id, b) ∧ Takes a id b ∧
      b.recycled.length < stack.length) ∨
    (∃ b, a.allocRecycledFrom stack = some (none, b) ∧ Keeps a b ∧
      ∀ x ∈ stack, a.isRecycled x = false) := by
  induction stack with
  | nil => exact .inr ⟨_, rfl, ⟨rfl, rfl, hstack⟩, fun x hx => nomatch hx⟩
  | cons id rest ih =>
    by_cases hflag : a.isRecycled id = true
    · have hmark := markRecycled_of_lt (a := { a with recycled := rest })
        (lt_length_of_isRecycled hflag) false
      refine .inl ⟨id, { a with
        recycled := rest, recycledFlags := a.recycledFlags.set id false }, ?_,
        takes_of_markRecycled hflag rfl rfl ?_ ⟨rfl, rfl⟩, ?_⟩
      · rw [allocRecycledFrom, if_pos hflag, hmark]
        rfl
      · grind
      · exact Nat.lt_add_one _
    · have hrest : ∀ x ∈ a.recycled, a.isRecycled x = true → x ∈ rest := fun x hx hxf =>
        (mem_cons.mp (hstack x hx hxf)).resolve_left (by rintro rfl; exact hflag hxf)
      rw [allocRecycledFrom, if_neg hflag]
      obtain ⟨id', b, hb, htakes, hlt⟩ | ⟨b, hb, hkeeps, hnone⟩ := ih hrest
      · exact .inl ⟨id', b, hb, htakes, Nat.lt_succ_of_lt hlt⟩
      · grind

theorem mem_restore :
    x ∈ restore skipped stack ↔ x ∈ skipped ∨ x ∈ stack := by
  induction skipped generalizing stack with
  | nil => simp [restore]
  | cons y skipped ih => grind [restore]

/-- The loop of `alloc_recycled_for_fresh`, with the reserved ids that it has set aside. -/
theorem allocRecycledForFreshFrom_spec (a : RecycleAllocator) (stack skipped : List ℕ)
    (hstack : ∀ x ∈ a.recycled, a.isRecycled x = true → x ∈ skipped ∨ x ∈ stack) :
    (∃ id b, a.allocRecycledForFreshFrom stack skipped = some (some id, b) ∧ Takes a id b) ∨
    (∃ b, a.allocRecycledForFreshFrom stack skipped = some (none, b) ∧ Keeps a b) := by
  induction stack generalizing skipped with
  | nil =>
    refine .inr ⟨_, rfl, ⟨rfl, rfl, fun x hx hxf => ?_⟩⟩
    exact mem_restore.mpr (hstack x hx hxf)
  | cons id rest ih =>
    rw [allocRecycledForFreshFrom]
    by_cases hflag : a.isRecycled id = true
    · rw [if_neg (not_not.mpr hflag)]
      split_ifs
      · refine .inl ⟨id, { a with
          recycledFlags := a.recycledFlags.set id false, recycled := restore skipped rest }, ?_,
          takes_of_markRecycled hflag rfl rfl ?_ ⟨rfl, rfl⟩⟩
        · rw [markRecycled_of_lt (lt_length_of_isRecycled hflag)]
          rfl
        · grind [mem_restore]
      · refine ih (id :: skipped) fun x hx hxf => ?_
        obtain h | h := hstack x hx hxf
        · exact .inl (mem_cons_of_mem _ h)
        · grind
    · rw [if_pos hflag]
      refine ih skipped fun x hx hxf => (hstack x hx hxf).imp_right fun h => ?_
      exact (mem_cons.mp h).resolve_left (by rintro rfl; exact hflag hxf)

/-- The loop finds nothing only if no id above the reserved ones is recycled. -/
theorem lt_of_allocRecycledForFreshFrom
    (h : a.allocRecycledForFreshFrom stack skipped = some (none, b)) :
    ∀ x ∈ stack, a.isRecycled x = true → x < reservedPidReuseFloor := by
  induction stack generalizing skipped with
  | nil => simp
  | cons id rest ih =>
    rw [allocRecycledForFreshFrom] at h
    by_cases hflag : a.isRecycled id = true
    · rw [if_neg (not_not.mpr hflag)] at h
      split_ifs at h with hfloor
      · rw [markRecycled_of_lt (lt_length_of_isRecycled hflag)] at h
        cases h
      · rintro x hx hxf
        obtain rfl | hx := mem_cons.mp hx
        · exact not_le.mp hfloor
        · exact ih h x hx hxf
    · rw [if_pos hflag] at h
      grind

/-- The linear path gives out the bound and moves it. -/
structure Extends (a : RecycleAllocator) (id : ℕ) (b : RecycleAllocator) : Prop where
  id_eq : id = a.current
  current : b.current = a.current + 1
  isRecycled : ∀ x, b.isRecycled x = a.isRecycled x
  covers : id < b.recycledFlags.length
  bounded : a.recycledFlags.length ≤ maxCapacity → b.recycledFlags.length ≤ maxCapacity
  stack : ∀ x ∈ a.recycled, a.isRecycled x = true → x ∈ b.recycled

/-- Below the largest word the linear path does not wrap. -/
theorem extends_of_allocLinear (hkeeps : Keeps a c)
    (hlt : a.current + 1 < wordSize) (h : c.allocLinear = some (id, b)) : Extends a id b := by
  rw [allocLinear, bind_eq_bind, bind_eq_some_iff] at h
  obtain ⟨d, hd, h⟩ := h
  obtain ⟨rfl, rfl⟩ := Prod.mk.inj (some.inj h)
  have hcurrent : (c.current + 1) % wordSize = a.current + 1 := by
    rw [hkeeps.current, Nat.mod_eq_of_lt hlt]
  have hid : ((c.current + 1) % wordSize + (wordSize - 1)) % wordSize = a.current := by
    grind [wordSize]
  change ({ c with current := (c.current + 1) % wordSize } : RecycleAllocator).ensureFlagCapacity
    (((c.current + 1) % wordSize + (wordSize - 1)) % wordSize) = some d at hd
  have hgrows := grows_of_ensureFlagCapacity (by rw [hid]; exact hlt) hd
  refine ⟨hid, hgrows.current.trans hcurrent, fun x => ?_, hgrows.covers, ?_, ?_⟩
  · rw [hgrows.isRecycled, ← isRecycled_eq_of_flags hkeeps.flags]
    rfl
  · rw [← hkeeps.flags]
    exact hgrows.bounded
  · intro x hx hxf
    rw [hgrows.recycled]
    exact hkeeps.stack x hx hxf

theorem alloc_spec (hlt : a.current + 1 < wordSize) (h : a.alloc = some (id, b)) :
    Takes a id b ∨ Extends a id b := by
  rw [alloc, allocRecycled] at h
  obtain ⟨id', c, hc, htakes, -⟩ | ⟨c, hc, hkeeps, -⟩ :=
      a.allocRecycledFrom_spec fun x hx _ => hx
  · grind
  · rw [hc] at h
    exact .inr (extends_of_allocLinear hkeeps hlt h)

theorem allocFreshUnhinted_spec (hlt : a.current + 1 < wordSize)
    (h : a.allocFreshUnhinted = some (id, b)) : Takes a id b ∨ Extends a id b := by
  rw [allocFreshUnhinted] at h
  split_ifs at h
  · rw [allocRecycledForFresh] at h
    obtain ⟨id', c, hc, htakes⟩ | ⟨c, hc, hkeeps⟩ :=
        a.allocRecycledForFreshFrom_spec a.recycled [] fun x hx _ => .inr hx
    · grind
    · rw [hc] at h
      exact .inr (extends_of_allocLinear hkeeps hlt h)
  · exact .inr (extends_of_allocLinear ⟨rfl, rfl, fun x hx _ => hx⟩ hlt h)

/-- A hinted id that is recycled is returned, and its entry stays on the stack. -/
theorem allocFresh_of_hint (hhint : a.freshReuseHint = some id) (hlt : id < a.current)
    (hflag : a.isRecycled id = true) : ∃ b, a.allocFresh = some (id, b) ∧ Takes a id b := by
  refine ⟨{ a with freshReuseHint := none, recycledFlags := a.recycledFlags.set id false }, ?_,
    takes_of_markRecycled hflag rfl rfl (fun x hx _ _ => hx) ⟨rfl, rfl⟩⟩
  rw [allocFresh, hhint]
  dsimp only
  rw [if_pos ⟨hlt, hflag⟩, markRecycled_of_lt (a := { a with freshReuseHint := none })
    (lt_length_of_isRecycled hflag)]
  rfl

theorem allocFresh_spec (hlt : a.current + 1 < wordSize) (h : a.allocFresh = some (id, b)) :
    Takes a id b ∨ Extends a id b := by
  have hunhinted : ∀ id b, ({ a with freshReuseHint := none } : RecycleAllocator).allocFreshUnhinted
      = some (id, b) → Takes a id b ∨ Extends a id b := by
    intro id b h
    have hspec := allocFreshUnhinted_spec (a := { a with freshReuseHint := none }) hlt h
    obtain ⟨h₁, h₂, h₃, h₄, h₅⟩ | ⟨h₁, h₂, h₃, h₄, h₅, h₆⟩ := hspec
    · exact .inl ⟨h₁, h₂, h₃, h₄, h₅⟩
    · exact .inr ⟨h₁, h₂, h₃, h₄, h₅, h₆⟩
  by_cases ∃ x, a.freshReuseHint = some x ∧ x < a.current ∧ a.isRecycled x = true
  · grind [allocFresh_of_hint]
  · grind [isRecycled, allocFresh.eq_1]

/-- From the watermark on, `alloc_fresh` takes a recycled id if there is one above the reserved
ones. -/
theorem takes_of_allocFresh (hmark : freshReuseWatermark ≤ a.current) (hx : x ∈ a.recycled)
    (hfloor : reservedPidReuseFloor ≤ x) (hflag : a.isRecycled x = true)
    (h : a.allocFresh = some (id, b)) : Takes a id b := by
  have hunhinted : ({ a with freshReuseHint := none } : RecycleAllocator).allocFreshUnhinted =
      some (id, b) → Takes a id b := by
    intro h
    rw [allocFreshUnhinted, if_pos hmark, allocRecycledForFresh] at h
    obtain ⟨y, c, hc, htakes⟩ | ⟨c, hc, -⟩ := allocRecycledForFreshFrom_spec
        { a with freshReuseHint := none } a.recycled [] fun _ hx _ => .inr hx
    · rw [hc] at h
      cases h
      exact ⟨htakes.1, htakes.2, htakes.3, htakes.4, htakes.5⟩
    · exact absurd hfloor (lt_of_allocRecycledForFreshFrom hc x hx hflag).not_ge
  by_cases ∃ x, a.freshReuseHint = some x ∧ x < a.current ∧ a.isRecycled x = true
  · grind [allocFresh_of_hint]
  · grind [isRecycled, allocFresh.eq_1]

/-- `alloc` returns a recycled id, and then one entry fewer is on the stack. -/
theorem alloc_of_recycled (hid : id ∈ a.recycled) (hflag : a.isRecycled id = true) :
    ∃ x b, a.alloc = some (x, b) ∧ Takes a x b ∧ b.recycled.length < a.recycled.length := by
  obtain ⟨x, b, hb, htakes, hlt⟩ | ⟨b, hb, -, hnone⟩ :=
      a.allocRecycledFrom_spec fun x hx _ => hx
  · refine ⟨x, b, ?_, htakes, hlt⟩
    rw [alloc, allocRecycled, hb]
    rfl
  · rw [hnone id hid] at hflag
    cases hflag

/-! ## Giving an id back -/

/-- An id becomes recycled. -/
structure Gives (a : RecycleAllocator) (id : ℕ) (b : RecycleAllocator) : Prop where
  current : b.current = a.current
  isRecycled : ∀ x, b.isRecycled x = if x = id then true else a.isRecycled x
  recycled : b.recycled = id :: a.recycled
  covers : id < b.recycledFlags.length
  le : a.recycledFlags.length ≤ b.recycledFlags.length
  bounded : a.recycledFlags.length ≤ maxCapacity → b.recycledFlags.length ≤ maxCapacity

theorem gives_of_markRecycled (hid : id + 1 < wordSize) (h : a.markRecycled id true = some c) :
    Gives a id { c with recycled := id :: c.recycled } := by
  rw [markRecycled, bind_eq_bind, bind_eq_some_iff] at h
  obtain ⟨d, hd, h⟩ := h
  have hgrows := grows_of_ensureFlagCapacity hid hd
  rw [if_pos hgrows.covers] at h
  cases h
  refine ⟨hgrows.current, fun x => ?_, ?_, ?_, ?_, ?_⟩
  · rw [← hgrows.isRecycled]
    exact getD_set_flag hgrows.covers
  · show id :: d.recycled = id :: a.recycled
    rw [hgrows.recycled]
  · grind [hgrows.covers]
  · show a.recycledFlags.length ≤ (d.recycledFlags.set id true).length
    rw [length_set]
    exact hgrows.le
  · grind [Grows.bounded]

theorem dealloc_spec (hid : id + 1 < wordSize) (h : a.dealloc id = some b) : Gives a id b := by
  grind [dealloc, bind_eq_some_iff, gives_of_markRecycled]

/-- An id that is not recycled is given back by either call. -/
theorem releaseFreshId_eq_dealloc (h : a.isRecycled id = false) :
    a.releaseFreshId id = a.dealloc id := by
  grind [releaseFreshId, dealloc]

end RecycleAllocator
end MangoCore.Task
