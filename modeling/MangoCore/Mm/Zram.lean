import MangoCore.Lib.System

/-!
# The compressed-page store

The out-of-memory handler compresses pages and keeps them in the slots of one `Zram` device.  A slot
is found in two ways: an id on the stack `recycled`, or the first slot that was never used, which
`tail` counts.  Removing the last used slot moves `tail` back and removing any other one pushes its
id.

`tail` and the ids on the stack are 16-bit numbers in the source, and the kernel is built without
overflow checks, so the arithmetic on them wraps.  The stack is a list with its top in front.

`remove` gives the slot back *before* it looks whether the slot holds a page.  A second `remove` of
the same id is refused, but its id is then free twice, or a slot in use is past the tail.
`slots_of_reachable` says that this is the only way to spoil the store: in a run that removes no
empty slot, an id is handed out only while nobody holds it, and a page stays until it is removed.
-/

namespace MangoCore.Mm

open Function List

/-- The number of values of the 16-bit counters. -/
def u16Range : ℕ := 65536

inductive ZramError where
  | invalidIndex | noSpace | notAllocated
  deriving DecidableEq, Repr

/-- The store.  A compressed page is a string of bytes. -/
structure Zram where
  compressed : List (Option (List UInt8))
  recycled : List ℕ
  tail : ℕ
  deriving DecidableEq

namespace Zram

section

variable (z : Zram) (capacity : ℕ)

def new : Zram := ⟨replicate capacity none, [], 0⟩

/-- The 16-bit value of `tail - 1`. -/
def lastUsed : ℕ := (z.tail + (u16Range - 1)) % u16Range

variable (r : Run) (data : List UInt8)

/-- A compressed page goes to the slot recycled last, or else to the one at the tail. -/
def insert : Except ZramError ℕ × Zram :=
  match z.recycled with
  | zramId :: recycled =>
    (.ok zramId, { z with
      recycled := recycled
      compressed := z.compressed.set zramId (some data) })
  | [] =>
    if z.tail = z.compressed.length then (.error .noSpace, z)
    else
      let z := { z with tail := (z.tail + 1) % u16Range }
      (.ok z.lastUsed, { z with compressed := z.compressed.set z.lastUsed (some data) })

def get (zramId : ℕ) : Except ZramError (List UInt8) :=
  match z.compressed[zramId]? with
  | none => .error .invalidIndex
  | some (some data) => .ok data
  | some none => .error .notAllocated

/-- The slot is given back first and looked into afterwards. -/
def remove (zramId : ℕ) : Except ZramError (List UInt8) × Zram :=
  match z.compressed[zramId]? with
  | none => (.error .invalidIndex, z)
  | some slot =>
    let z :=
      if zramId = z.lastUsed then { z with tail := zramId % u16Range }
      else { z with recycled := zramId % u16Range :: z.recycled }
    match slot with
    | some data => (.ok data, { z with compressed := z.compressed.set zramId none })
    | none => (.error .notAllocated, z)

/-- A page is read back; `none` is the panic on data that does not decompress.  A page is written
by `insert`, after compression. -/
def read (decompress : List UInt8 → Option (List UInt8)) (z : Zram) (zramId : ℕ) :
    Option (Except ZramError (List UInt8)) :=
  match z.get zramId with
  | .ok data => (decompress data).map .ok
  | .error e => some (.error e)

/-! ## Runs of the store -/

inductive Op where
  | insert (data : List UInt8)
  | get (zramId : ℕ)
  | remove (zramId : ℕ)
  deriving DecidableEq

/-- The store, with what its clients hold: the page last inserted under an id and not removed. -/
structure Run where
  device : Zram
  held : ℕ → Option (List UInt8)

/-- A call; only a successful one changes what the clients hold. -/
def Run.apply : Op → Run
  | .insert data =>
    match r.device.insert data with
    | (.ok zramId, device) => ⟨device, update r.held zramId (some data)⟩
    | (.error _, device) => ⟨device, r.held⟩
  | .get _ => r
  | .remove zramId =>
    match r.device.remove zramId with
    | (.ok _, device) => ⟨device, update r.held zramId none⟩
    | (.error _, device) => ⟨device, r.held⟩

/-- The call returns an error. -/
def Op.Fails : Op → Prop
  | .insert data => ∃ e, (z.insert data).1 = .error e
  | .get zramId => ∃ e, z.get zramId = .error e
  | .remove zramId => ∃ e, (z.remove zramId).1 = .error e

/-- No empty slot is removed. -/
def Op.Meets : Op → Prop
  | .remove zramId => z.compressed[zramId]? ≠ some none
  | _ => True

instance (z : Zram) : DecidablePred (Op.Meets z)
  | .insert _ => isTrue trivial
  | .get _ => isTrue trivial
  | .remove zramId => inferInstanceAs (Decidable (z.compressed[zramId]? ≠ some none))

@[simp] theorem Run.apply_insert_device :
    (r.apply (.insert data)).device = (r.device.insert data).2 := by
  unfold Run.apply
  dsimp only
  split <;> simp_all

@[simp] theorem Run.apply_remove_device (zramId : ℕ) :
    (r.apply (.remove zramId)).device = (r.device.remove zramId).2 := by
  unfold Run.apply
  dsimp only
  split <;> simp_all

/-- Any calls on a new store of the given capacity. -/
def slots : System Run Op :=
  System.ofFun (fun r => r = ⟨new capacity, fun _ => none⟩) fun r op => some (r.apply op)

end

/-! ## The invariant -/

/-- What the store keeps up.  Every slot below the tail is in use or recycled, none above is. -/
structure Sound (r : Run) : Prop where
  get_iff : ∀ zramId data, r.device.get zramId = .ok data ↔ r.held zramId = some data
  recycled_lt : ∀ zramId ∈ r.device.recycled, zramId < r.device.tail
  recycled_nodup : r.device.recycled.Nodup
  recycled_empty : ∀ zramId ∈ r.device.recycled, r.device.compressed[zramId]? = some none
  held_lt : ∀ zramId data, r.held zramId = some data → zramId < r.device.tail
  tail_le : r.device.tail ≤ r.device.compressed.length
  length_lt : r.device.compressed.length < u16Range

variable {r : Run} {z : Zram} {zramId capacity : ℕ} {data : List UInt8}

theorem get_eq_ok_iff : z.get zramId = .ok data ↔ z.compressed[zramId]? = some (some data) := by
  unfold get
  split <;> simp_all

theorem Sound.slot_iff (h : Sound r) (zramId : ℕ) (data : List UInt8) :
    r.device.compressed[zramId]? = some (some data) ↔ r.held zramId = some data := by
  rw [← h.get_iff, get_eq_ok_iff]

/-- The lookups after a slot was written follow the map of what is held. -/
theorem slot_set_iff {slots : List (Option (List UInt8))} {held : ℕ → Option (List UInt8)}
    (h : ∀ k d, slots[k]? = some (some d) ↔ held k = some d) (hlt : zramId < slots.length)
    {value : Option (List UInt8)} (k : ℕ) (d : List UInt8) :
    (slots.set zramId value)[k]? = some (some d) ↔ update held zramId value k = some d := by
  grind

theorem Sound.held_eq_none_of_recycled (h : Sound r) (hmem : zramId ∈ r.device.recycled) :
    r.held zramId = none := by
  cases hheld : r.held zramId with
  | none => rfl
  | some data =>
    have hslot := (h.slot_iff zramId data).mpr hheld
    grind [h.recycled_empty]

theorem Sound.held_tail_eq_none (h : Sound r) : r.held r.device.tail = none := by
  cases hheld : r.held r.device.tail with
  | none => rfl
  | some data => exact absurd (h.held_lt _ data hheld) (lt_irrefl _)

theorem sound_new (hcap : capacity < u16Range) : Sound ⟨new capacity, fun _ => none⟩ where
  get_iff zramId data := by
    rw [get_eq_ok_iff]
    simp [new, getElem?_replicate]
  recycled_lt _ hmem := absurd hmem (by simp [new])
  recycled_nodup := nodup_nil
  recycled_empty _ hmem := absurd hmem (by simp [new])
  held_lt _ _ hheld := absurd hheld (by simp)
  tail_le := Nat.zero_le _
  length_lt := by simpa [new] using hcap

/-! ## One call -/

/-- What `insert` does on a sound store: an id that nobody holds, or the store is full. -/
theorem Sound.insert_cases (h : Sound r) :
    (r.device.recycled = [] ∧ r.device.tail = r.device.compressed.length ∧
      r.device.insert data = (.error .noSpace, r.device)) ∨
    (∃ zramId recycled, r.device.recycled = zramId :: recycled ∧
      r.device.insert data = (.ok zramId, { r.device with
        recycled := recycled
        compressed := r.device.compressed.set zramId (some data) })) ∨
    (r.device.recycled = [] ∧ r.device.tail < r.device.compressed.length ∧
      r.device.insert data = (.ok r.device.tail, { r.device with
        tail := r.device.tail + 1
        compressed := r.device.compressed.set r.device.tail (some data) })) := by
  have hle := h.tail_le
  have hlen := h.length_lt
  unfold Zram.insert
  cases hrec : r.device.recycled with
  | cons zramId recycled => exact .inr (.inl ⟨zramId, recycled, rfl, rfl⟩)
  | nil =>
    by_cases hfull : r.device.tail = r.device.compressed.length
    · simp [hfull]
    · refine .inr (.inr ⟨rfl, by omega, ?_⟩)
      have hsucc : (r.device.tail + 1) % u16Range = r.device.tail + 1 :=
        Nat.mod_eq_of_lt (by omega)
      grind [u16Range, lastUsed]

theorem Sound.insert (h : Sound r) (data : List UInt8) : Sound (r.apply (.insert data)) := by
  have hle := h.tail_le
  have hlen := h.length_lt
  unfold Run.apply
  rcases h.insert_cases with ⟨-, -, hins⟩ | ⟨zramId, recycled, hrec, hins⟩ | ⟨hrec, hlt, hins⟩
  · dsimp only
    rw [hins]
    exact h
  · -- the id comes from the stack
    have hmem : zramId ∈ r.device.recycled := by rw [hrec]; exact mem_cons_self
    have hsub : ∀ k ∈ recycled, k ∈ r.device.recycled := fun k hk => by
      rw [hrec]; exact mem_cons_of_mem _ hk
    have hnodup := h.recycled_nodup
    rw [hrec, nodup_cons] at hnodup
    have hid := h.recycled_lt zramId hmem
    dsimp only
    rw [hins]
    refine ⟨fun k d => ?_, fun k hk => h.recycled_lt k (hsub k hk), hnodup.2, fun k hk => ?_,
      fun k d hk => ?_, ?_, ?_⟩
    · grind [get_eq_ok_iff, h.slot_iff]
    · grind [h.recycled_empty]
    · by_cases heq : k = zramId
      · rw [heq]; exact hid
      · simp_all [h.held_lt]
    · simpa using hle
    · simpa using hlen
  · -- the id is the tail
    dsimp only
    rw [hins]
    refine ⟨fun k d => ?_, fun k hk => ?_, ?_, fun k hk => ?_, fun k d hk => ?_, ?_, ?_⟩
    · grind [get_eq_ok_iff, h.slot_iff]
    · exact absurd hk (by simp [hrec])
    · show r.device.recycled.Nodup
      exact h.recycled_nodup
    · exact absurd hk (by simp [hrec])
    · dsimp only at hk ⊢
      by_cases heq : k = r.device.tail
      · omega
      · rw [update_of_ne heq] at hk
        exact Nat.lt_succ_of_lt (h.held_lt k d hk)
    · grind
    · simpa using hlen

/-- What `remove` does on a sound store: nothing, if there is no such slot; otherwise it empties the
slot and gives its id back, by the tail or by the stack. -/
theorem Sound.remove_cases (h : Sound r) (hmeets : r.device.compressed[zramId]? ≠ some none) :
    r.device.remove zramId = (.error .invalidIndex, r.device) ∨
    ∃ data, r.held zramId = some data ∧
      ((zramId + 1 = r.device.tail ∧ r.device.remove zramId = (.ok data, { r.device with
          tail := zramId
          compressed := r.device.compressed.set zramId none })) ∨
        (zramId + 1 < r.device.tail ∧ r.device.remove zramId = (.ok data, { r.device with
          recycled := zramId :: r.device.recycled
          compressed := r.device.compressed.set zramId none }))) := by
  unfold Zram.remove
  cases hslot : r.device.compressed[zramId]? with
  | none => exact .inl rfl
  | some slot =>
    cases slot with
    | none => exact absurd hslot hmeets
    | some data =>
      have hheld := (h.slot_iff zramId data).mp hslot
      have hlt := h.held_lt zramId data hheld
      have hle := h.tail_le
      have hlen := h.length_lt
      have hlast : r.device.lastUsed = r.device.tail - 1 := by
        unfold lastUsed u16Range at *
        omega
      grind [u16Range]

theorem Sound.remove (h : Sound r) (hmeets : r.device.compressed[zramId]? ≠ some none) :
    Sound (r.apply (.remove zramId)) := by
  have hle := h.tail_le
  have hlen := h.length_lt
  unfold Run.apply
  rcases h.remove_cases hmeets with hrem | ⟨data, hheld, hcases⟩
  · dsimp only
    rw [hrem]
    exact h
  · have hlt := h.held_lt zramId data hheld
    -- the emptied slot was in use, so it is not on the stack
    have hfresh : zramId ∉ r.device.recycled := fun hmem => by
      rw [h.held_eq_none_of_recycled hmem] at hheld
      cases hheld
    have hget : ∀ k d, (r.device.compressed.set zramId none)[k]? = some (some d) ↔
        update r.held zramId none k = some d :=
      slot_set_iff h.slot_iff (by omega)
    have hempty : ∀ k ∈ r.device.recycled,
        (r.device.compressed.set zramId none)[k]? = some none := fun k hk => by
      have hne : zramId ≠ k := fun heq => hfresh (heq ▸ hk)
      rw [getElem?_set_ne hne]
      exact h.recycled_empty k hk
    have hother : ∀ k d, update r.held zramId none k = some d →
        k ≠ zramId ∧ k < r.device.tail := fun k d hk => by
      by_cases heq : k = zramId
      · rw [heq, update_self] at hk
        cases hk
      · rw [update_of_ne heq] at hk
        exact ⟨heq, h.held_lt k d hk⟩
    dsimp only
    rcases hcases with ⟨htail, hrem⟩ | ⟨htail, hrem⟩ <;> rw [hrem]
    · refine ⟨fun k d => ?_, fun k hk => ?_, h.recycled_nodup, hempty, fun k d hk => ?_, ?_, ?_⟩
      · rw [get_eq_ok_iff]
        exact hget k d
      · grind [h.recycled_lt]
      · grind
      · grind
      · simpa using hlen
    · refine ⟨fun k d => ?_, fun k hk => ?_, ?_, fun k hk => ?_, fun k d hk => (hother k d hk).2,
        ?_, ?_⟩
      · rw [get_eq_ok_iff]
        exact hget k d
      · grind [h.recycled_lt]
      · exact nodup_cons.mpr ⟨hfresh, h.recycled_nodup⟩
      · grind
      · simpa using hle
      · simpa using hlen

theorem sound_of_run (hcap : capacity < u16Range)
    (h : ((slots capacity).restrict fun r op => op.Meets r.device).Reachable r) : Sound r := by
  refine System.Reachable.invariant (fun r hr => ?_) (fun r op t _ hsound hstep => ?_) h
  · rw [show r = _ from hr]
    exact sound_new hcap
  · obtain ⟨hmeets, hnext⟩ := hstep
    rw [← Option.some.inj hnext]
    cases op with
    | insert data => exact hsound.insert data
    | get zramId => exact hsound
    | remove zramId => exact hsound.remove hmeets

/-! ## Failing calls -/

/-- A `remove` that meets an empty slot spoils the store: the slot is free once more. -/
theorem remove_ne_of_empty (h : z.compressed[zramId]? = some none) :
    (z.remove zramId).2 ≠ z := by
  unfold Zram.remove
  rw [h]
  by_cases heq : zramId = z.lastUsed
  · grind [u16Range, lastUsed]
  · rw [if_neg heq]
    intro hsame
    have hrec : zramId % u16Range :: z.recycled = z.recycled := congrArg Zram.recycled hsame
    exact absurd (congrArg length hrec) (by simp)

/-- On a sound store a failing call changes nothing exactly if it does not remove an empty slot. -/
theorem Sound.unchanged_iff (h : Sound r) (op : Op) :
    (op.Fails r.device → (r.apply op).device = r.device) ↔ op.Meets r.device := by
  cases op with
  | insert data =>
    refine iff_of_true (fun ⟨e, he⟩ => ?_) trivial
    grind [Run.apply_insert_device, h.insert_cases]
  | get zramId => exact iff_of_true (fun _ => rfl) trivial
  | remove zramId =>
    constructor
    · intro hsame hempty
      have hlen := h.length_lt
      have hlt : zramId < r.device.compressed.length := (List.getElem?_eq_some_iff.mp hempty).1
      have herr : (r.device.remove zramId).1 = .error .notAllocated := by
        unfold Zram.remove
        rw [hempty]
      have hdevice := hsame ⟨_, herr⟩
      grind [Run.apply_remove_device, remove_ne_of_empty]
    · rintro hmeets ⟨e, he⟩
      rw [Run.apply_remove_device]
      rcases h.remove_cases hmeets with hrem | ⟨data, -, ⟨-, hrem⟩ | ⟨-, hrem⟩⟩
      · rw [hrem]
      all_goals
        rw [hrem] at he
        cases he

/-- **The slots of the store, in a run that removes no empty slot.**  The ids that are held name
their pages, the recycled ids are distinct, below the tail and empty, an id is handed out only while
nobody holds it, a page that was compressed on the way in is read back as it was, and a call that
fails changes nothing, unless it is a `remove` of an empty slot. -/
theorem slots_of_reachable {capacity : ℕ} (hcap : capacity < u16Range) {r : Run}
    (h : ((slots capacity).restrict fun r op => op.Meets r.device).Reachable r) : Sound r ∧
    (∀ data zramId device, r.device.insert data = (.ok zramId, device) → r.held zramId = none) ∧
    (∀ (compress : List UInt8 → List UInt8) (decompress : List UInt8 → Option (List UInt8)),
      (∀ page, decompress (compress page) = some page) →
      ∀ zramId page, r.held zramId = some (compress page) →
        r.device.read decompress zramId = some (.ok page)) ∧
    ∀ op : Op, (op.Fails r.device → (r.apply op).device = r.device) ↔ op.Meets r.device := by
  have hsound := sound_of_run hcap h
  refine ⟨hsound, fun data zramId device hins => ?_, fun compress decompress hcodec zramId page
    hheld => ?_, hsound.unchanged_iff⟩
  · rcases hsound.insert_cases with ⟨-, -, hins'⟩ | ⟨k, rec, hrec, hins'⟩ | ⟨-, -, hins'⟩
    · rw [hins] at hins'
      cases hins'
    · rw [hins] at hins'
      have heq : zramId = k := Except.ok.inj (congrArg Prod.fst hins')
      rw [heq]
      exact hsound.held_eq_none_of_recycled (by rw [hrec]; exact mem_cons_self)
    · rw [hins] at hins'
      have heq : zramId = r.device.tail := Except.ok.inj (congrArg Prod.fst hins')
      rw [heq]
      exact hsound.held_tail_eq_none
  · unfold Zram.read
    rw [(hsound.get_iff zramId _).mpr hheld]
    dsimp only
    rw [hcodec, Option.map_some]

/-- Two pages, of which the first is removed, and a third one. -/
def reuse : List Op := [.insert [1], .insert [2], .remove 0, .insert [3]]

/-- The store of the kernel after some calls. -/
def after (ops : List Op) : Run := ops.foldl Run.apply ⟨new 2048, fun _ => none⟩

/-- The third page gets the slot of the first. -/
theorem slots_after_reuse :
    (after reuse).held 0 = some [3] ∧ (after reuse).held 1 = some [2] ∧ Sound (after reuse) :=
  ⟨by decide +kernel, by decide +kernel, (slots_of_reachable (by decide : 2048 < u16Range)
    (System.reachable_foldl_restrict (.init rfl) (by decide +kernel))).1⟩

/-! ## Removing an empty slot -/

/-- Two pages, of which the first is removed twice. -/
def doubleRemove : List Op := [.insert [1], .insert [2], .remove 0, .remove 0]

/-- **A slot that is removed twice is handed out twice.**  The second `remove` returns an error and
still pushes the id, so that the next two pages get one slot and the first of them is lost. -/
theorem recycled_twice : (slots 2048).Reachable (after doubleRemove) ∧
    (after doubleRemove).device.recycled = [0, 0] ∧
    ((after doubleRemove).apply (.insert [3])).held 0 = some [3] ∧
    (((after doubleRemove).apply (.insert [3])).device.insert [4]).1 = .ok 0 :=
  ⟨.foldl (.init rfl) _ fun _ a => ⟨a, rfl⟩, by decide +kernel, by decide +kernel,
    by decide +kernel⟩

end Zram
end MangoCore.Mm
