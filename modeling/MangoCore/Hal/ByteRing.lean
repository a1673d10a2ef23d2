import MangoCore.Lib.Ring
import MangoCore.Lib.System

/-!
# The ring between the UART interrupt and its reader

One producer pushes bytes and one consumer pops them; each advances an index that it alone changes.
Every access to what the other side changes or looks at is a step.  A byte is stored before its
index is published and loaded after, with release and acquire order, so the interleavings of these
steps are all the behaviours there are.

The bytes that were accepted are those that were popped and then those in the ring (`Sound`).
-/

namespace MangoCore.Hal.ByteRing

open List MangoCore.Ring

/-- What the producer has done of `push`. -/
inductive Push where
  | idle
  | checked (byte : UInt8)
  | stored (byte : UInt8)

/-- What the consumer has done of `pop`. -/
inductive Pop where
  | idle
  | checked
  | loaded (byte : UInt8)

/-- The ring, the two sides, and the bytes of the calls that have returned. -/
structure State where
  bytes : ℕ → UInt8
  head : ℕ
  tail : ℕ
  push : Push
  pop : Pop
  accepted : List UInt8
  popped : List UInt8

/-- The next step of a side; a call of `push` is for the byte of its first step. -/
inductive Label where
  | push (byte : UInt8)
  | pop

variable (capacity : ℕ)

def nextIndex (index : ℕ) : ℕ := (index + 1) % capacity

def State.next (s : State) : Label → State
  | .push byte =>
    match s.push with
    | .idle => if nextIndex capacity s.head = s.tail then s else { s with push := .checked byte }
    | .checked byte => { s with bytes := write s.bytes s.head [byte], push := .stored byte }
    | .stored byte =>
      { s with
        head := nextIndex capacity s.head, push := .idle, accepted := s.accepted ++ [byte] }
  | .pop =>
    match s.pop with
    | .idle => if s.tail = s.head then s else { s with pop := .checked }
    | .checked => { s with pop := .loaded (s.bytes s.tail) }
    | .loaded byte =>
      { s with tail := nextIndex capacity s.tail, pop := .idle, popped := s.popped ++ [byte] }

/-- All interleavings from an empty ring; `new` refuses a capacity below two. -/
def byteRing : System State Label :=
  .ofFun (fun s => 1 < capacity ∧ s = ⟨fun _ => 0, 0, 0, .idle, .idle, [], []⟩)
    fun s l => some (s.next capacity l)

/-- The ring holds `u` bytes.  What a side found out about it stays true whatever the other does. -/
structure Sound (s : State) (u : ℕ) : Prop where
  occupies : Occupies capacity s.tail s.head u
  lt : u < capacity
  contents : s.accepted = s.popped ++ slice s.bytes capacity s.tail u
  free : s.push ≠ .idle → u + 1 < capacity
  stored : ∀ byte, s.push = .stored byte → s.bytes s.head = byte
  used : s.pop ≠ .idle → 0 < u
  loaded : ∀ byte, s.pop = .loaded byte → s.bytes s.tail = byte

variable {capacity} {s : State} {u : ℕ} {byte : UInt8}

namespace Sound

variable (h : Sound capacity s u)
include h

theorem full_iff : nextIndex capacity s.head = s.tail ↔ u + 1 = capacity := by
  have hhead := h.occupies.tail_eq_ite
  have htail := h.occupies.head_lt
  have hlt := h.lt
  rw [nextIndex, mod_eq_ite (by split_ifs at hhead <;> omega)]
  split_ifs at hhead ⊢ <;> omega

theorem empty_iff : s.tail = s.head ↔ u = 0 := by
  rw [h.occupies.head_eq_tail_iff, or_iff_left h.lt.ne]

theorem next_push : ∃ u, Sound capacity (s.next capacity (.push byte)) u := by
  unfold State.next
  cases hp : s.push with
  | idle =>
    refine ⟨u, ?_⟩
    by_cases hfull : nextIndex capacity s.head = s.tail
    · simpa [hfull] using h
    · have hfree : u + 1 < capacity := lt_of_le_of_ne h.lt (mt h.full_iff.mpr hfull)
      simpa [hfull] using { h with free := fun _ => hfree, stored := by simp }
  | checked byte =>
    have hfree := h.free (by simp [hp])
    have hslice : slice (write s.bytes s.head [byte]) capacity s.tail u =
        slice s.bytes capacity s.tail u := h.occupies.slice_write_behind hfree.le
    refine ⟨u, { h with contents := ?_, free := fun _ => hfree, stored := ?_, loaded := ?_ }⟩
    · rw [hslice]
      exact h.contents
    · grind [write]
    · intro loaded (hq : s.pop = _)
      -- the consumer has found a byte, so its cell is not the one that is written
      have hused : 0 < u := h.used (by simp [hq])
      have hne : s.tail ≠ s.head := mt h.empty_iff.mp hused.ne'
      grind [write, h.loaded]
  | stored byte =>
    have hfree := h.free (by simp [hp])
    have hslice : slice s.bytes capacity s.tail (u + 1) =
        slice s.bytes capacity s.tail u ++ [byte] := by
      rw [slice_add, ← h.occupies.tail_eq]
      simp [slice, Nat.mod_eq_of_lt h.occupies.tail_lt, h.stored byte hp]
    refine ⟨u + 1, ⟨h.occupies.head_lt, Nat.mod_lt _ (by omega), hfree.le, ?_⟩, hfree, ?_, by simp,
      by simp, fun _ => u.succ_pos, h.loaded⟩
    · rw [h.occupies.tail_eq, nextIndex, Nat.mod_add_mod, add_assoc]
    · rw [hslice, ← append_assoc, ← h.contents]

theorem next_pop : ∃ u, Sound capacity (s.next capacity .pop) u := by
  unfold State.next
  cases hp : s.pop with
  | idle =>
    refine ⟨u, ?_⟩
    by_cases hempty : s.tail = s.head
    · simpa [hempty] using h
    · have hused : 0 < u := Nat.pos_of_ne_zero (mt h.empty_iff.mpr hempty)
      simpa [hempty] using { h with used := fun _ => hused, loaded := by simp }
  | checked => exact ⟨u, { h with used := fun _ => h.used (by simp [hp]), loaded := by simp }⟩
  | loaded byte =>
    have hused := h.used (by simp [hp])
    have hlt := h.lt
    have hslice : slice s.bytes capacity s.tail u =
        byte :: slice s.bytes capacity (nextIndex capacity s.tail) (u - 1) := by
      rw [← Nat.add_sub_cancel' hused, slice_add]
      simp [slice, nextIndex, Nat.mod_eq_of_lt h.occupies.head_lt, h.loaded byte hp]
    dsimp only
    refine ⟨u - 1, ⟨Nat.mod_lt _ (by omega), h.occupies.tail_lt, by omega, ?_⟩, by omega, ?_,
      fun hpush => by have := h.free hpush; omega, h.stored, by simp, by simp⟩
    · rw [nextIndex, Nat.mod_add_mod, add_assoc, Nat.add_sub_cancel' hused]
      exact h.occupies.tail_eq
    · rw [h.contents, hslice, append_assoc]
      rfl

end Sound

/-- **What is popped is what was accepted, in order**, up to the bytes in the ring, of which there
are fewer than its cells. -/
theorem fifo_of_byteRing (hs : (byteRing capacity).Reachable s) :
    ∃ u < capacity, Occupies capacity s.tail s.head u ∧
      s.accepted = s.popped ++ slice s.bytes capacity s.tail u := by
  obtain ⟨u, h⟩ : ∃ u, Sound capacity s u := by
    refine hs.invariant (I := fun s => ∃ u, Sound capacity s u) ?_ ?_
    · rintro _ ⟨hc, rfl⟩
      have hpos : 0 < capacity := Nat.zero_lt_of_lt hc
      exact ⟨0, ⟨hpos, hpos, hpos.le, (Nat.zero_mod _).symm⟩, hpos, rfl, nofun, nofun, nofun, nofun⟩
    · rintro s l _ - ⟨u, h⟩ hstep
      cases hstep
      cases l with
      | push byte => exact h.next_push
      | pop => exact h.next_pop
  exact ⟨u, h.lt, h.occupies, h.contents⟩

/-- Three bytes pass through a ring of two cells, whose indexes wrap around. -/
theorem fifo_three : ∃ s, (byteRing 2).Reachable s ∧ s.accepted = [5, 6, 7] ∧ s.popped = [5, 6] ∧
    ∃ u < 2, Occupies 2 s.tail s.head u ∧ s.accepted = s.popped ++ slice s.bytes 2 s.tail u := by
  obtain ⟨s, hs, haccepted, hpopped⟩ : ∃ s, (byteRing 2).Reachable s ∧ s.accepted = [5, 6, 7] ∧
      s.popped = [5, 6] :=
    System.exists_run [.push 5, .push 0, .push 0, .pop, .pop, .push 9, .pop, .push 6, .push 0,
      .push 0, .pop, .pop, .pop, .push 7, .push 0, .push 0] ⟨by decide, rfl⟩ (by decide)
  exact ⟨s, hs, haccepted, hpopped, fifo_of_byteRing hs⟩

end MangoCore.Hal.ByteRing
