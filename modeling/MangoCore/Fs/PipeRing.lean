import MangoCore.Fs.Pipe

/-!
# The ring of a pipe holds a queue

`Holds r q` says that a ring holds the queue `q` of bytes: the bytes lie in the cells from the head
on, and the status is the one of the length of `q`.  `Carries` is the same without the status, which
the loop of `spliceMove` sets only at its end.

Every loop is taken apart into the pieces it copies (`Carries.advanceHead`, `Carries.advanceTail`).
What the loops do for the queue:

* `bufferRead` takes a prefix off, `peekData` only looks at it;
* `bufferWrite` appends as much as there is room for;
* `spliceMove` takes a prefix off one queue and appends it to another;
* the two loops with user memory do the same with as many bytes as they could copy.
-/

namespace MangoCore.Fs.Pipe

open Mm PipeRingBuffer List MangoCore.Ring

/-- The bytes of the queue lie in the ring from the head on. -/
structure Carries (r : PipeRingBuffer) (q : List UInt8) : Prop where
  occupies : Occupies r.capacity r.head r.tail q.length
  bytes : slice r.arr r.capacity r.head q.length = q

/-- The status of a ring with a queue of some length. -/
def statusOf (capacity length : ℕ) : RingBufferStatus :=
  if length = 0 then .empty else if length = capacity then .full else .normal

/-- The ring holds the queue. -/
structure Holds (r : PipeRingBuffer) (q : List UInt8) : Prop extends Carries r q where
  status_eq : r.status = statusOf r.capacity q.length

/-- What no read or write changes. -/
structure SamePipe (r r' : PipeRingBuffer) : Prop where
  capacity : r'.capacity = r.capacity
  writeEnd : r'.writeEnd = r.writeEnd
  readEnd : r'.readEnd = r.readEnd

theorem SamePipe.refl {r : PipeRingBuffer} : SamePipe r r := ⟨rfl, rfl, rfl⟩

theorem SamePipe.trans {r r' r'' : PipeRingBuffer} (h : SamePipe r r') (h' : SamePipe r' r'') :
    SamePipe r r'' :=
  ⟨h'.capacity.trans h.capacity, h'.writeEnd.trans h.writeEnd, h'.readEnd.trans h.readEnd⟩

theorem SamePipe.of_read {r : PipeRingBuffer} {n : ℕ} :
    SamePipe r (r.advanceHead n).settleRead := ⟨rfl, rfl, rfl⟩

theorem SamePipe.of_write {r : PipeRingBuffer} {bytes : List UInt8} :
    SamePipe r (r.advanceTail bytes).settleWrite := ⟨rfl, rfl, rfl⟩

variable {r src dst : PipeRingBuffer} {q qs qd : List UInt8}

theorem holds_new {capacity : ℕ} (h : 0 < capacity) : Holds (.new capacity) [] where
  occupies := ⟨h, h, Nat.zero_le _, (Nat.zero_mod _).symm⟩
  bytes := rfl
  status_eq := rfl

/-! ## One piece -/

namespace Carries

variable (h : Carries r q)
include h

theorem capacity_pos : 0 < r.capacity :=
  (Nat.zero_le _).trans_lt h.occupies.head_lt

/-- **A piece at the head is a prefix of the queue.** -/
theorem advanceHead {n : ℕ} (hn : n ≤ q.length) (hend : r.head + n ≤ r.capacity) :
    segment r.arr r.head n = q.take n ∧ Carries (r.advanceHead n) (q.drop n) := by
  have hsplit : slice r.arr r.capacity r.head (n + (q.length - n)) = q := by
    rw [Nat.add_sub_cancel' hn]
    exact h.bytes
  rw [slice_add, slice_eq_segment hend, h.occupies.head_add_mod hend] at hsplit
  have hlen : (segment r.arr r.head n).length = n := length_segment ..
  have hocc := h.occupies.advance_head hn hend
  rw [← length_drop] at hocc hsplit
  refine ⟨?_, hocc, ?_⟩
  · conv_rhs => rw [← hsplit]
    rw [take_append_of_le_length hlen.ge, take_of_length_le hlen.le]
  · conv_rhs => rw [← hsplit]
    rw [drop_append_of_le_length hlen.ge, drop_of_length_le hlen.le, nil_append]
    rfl

/-- **A piece at the tail is appended to the queue.** -/
theorem advanceTail (bytes : List UInt8) (hfree : q.length + bytes.length ≤ r.capacity)
    (hend : r.tail + bytes.length ≤ r.capacity) : Carries (r.advanceTail bytes) (q ++ bytes) := by
  constructor <;> rw [length_append]
  · exact h.occupies.advance_tail hfree hend
  · exact (h.occupies.slice_write hfree hend).trans (by rw [h.bytes])

/-- The bytes are there whatever the status. -/
theorem settleRead (hlt : q.length < r.capacity) : Holds r.settleRead q := by
  refine ⟨⟨h.occupies, h.bytes⟩, ?_⟩
  grind [h.occupies.head_eq_tail_iff, settleRead, statusOf]

theorem settleWrite (hpos : 0 < q.length) : Holds r.settleWrite q := by
  refine ⟨⟨h.occupies, h.bytes⟩, ?_⟩
  simp [h.occupies.head_eq_tail_iff, PipeRingBuffer.settleWrite, statusOf, hpos.ne']

end Carries

namespace Holds

variable (h : Holds r q)
include h

theorem empty_iff : r.status = .empty ↔ q = [] := by grind [h.status_eq, statusOf]

theorem full_iff : r.status = .full ↔ q.length = r.capacity := by
  grind [h.capacity_pos, h.status_eq, statusOf]

theorem normal_iff : r.status = .normal ↔ q ≠ [] ∧ q.length < r.capacity := by
  grind [h.occupies.used_le, h.status_eq, statusOf]

theorem getUsedSize : r.getUsedSize = q.length := by
  have htail := h.occupies.tail_eq_ite
  have hhead := h.occupies.head_lt
  have hle := h.occupies.used_le
  unfold PipeRingBuffer.getUsedSize
  by_cases hfull : r.status = .full
  · rw [if_pos hfull, h.full_iff.mp hfull]
  · grind [h.empty_iff, length_eq_zero_iff]

theorem getFreeSize : r.getFreeSize = r.capacity - q.length := by
  rw [PipeRingBuffer.getFreeSize, h.getUsedSize]

end Holds

/-- The straight piece of bytes at the head. -/
theorem Carries.readEndOf (h : Carries r q) (hpos : q ≠ []) :
    r.readEndOf - r.head ≤ q.length ∧ 0 < r.readEndOf - r.head ∧ r.readEndOf ≤ r.capacity :=
  h.occupies.straight_used (length_pos_iff.mpr hpos)

/-- The straight piece of free cells at the tail. -/
theorem Carries.writeEndOf (h : Carries r q) (hlt : q.length < r.capacity) :
    r.writeEndOf - r.tail ≤ r.capacity - q.length ∧ 0 < r.writeEndOf - r.tail ∧
      r.writeEndOf ≤ r.capacity :=
  h.occupies.straight_free hlt

/-! ## The loops with kernel memory -/

/-- **`bufferRead` takes a prefix off the queue.** -/
theorem Holds.bufferRead (h : Holds r q) (len : ℕ) :
    (r.bufferRead len).1 = q.take len ∧ Holds (r.bufferRead len).2 (q.drop len) ∧
      SamePipe r (r.bufferRead len).2 := by
  induction hm : len using Nat.strong_induction_on generalizing r q len with
  | _ m ih =>
  subst hm
  rw [bufferRead]
  by_cases hlen : len = 0
  · rw [dif_pos hlen, hlen, take_zero, drop_zero]
    exact ⟨rfl, h, .refl⟩
  rw [dif_neg hlen]
  split_ifs with hempty
  · have hq := h.empty_iff.mp hempty
    subst hq
    rw [take_nil, drop_nil]
    exact ⟨rfl, h, .refl⟩
  have hne : q ≠ [] := mt h.empty_iff.mpr hempty
  obtain ⟨hle, hpos, hcap⟩ := h.readEndOf hne
  dsimp only
  -- the first piece, then the rest of the loop
  generalize hn : min len (r.readEndOf - r.head) = n
  have hnpos : n ≠ 0 := by omega
  rw [dif_neg hnpos]
  obtain ⟨hseg, hcarries⟩ := h.advanceHead (n := n) (by omega) (by omega)
  have hused := h.occupies.used_le
  have hholds := hcarries.settleRead (by
    rw [length_drop]
    change q.length - n < r.capacity
    omega)
  obtain ⟨hbytes, hrest, hsame⟩ := ih (len - n) (by omega) hholds (len - n) rfl
  refine ⟨?_, ?_, SamePipe.of_read.trans hsame⟩
  · rw [hbytes, hseg, ← take_add, Nat.add_sub_cancel' (by omega)]
  · rw [drop_drop, Nat.add_sub_cancel' (by omega)] at hrest
    exact hrest

/-- **`bufferWrite` appends what there is room for.** -/
theorem Holds.bufferWrite (h : Holds r q) (buf : List UInt8) :
    (r.bufferWrite buf).1 = min buf.length (r.capacity - q.length) ∧
      Holds (r.bufferWrite buf).2 (q ++ buf.take (r.capacity - q.length)) ∧
      SamePipe r (r.bufferWrite buf).2 := by
  induction hm : buf.length using Nat.strong_induction_on generalizing r q buf with
  | _ m ih =>
  subst hm
  rw [bufferWrite]
  by_cases hlen : buf.length = 0
  · rw [dif_pos hlen, hlen, length_eq_zero_iff.mp hlen, take_nil, append_nil]
    exact ⟨(Nat.zero_min _).symm, h, .refl⟩
  rw [dif_neg hlen]
  by_cases hfull : r.status = .full
  · rw [if_pos hfull, h.full_iff.mp hfull, Nat.sub_self, take_zero, append_nil]
    exact ⟨(Nat.min_zero _).symm, h, .refl⟩
  rw [if_neg hfull]
  have hlt : q.length < r.capacity :=
    lt_of_le_of_ne h.occupies.used_le (mt h.full_iff.mpr hfull)
  obtain ⟨hle, hpos, hcap⟩ := h.writeEndOf hlt
  dsimp only
  rw [h.getFreeSize, if_neg (by omega)]
  generalize hn : min (min buf.length (r.capacity - q.length)) (r.writeEndOf - r.tail) = n
  have hnpos : n ≠ 0 := by omega
  have htake : (buf.take n).length = n := by
    rw [length_take]
    omega
  rw [dif_neg hnpos]
  have hcarries := h.advanceTail (buf.take n) (by omega) (by omega)
  have hholds := hcarries.settleWrite (by rw [length_append]; omega)
  obtain ⟨hcount, hrest, hsame⟩ := ih (buf.drop n).length (by rw [length_drop]; omega) hholds
    (buf.drop n) rfl
  have hcapacity : (r.advanceTail (buf.take n)).settleWrite.capacity = r.capacity := rfl
  rw [hcapacity, length_append, htake] at hcount hrest
  refine ⟨?_, ?_, SamePipe.of_write.trans hsame⟩
  · rw [hcount, length_drop]
    omega
  · have hall : buf.take n ++ (buf.drop n).take (r.capacity - (q.length + n))
        = buf.take (r.capacity - q.length) := by
      rw [← take_add]
      congr 1
      omega
    rw [append_assoc, hall] at hrest
    exact hrest

/-- The pieces that `peekData` copies are those of the queue from a position on. -/
theorem peekFrom_eq {pos n : ℕ} {p : List UInt8}
    (h : Carries { r with head := pos } p) (hn : n ≤ p.length) :
    r.peekFrom pos n = p.take n := by
  induction hm : n using Nat.strong_induction_on generalizing pos n p with
  | _ m ih =>
  subst hm
  rw [peekFrom]
  by_cases hzero : n = 0
  · rw [dif_pos hzero, hzero, take_zero]
  rw [dif_neg hzero]
  have hne : p ≠ [] := by
    rintro rfl
    exact hzero (Nat.le_zero.mp hn)
  obtain ⟨hle, hpos, hcap⟩ := h.readEndOf hne
  unfold readEndOf at hle hpos hcap
  dsimp only at hle hpos hcap ⊢
  generalize hchunk : min n ((if r.tail ≤ pos then r.capacity else r.tail) - pos) = chunk
  have hcpos : chunk ≠ 0 := by omega
  rw [dif_neg hcpos]
  obtain ⟨hseg, hcarries⟩ := h.advanceHead (n := chunk) (by omega) (by dsimp only; omega)
  rw [ih (n - chunk) (by omega) hcarries (by rw [length_drop]; omega) rfl, hseg,
    ← take_add, Nat.add_sub_cancel' (by omega)]

/-- **`peekData` looks at a prefix of the queue.** -/
theorem Holds.peekData (h : Holds r q) (len : ℕ) : r.peekData len = q.take len := by
  unfold PipeRingBuffer.peekData
  by_cases hempty : r.status = .empty
  · rw [if_pos hempty, h.empty_iff.mp hempty, take_nil]
  · rw [if_neg hempty, h.getUsedSize, peekFrom_eq h.toCarries (min_le_right ..),
      ← take_eq_take_min]

/-! ## Splicing -/

/-- The loop moves all it is asked to move. -/
theorem spliceLoop_eq (hs : Carries src qs) (hd : Carries dst qd) (remaining : ℕ)
    (havail : remaining ≤ qs.length) (hspace : qd.length + remaining ≤ dst.capacity) :
    let moved := spliceLoop src dst remaining
    moved.1 = 0 ∧ Carries moved.2.1 (qs.drop remaining) ∧ Carries moved.2.2 (qd ++ qs.take
      remaining) ∧ SamePipe src moved.2.1 ∧ SamePipe dst moved.2.2 := by
  induction hm : remaining using Nat.strong_induction_on generalizing src dst qs qd remaining with
  | _ m ih =>
  subst hm
  rw [spliceLoop]
  by_cases hzero : remaining = 0
  · rw [dif_pos hzero, hzero, drop_zero, take_zero, append_nil]
    exact ⟨rfl, hs, hd, .refl, .refl⟩
  rw [dif_neg hzero]
  have hne : qs ≠ [] := by
    rintro rfl
    exact hzero (Nat.le_zero.mp havail)
  obtain ⟨hsle, hspos, hscap⟩ := hs.readEndOf hne
  obtain ⟨hdle, hdpos, hdcap⟩ := hd.writeEndOf (by omega)
  dsimp only
  generalize hchunk : min (min (src.readEndOf - src.head) remaining)
    (min (dst.writeEndOf - dst.tail) (min (src.readEndOf - src.head) remaining)) = chunk
  rw [if_neg (by omega), dif_neg (by omega)]
  obtain ⟨hseg, hsrc⟩ := hs.advanceHead (n := chunk) (by omega) (by omega)
  have hlen : (segment src.arr src.head chunk).length = chunk := length_segment ..
  have hdst := hd.advanceTail (segment src.arr src.head chunk) (by omega) (by omega)
  rw [hseg] at hdst hlen
  obtain ⟨hcount, hsrc', hdst', hsame, hsame'⟩ := ih (remaining - chunk) (by omega) hsrc hdst
    (remaining - chunk) (by rw [length_drop]; omega)
    (by
      rw [length_append, hlen]
      change qd.length + chunk + (remaining - chunk) ≤ dst.capacity
      omega) rfl
  rw [hseg]
  rw [drop_drop, Nat.add_sub_cancel' (by omega)] at hsrc'
  rw [append_assoc, ← take_add, Nat.add_sub_cancel' (by omega)] at hdst'
  exact ⟨hcount, hsrc', hdst', ⟨hsame.capacity, hsame.writeEnd, hsame.readEnd⟩,
    ⟨hsame'.capacity, hsame'.writeEnd, hsame'.readEnd⟩⟩

/-- **`spliceMove` takes a prefix off one queue and appends it to the other.** -/
theorem spliceMove_eq (hs : Holds src qs) (hd : Holds dst qd) {maxBytes : ℕ} {want : ℕ}
    (hwant : want = min (min maxBytes qs.length) (dst.capacity - qd.length)) :
    let moved := spliceMove src dst maxBytes
    moved.1 = want ∧ Holds moved.2.1 (qs.drop want) ∧ Holds moved.2.2 (qd ++ qs.take want) ∧
      SamePipe src moved.2.1 ∧ SamePipe dst moved.2.2 := by
  have hused := hs.occupies.used_le
  unfold spliceMove
  dsimp only
  rw [hs.getUsedSize, hd.getFreeSize, ← hwant]
  by_cases hzero : want = 0
  · rw [if_pos hzero, hzero, drop_zero, take_zero, append_nil]
    exact ⟨rfl, hs, hd, .refl, .refl⟩
  rw [if_neg hzero]
  obtain ⟨hcount, hsrc, hdst, hsame, hsame'⟩ :=
    spliceLoop_eq hs.toCarries hd.toCarries want (by omega) (by omega)
  rw [hcount, Nat.sub_zero, if_pos (Nat.pos_of_ne_zero hzero)]
  refine ⟨rfl, hsrc.settleRead ?_, hdst.settleWrite ?_, .trans hsame ⟨rfl, rfl, rfl⟩,
    .trans hsame' ⟨rfl, rfl, rfl⟩⟩
  · rw [length_drop, hsame.capacity]
    omega
  · rw [length_append, length_take]
    omega

/-! ## The loops with user memory -/

/-- A call that is to copy up to `bound` bytes piece by piece, where `copy` says how many bytes of a
piece from an offset on are copied, ends after `n` bytes: at the bound, or inside a piece whose copy
stopped there. -/
def Stops (copy : ℕ → ℕ → Option ℕ) (bound n : ℕ) : Prop :=
  n = bound ∨ ∃ total len, total ≤ n ∧ n < total + len ∧ total + len ≤ bound ∧
    copy total len = if n = total then none else some (n - total)

/-- The copies into the pages of a buffer. -/
def copyOut (dst : UserBuffer) (resolves : ℕ → ℕ → Bool) (total len : ℕ) : Option ℕ :=
  dst.writeFromAtNofault (resolves total) total len

/-- The copies from the pages of a buffer. -/
def copyIn (src : UserBuffer) (resolves : ℕ → ℕ → Bool) (total len : ℕ) : Option ℕ :=
  src.readIntoAtNofault (resolves total) total len

/-- The loop of `readAtUser` delivers a prefix of the queue. -/
theorem Holds.readUserLoop (h : Holds r q) (dst : UserBuffer) (resolves : ℕ → ℕ → Bool)
    (total : ℕ) {bound : ℕ} (hbound : bound = min (dst.len - total) q.length) :
    let read := readUserLoop dst resolves r total
    ∃ n ≤ bound, read.1 = q.take n ∧ Holds read.2.2 (q.drop n) ∧ SamePipe r read.2.2 ∧
      Stops (copyOut dst resolves) (total + bound) (total + n) ∧
      (n = 0 → 0 < bound → read.2.1 = true) := by
  induction hm : dst.len - total using Nat.strong_induction_on generalizing r q total bound with
  | _ m ih =>
  rw [Pipe.readUserLoop]
  by_cases hdone : dst.len ≤ total
  · rw [dif_pos hdone]
    exact ⟨0, Nat.zero_le _, rfl, h, .refl, .inl (by omega), by omega⟩
  rw [dif_neg hdone]
  split_ifs with hempty
  · have hq := h.empty_iff.mp hempty
    subst hq
    rw [length_nil] at hbound
    exact ⟨0, Nat.zero_le _, rfl, h, .refl, .inl (by omega), by omega⟩
  obtain ⟨hle, hpos, hcap⟩ := h.readEndOf (mt h.empty_iff.mpr hempty)
  have hused := h.occupies.used_le
  generalize hseg : min (dst.len - total) (r.readEndOf - r.head) = segLen
  rw [dif_neg (by omega)]
  rcases hcopy : dst.writeFromAtNofault (resolves total) total segLen with _ | n
  · refine ⟨0, Nat.zero_le _, rfl, h, .refl, .inr ⟨total, segLen, ?_⟩, fun _ _ => rfl⟩
    exact ⟨Nat.le_add_right .., by omega, by omega, hcopy.trans (if_pos rfl).symm⟩
  obtain ⟨hnpos, hnle⟩ := UserBuffer.writeFromAtNofault_spec (by omega) (by omega) hcopy
  obtain ⟨hbytes, hcarries⟩ := h.advanceHead (n := n) (by omega) (by omega)
  have hholds := hcarries.settleRead (by
    rw [length_drop]
    change q.length - n < r.capacity
    omega)
  by_cases hshort : n < segLen
  · simp only [dif_pos hshort]
    refine ⟨n, by omega, hbytes, hholds, .of_read, .inr ⟨total, segLen, ?_⟩, by omega⟩
    refine ⟨Nat.le_add_right .., by omega, by omega, hcopy.trans ?_⟩
    rw [if_neg (by omega), Nat.add_sub_cancel_left]
  · simp only [dif_neg hshort]
    obtain ⟨k, hk, hrest, hholds', hsame, hstops, -⟩ := ih (dst.len - (total + n)) (by omega) hholds
      (total + n) (show bound - n = _ by rw [length_drop]; omega) rfl
    refine ⟨n + k, by omega, ?_, ?_, SamePipe.of_read.trans hsame, ?_, by omega⟩
    · rw [hrest, hbytes, ← take_add]
    · rw [drop_drop] at hholds'
      exact hholds'
    · rw [show total + n + (bound - n) = total + bound by omega, add_assoc total n k] at hstops
      exact hstops

/-- The loop of `writeAtUser` appends the next bytes of the buffer. -/
theorem Holds.writeUserLoop (h : Holds r q) (src : UserBuffer) (data : ℕ → UInt8)
    (resolves : ℕ → ℕ → Bool) (total : ℕ) {bound : ℕ}
    (hbound : bound = min (src.len - total) (r.capacity - q.length)) :
    let w := writeUserLoop src data resolves r total
    w.1 ≤ bound ∧ Holds w.2.2 (q ++ segment data total w.1) ∧ SamePipe r w.2.2 ∧
      Stops (copyIn src resolves) (total + bound) (total + w.1) ∧
      (w.1 = 0 → 0 < bound → w.2.1 = true) := by
  induction hm : src.len - total using Nat.strong_induction_on generalizing r q total bound with
  | _ m ih =>
  have hkept : Holds r (q ++ segment data total 0) := (append_nil q).symm ▸ h
  rw [Pipe.writeUserLoop]
  by_cases hdone : src.len ≤ total
  · rw [dif_pos hdone]
    exact ⟨Nat.zero_le _, hkept, .refl, .inl (by dsimp only; omega), by omega⟩
  rw [dif_neg hdone]
  split_ifs with hfull
  · have hlen := h.full_iff.mp hfull
    exact ⟨Nat.zero_le _, hkept, .refl, .inl (by dsimp only; omega), by omega⟩
  have hlt : q.length < r.capacity :=
    lt_of_le_of_ne h.occupies.used_le (mt h.full_iff.mpr hfull)
  obtain ⟨hle, hpos, hcap⟩ := h.writeEndOf hlt
  rw [h.getFreeSize]
  generalize hseg : min (min (min (src.len - total) (r.capacity - q.length))
    (r.writeEndOf - r.tail)) pageSize = segLen
  have hpage : 0 < pageSize := by decide
  rw [if_neg (by omega)]
  rcases hcopy : src.readIntoAtNofault (resolves total) total segLen with _ | n
  · refine ⟨Nat.zero_le _, hkept, .refl, .inr ⟨total, segLen, ?_⟩, fun _ _ => rfl⟩
    exact ⟨Nat.le_add_right .., by dsimp only; omega, by omega, hcopy.trans (if_pos rfl).symm⟩
  obtain ⟨hnpos, hnle⟩ := UserBuffer.readIntoAtNofault_spec (by omega) (by omega) hcopy
  have hlen : (segment data total n).length = n := length_segment ..
  have hcarries := h.advanceTail (segment data total n) (by omega) (by omega)
  have hholds := hcarries.settleWrite (by rw [length_append]; omega)
  simp only [dif_neg hnpos.ne']
  by_cases hshort : n < segLen
  · rw [if_pos hshort]
    refine ⟨by dsimp only; omega, hholds, .of_write, .inr ⟨total, segLen, ?_⟩, by dsimp only; omega⟩
    refine ⟨Nat.le_add_right .., by dsimp only; omega, by omega, hcopy.trans ?_⟩
    rw [if_neg (by dsimp only; omega), Nat.add_sub_cancel_left]
  · rw [if_neg hshort]
    have hcapacity :
        (r.advanceTail (segment data total n)).settleWrite.capacity = r.capacity :=
      rfl
    obtain ⟨hk, hholds', hsame, hstops, -⟩ :=
      ih (src.len - (total + n)) (by omega) hholds (total + n)
        (show bound - n = _ by rw [hcapacity, length_append]; omega) rfl
    refine ⟨by dsimp only; omega, ?_, SamePipe.of_write.trans hsame, ?_, by dsimp only; omega⟩
    · rw [append_assoc, segment_append] at hholds'
      exact hholds'
    · rw [show total + n + (bound - n) = total + bound by omega, add_assoc total n] at hstops
      exact hstops
end MangoCore.Fs.Pipe
