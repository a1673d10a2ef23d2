import MangoCore.Fs.PipeRing
import MangoCore.Lib.System

/-!
# Pipes are bounded queues

Any number of pipes, each with a fixed capacity, under any sequence of reads, writes, peeks and
splices of any lengths; the ends of a pipe may open and close at any time.  For each pipe the system
keeps what it has accepted and what it has delivered, where a splice delivers from one pipe and is
accepted by another.

The abstract pipe is a list of bytes.  `FifoStep` says what a call does to the lists: a read
delivers a prefix, a write appends, a splice does both, and a call that reports an error changes
nothing.  A call with user memory moves less than it could only if a copy stopped (`Stops`).
`fifo_of_reachable` is the refinement: every call of the rings is such a step of the lists, in every
state that the calls reach the indices and the status are those of the list, and what was accepted
is what was delivered followed by what is in the pipe.
-/

namespace MangoCore.Fs.Pipe

open Mm PipeRingBuffer Function Pipe List MangoCore.Ring Inv

/-- A pipe with what went in and what came out. -/
structure PipeState where
  ring : PipeRingBuffer
  accepted : List UInt8
  delivered : List UInt8

/-- The calls.  A splice has two different pipes; the system call rejects a splice of a pipe with
itself. -/
inductive Op where
  | readAt (i : ℕ) (readable : Bool) (len : ℕ)
  | readAtUser (i : ℕ) (readable : Bool) (dst : UserBuffer) (resolves : ℕ → ℕ → Bool)
  | writeAt (i : ℕ) (writable : Bool) (buf : List UInt8)
  | writeAtUser (i : ℕ) (writable : Bool) (src : UserBuffer) (data : ℕ → UInt8)
      (resolves : ℕ → ℕ → Bool)
  | peekAt (i len : ℕ)
  | spliceMove (i j maxBytes : ℕ) (hne : i ≠ j)
  | setEnds (i : ℕ) (writeEnd readEnd : Bool)

/-- What a call answers. -/
inductive Answer where
  | read (answer : ReadAnswer)
  | write (answer : WriteAnswer)
  | peek (bytes : List UInt8)
  | splice (moved : ℕ)
  | done
  deriving DecidableEq

/-- The bytes that an answer of a read delivers. -/
def ReadAnswer.bytes : ReadAnswer → List UInt8
  | .ok bytes => bytes
  | .error _ => []

/-- The number of bytes that an answer of a write accepts. -/
def WriteAnswer.count : WriteAnswer → ℕ
  | .ok n => n
  | .error _ => 0

section

variable (capacity : ℕ → ℕ) (p : PipeState)

def PipeState.afterRead (r : ReadAnswer × PipeRingBuffer) : PipeState where
  ring := r.2
  accepted := p.accepted
  delivered := p.delivered ++ r.1.bytes

def PipeState.afterWrite (buf : List UInt8) (r : WriteAnswer × PipeRingBuffer) : PipeState where
  ring := r.2
  accepted := p.accepted ++ buf.take r.1.count
  delivered := p.delivered

variable (s : ℕ → PipeState)

/-- One call. -/
def apply : Op → Answer × (ℕ → PipeState)
  | .readAt i readable len =>
    let r := readAt readable (s i).ring len
    (.read r.1, update s i ((s i).afterRead r))
  | .readAtUser i readable dst resolves =>
    let r := readAtUser readable (s i).ring dst resolves
    (.read r.1, update s i ((s i).afterRead r))
  | .writeAt i writable buf =>
    let r := writeAt writable (s i).ring buf
    (.write r.1, update s i ((s i).afterWrite buf r))
  | .writeAtUser i writable src data resolves =>
    let r := writeAtUser writable (s i).ring src data resolves
    (.write r.1, update s i ((s i).afterWrite (segment data 0 src.len) r))
  | .peekAt i len => (.peek ((s i).ring.peekData len), s)
  | .spliceMove i j maxBytes _ =>
    let r := spliceMove (s i).ring (s j).ring maxBytes
    let bytes := (s i).ring.peekData r.1
    (.splice r.1,
      update
        (update s i
          { (s i) with ring := r.2.1, delivered := (s i).delivered ++ bytes })
        j { (s j) with ring := r.2.2, accepted := (s j).accepted ++ bytes })
  | .setEnds i writeEnd readEnd =>
    (.done, update s i
      { (s i) with ring := { (s i).ring with writeEnd := writeEnd, readEnd := readEnd } })

/-- Any calls on new pipes of the given capacities. -/
def calls : System (ℕ → PipeState) Op where
  init s := ∀ i, 0 < capacity i ∧
    s i = { ring := .new (capacity i), accepted := [], delivered := [] }
  step s op t := (apply s op).2 = t

/-! ## The abstract pipes -/

/-- The bytes in a pipe. -/
def PipeState.queue : List UInt8 :=
  slice p.ring.arr p.ring.capacity p.ring.head p.ring.getUsedSize

/-- A read of `len` bytes from an abstract pipe, of which `n` can be copied. -/
def fifoRead (readable writeEnd : Bool) (q : List UInt8) (len n : ℕ) : ReadAnswer × List UInt8 :=
  if !readable then (.error .EBADF, q)
  else if len = 0 then (.ok [], q)
  else if q = [] then if !writeEnd then (.ok [], q) else (.error .EAGAIN, q)
  else if n = 0 then (.error .EFAULT, q)
  else (.ok (q.take n), q.drop n)

/-- A write to an abstract pipe, of which `n` bytes can be copied and fit: a write of at most a page
is refused if there is no room for all of it. -/
def fifoWrite (writable readEnd : Bool) (capacity : ℕ) (q buf : List UInt8) (n : ℕ) :
    WriteAnswer × List UInt8 :=
  if !writable then (.error .EBADF, q)
  else if buf.length = 0 then (.ok 0, q)
  else if !readEnd then (.error .EPIPE, q)
  else if q.length = capacity then (.error .EAGAIN, q)
  else if buf.length ≤ pageSize && capacity - q.length < buf.length then (.error .EAGAIN, q)
  else if n = 0 then (.error .EFAULT, q)
  else (.ok n, q ++ buf.take n)

/-- What a call does to the queues `q`.  A call with kernel memory moves all it can. -/
def FifoStep (q : ℕ → List UInt8) : Op → Answer → (ℕ → List UInt8) → Prop
  | .readAt i readable len, answer, q' =>
    let read := fifoRead readable (s i).ring.writeEnd (q i) len len
    answer = .read read.1 ∧ q' = update q i read.2
  | .readAtUser i readable dst resolves, answer, q' =>
    ∃ n ≤ min dst.len (q i).length,
      Stops (copyOut dst resolves) (min dst.len (q i).length) n ∧
      let read := fifoRead readable (s i).ring.writeEnd (q i) dst.len n
      answer = .read read.1 ∧ q' = update q i read.2
  | .writeAt i writable buf, answer, q' =>
    let w := fifoWrite writable (s i).ring.readEnd (capacity i) (q i) buf
      (min buf.length (capacity i - (q i).length))
    answer = .write w.1 ∧ q' = update q i w.2
  | .writeAtUser i writable src data resolves, answer, q' =>
    ∃ n ≤ min src.len (capacity i - (q i).length),
      Stops (copyIn src resolves) (min src.len (capacity i - (q i).length)) n ∧
      let w := fifoWrite writable (s i).ring.readEnd (capacity i) (q i) (segment data 0 src.len) n
      answer = .write w.1 ∧ q' = update q i w.2
  | .peekAt i len, answer, q' => answer = .peek ((q i).take len) ∧ q' = q
  | .spliceMove i j maxBytes _, answer, q' =>
    ∃ n, n = min (min maxBytes (q i).length) (capacity j - (q j).length) ∧ answer = .splice n ∧
      q' = update (update q i ((q i).drop n)) j (q j ++ (q i).take n)
  | .setEnds _ _ _, answer, q' => answer = .done ∧ q' = q

end

/-- A ring of some capacity as a queue. -/
structure FifoRing (capacity : ℕ) (p : PipeState) : Prop where
  head_lt : p.ring.head < capacity
  tail_lt : p.ring.tail < capacity
  length_le : p.queue.length ≤ capacity
  empty_iff : p.ring.status = .empty ↔ p.queue = []
  full_iff : p.ring.status = .full ↔ p.queue.length = capacity
  normal_iff : p.ring.status = .normal ↔ p.queue ≠ [] ∧ p.queue.length < capacity
  accounted : p.accepted = p.delivered ++ p.queue
  delivered_first : p.delivered <+: p.accepted

/-! ## One call on one ring -/

variable {r : PipeRingBuffer} {q : List UInt8} {capacity : ℕ → ℕ} {p : PipeState}
  {s : ℕ → PipeState} {i : ℕ}

section

variable (h : Holds r q)
include h

variable (writable readable : Bool)

theorem Holds.readAt (len : ℕ) :
    (readAt readable r len).1 = (fifoRead readable r.writeEnd q len len).1 ∧
      Holds (readAt readable r len).2 (fifoRead readable r.writeEnd q len len).2 ∧
      SamePipe r (readAt readable r len).2 := by
  unfold Pipe.readAt fifoRead
  simp only [h.empty_iff]
  split_ifs with hreadable hlen hq hend
  · exact ⟨rfl, h, .refl⟩
  · exact ⟨rfl, h, .refl⟩
  · exact ⟨rfl, h, .refl⟩
  · exact ⟨rfl, h, .refl⟩
  · obtain ⟨hbytes, hholds, hsame⟩ := h.bufferRead len
    have hused := h.occupies.used_le
    have hpos := length_pos_iff.mpr hq
    have hlt : (q.drop len).length < (r.bufferRead len).2.capacity := by
      rw [length_drop, hsame.capacity]
      omega
    refine ⟨congrArg Except.ok hbytes, hholds.settleRead hlt, ?_⟩
    exact hsame.trans ⟨rfl, rfl, rfl⟩

theorem Holds.writeAt (buf : List UInt8) {n : ℕ} (hn : n = min buf.length (r.capacity - q.length)) :
    (writeAt writable r buf).1 = (fifoWrite writable r.readEnd r.capacity q buf n).1 ∧
      Holds (writeAt writable r buf).2 (fifoWrite writable r.readEnd r.capacity q buf n).2 ∧
      SamePipe r (writeAt writable r buf).2 := by
  have hused := h.occupies.used_le
  unfold Pipe.writeAt fifoWrite
  simp only [h.full_iff, h.getFreeSize]
  split_ifs with hwritable hlen hend hfull hroom hzero
  · exact ⟨rfl, h, .refl⟩
  · exact ⟨rfl, h, .refl⟩
  · exact ⟨rfl, h, .refl⟩
  · exact ⟨rfl, h, .refl⟩
  · exact ⟨rfl, h, .refl⟩
  · omega
  · obtain ⟨hcount, hholds, hsame⟩ := h.bufferWrite buf
    have htake : buf.take n = buf.take (r.capacity - q.length) := by
      rw [hn, min_comm]
      exact take_eq_take_min.symm
    have hpos : 0 < (q ++ buf.take (r.capacity - q.length)).length := by
      rw [length_append, length_take]
      omega
    rw [htake]
    refine ⟨congrArg Except.ok (hcount.trans hn.symm), hholds.settleWrite hpos, ?_⟩
    exact hsame.trans ⟨rfl, rfl, rfl⟩

theorem Holds.readAtUser (dst : UserBuffer) (resolves : ℕ → ℕ → Bool) :
    let read := readAtUser readable r dst resolves
    ∃ n ≤ min dst.len q.length, Stops (copyOut dst resolves) (min dst.len q.length) n ∧
      read.1 = (fifoRead readable r.writeEnd q dst.len n).1 ∧
      Holds read.2 (fifoRead readable r.writeEnd q dst.len n).2 ∧ SamePipe r read.2 := by
  obtain ⟨n, hn, hbytes, hholds, hsame, hstops, hfault⟩ := h.readUserLoop dst resolves 0 rfl
  simp only [zero_add, Nat.sub_zero] at hn hstops hfault
  refine ⟨n, hn, hstops, ?_⟩
  unfold Pipe.readAtUser fifoRead
  simp only [h.empty_iff, hbytes]
  split_ifs with hreadable hlen hq hend hfail hzero hzero
  · exact ⟨rfl, h, .refl⟩
  · exact ⟨rfl, h, .refl⟩
  · exact ⟨rfl, h, .refl⟩
  · exact ⟨rfl, h, .refl⟩
  · -- a copy failed and nothing was delivered before it
    rw [hzero, drop_zero] at hholds
    exact ⟨rfl, hholds, hsame⟩
  · have hempty := (Bool.and_eq_true_iff.mp hfail).2
    rw [List.isEmpty_iff, take_eq_nil_iff] at hempty
    exact absurd hempty (not_or.mpr ⟨hzero, hq⟩)
  · have hpos := length_pos_iff.mpr hq
    rw [hfault hzero (by omega), hzero] at hfail
    exact absurd rfl hfail
  · exact ⟨rfl, hholds, hsame⟩

theorem Holds.writeAtUser (src : UserBuffer) (data : ℕ → UInt8) (resolves : ℕ → ℕ → Bool) :
    let w := writeAtUser writable r src data resolves
    let bound := min src.len (r.capacity - q.length)
    ∃ n ≤ bound, Stops (copyIn src resolves) bound n ∧
      let fifo := fifoWrite writable r.readEnd r.capacity q (segment data 0 src.len) n
      w.1 = fifo.1 ∧ Holds w.2 fifo.2 ∧ SamePipe r w.2 := by
  have hused := h.occupies.used_le
  obtain ⟨hn, hholds, hsame, hstops, hfault⟩ := h.writeUserLoop src data resolves 0 rfl
  simp only [zero_add, Nat.sub_zero] at hn hstops hfault
  refine ⟨_, hn, hstops, ?_⟩
  unfold Pipe.writeAtUser fifoWrite
  simp only [h.full_iff, h.getFreeSize, length_segment]
  split_ifs with hwritable hlen hend hfull hroom hfail hzero hzero
  · exact ⟨rfl, h, .refl⟩
  · exact ⟨rfl, h, .refl⟩
  · exact ⟨rfl, h, .refl⟩
  · exact ⟨rfl, h, .refl⟩
  · exact ⟨rfl, h, .refl⟩
  · rw [hzero] at hholds
    exact ⟨rfl, (append_nil q : q ++ segment data 0 0 = q) ▸ hholds, hsame⟩
  · exact absurd (eq_of_beq (Bool.and_eq_true_iff.mp hfail).2) hzero
  · rw [hfault hzero (by omega), hzero] at hfail
    exact absurd rfl hfail
  · rw [take_segment (by omega)]
    exact ⟨rfl, hholds, hsame⟩

end

/-! ## The invariant -/

/-- The ring holds its queue, and nothing was lost. -/
structure Inv (capacity : ℕ) (p : PipeState) : Prop where
  capacity_eq : p.ring.capacity = capacity
  holds : Holds p.ring p.queue
  accounted : p.accepted = p.delivered ++ p.queue

theorem Holds.queue_eq (h : Holds p.ring q) : p.queue = q := by
  rw [PipeState.queue, h.getUsedSize, h.bytes]

/-- A pipe whose ring is known to hold a queue. -/
theorem Inv.ofHolds {capacity : ℕ} (hcap : p.ring.capacity = capacity)
    (h : Holds p.ring q) (hacc : p.accepted = p.delivered ++ q) : Inv capacity p where
  capacity_eq := hcap
  holds := h.queue_eq.symm ▸ h
  accounted := h.queue_eq.symm ▸ hacc

/-- The queues after one pipe has changed. -/
theorem queue_update (h : Holds p.ring q) :
    (fun k => (update s i p k).queue) = update (fun k => (s k).queue) i q := by
  funext k
  grind [h.queue_eq]

theorem inv_update (h : ∀ k, Inv (capacity k) (s k)) (hp : Inv (capacity i) p) :
    ∀ k, Inv (capacity k) (update s i p k) := by
  intro k
  rcases eq_or_ne k i with rfl | hk
  · rw [update_self]
    exact hp
  · rw [update_of_ne hk]
    exact h k

/-- An abstract read delivers a prefix. -/
theorem bytes_append_fifoRead {readable writeEnd : Bool} {q : List UInt8} {len n : ℕ} :
    (fifoRead readable writeEnd q len n).1.bytes ++ (fifoRead readable writeEnd q len n).2 = q := by
  unfold fifoRead
  split_ifs
  any_goals rfl
  exact take_append_drop n q

/-- An abstract write appends what it accepts. -/
theorem fifoWrite_eq_append {writable readEnd : Bool} {capacity n : ℕ} {q buf : List UInt8} :
    (fifoWrite writable readEnd capacity q buf n).2
      = q ++ buf.take (fifoWrite writable readEnd capacity q buf n).1.count := by
  unfold fifoWrite
  split_ifs
  any_goals exact (append_nil q).symm
  rfl

/-- A pipe after a read whose ring holds what an abstract read leaves. -/
theorem Inv.afterRead {capacity : ℕ} (h : Inv capacity p) {readable writeEnd : Bool} {len n : ℕ}
    {res : ReadAnswer × PipeRingBuffer}
    (hans : res.1 = (fifoRead readable writeEnd p.queue len n).1)
    (hholds : Holds res.2 (fifoRead readable writeEnd p.queue len n).2)
    (hsame : SamePipe p.ring res.2) : Inv capacity (p.afterRead res) := by
  refine ofHolds (hsame.capacity.trans h.capacity_eq) hholds ?_
  rw [PipeState.afterRead, hans, append_assoc, bytes_append_fifoRead]
  exact h.accounted

/-- A pipe after a write whose ring holds what an abstract write leaves. -/
theorem Inv.afterWrite {capacity : ℕ} (h : Inv capacity p) {writable readEnd : Bool} {n : ℕ}
    {buf : List UInt8} {res : WriteAnswer × PipeRingBuffer}
    (hans : res.1 = (fifoWrite writable readEnd capacity p.queue buf n).1)
    (hholds : Holds res.2 (fifoWrite writable readEnd capacity p.queue buf n).2)
    (hsame : SamePipe p.ring res.2) : Inv capacity (p.afterWrite buf res) := by
  refine ofHolds (hsame.capacity.trans h.capacity_eq) hholds ?_
  rw [PipeState.afterWrite, hans, fifoWrite_eq_append, ← append_assoc, ← h.accounted]

/-! ## All calls -/

/-- **Every call is a step of the queues.** -/
theorem Inv.apply (h : ∀ k, Inv (capacity k) (s k)) (op : Op) :
    (∀ k, Inv (capacity k) ((apply s op).2 k)) ∧
      FifoStep capacity s (fun k => (s k).queue) op (apply s op).1
        fun k => ((apply s op).2 k).queue := by
  cases op with
  | readAt i readable len =>
    obtain ⟨hans, hholds, hsame⟩ := (h i).holds.readAt readable len
    exact ⟨inv_update h ((h i).afterRead hans hholds hsame), congrArg Answer.read hans,
      queue_update hholds⟩
  | readAtUser i readable dst resolves =>
    obtain ⟨n, hn, hstops, hans, hholds, hsame⟩ := (h i).holds.readAtUser readable dst resolves
    exact ⟨inv_update h ((h i).afterRead hans hholds hsame), n, hn, hstops,
      congrArg Answer.read hans, queue_update hholds⟩
  | writeAt i writable buf =>
    obtain ⟨hans, hholds, hsame⟩ := (h i).holds.writeAt writable buf rfl
    rw [(h i).capacity_eq] at hans hholds
    exact ⟨inv_update h ((h i).afterWrite hans hholds hsame), congrArg Answer.write hans,
      queue_update hholds⟩
  | writeAtUser i writable src data resolves =>
    obtain ⟨n, hn, hstops, hans, hholds, hsame⟩ :=
      (h i).holds.writeAtUser writable src data resolves
    rw [(h i).capacity_eq] at hn hstops hans hholds
    exact ⟨inv_update h ((h i).afterWrite hans hholds hsame), n, hn, hstops,
      congrArg Answer.write hans, queue_update hholds⟩
  | peekAt i len => exact ⟨h, congrArg Answer.peek ((h i).holds.peekData len), rfl⟩
  | spliceMove i j maxBytes hne =>
    obtain ⟨n, hn⟩ : ∃ n, n = min (min maxBytes (s i).queue.length)
        (capacity j - (s j).queue.length) := ⟨_, rfl⟩
    obtain ⟨hcount, hsrc, hdst, hsame, hsame'⟩ :=
      spliceMove_eq (h i).holds (h j).holds ((h j).capacity_eq.symm ▸ hn)
    have hbytes := (h i).holds.peekData n
    have hi : Inv (capacity i) { (s i) with
        ring := (spliceMove (s i).ring (s j).ring maxBytes).2.1
        delivered := (s i).delivered ++ (s i).ring.peekData n } := by
      refine ofHolds (hsame.capacity.trans (h i).capacity_eq) hsrc ?_
      rw [hbytes, append_assoc, take_append_drop, (h i).accounted]
    have hj : Inv (capacity j) { (s j) with
        ring := (spliceMove (s i).ring (s j).ring maxBytes).2.2
        accepted := (s j).accepted ++ (s i).ring.peekData n } := by
      refine ofHolds (hsame'.capacity.trans (h j).capacity_eq) hdst ?_
      rw [hbytes, (h j).accounted, append_assoc]
    rw [← hcount] at hi hj hn hsrc hdst
    refine ⟨inv_update (inv_update h hi) hj, _, hn, rfl, ?_⟩
    exact (queue_update hdst).trans (congrArg (fun f => update f j _) (queue_update hsrc))
  | setEnds i writeEnd readEnd =>
    have hholds : Holds { (s i).ring with writeEnd := writeEnd, readEnd := readEnd }
        (s i).queue := ⟨⟨(h i).holds.occupies, (h i).holds.bytes⟩, (h i).holds.status_eq⟩
    refine ⟨inv_update h (ofHolds (h i).capacity_eq hholds (h i).accounted), rfl, ?_⟩
    exact (queue_update hholds).trans (update_eq_self i _)

theorem inv_of_reachable (hs : (calls capacity).Reachable s) : ∀ i, Inv (capacity i) (s i) := by
  refine hs.invariant (I := fun s => ∀ i, Inv (capacity i) (s i)) ?_ ?_
  · intro s hinit i
    obtain ⟨hpos, hi⟩ := hinit i
    rw [hi]
    exact Inv.ofHolds rfl (holds_new hpos) rfl
  · rintro s op t - h rfl
    exact (Inv.apply h op).1

theorem Inv.fifoRing {capacity : ℕ} (h : Inv capacity p) : FifoRing capacity p where
  head_lt := h.capacity_eq ▸ h.holds.occupies.head_lt
  tail_lt := h.capacity_eq ▸ h.holds.occupies.tail_lt
  length_le := h.capacity_eq ▸ h.holds.occupies.used_le
  empty_iff := h.holds.empty_iff
  full_iff := h.capacity_eq ▸ h.holds.full_iff
  normal_iff := h.capacity_eq ▸ h.holds.normal_iff
  accounted := h.accounted
  delivered_first := ⟨p.queue, h.accounted.symm⟩

/-- **Pipes are bounded queues.**  In every state that the calls reach each ring is a queue, the
bytes delivered so far are a prefix of the bytes accepted so far, and the next call, whichever it
is, is a step of the queues. -/
theorem fifo_of_reachable {capacity : ℕ → ℕ} {s : ℕ → PipeState}
    (hs : (calls capacity).Reachable s) : (∀ i, FifoRing (capacity i) (s i)) ∧
      ∀ op, FifoStep capacity s (fun k => (s k).queue) op (apply s op).1
        fun k => ((apply s op).2 k).queue :=
  ⟨fun i => (inv_of_reachable hs i).fifoRing, fun op => (Inv.apply (inv_of_reachable hs) op).2⟩

/-- In pipes of four bytes the second write to pipe 0 goes round the end of the array, and two bytes
then go on to pipe 1. -/
def turningPipes : ℕ → PipeState :=
  [.setEnds 0 true true, .setEnds 1 true true, .writeAt 0 true [1, 2, 3], .readAt 0 true 2,
    .writeAt 0 true [4, 5], .spliceMove 0 1 2 (by decide), .readAt 1 true 1].foldl
      (fun s op => (apply s op).2) fun _ => { ring := .new 4, accepted := [], delivered := [] }

theorem fifo_turningPipes :
    ((turningPipes 0).queue = [5] ∧ (turningPipes 0).delivered = [1, 2, 3, 4] ∧
      (turningPipes 1).queue = [4] ∧ (turningPipes 1).delivered = [3]) ∧
    (calls fun _ => 4).Reachable turningPipes ∧ (∀ i, FifoRing 4 (turningPipes i)) ∧
      ∀ op, FifoStep (fun _ => 4) turningPipes (fun k => (turningPipes k).queue) op
        (apply turningPipes op).1 fun k => ((apply turningPipes op).2 k).queue := by
  have hs : (calls fun _ => 4).Reachable turningPipes :=
    .foldl (.init fun _ => ⟨Nat.succ_pos 3, rfl⟩) _ fun _ op => ⟨op, rfl⟩
  exact ⟨by decide +kernel, hs, fifo_of_reachable hs⟩

end MangoCore.Fs.Pipe
