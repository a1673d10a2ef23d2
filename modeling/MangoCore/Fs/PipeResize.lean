import MangoCore.Fs.PipeFifo

/-!
# Changing the capacity of a pipe

`set_capacity_compat` takes over a new capacity and leaves the bytes where they are, except in a
full ring that grows: there it turns the array until the queue begins in cell 0.  The bytes of a
queue that goes round the end of the array are found by the capacity, so another capacity loses
them, and a tail that equals the new capacity is a cell outside of the ring.

`Resizable` lists the rings that keep their queue.  `Holds.takeCapacity_iff` says that there are no
others, and `fifo_of_resizes` that pipes whose capacities change only then stay bounded queues.
-/

namespace MangoCore.Fs.Pipe

open Mm PipeRingBuffer Function List

def pipeSetSizeMax : ℕ := 2 ^ 31

namespace PipeRingBuffer

/-- `set_capacity_compat` behind its checks. -/
def takeCapacity (r : PipeRingBuffer) (newCapacity : ℕ) : PipeRingBuffer :=
  let used := r.getUsedSize
  let r := if used = 0 then { r with head := 0, tail := 0, status := .empty } else r
  let r :=
    if r.status = .full ∧ used < newCapacity then
      { r with
        arr := fun k => if k < r.capacity then r.arr ((r.head + k) % r.capacity) else r.arr k
        head := 0
        tail := used
        status := .normal }
    else r
  { r with capacity := newCapacity }

/-- `sysResource` says whether the caller has `CAP_SYS_RESOURCE`; the others are bound by
`pipeMaxSize`. -/
def setCapacityCompat (r : PipeRingBuffer) (sysResource : Bool) (pipeMaxSize requested : ℕ) :
    Except Errno ℕ × PipeRingBuffer :=
  if pipeSetSizeMax < requested then (.error .EINVAL, r)
  else
    let requested := max requested pageSize
    if !sysResource && pipeMaxSize < requested then (.error .EPERM, r)
    else if ringDefaultBufferSize < requested then (.error .EINVAL, r)
    else
      let newCapacity := (requested + pageSize - 1) / pageSize * pageSize
      let used := r.getUsedSize
      if ringDefaultBufferSize < newCapacity then (.error .EINVAL, r)
      else if newCapacity < used then (.error .EBUSY, r)
      else if used ≠ 0 ∧ (newCapacity ≤ r.head ∨ newCapacity < r.tail) then (.error .EBUSY, r)
      else (.ok newCapacity, r.takeCapacity newCapacity)

end PipeRingBuffer

/-- The rings that keep their queue: those that are empty or full, those whose capacity does not
change, and those with the bytes in one piece that ends before the new capacity. -/
def Resizable (r : PipeRingBuffer) (newCapacity : ℕ) : Prop :=
  r.status ≠ .normal ∨ newCapacity = r.capacity ∨ r.head < r.tail ∧ r.tail < newCapacity

variable {r : PipeRingBuffer} {q : List UInt8} {c : ℕ}

/-! ## One ring -/

section

variable (h : Holds r q)
include h

theorem takeCapacity_of_normal (hst : r.status = .normal) :
    r.takeCapacity c = { r with capacity := c } := by
  have hne := (h.normal_iff.mp hst).1
  simp [takeCapacity, h.getUsedSize, hne, hst]

theorem holds_takeCapacity_of_full (hst : r.status = .full) (hle : q.length ≤ c) :
    Holds (r.takeCapacity c) q := by
  have hlen := h.full_iff.mp hst
  have hpos := h.capacity_pos
  unfold takeCapacity
  simp only [h.getUsedSize, hst, if_neg (show q.length ≠ 0 by omega), true_and]
  rcases hle.eq_or_lt with heq | hlt
  · rw [if_neg (by omega), ← heq, hlen]
    exact h
  · have hc : 0 < c := by omega
    rw [if_pos hlt]
    refine ⟨⟨⟨hc, hlt, hle, ?_⟩, ?_⟩, ?_⟩
    · rw [zero_add, Nat.mod_eq_of_lt hlt]
    · -- the cells of the turned array are the cells from the head on
      refine Eq.trans (map_congr_left fun i hi => ?_) h.bytes
      rw [mem_range] at hi
      rw [zero_add, Nat.mod_eq_of_lt (hi.trans hlt)]
      exact if_pos (hlen ▸ hi)
    · rw [statusOf, if_neg (by omega), if_neg hlt.ne]

/-- A piece that ends before the new capacity stays where it is. -/
theorem holds_of_straight (hst : r.status = .normal) (hlt : r.head < r.tail)
    (htail : r.tail < c) : Holds { r with capacity := c } q := by
  have hcell := h.occupies.tail_eq_ite
  have hend := h.occupies.tail_lt
  have hused := h.occupies.used_le
  have hlen : r.head + q.length = r.tail := by
    split_ifs at hcell <;> omega
  have hhead : r.head < c := by omega
  have hle : q.length < c := by omega
  have hslice :
      Ring.slice r.arr c r.head q.length = Ring.slice r.arr r.capacity r.head q.length := by
    rw [Ring.slice_eq_segment (by omega), Ring.slice_eq_segment (by omega)]
  refine ⟨⟨⟨hhead, htail, hle.le, ?_⟩, hslice.trans h.bytes⟩, hst.trans ?_⟩
  · exact ((Nat.mod_eq_of_lt (hlen ▸ htail)).trans hlen).symm
  · rw [statusOf, if_neg (by omega), if_neg hle.ne]

/-- **A ring keeps its queue under a new capacity exactly if it is resizable.** -/
theorem Holds.takeCapacity_iff (hpos : 0 < c) (hle : q.length ≤ c) :
    Holds (r.takeCapacity c) q ↔ Resizable r c := by
  cases hst : r.status with
  | empty =>
    have hq := h.empty_iff.mp hst
    subst hq
    refine iff_of_true ?_ (.inl (by simp [hst]))
    simp only [takeCapacity, h.getUsedSize, length_nil, if_true]
    exact ⟨⟨⟨hpos, hpos, hle, (Nat.zero_mod c).symm⟩, rfl⟩, rfl⟩
  | full => exact iff_of_true (holds_takeCapacity_of_full h hst hle) (.inl (by simp [hst]))
  | normal =>
    rw [takeCapacity_of_normal h hst]
    constructor
    · intro hnew
      -- the cell behind the queue is the tail for both capacities
      have hold := h.occupies.tail_eq_ite
      have hcell := hnew.occupies.tail_eq_ite
      have hne := length_pos_iff.mpr (h.normal_iff.mp hst).1
      refine .inr ?_
      dsimp only at hcell
      split_ifs at hold hcell <;> omega
    · rintro (hno | rfl | ⟨hlt, htail⟩)
      · exact absurd hst hno
      · exact h
      · exact holds_of_straight h hst hlt htail

end

/-- What a change of the capacity does to a ring with a queue. -/
def Resized (r : PipeRingBuffer) (q : List UInt8) : Except Errno ℕ × PipeRingBuffer → Prop
  | (.error _, r') => r' = r
  | (.ok c, r') => r'.capacity = c ∧ 0 < c ∧ (Holds r' q ↔ Resizable r c)

theorem Holds.setCapacityCompat (h : Holds r q) (sysResource : Bool) (pipeMaxSize requested : ℕ) :
    Resized r q (r.setCapacityCompat sysResource pipeMaxSize requested) := by
  unfold PipeRingBuffer.setCapacityCompat
  dsimp only
  split_ifs with hmax hperm hbig hround hused
  any_goals rfl
  · rw [h.getUsedSize, not_lt] at hused
    have hpos : 0 < (max requested pageSize + pageSize - 1) / pageSize * pageSize := by
      unfold pageSize
      omega
    exact ⟨rfl, hpos, h.takeCapacity_iff hpos hused⟩

/-! ## Runs -/

/-- A call, or a change of the capacity of pipe `i`. -/
inductive ResizeOp where
  | call (op : Op)
  | setCapacity (i : ℕ) (sysResource : Bool) (pipeMaxSize requested : ℕ)

/-- `set_pipe_capacity_compat`; the wake-up behind the lock is not modelled. -/
def setPipeCapacity (s : ℕ → PipeState) (i : ℕ) (sysResource : Bool) (pipeMaxSize requested : ℕ) :
    Except Errno ℕ × (ℕ → PipeState) :=
  let r := (s i).ring.setCapacityCompat sysResource pipeMaxSize requested
  (r.1, update s i { (s i) with ring := r.2 })

/-- Any calls on new pipes, and any changes of their capacities. -/
def resizes (capacity : ℕ → ℕ) : System (ℕ → PipeState) ResizeOp where
  init := (calls capacity).init
  step s op t := match op with
    | .call op => (apply s op).2 = t
    | .setCapacity i sysResource pipeMaxSize requested =>
      (setPipeCapacity s i sysResource pipeMaxSize requested).2 = t

/-- A ring whose capacity changes keeps its queue. -/
def Keeps (s : ℕ → PipeState) : ResizeOp → Prop
  | .call _ => True
  | .setCapacity i sysResource pipeMaxSize requested =>
    ∀ c, (setPipeCapacity s i sysResource pipeMaxSize requested).1 = .ok c →
      Resizable (s i).ring c

variable {capacity : ℕ → ℕ} {s : ℕ → PipeState}

/-- The capacity of each pipe. -/
def capacities (s : ℕ → PipeState) : ℕ → ℕ := fun k => (s k).ring.capacity

theorem Inv.resized {p : PipeState} (h : Inv p.ring.capacity p)
    {res : Except Errno ℕ × PipeRingBuffer} (hres : Resized p.ring p.queue res)
    (hkeeps : ∀ c, res.1 = .ok c → Resizable p.ring c) :
    Inv res.2.capacity { p with ring := res.2 } := by
  obtain ⟨e | c, r'⟩ := res
  · obtain rfl : r' = p.ring := hres
    exact h
  · exact Inv.ofHolds rfl (hres.2.2.mpr (hkeeps c rfl)) h.accounted

theorem inv_of_resizes (hs : ((resizes capacity).restrict Keeps).Reachable s) :
    ∀ k, Inv (capacities s k) (s k) := by
  refine hs.invariant (I := fun s => ∀ k, Inv (capacities s k) (s k)) ?_ ?_
  · intro s hinit k
    obtain ⟨hpos, hk⟩ := hinit k
    rw [capacities, hk]
    exact Inv.ofHolds rfl (holds_new hpos) rfl
  · rintro s (op | ⟨i, sysResource, pipeMaxSize, requested⟩) t - h ⟨hkeeps, rfl⟩ k
    · have hk := (Inv.apply h op).1 k
      exact ⟨rfl, hk.holds, hk.accounted⟩
    · simp only [capacities, setPipeCapacity]
      by_cases hk : k = i
      · rw [hk, update_self]
        exact (h i).resized ((h i).holds.setCapacityCompat sysResource pipeMaxSize requested) hkeeps
      · rw [update_of_ne hk]
        exact h k

/-- **Pipes whose capacities change are bounded queues while each change finds a resizable ring.**
In every state such a run reaches each ring is a queue of its capacity and the next call is a step
of the queues.  A change of a capacity fails and leaves the ring as it is, or it succeeds, and then
the ring holds the same queue exactly if it was resizable. -/
theorem fifo_of_resizes (hs : ((resizes capacity).restrict Keeps).Reachable s) :
    (∀ i, FifoRing (capacities s i) (s i)) ∧
      (∀ op, FifoStep (capacities s) s (fun k => (s k).queue) op (apply s op).1
        fun k => ((apply s op).2 k).queue) ∧
      ∀ i sysResource pipeMaxSize requested, Resized (s i).ring (s i).queue
        ((s i).ring.setCapacityCompat sysResource pipeMaxSize requested) :=
  ⟨fun i => (inv_of_resizes hs i).fifoRing, fun op => (Inv.apply (inv_of_resizes hs) op).2,
    fun i sysResource pipeMaxSize requested =>
      (inv_of_resizes hs i).holds.setCapacityCompat sysResource pipeMaxSize requested⟩

/-- Calls that change no capacity meet the condition. -/
theorem reachable_calls (hs : ((resizes capacity).restrict Keeps).Reachable s) (ops : List Op) :
    ((resizes capacity).restrict Keeps).Reachable (ops.foldl (fun s op => (apply s op).2) s) :=
  hs.foldl ops fun _ op => ⟨.call op, trivial, rfl⟩

/-- Pipes of four bytes: pipe 0 is full and its queue goes round the end of the array, pipe 1 holds
two bytes in one piece. -/
def heldPipes : ℕ → PipeState :=
  [.setEnds 0 true true, .setEnds 1 true true, .writeAt 0 true [1, 2, 3, 4], .readAt 0 true 2,
    .writeAt 0 true [5, 6], .writeAt 1 true [7, 8, 9], .readAt 1 true 1].foldl
      (fun s op => (apply s op).2) fun _ => { ring := .new 4, accepted := [], delivered := [] }

/-- Both pipes grow, and then three bytes are read from the first and two are written to it. -/
def grownPipes : ℕ → PipeState :=
  [.readAt 0 true 3, .writeAt 0 true [10, 11]].foldl (fun s op => (apply s op).2)
    (setPipeCapacity (setPipeCapacity heldPipes 0 true 0 pageSize).2 1 true 0 (2 * pageSize)).2

theorem reachable_grownPipes : ((resizes fun _ => 4).restrict Keeps).Reachable grownPipes := by
  have hheld : ((resizes fun _ => 4).restrict Keeps).Reachable heldPipes :=
    reachable_calls (.init fun _ => ⟨Nat.succ_pos 3, rfl⟩) _
  have hfirst : ((resizes fun _ => 4).restrict Keeps).Reachable
      (setPipeCapacity heldPipes 0 true 0 pageSize).2 := by
    refine .step (a := .setCapacity 0 true 0 pageSize) hheld ⟨fun c _ => .inl ?_, rfl⟩
    decide +kernel
  refine reachable_calls (.step (a := .setCapacity 1 true 0 (2 * pageSize)) hfirst ⟨fun c hc => ?_,
    rfl⟩) _
  obtain rfl : 2 * pageSize = c := Except.ok.inj (.trans (by decide +kernel) hc)
  exact .inr (.inr (by decide +kernel))

theorem fifo_grownPipes :
    ((capacities grownPipes 0, (grownPipes 0).delivered, (grownPipes 0).queue) =
        (pageSize, [1, 2, 3, 4, 5], [6, 10, 11]) ∧
      (capacities grownPipes 1, (grownPipes 1).delivered, (grownPipes 1).queue) =
        (2 * pageSize, [7], [8, 9])) ∧
    ∀ i, FifoRing (capacities grownPipes i) (grownPipes i) :=
  ⟨by decide +kernel, (fifo_of_resizes reachable_grownPipes).1⟩

/-- A pipe of two pages in which one page was written. -/
def pageWritten : ℕ → PipeState :=
  (apply (apply (fun _ => { ring := .new (2 * pageSize), accepted := [], delivered := [] })
    (.setEnds 0 true true)).2 (.writeAt 0 true (replicate pageSize 7))).2

/-- **A page is delivered again.**  A pipe of two pages holds one page, and its capacity becomes one
page.  The tail is now the capacity, which the head never reaches: after the page was read the ring
reports another page of bytes. -/
theorem page_left_after_read :
    (resizes fun _ => 2 * pageSize).Reachable pageWritten ∧
      (pageWritten 0).ring.getUsedSize = pageSize ∧
      (setPipeCapacity pageWritten 0 true 0 pageSize).1 = .ok pageSize ∧
      (readAt true ((setPipeCapacity pageWritten 0 true 0 pageSize).2 0).ring
        pageSize).2.getUsedSize = pageSize := by
  refine ⟨.step (a := .call (.writeAt 0 true (replicate pageSize 7))) (.step
    (a := .call (.setEnds 0 true true)) (.init fun _ => ⟨Nat.succ_pos 8191, rfl⟩) rfl) rfl,
    ?_, ?_, ?_⟩
  all_goals decide +kernel

end MangoCore.Fs.Pipe
