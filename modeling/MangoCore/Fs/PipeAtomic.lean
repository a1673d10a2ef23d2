import MangoCore.Fs.PipeResize

/-!
# Small writes to a pipe

A write holds the lock of the ring from the test for free space to the last byte, so what it queues
is one piece of the stream, whatever the other writers do.  A write of at most a page tests for room
for all of its bytes.  From kernel memory they are then queued.  From user memory they are copied
without a fault handler, and a page that does not resolve ends the call with the bytes so far.

A small write is copied in at most two pieces, up to the end of the array and from its beginning on.
`atomic_of_writes` says that it is atomic exactly if its first copy fails or all copies it makes are
whole.
-/

namespace MangoCore.Fs.Pipe

open Mm PipeRingBuffer Function UserBuffer List Pipe MangoCore.Ring

/-- The pipe and the bytes of a write through an end that is open for writing. -/
def Op.write? : Op → Option (ℕ × List UInt8)
  | .writeAt i true buf => some (i, buf)
  | .writeAtUser i true src data _ => some (i, segment data 0 src.len)
  | _ => none

/-- The ring has a reader and room for so many bytes. -/
def PipeRingBuffer.Admits (r : PipeRingBuffer) (len : ℕ) : Prop :=
  0 < len ∧ r.readEnd = true ∧ len ≤ r.getFreeSize

/-- The first copy of a small write fails, or all copies that it makes are whole. -/
def WholeCopies (r : PipeRingBuffer) (src : UserBuffer) (resolves : ℕ → ℕ → Bool) : Prop :=
  let n := min src.len (r.writeEndOf - r.tail)
  copyIn src resolves 0 n = none ∨ copyIn src resolves 0 n = some n ∧
    (n < src.len → copyIn src resolves n (src.len - n) = some (src.len - n))

/-- A write that is refused makes no copy. -/
def Op.Whole (s : ℕ → PipeState) : Op → Prop
  | .writeAtUser i _ src _ resolves =>
    (s i).ring.Admits src.len → WholeCopies (s i).ring src resolves
  | _ => True

variable {r : PipeRingBuffer} {q buf : List UInt8} {src : UserBuffer} {resolves : ℕ → ℕ → Bool}
  {capacity : ℕ → ℕ} {s t : ℕ → PipeState} {i k : ℕ} {op : Op}

/-- One piece of a small write. -/
theorem Holds.writeUserLoop_piece (h : Holds r q) (hpage : src.len ≤ pageSize) (data : ℕ → UInt8)
    {total n : ℕ} (hlt : total < src.len) (hroom : src.len - total ≤ r.capacity - q.length)
    (hn : n = min (src.len - total) (r.writeEndOf - r.tail)) :
    Pipe.writeUserLoop src data resolves r total =
      match copyIn src resolves total n with
      | none => (0, true, r)
      | some m =>
        let r' := (r.advanceTail (segment data total m)).settleWrite
        if m < n then (m, false, r')
        else
          let rest := Pipe.writeUserLoop src data resolves r' (total + m)
          (m + rest.1, rest.2) := by
  have hfull : r.status ≠ .full := mt h.full_iff.mp (by omega)
  obtain ⟨-, hpos, -⟩ := h.writeEndOf (by omega)
  have hseg : min (min (min (src.len - total) (r.capacity - q.length)) (r.writeEndOf - r.tail))
      pageSize = n := by omega
  rw [Pipe.writeUserLoop, dif_neg (by omega), if_neg hfull]
  simp only [h.getFreeSize, hseg]
  rw [if_neg (by omega)]
  change (match copyIn src resolves total n with | none => _ | some m => _) = _
  rcases hcopy : copyIn src resolves total n with _ | m
  · rfl
  · obtain ⟨hm, -⟩ := readIntoAtNofault_spec (by omega) (by omega) hcopy
    exact dif_neg hm.ne'

/-- **A small write that the ring admits** queues all of its bytes or none if its copies are whole,
and a part of them otherwise. -/
theorem Holds.writeUserLoop_small (h : Holds r q) (hpage : src.len ≤ pageSize) (data : ℕ → UInt8)
    (hpos : 0 < src.len) (hroom : src.len ≤ r.capacity - q.length) :
    let w := Pipe.writeUserLoop src data resolves r 0
    WholeCopies r src resolves ∧ (w = (0, true, r) ∨ w.1 = src.len) ∨
      ¬ WholeCopies r src resolves ∧ 0 < w.1 ∧ w.1 < src.len := by
  unfold WholeCopies
  dsimp only
  have hend : ∀ r', Pipe.writeUserLoop src data resolves r' src.len = (0, false, r') := fun r' => by
    rw [Pipe.writeUserLoop, dif_pos le_rfl]
  obtain ⟨hle, hstraight, hcap⟩ := h.writeEndOf (by omega)
  generalize hn : min src.len (r.writeEndOf - r.tail) = n
  rw [h.writeUserLoop_piece hpage data hpos hroom hn.symm]
  rcases hcopy : copyIn src resolves 0 n with _ | m
  · exact .inl ⟨.inl rfl, .inl rfl⟩
  obtain ⟨hm, hmn⟩ := readIntoAtNofault_spec (by omega) (by omega) hcopy
  dsimp only
  rw [zero_add]
  by_cases hshort : m < n
  · rw [if_pos hshort]
    refine .inr ⟨?_, hm, by dsimp only; omega⟩
    rintro (hnone | ⟨hsome, -⟩)
    · cases hnone
    · exact hshort.ne (Option.some.inj hsome)
  obtain rfl : m = n := by omega
  rw [if_neg hshort]
  by_cases hall : m = src.len
  · rw [hall, hend]
    exact .inl ⟨.inr ⟨rfl, fun hlt => absurd hlt (lt_irrefl _)⟩, .inr rfl⟩
  -- the second piece begins in the first cell, and there is room for it before the head
  have hlen : (segment data 0 m).length = m := length_segment ..
  have hholds := (h.advanceTail (segment data 0 m) (by omega) (by omega)).settleWrite
    (by rw [length_append]; omega)
  have hocc := h.occupies.tail_eq_ite
  have hsecond : src.len - m = min (src.len - m)
      ((r.advanceTail (segment data 0 m)).settleWrite.writeEndOf
        - (r.advanceTail (segment data 0 m)).settleWrite.tail) := by
    unfold PipeRingBuffer.writeEndOf at hn
    unfold PipeRingBuffer.writeEndOf PipeRingBuffer.settleWrite PipeRingBuffer.advanceTail
    dsimp only
    rw [hlen]
    split_ifs at hn hocc ⊢ <;> omega
  rw [hholds.writeUserLoop_piece hpage data (by omega)
    (by rw [length_append, hlen]; exact (by omega : src.len - m ≤ r.capacity - (q.length + m)))
    hsecond]
  rcases hcopy' : copyIn src resolves m (src.len - m) with _ | m'
  · refine .inr ⟨?_, by dsimp only; omega, by dsimp only; omega⟩
    rintro (hnone | ⟨-, hrest⟩)
    · cases hnone
    · cases hrest (by omega)
  obtain ⟨hm', hmn'⟩ := readIntoAtNofault_spec (by omega) (by omega) hcopy'
  dsimp only
  by_cases hshort' : m' < src.len - m
  · rw [if_pos hshort']
    refine .inr ⟨?_, by dsimp only; omega, by dsimp only; omega⟩
    rintro (hnone | ⟨-, hrest⟩)
    · cases hnone
    · exact hshort'.ne (Option.some.inj (hrest (by omega)))
  · obtain rfl : m' = src.len - m := by omega
    rw [if_neg hshort', show m + (src.len - m) = src.len by omega, hend]
    exact .inl ⟨.inr ⟨rfl, fun _ => rfl⟩, .inr (by dsimp only; omega)⟩

/-- All or nothing: the write answers the number of its bytes, or an error that leaves the ring. -/
def AllOrNone (len : ℕ) (r : PipeRingBuffer) (res : WriteAnswer × PipeRingBuffer) : Prop :=
  res.1 = .ok len ∨ ∃ e ∈ [Errno.EAGAIN, .EFAULT, .EPIPE], res = (.error e, r)

/-- A small write from user memory. -/
theorem Holds.writeAtUser_small (h : Holds r q) (hpage : src.len ≤ pageSize) (data : ℕ → UInt8) :
    (r.Admits src.len → WholeCopies r src resolves) ↔
      AllOrNone src.len r (Pipe.writeAtUser true r src data resolves) := by
  unfold Pipe.writeAtUser PipeRingBuffer.Admits
  rw [h.getFreeSize]
  dsimp only
  split_ifs with hwritable hzero hend hfull hroom hfail
  · cases hwritable
  · exact iff_of_true (fun hadm => absurd hadm.1 (by omega)) (.inl (hzero ▸ rfl))
  · refine iff_of_true (fun hadm => ?_) (.inr ⟨.EPIPE, by simp⟩)
    rw [hadm.2.1] at hend
    cases hend
  · have hlen := h.full_iff.mp hfull
    exact iff_of_true (fun hadm => absurd hadm.2.2 (by omega)) (.inr ⟨.EAGAIN, by simp⟩)
  · rw [Bool.and_eq_true_iff, decide_eq_true_eq, decide_eq_true_eq] at hroom
    exact iff_of_true (fun hadm => absurd hadm.2.2 (by omega)) (.inr ⟨.EAGAIN, by simp⟩)
  all_goals
    have hfits : src.len ≤ r.capacity - q.length := by
      simp only [hpage, decide_true, Bool.true_and, decide_eq_true_eq] at hroom
      omega
    rw [forall_prop_of_true ⟨by omega, by simpa using hend, hfits⟩]
    rcases h.writeUserLoop_small hpage data (by omega) hfits with
      ⟨hwhole, hnone | hall⟩ | ⟨hwhole, hpos, hlt⟩
  · rw [hnone]
    exact iff_of_true hwhole (.inr ⟨.EFAULT, by simp⟩)
  · rw [hall, Bool.and_eq_true_iff, beq_iff_eq] at hfail
    exact absurd hfail.2 hzero
  · rw [Bool.and_eq_true_iff, beq_iff_eq] at hfail
    exact absurd hfail.2 hpos.ne'
  · rw [hnone] at hfail
    exact absurd rfl hfail
  · exact iff_of_true hwhole (.inl (congrArg Except.ok hall))
  · refine iff_of_false hwhole ?_
    rintro (hok | ⟨e, -, herr⟩)
    · exact hlt.ne (Except.ok.inj hok)
    · cases (Prod.mk.inj herr).1

/-- A small write from kernel memory. -/
theorem writeAt_small (h : Holds r q) (hlen : buf.length ≤ pageSize) :
    AllOrNone buf.length r (writeAt true r buf) := by
  unfold writeAt
  rw [h.getFreeSize]
  split_ifs with hwritable hzero hend hfull hroom
  · cases hwritable
  · exact .inl (hzero ▸ rfl)
  · exact .inr ⟨.EPIPE, by simp⟩
  · exact .inr ⟨.EAGAIN, by simp⟩
  · exact .inr ⟨.EAGAIN, by simp⟩
  · simp only [hlen, decide_true, Bool.true_and, decide_eq_true_eq] at hroom
    have hcount := (h.bufferWrite buf).1
    rw [min_eq_left (by omega)] at hcount
    exact .inl (congrArg Except.ok hcount)

/-- What a small write does to the pipes. -/
theorem apply_write (h : Holds (s i).ring q) (hw : op.write? = some (i, buf))
    (hlen : buf.length ≤ pageSize) : ∃ res : WriteAnswer × PipeRingBuffer,
      apply s op = (.write res.1, update s i ((s i).afterWrite buf res)) ∧
        (op.Whole s ↔ AllOrNone buf.length (s i).ring res) := by
  cases op with
  | writeAt j writable bytes =>
    cases writable with
    | false => cases hw
    | true =>
      cases hw
      exact ⟨_, rfl, iff_of_true trivial (writeAt_small h hlen)⟩
  | writeAtUser j writable src data resolves =>
    cases writable with
    | false => cases hw
    | true =>
      cases hw
      rw [length_segment] at hlen ⊢
      exact ⟨_, rfl, h.writeAtUser_small hlen data⟩
  | _ => cases hw

/-! ## The stream -/

theorem accepted_update {p : PipeState} (hp : (s i).accepted <+: p.accepted) :
    (s k).accepted <+: (update s i p k).accepted := by
  by_cases hk : k = i
  · rw [hk, update_self]
    exact hp
  · have hkept : update s i p k = s k := update_of_ne hk ..
    exact hkept ▸ prefix_refl _

/-- No call takes back what a pipe has accepted. -/
theorem accepted_apply :
    (s k).accepted <+: ((apply s op).2 k).accepted := by
  cases op with
  | readAt | readAtUser | setEnds =>
    refine accepted_update ?_
    exact prefix_refl _
  | writeAt | writeAtUser =>
    refine accepted_update ?_
    exact prefix_append ..
  | peekAt => exact prefix_refl _
  | spliceMove i j maxBytes hne =>
    simp only [apply]
    by_cases hk : k = j
    · rw [hk, update_self]
      exact prefix_append ..
    · rw [update_of_ne hk]
      refine accepted_update ?_
      exact prefix_refl _

theorem accepted_of_leads (h : ((resizes capacity).restrict Keeps).Leads s t) (k : ℕ) :
    (s k).accepted <+: (t k).accepted := by
  induction h with
  | refl => exact prefix_refl _
  | tail _ hstep ih =>
    obtain ⟨op | ⟨j, sysResource, pipeMaxSize, requested⟩, -, rfl⟩ := hstep
    · exact ih.trans accepted_apply
    · refine ih.trans (accepted_update ?_)
      exact prefix_refl _

/-- **A write of at most a page is atomic exactly if its copies are whole.**  In every state that
calls of any threads reach, it then queues all of its bytes, and they stay one piece of what the
pipe delivers and holds whatever the calls after it are, or it fails and changes nothing. -/
theorem atomic_of_writes (hs : ((resizes capacity).restrict Keeps).Reachable s) {op : Op}
    (hw : op.write? = some (i, buf)) (hlen : buf.length ≤ pageSize) :
    op.Whole s ↔
    ((apply s op).1 = .write (.ok buf.length) ∧ (fun k => ((apply s op).2 k).queue) =
        update (fun k => (s k).queue) i ((s i).queue ++ buf) ∧
      ∀ t, ((resizes capacity).restrict Keeps).Leads (apply s op).2 t →
        (s i).accepted ++ buf <+: (t i).delivered ++ (t i).queue) ∨
    (∃ e ∈ [Errno.EAGAIN, .EFAULT, .EPIPE], (apply s op).1 = .write (.error e)) ∧
      (apply s op).2 = s := by
  have hbefore := inv_of_resizes hs i
  have hreach : ((resizes capacity).restrict Keeps).Reachable (apply s op).2 :=
    .step (a := .call op) hs ⟨trivial, rfl⟩
  obtain ⟨res, happ, hwhole⟩ := apply_write hbefore.holds hw hlen
  rw [hwhole]
  have hafter := inv_of_resizes hreach i
  simp only [happ] at hafter hreach ⊢
  constructor
  · rintro (hok | ⟨e, he, rfl⟩)
    · left
      have hacc : ((s i).afterWrite buf res).accepted = (s i).accepted ++ buf := by
        rw [PipeState.afterWrite, hok, WriteAnswer.count, take_length]
      refine ⟨congrArg Answer.write hok, ?_, fun t ht => ?_⟩
      · -- nothing was delivered, so the queue grew by what was accepted
        have hqueue : ((s i).afterWrite buf res).queue = (s i).queue ++ buf := by
          have hsum := hafter.accounted
          rw [update_self, hacc, hbefore.accounted, append_assoc] at hsum
          exact (append_cancel_left hsum).symm
        funext k
        by_cases hk : k = i
        · rw [hk, update_self, update_self, hqueue]
        · rw [update_of_ne hk, update_of_ne hk]
      · have hlater := accepted_of_leads ht i
        rw [update_self, hacc] at hlater
        rw [← (inv_of_resizes (hreach.leads ht) i).accounted]
        exact hlater
    · right
      refine ⟨⟨e, he, rfl⟩, ?_⟩
      have hsame : (s i).afterWrite buf (.error e, (s i).ring) = s i := by
        simp [PipeState.afterWrite, WriteAnswer.count]
      rw [hsame, update_eq_self]
  · rintro (⟨hok, -⟩ | ⟨⟨e, he, herr⟩, hsame⟩)
    · exact .inl (Answer.write.inj hok)
    · have hring : res.2 = (s i).ring := by
        rw [← congrFun hsame i, update_self]
        rfl
      exact .inr ⟨e, he, Prod.ext (Answer.write.inj herr) hring⟩

/-- A pipe of four bytes with both ends open that holds two bytes; the tail is its last cell. -/
def openedPipe : ℕ → PipeState :=
  [.setEnds 0 true true, .writeAt 0 true [7, 8, 9], .readAt 0 true 1].foldl
    (fun s op => (apply s op).2) fun _ => { ring := .new 4, accepted := [], delivered := [] }

theorem reachable_openedPipe : ((resizes fun _ => 4).restrict Keeps).Reachable openedPipe :=
  reachable_calls (.init fun _ => ⟨Nat.succ_pos 3, rfl⟩) _

/-- A write of two bytes from the end of one page and the beginning of the next. -/
def acrossPages (resolves : ℕ → Bool) : Op :=
  .writeAtUser 0 true ⟨[⟨0x1fff, 2⟩], 2, .read, rfl, by decide⟩ (fun k => .ofNat (k + 1))
    fun _ => resolves

/-- The write goes round the end of the array.  With both pages it is queued as a whole, and with
neither it fails. -/
theorem atomic_acrossPages :
    ((apply openedPipe (acrossPages fun _ => true)).1 = .write (.ok 2) ∧
      ((apply openedPipe (acrossPages fun _ => true)).2 0).queue = [8, 9, 1, 2] ∧
      ∀ t, ((resizes fun _ => 4).restrict Keeps).Leads
          (apply openedPipe (acrossPages fun _ => true)).2 t →
        [7, 8, 9, 1, 2] <+: (t 0).delivered ++ (t 0).queue) ∧
    (apply openedPipe (acrossPages fun _ => false)).1 = .write (.error .EFAULT) ∧
      (apply openedPipe (acrossPages fun _ => false)).2 = openedPipe := by
  have hwrite : ∀ resolves, (acrossPages resolves).write? = some (0, [1, 2]) := fun _ => rfl
  have hiff := fun resolves => atomic_of_writes reachable_openedPipe (hwrite resolves) (by decide)
  have hall := (hiff fun _ => true).mp
    fun _ => .inr ⟨by decide +kernel, fun _ => by decide +kernel⟩
  have hnone := (hiff fun _ => false).mp fun _ => .inl (by decide +kernel)
  have hok : (apply openedPipe (acrossPages fun _ => true)).1 = .write (.ok 2) := by decide +kernel
  have herr : (apply openedPipe (acrossPages fun _ => false)).1 = .write (.error .EFAULT) := by
    decide +kernel
  refine ⟨⟨hok, by decide +kernel, ?_⟩, herr, ?_⟩
  · rcases hall with ⟨-, -, hpiece⟩ | ⟨⟨e, -, he⟩, -⟩
    · rw [show (openedPipe 0).accepted = [7, 8, 9] by decide +kernel] at hpiece
      exact hpiece
    · cases hok.symm.trans he
  · rcases hnone with ⟨he, -⟩ | ⟨-, hsame⟩
    · cases herr.symm.trans he
    · exact hsame

/-- **A write of two bytes queues one of them.**  There is room for both, and the page of the second
does not resolve. -/
theorem write_split_by_fault : ((resizes fun _ => 4).restrict Keeps).Reachable openedPipe ∧
    (acrossPages fun addr => addr < 0x2000).write? = some (0, [1, 2]) ∧
    (openedPipe 0).ring.getFreeSize = 2 ∧
    (apply openedPipe (acrossPages fun addr => addr < 0x2000)).1 = .write (.ok 1) ∧
    ((apply openedPipe (acrossPages fun addr => addr < 0x2000)).2 0).queue = [8, 9, 1] :=
  ⟨reachable_openedPipe, rfl, by decide +kernel, by decide +kernel, by decide +kernel⟩

end MangoCore.Fs.Pipe
