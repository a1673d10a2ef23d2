import MangoCore.Net.UnixStream

/-!
# What the two ends of a stream can rely on

The bytes that an end has received, followed by those in its ring, are the bytes that its peer has
sent (`Inv.flow`).  This holds in every run.

End of file, and the error of a send that nobody can read, hold only in part, because `try_send`
puts bytes into a ring with room without a look at the flags, and `try_recv` looks at the ring and
at the flag in two sections (`eof_and_data`).  `Proper` says which sections have to be kept out: a
send that is to fail must find the ring full and its reader shut down, and a receive that finds the
flag set must find the ring still empty.  In runs of such sections both promises hold
(`streams_of_reachable`).
-/

namespace MangoCore.Net.UnixStream

open Function StreamState List

/-! ## Ring buffers -/

namespace RingBuffer

variable (r : RingBuffer) {r' : RingBuffer} {len : ℕ}

theorem popLoop_eq (n : ℕ) (r : RingBuffer) :
    popLoop n r = (r.deque.take n, { r with deque := r.deque.drop n }) := by
  induction n generalizing r with
  | zero => rfl
  | succ n ih =>
    rw [popLoop, pop]
    cases hd : r.deque with
    | nil =>
      cases r
      cases hd
      rfl
    | cons b rest => simp only [ih, take_succ_cons, drop_succ_cons]

theorem foldl_push (buf : List UInt8) (r : RingBuffer) :
    buf.foldl push r = { r with deque := r.deque ++ buf.take r.freeLen } := by
  induction buf generalizing r with
  | nil => rw [foldl_nil, take_nil, append_nil]
  | cons b buf ih =>
    rw [foldl_cons, ih, push]
    split_ifs with hfull
    · simp [hfull, freeLen]
    · have hfree : r.freeLen = (r.capacity - (r.deque.length + 1)) + 1 := by
        rw [freeLen]
        omega
      rw [hfree, take_succ_cons, freeLen, length_append, length_singleton,
        append_assoc, singleton_append]

/-- **A receive takes the first bytes.** -/
theorem tryRecv_eq_some {bytes : List UInt8} (h : r.tryRecv len = some (bytes, r')) :
    bytes ++ r'.deque = r.deque ∧ r' = { r with deque := r'.deque } := by
  rw [tryRecv, popLoop_eq] at h
  split_ifs at h
  cases h
  exact ⟨take_append_drop _ _, rfl⟩

theorem tryRecv_of_empty (h : r.deque = []) : r.tryRecv len = none := by
  rw [tryRecv, h]
  rfl

/-- **A send appends the bytes it reports.** -/
theorem trySend_eq_some {buf : List UInt8} {n : ℕ} (h : r.trySend buf = some (n, r')) :
    r.freeLen ≠ 0 ∧ r' = { r with deque := r.deque ++ buf.take n } := by
  rw [trySend, foldl_push] at h
  grind

end RingBuffer

section

variable (s : StreamState) (e : End)

@[simp] theorem End.peer_peer : e.peer.peer = e := by cases e <;> rfl

theorem End.peer_ne : e.peer ≠ e := by cases e <;> nofun

theorem End.eq_or_eq_peer (e' : End) : e' = e ∨ e' = e.peer := by
  cases e <;> cases e' <;> simp [End.peer]

/-! ## The invariant -/

/-- The sections of a run that keeps the promises. -/
def Proper : Label → Prop
  | .send e _ => s.Doomed e → (s.ring e.peer).freeLen = 0 ∧ (s.ring e.peer).recvShutdown = true
  | .recvFlag e => (s.ring e).sendShutdown = true → (s.ring e).deque = []
  | _ => True

instance (s : StreamState) (l : Label) : Decidable (Proper s l) := by
  cases l <;> unfold Proper <;> infer_instance

/-- An end that sends no more. -/
def StreamState.Finished : Prop :=
  s.shutWrite e = true ∨ s.phase e = .closed

end

/-- **The invariant of one direction**, towards an end. -/
structure Inv (s : StreamState) (e : End) : Prop where
  flow : s.received e ++ (s.ring e).deque = s.sent e.peer
  finished : (s.ring e).sendShutdown = true → s.Finished e.peer
  eof : s.eof e = true → (s.ring e).sendShutdown = true ∧ (s.ring e).deque = []
  doomed : s.phase e.peer = .sendFull true → (s.ring e).recvShutdown = true

/-- A change that leaves the bytes alone; flags, and what is known about the ends, can only grow. -/
theorem Inv.of_flags {s s' : StreamState} {e : End} (h : Inv s e)
    (hdeque : (s'.ring e).deque = (s.ring e).deque)
    (hrecv : (s.ring e).recvShutdown = true → (s'.ring e).recvShutdown = true)
    (hsend : (s.ring e).sendShutdown = true → (s'.ring e).sendShutdown = true)
    (hfinished : (s'.ring e).sendShutdown = true → s'.Finished e.peer)
    (hreceived : s'.received e = s.received e) (hsent : s'.sent e.peer = s.sent e.peer)
    (heof : s'.eof e = s.eof e)
    (hdoomed : s'.phase e.peer = .sendFull true → s.phase e.peer = .sendFull true) : Inv s' e where
  flow := by rw [hreceived, hdeque, hsent, h.flow]
  finished := hfinished
  eof he := by grind [h.eof]
  doomed hd := hrecv (h.doomed (hdoomed hd))

/-- A change that leaves the ring alone. -/
theorem Inv.of_ring_eq {s s' : StreamState} {e : End} (h : Inv s e) (hring : s'.ring e = s.ring e)
    (hreceived : s'.received e = s.received e) (hsent : s'.sent e.peer = s.sent e.peer)
    (heof : s'.eof e = s.eof e) (hfinished : s.Finished e.peer → s'.Finished e.peer)
    (hdoomed : s'.phase e.peer = .sendFull true → s.phase e.peer = .sendFull true) : Inv s' e := by
  refine h.of_flags (by rw [hring]) ?_ ?_ ?_ hreceived hsent heof hdoomed <;> rw [hring]
  any_goals exact id
  · exact fun hf => hfinished (h.finished hf)

namespace StreamState

variable (s : StreamState) {e d : End}

@[simp] theorem ring_setRing_self (e : End) (r : RingBuffer) : (s.setRing e r).ring e = r :=
  update_self ..

theorem ring_setRing_of_ne (h : d ≠ e) {r : RingBuffer} : (s.setRing e r).ring d = s.ring d :=
  update_of_ne h ..

@[simp] theorem phase_setPhase_self {p : Phase} : (s.setPhase e p).phase e = p :=
  update_self ..

theorem phase_setPhase_of_ne (h : d ≠ e) (p : Phase) : (s.setPhase e p).phase d = s.phase d :=
  update_of_ne h ..

end StreamState

namespace Inv

variable {s : StreamState} {d e : End}

/-- A call at an open end goes on. -/
theorem setPhase (h : Inv s d) {p : Phase} (hopen : s.phase e ≠ .closed)
    (hp : p = .sendFull true → (s.ring e.peer).recvShutdown = true) : Inv (s.setPhase e p) d where
  flow := h.flow
  finished hf := (h.finished hf).imp id fun hclosed => by
    have hpe : d.peer ≠ e := fun hpe => hopen (hpe ▸ hclosed)
    rw [s.phase_setPhase_of_ne hpe, hclosed]
  eof := h.eof
  doomed hd := by
    by_cases hpe : d.peer = e
    · rw [hpe, s.phase_setPhase_self] at hd
      rw [← d.peer_peer, hpe]
      exact hp hd
    · rw [s.phase_setPhase_of_ne hpe] at hd
      exact h.doomed hd

section

variable (h : ∀ d, Inv s d) (hidle : s.phase e = .idle)
include h hidle

theorem recv {len : ℕ} :
    Inv (s.recv e len).1 d := by
  have hopen : s.phase e ≠ .closed := by rw [hidle]; nofun
  rw [recv.eq_def]
  cases hr : (s.ring e).tryRecv len with
  | none => exact (h d).setPhase hopen nofun
  | some result =>
    obtain ⟨bytes, r⟩ := result
    obtain ⟨hbytes, hflags⟩ := (s.ring e).tryRecv_eq_some hr
    rcases End.eq_or_eq_peer e d with rfl | rfl
    · refine ⟨?_, ?_, fun he => ?_, ?_⟩
      · simp [hbytes, h, setRing, flow]
      · show ((s.setRing d r).ring d).sendShutdown = true → s.Finished d.peer
        rw [s.ring_setRing_self, hflags]
        exact (h d).finished
      · -- the ring of an end that was told end of file is empty
        rw [(s.ring d).tryRecv_of_empty ((h d).eof he).2] at hr
        cases hr
      · grind [setRing, ring_setRing_self, doomed]
    · exact (h e.peer).of_ring_eq (s.ring_setRing_of_ne e.peer_ne)
        (update_of_ne e.peer_ne ..) rfl rfl id id

theorem send {buf : List UInt8}
    (hproper : Proper s (.send e buf)) : Inv (s.send e buf).1 d := by
  rw [send.eq_def]
  cases hr : (s.ring e.peer).trySend buf with
  | none =>
    refine (h d).setPhase (by rw [hidle]; nofun) fun hp => (hproper ?_).2
    exact of_decide_eq_true (Phase.sendFull.inj hp)
  | some result =>
    obtain ⟨n, r⟩ := result
    obtain ⟨hfree, rfl⟩ := (s.ring e.peer).trySend_eq_some hr
    have hlive : ¬ s.Doomed e := fun hd => hfree (hproper hd).1
    rcases End.eq_or_eq_peer e d with rfl | rfl
    · refine (h d).of_ring_eq (s.ring_setRing_of_ne d.peer_ne.symm) rfl ?_ rfl id id
      exact update_of_ne d.peer_ne ..
    · have hflow := (h e.peer).flow
      have hfinished := (h e.peer).finished
      have hdoomed := (h e.peer).doomed
      rw [e.peer_peer] at hflow hfinished hdoomed
      refine ⟨?_, ?_, fun he => ?_, ?_⟩
      · grind [setRing, ring_setRing_self, End.peer_peer]
      · grind [Doomed, Finished, ring_setRing_self]
      · -- an end that was told end of file has a peer that sends no more
        rcases hfinished ((h e.peer).eof he).1 with hshut | hclosed
        · exact absurd (.inl hshut) hlive
        · rw [hidle] at hclosed
          cases hclosed
      · grind [setRing, End.peer_peer]

end

/-- The flag that the reader of a ring sets. -/
theorem setRecvShutdown (h : Inv s d) :
    Inv (s.setRing e { s.ring e with recvShutdown := true }) d := by
  by_cases hd : d = e
  · subst hd
    refine h.of_flags ?_ ?_ ?_ ?_ rfl rfl rfl id <;> rw [s.ring_setRing_self]
    · exact fun _ => rfl
    · exact id
    · exact h.finished
  · exact h.of_ring_eq (s.ring_setRing_of_ne hd) rfl rfl rfl id id

/-- The flag that the writer of a ring sets when it has finished. -/
theorem setSendShutdown (h : Inv s d) (hfinished : s.Finished e) :
    Inv (s.setRing e.peer { s.ring e.peer with sendShutdown := true }) d := by
  by_cases hd : d = e.peer
  · subst hd
    refine h.of_flags ?_ ?_ ?_ ?_ rfl rfl rfl id <;> rw [s.ring_setRing_self]
    · exact id
    · exact fun _ => rfl
    · rw [e.peer_peer]
      exact fun _ => hfinished
  · exact h.of_ring_eq (s.ring_setRing_of_ne hd) rfl rfl rfl id id

theorem shutdown (h : Inv s d) (e : End) (how : ℕ) : Inv (s.shutdown e how) d := by
  rw [StreamState.shutdown, StreamState.shutdownFlags]
  by_cases hhow : how = 0
  · simp only [if_pos hhow]
    exact h.setRecvShutdown.of_ring_eq rfl rfl rfl rfl id id
  · simp only [if_neg hhow]
    let asked : StreamState := { s with
      shutRead := if how = 0 ∨ how = 2 then update s.shutRead e true else s.shutRead
      shutWrite := update s.shutWrite e true }
    have hasked : Inv asked d := by
      refine h.of_ring_eq rfl rfl rfl rfl (Or.imp (fun hw => ?_) id) id
      grind
    exact hasked.setSendShutdown (.inl (update_self ..))

/-- **Every proper section keeps both directions.** -/
theorem step (h : ∀ d, Inv s d) {l : Label} {result : StreamState × Option Answer}
    (hproper : Proper s l) (hstep : s.step l = some result) (d : End) : Inv result.1 d := by
  cases l with
  | recv e len => grind [step.eq_1, recv]
  | recvFlag e =>
    rw [StreamState.step] at hstep
    split_ifs at hstep with hphase hflag <;> cases hstep
    · have hold := (h d).setPhase (p := .idle) (by rw [hphase]; nofun) nofun
      refine { hold with eof := fun he => ?_ }
      by_cases hd : d = e
      · subst hd
        exact ⟨hflag, hproper hflag⟩
      · exact hold.eof ((update_of_ne hd ..).symm.trans he)
    · exact (h d).setPhase (by rw [hphase]; nofun) nofun
  | send e buf => grind [step.eq_3, send]
  | sendFlag e =>
    simp only [StreamState.step] at hstep
    split at hstep
    · grind [setPhase]
    · cases hstep
  | shutdown e how => grind [step.eq_5, shutdown]
  | close e =>
    grind [setPhase, setRing, step.eq_6, setPhase, setRecvShutdown]
  | closeSend e =>
    rw [StreamState.step] at hstep
    split_ifs at hstep with hclosing
    cases hstep
    have hopen : s.phase e ≠ .closed := by rw [hclosing]; nofun
    exact ((h d).setPhase (p := .closed) hopen nofun).setSendShutdown (.inr s.phase_setPhase_self)

end Inv

/-! ## All runs -/

/-- **What the two ends can rely on in a state.** -/
structure Sound (s : StreamState) : Prop where
  /-- What an end has received is the beginning of what its peer has sent. -/
  flow : ∀ e, s.received e <+: s.sent e.peer
  /-- An end that was told end of file has received everything, and its peer sends no more. -/
  eof : ∀ e, s.eof e = true → s.received e = s.sent e.peer ∧ s.Finished e.peer
  /-- After that it receives nothing. -/
  silent : ∀ e len result, s.eof e = true → s.step (.recv e len) = some result →
    result.1.received = s.received
  /-- A send that is to fail puts no byte into the ring. -/
  doomed : ∀ e buf result, s.Doomed e → Proper s (.send e buf) →
    s.step (.send e buf) = some result → result = (s.setPhase e (.sendFull true), none)
  /-- It ends with `EPIPE`. -/
  epipe : ∀ e result, s.phase e = .sendFull true → s.step (.sendFlag e) = some result →
    result = (s.setPhase e .idle, some (.error .EPIPE))

theorem Inv.sound {s : StreamState} (h : ∀ d, Inv s d) : Sound s where
  flow e := ⟨_, (h e).flow⟩
  eof e he := by grind [eof, flow, finished]
  silent e len result he hstep := by
    rw [StreamState.step] at hstep
    split_ifs at hstep
    cases hstep
    rw [StreamState.recv, (s.ring e).tryRecv_of_empty ((h e).eof he).2]
    rfl
  doomed e buf result hdoomed hproper hstep := by
    rw [StreamState.step] at hstep
    split_ifs at hstep
    cases hstep
    rw [StreamState.send, RingBuffer.trySend, if_pos (hproper hdoomed).1, decide_eq_true hdoomed]
  epipe e result hphase hstep := by
    have hdoomed := (h e.peer).doomed
    grind [e.peer_peer, StreamState.step]

/-- **Streams in every state of a run of proper sections.** -/
theorem streams_of_reachable (bufSize : ℕ) {s : StreamState}
    (h : ((streams bufSize).restrict Proper).Reachable s) : Sound s := by
  refine Inv.sound (h.invariant (I := fun s => ∀ d, Inv s d) ?_ ?_)
  · rintro _ rfl d
    exact ⟨rfl, nofun, nofun, nofun⟩
  · rintro s l _ - hinv ⟨hproper, hstep⟩
    obtain ⟨result, hresult, rfl⟩ := Option.map_eq_some_iff.mp hstep
    exact Inv.step hinv hproper hresult

/-- One end sends two bytes and closes; the other reads them and is told end of file. -/
def sendAndClose : List Label :=
  [.send .left [1, 2], .close .left, .closeSend .left, .recv .right 8, .recv .right 8,
    .recvFlag .right]

theorem streams_sendAndClose : ∃ s, ((streams 4).restrict Proper).Reachable s ∧ Sound s ∧
    s.received .right = [1, 2] ∧ s.eof .right = true := by
  obtain ⟨s, hreach, hgoal⟩ : ∃ s, ((streams 4).restrict Proper).Reachable s ∧
      s.received .right = [1, 2] ∧ s.eof .right = true :=
    System.exists_run_restrict sendAndClose rfl (by decide)
  exact ⟨s, hreach, streams_of_reachable 4 hreach, hgoal⟩

/-- An end shuts down writing, its peer is told end of file, and then it sends a byte all the
same. -/
def sendAfterShutdown : List Label :=
  [.shutdown .left 1, .recv .right 8, .recvFlag .right, .send .left [1], .recv .right 8]

/-- A receive finds the ring empty; then the other end sends a byte and shuts down writing, before
the receive looks at the flag. -/
def eofTooEarly : List Label :=
  [.recv .right 8, .send .left [1], .shutdown .left 1, .recvFlag .right]

/-- **Data after end of file, and end of file before the data.**  A send after its own shutdown is
accepted and its byte is received after end of file was reported; and end of file is reported while
a byte is in the ring. -/
theorem eof_and_data :
    (∃ s, (streams 4).Reachable s ∧ s.shutWrite .left = true ∧ s.eof .right = true ∧
      s.received .right = [1]) ∧
    ∃ s, (streams 4).Reachable s ∧ s.eof .right = true ∧ s.received .right = [] ∧
      s.sent .left = [1] :=
  ⟨System.exists_run sendAfterShutdown rfl (by decide),
    System.exists_run eofTooEarly rfl (by decide)⟩
end MangoCore.Net.UnixStream
