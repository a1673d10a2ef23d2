import MangoCore.Errno
import MangoCore.Lib.System

/-!
# Connected unix stream sockets

Two ends with one ring buffer for each direction.  The ring of an end holds the bytes that are on
their way to it, and two flags: its reader has shut down reading, its writer has shut down writing.

A call at one end holds the lock of that end from its beginning to its end, and takes the lock of a
ring for each access.  So the calls at one end come one after the other, but a receive that finds
the ring empty looks at the flag in a second section, and the other end can act in between; the same
for a send that finds the ring full, and for the two flags that closing an end sets.

The state also records the history: the bytes that an end sent successfully and those it received,
whether it was told end of file, and which directions it has asked to be shut down.
-/

namespace MangoCore.Net.UnixStream

open Function

/-! ## Ring buffers -/

structure RingBuffer where
  deque : List UInt8
  capacity : ℕ
  recvShutdown : Bool
  sendShutdown : Bool
  deriving DecidableEq

namespace RingBuffer

def new (capacity : ℕ) : RingBuffer := ⟨[], capacity, false, false⟩

variable (r : RingBuffer)

/-- A byte is put in if there is room. -/
def push (b : UInt8) : RingBuffer :=
  if r.deque.length ≥ r.capacity then r else { r with deque := r.deque ++ [b] }

def pop : Option (UInt8 × RingBuffer) :=
  match r.deque with
  | [] => none
  | b :: rest => some (b, { r with deque := rest })

def freeLen : ℕ := r.capacity - r.deque.length

/-- The loop of `try_recv`. -/
def popLoop : ℕ → RingBuffer → List UInt8 × RingBuffer
  | 0, r => ([], r)
  | n + 1, r =>
    match r.pop with
    | none => ([], r)
    | some (b, r) => (b :: (popLoop n r).1, (popLoop n r).2)

/-- `Connected::try_recv` on the ring: the bytes, or none if there are none. -/
def tryRecv (len : ℕ) : Option (List UInt8 × RingBuffer) :=
  if r.deque.isEmpty then none else some (popLoop (min len r.deque.length) r)

/-- `Connected::try_send` on the ring: the number of bytes put in, or none if the ring is full. -/
def trySend (buf : List UInt8) : Option (ℕ × RingBuffer) :=
  if r.freeLen = 0 then none else some (min buf.length r.freeLen, buf.foldl push r)

end RingBuffer

/-! ## The two ends -/

inductive End where
  | left | right
  deriving DecidableEq

def End.peer : End → End
  | .left => .right
  | .right => .left

/-- Where a call at an end is. -/
inductive Phase where
  | idle
  /-- A receive found the ring empty. -/
  | recvEmpty
  /-- A send found the ring full; the mark says whether it was to fail when it began. -/
  | sendFull (doomed : Bool)
  /-- The reading direction is shut down, and the writing direction is next. -/
  | closing
  | closed
  deriving DecidableEq

structure StreamState where
  /-- The bytes on their way to an end. -/
  ring : End → RingBuffer
  phase : End → Phase
  sent : End → List UInt8
  received : End → List UInt8
  eof : End → Bool
  shutRead : End → Bool
  shutWrite : End → Bool

/-- `Connected::new_pair`. -/
def StreamState.newPair (bufSize : ℕ) : StreamState :=
  ⟨fun _ => .new bufSize, fun _ => .idle, fun _ => [], fun _ => [], fun _ => false,
    fun _ => false, fun _ => false⟩

/-- The answer of a call. -/
abbrev Answer := Except Errno ℕ

/-- One section of a call at an end. -/
inductive Label where
  | recv (e : End) (len : ℕ)
  | recvFlag (e : End)
  | send (e : End) (buf : List UInt8)
  | sendFlag (e : End)
  | shutdown (e : End) (how : ℕ)
  | close (e : End)
  | closeSend (e : End)
  deriving DecidableEq

namespace StreamState

variable (s : StreamState)

section

variable (e : End)

def setRing (r : RingBuffer) : StreamState :=
  { s with ring := update s.ring e r }

def setPhase (p : Phase) : StreamState := { s with phase := update s.phase e p }

/-- The sends of an end that are to fail: it shut down writing, or its peer is closed or shut down
reading. -/
def Doomed : Prop :=
  s.shutWrite e = true ∨ s.shutRead e.peer = true ∨ s.phase e.peer = .closed

instance (e : End) : Decidable (s.Doomed e) := inferInstanceAs (Decidable (_ ∨ _))

/-- The first section of `try_recv`. -/
def recv (len : ℕ) : StreamState × Option Answer :=
  match (s.ring e).tryRecv len with
  | some (bytes, r) =>
    ({ s.setRing e r with
      received := update s.received e (s.received e ++ bytes) }, some (.ok bytes.length))
  | none => (s.setPhase e .recvEmpty, none)

/-- The first section of `try_send`. -/
def send (buf : List UInt8) : StreamState × Option Answer :=
  match (s.ring e.peer).trySend buf with
  | some (n, r) =>
    ({ s.setRing e.peer r with
      sent := update s.sent e (s.sent e ++ buf.take n) }, some (.ok n))
  | none => (s.setPhase e (.sendFull (decide (s.Doomed e))), none)

/-- The flags that `shutdown` sets.  `SHUT_WR` and `SHUT_RDWR` are not imported where they are
matched on, so the second arm takes every value but `SHUT_RD`. -/
def shutdownFlags (how : ℕ) : StreamState :=
  if how = 0 then s.setRing e { s.ring e with recvShutdown := true }
  else s.setRing e.peer { s.ring e.peer with sendShutdown := true }

/-- `shutdown`, with what the caller asked for: 0 to shut down reading, 1 writing, 2 both. -/
def shutdown (how : ℕ) : StreamState :=
  { s.shutdownFlags e how with
    shutRead := if how = 0 ∨ how = 2 then update s.shutRead e true else s.shutRead
    shutWrite := if how = 0 then s.shutWrite else update s.shutWrite e true }

end

/-- One section, with the answer of the call if it ends here. -/
def step : Label → Option (StreamState × Option Answer)
  | .recv e len => if s.phase e = .idle then some (s.recv e len) else none
  | .recvFlag e =>
    if s.phase e = .recvEmpty then
      if (s.ring e).sendShutdown then
        some ({ s.setPhase e .idle with eof := update s.eof e true }, some (.ok 0))
      else some (s.setPhase e .idle, some (.error .EAGAIN))
    else none
  | .send e buf => if s.phase e = .idle then some (s.send e buf) else none
  | .sendFlag e =>
    match s.phase e with
    | .sendFull _ =>
      some (s.setPhase e .idle,
        some (.error (if (s.ring e.peer).recvShutdown then .EPIPE else .EAGAIN)))
    | _ => none
  | .shutdown e how =>
    if s.phase e = .idle then some (s.shutdown e how, some (.ok 0)) else none
  | .close e =>
    if s.phase e = .idle then
      some ((s.setRing e { s.ring e with recvShutdown := true }).setPhase e .closing, none)
    else none
  | .closeSend e =>
    if s.phase e = .closing then
      let r := { s.ring e.peer with sendShutdown := true }
      some ((s.setRing e.peer r).setPhase e .closed, none)
    else none

end StreamState

/-- All interleavings of the calls at the two ends of a pair. -/
def streams (bufSize : ℕ) : System StreamState Label :=
  System.ofFun (fun s => s = .newPair bufSize) fun s l => (s.step l).map Prod.fst
end MangoCore.Net.UnixStream
