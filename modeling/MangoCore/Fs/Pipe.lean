import MangoCore.Lib.Ring
import MangoCore.Mm.UserBuffer

/-!
# Pipes

A pipe is a ring of bytes.  Head and tail are equal both when the ring is empty and when it is full,
so a status tells the two apart; every loop that moves bytes sets it after each piece it has copied.
The loops copy straight pieces of the array, up to its end, and go round.

Reads and writes are the calls under the lock of the ring.  `readAt` and `writeAt` copy from and to
kernel memory, `readAtUser` and `writeAtUser` from and to user memory, where a copy can stop early.
The statistics and the wake-ups after the lock is released are not modelled.
-/

namespace MangoCore.Fs.Pipe

open Mm MangoCore.Ring

/-- The size of the array; the capacity of a pipe is at most that. -/
def ringDefaultBufferSize : ℕ := 4096 * 16

inductive RingBufferStatus where
  | full | empty | normal
  deriving DecidableEq

/-- The ring.  `writeEnd` and `readEnd` say whether an end of that kind is still open. -/
structure PipeRingBuffer where
  arr : ℕ → UInt8
  capacity : ℕ
  head : ℕ
  tail : ℕ
  status : RingBufferStatus
  writeEnd : Bool
  readEnd : Bool

namespace PipeRingBuffer

/-- The ring of a new pipe; its owner and a system limit choose the capacity. -/
def new (capacity : ℕ) : PipeRingBuffer where
  arr := fun _ => 0
  capacity := capacity
  head := 0
  tail := 0
  status := .empty
  writeEnd := false
  readEnd := false

variable (r : PipeRingBuffer)

/-- The number of bytes in the ring.  The source asserts here that head and tail differ in a ring of
status `normal`. -/
def getUsedSize : ℕ :=
  if r.status = .full then r.capacity
  else if r.status = .empty then 0
  else if r.head < r.tail then r.tail - r.head
  else r.tail + r.capacity - r.head

def getFreeSize : ℕ := r.capacity - r.getUsedSize

/-! ## Pieces -/

/-- The end of the straight piece of bytes that begins at the head. -/
def readEndOf : ℕ := if r.tail ≤ r.head then r.capacity else r.tail

/-- The end of the straight piece of free cells that begins at the tail. -/
def writeEndOf : ℕ := if r.tail < r.head then r.head else r.capacity

/-- The head moves over a piece, and starts over at the end of the array. -/
def advanceHead (n : ℕ) : PipeRingBuffer :=
  { r with head := if r.head + n = r.capacity then 0 else r.head + n }

/-- A piece is copied to the tail. -/
def advanceTail (bytes : List UInt8) : PipeRingBuffer :=
  { r with
    arr := write r.arr r.tail bytes
    tail := if r.tail + bytes.length = r.capacity then 0 else r.tail + bytes.length }

/-- The status after bytes were taken out. -/
def settleRead : PipeRingBuffer :=
  { r with status := if r.head = r.tail then .empty else .normal }

/-- The status after bytes were put in. -/
def settleWrite : PipeRingBuffer :=
  { r with status := if r.head = r.tail then .full else .normal }

/-! ## Copies from and to kernel memory -/

/-- Up to `len` bytes leave the ring. -/
def bufferRead (r : PipeRingBuffer) (len : ℕ) : List UInt8 × PipeRingBuffer :=
  if _h : len = 0 then ([], r)
  else if r.status = .empty then ([], r)
  else
    let n := min len (r.readEndOf - r.head)
    if _hn : n = 0 then ([], r)
    else
      let rest := bufferRead (r.advanceHead n).settleRead (len - n)
      (segment r.arr r.head n ++ rest.1, rest.2)
termination_by len
decreasing_by omega

/-- As many bytes of a buffer as fit go into the ring. -/
def bufferWrite (r : PipeRingBuffer) (buf : List UInt8) : ℕ × PipeRingBuffer :=
  if _h : buf.length = 0 then (0, r)
  else if r.status = .full then (0, r)
  else
    let free := r.getFreeSize
    if free = 0 then (0, r)
    else
      let n := min (min buf.length free) (r.writeEndOf - r.tail)
      if _hn : n = 0 then (0, r)
      else
        let rest := bufferWrite (r.advanceTail (buf.take n)).settleWrite (buf.drop n)
        (n + rest.1, rest.2)
termination_by buf.length
decreasing_by
  rw [List.length_drop]
  omega

/-- The loop of `peekData` from a position on. -/
def peekFrom (r : PipeRingBuffer) (pos n : ℕ) : List UInt8 :=
  if _h : n = 0 then []
  else
    let chunk := min n ((if r.tail ≤ pos then r.capacity else r.tail) - pos)
    if _hn : chunk = 0 then []
    else
      segment r.arr pos chunk
        ++ peekFrom r (if pos + chunk = r.capacity then 0 else pos + chunk) (n - chunk)
termination_by n
decreasing_by omega

/-- Up to `len` bytes, which stay in the ring. -/
def peekData (len : ℕ) : List UInt8 :=
  if r.status = .empty then [] else r.peekFrom r.head (min len r.getUsedSize)

/-- The loop of `spliceMove`: `remaining` bytes go from one ring to another, piece by piece.  The
result has the number of bytes that did not move. -/
def spliceLoop (src dst : PipeRingBuffer) (remaining : ℕ) : ℕ × PipeRingBuffer × PipeRingBuffer :=
  if _h : remaining = 0 then (0, src, dst)
  else
    let srcSegLen := min (src.readEndOf - src.head) remaining
    if srcSegLen = 0 then (remaining, src, dst)
    else
      let dstSegLen := min (dst.writeEndOf - dst.tail) srcSegLen
      if _hd : dstSegLen = 0 then (remaining, src, dst)
      else
        let chunk := min srcSegLen dstSegLen
        spliceLoop (src.advanceHead chunk) (dst.advanceTail (segment src.arr src.head chunk))
          (remaining - chunk)
termination_by remaining
decreasing_by omega

/-- Up to `maxBytes` bytes move from one ring to another; both are locked. -/
def spliceMove (src dst : PipeRingBuffer) (maxBytes : ℕ) : ℕ × PipeRingBuffer × PipeRingBuffer :=
  let want := min (min maxBytes src.getUsedSize) dst.getFreeSize
  if want = 0 then (0, src, dst)
  else
    let loop := spliceLoop src dst want
    let moved := want - loop.1
    if 0 < moved then (moved, loop.2.1.settleRead, loop.2.2.settleWrite)
    else (moved, loop.2.1, loop.2.2)

end PipeRingBuffer

open PipeRingBuffer

/-! ## Reads -/

/-- What a read answers: an error, or the bytes it delivers. -/
abbrev ReadAnswer := Except Errno (List UInt8)

/-- What a write answers: an error, or the number of bytes it accepted. -/
abbrev WriteAnswer := Except Errno ℕ

def readAt (readable : Bool) (r : PipeRingBuffer) (len : ℕ) : ReadAnswer × PipeRingBuffer :=
  if !readable then (.error .EBADF, r)
  else if len = 0 then (.ok [], r)
  else if r.status = .empty then if !r.writeEnd then (.ok [], r) else (.error .EAGAIN, r)
  else
    let read := r.bufferRead len
    (.ok read.1, read.2.settleRead)

/-- The loop of `readAtUser` with `total` bytes delivered: the bytes it delivers, whether a copy
failed, and the ring. -/
def readUserLoop (dst : UserBuffer) (resolves : ℕ → ℕ → Bool) (r : PipeRingBuffer) (total : ℕ) :
    List UInt8 × Bool × PipeRingBuffer :=
  if _h : dst.len ≤ total then ([], false, r)
  else if r.status = .empty then ([], false, r)
  else
    let segLen := min (dst.len - total) (r.readEndOf - r.head)
    if _hs : segLen = 0 then ([], false, r)
    else
      match dst.writeFromAtNofault (resolves total) total segLen with
      | none => ([], true, r)
      | some n =>
        let r' := (r.advanceHead n).settleRead
        if _hn : n < segLen then (segment r.arr r.head n, false, r')
        else
          let rest := readUserLoop dst resolves r' (total + n)
          (segment r.arr r.head n ++ rest.1, rest.2)
termination_by dst.len - total
decreasing_by omega

/-- A read into user memory.  `resolves` says, for the copy that begins at an offset of the buffer,
which pages can be written when their turn comes. -/
def readAtUser (readable : Bool) (r : PipeRingBuffer) (dst : UserBuffer)
    (resolves : ℕ → ℕ → Bool) : ReadAnswer × PipeRingBuffer :=
  if !readable then (.error .EBADF, r)
  else if dst.len = 0 then (.ok [], r)
  else if r.status = .empty then if !r.writeEnd then (.ok [], r) else (.error .EAGAIN, r)
  else
    let loop := readUserLoop dst resolves r 0
    if loop.2.1 && loop.1.isEmpty then (.error .EFAULT, loop.2.2) else (.ok loop.1, loop.2.2)

/-! ## Writes -/

def writeAt (writable : Bool) (r : PipeRingBuffer) (buf : List UInt8) :
    WriteAnswer × PipeRingBuffer :=
  if !writable then (.error .EBADF, r)
  else if buf.length = 0 then (.ok 0, r)
  else if !r.readEnd then (.error .EPIPE, r)
  else if r.status = .full then (.error .EAGAIN, r)
  else if buf.length ≤ pageSize && r.getFreeSize < buf.length then (.error .EAGAIN, r)
  else
    let written := r.bufferWrite buf
    (.ok written.1, written.2.settleWrite)

/-- The loop of `writeAtUser` with `total` bytes accepted: the number of further bytes it accepts,
whether a copy failed, and the ring.  `data` is the user memory behind the buffer. -/
def writeUserLoop (src : UserBuffer) (data : ℕ → UInt8) (resolves : ℕ → ℕ → Bool)
    (r : PipeRingBuffer) (total : ℕ) : ℕ × Bool × PipeRingBuffer :=
  if _h : src.len ≤ total then (0, false, r)
  else if r.status = .full then (0, false, r)
  else
    let segLen :=
      min (min (min (src.len - total) r.getFreeSize) (r.writeEndOf - r.tail)) pageSize
    if segLen = 0 then (0, false, r)
    else
      match src.readIntoAtNofault (resolves total) total segLen with
      | none => (0, true, r)
      | some n =>
        if _hn : n = 0 then (0, false, r)
        else
          let r' := (r.advanceTail (segment data total n)).settleWrite
          if n < segLen then (n, false, r')
          else
            let rest := writeUserLoop src data resolves r' (total + n)
            (n + rest.1, rest.2)
termination_by src.len - total
decreasing_by omega

def writeAtUser (writable : Bool) (r : PipeRingBuffer) (src : UserBuffer) (data : ℕ → UInt8)
    (resolves : ℕ → ℕ → Bool) : WriteAnswer × PipeRingBuffer :=
  if !writable then (.error .EBADF, r)
  else if src.len = 0 then (.ok 0, r)
  else if !r.readEnd then (.error .EPIPE, r)
  else if r.status = .full then (.error .EAGAIN, r)
  else if src.len ≤ pageSize && r.getFreeSize < src.len then (.error .EAGAIN, r)
  else
    let loop := writeUserLoop src data resolves r 0
    if loop.2.1 && loop.1 == 0 then (.error .EFAULT, loop.2.2) else (.ok loop.1, loop.2.2)
end MangoCore.Fs.Pipe
