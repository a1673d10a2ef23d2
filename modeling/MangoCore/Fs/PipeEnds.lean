import MangoCore.Fs.Pipe
import MangoCore.Lib.System

/-!
# The ends of a pipe

A pipe or a named FIFO is a ring with two weak references, one to its read end and one to its write
end.  An end (`Pipe` in the source) is kept alive by the open file descriptions that refer to it,
and a reference to an end that is no longer alive means that the other side is gone: a read of an
empty ring then reports end-of-file, and a write fails with `EPIPE`.

`fifoOpen` looks up the ring of a FIFO in a registry.  It hands out an end that is alive if there is
one, and otherwise makes a new end and replaces the references in the ring and in the registry.

A description is named after the pipe that was opened, so that its peers can be spoken of without
the references.  The statistics, the wait queues and the inodes of the file systems are not
modelled, and opening does not wait for the other side, as in the source.
-/

namespace MangoCore.Fs.Pipe

open Mm Function

/-- `Pipe` in the source. -/
structure End where
  readable : Bool
  writable : Bool
  buffer : ℕ
  deriving DecidableEq

/-- The ring with its two weak references. -/
structure Buffer where
  ring : PipeRingBuffer
  readEnd : Option ℕ
  writeEnd : Option ℕ

structure FifoEntry where
  readEnd : Option ℕ
  writeEnd : Option ℕ
  buffer : ℕ
  deriving DecidableEq

/-- The device and inode of a FIFO, or the number of an unnamed pipe. -/
inductive Name where
  | fifo (devInode : ℕ × ℕ)
  | unnamed (n : ℕ)
  deriving DecidableEq

/-- An open file description, with the number of descriptors that share it. -/
structure Description where
  name : Name
  pipe : ℕ
  forRead : Bool
  forWrite : Bool
  descriptors : ℕ
  deriving DecidableEq

/-- The access mode of an `open`; mode 3 is treated as `readOnly`. -/
inductive Access where
  | readOnly | writeOnly | readWrite
  deriving DecidableEq

def Access.forRead : Access → Bool
  | .writeOnly => false
  | _ => true

def Access.forWrite : Access → Bool
  | .readOnly => false
  | _ => true

/-- All pipes of the system. -/
structure Pipes where
  ends : ℕ → End
  nextEnd : ℕ
  buffers : ℕ → Buffer
  nextBuffer : ℕ
  /-- `FIFO_REGISTRY`. -/
  registry : ℕ × ℕ → Option FifoEntry
  files : ℕ → Option Description
  nextFile : ℕ

namespace Pipes

/-- Before the first pipe is made. -/
def initial : Pipes where
  ends _ := ⟨false, false, 0⟩
  nextEnd := 0
  buffers _ := ⟨.new 0, none, none⟩
  nextBuffer := 0
  registry _ := none
  files _ := none
  nextFile := 0

variable (s : Pipes)

/-- Whether the strong count of an end is positive. -/
def alive (p : ℕ) : Bool :=
  (List.range s.nextFile).any fun f => (s.files f).any fun d => d.pipe == p

/-- `Weak::upgrade`. -/
def upgrade (w : Option ℕ) : Option ℕ := w.filter s.alive

/-- A new ring without ends. -/
def newBuffer (capacity : ℕ) : Pipes :=
  { s with
    buffers := update s.buffers s.nextBuffer ⟨.new capacity, none, none⟩
    nextBuffer := s.nextBuffer + 1 }

/-- `Arc::new` of an end. -/
def newEnd (e : End) : Pipes :=
  { s with ends := update s.ends s.nextEnd e, nextEnd := s.nextEnd + 1 }

def setReadEnd (b p : ℕ) : Pipes :=
  { s with buffers := update s.buffers b { s.buffers b with readEnd := some p } }

def setWriteEnd (b p : ℕ) : Pipes :=
  { s with buffers := update s.buffers b { s.buffers b with writeEnd := some p } }

section

variable (key : ℕ × ℕ)

def setEntry (entry : Option FifoEntry) : Pipes :=
  { s with registry := update s.registry key entry }

/-- `File::new_without_open`. -/
def newFile (d : Description) : Pipes :=
  { s with files := update s.files s.nextFile (some d), nextFile := s.nextFile + 1 }

/-- `fifo_open` drops an entry whose ends are both closed. -/
def dropStale : Pipes :=
  match s.registry key with
  | some entry =>
    if (s.upgrade entry.readEnd).isNone && (s.upgrade entry.writeEnd).isNone then
      s.setEntry key none
    else s
  | none => s

/-- The entry of a FIFO, which is made if there is none. -/
def entryOf (capacity : ℕ) : FifoEntry × Pipes :=
  match s.registry key with
  | some entry => (entry, s)
  | none =>
    let entry := ⟨none, none, s.nextBuffer⟩
    (entry, (s.newBuffer capacity).setEntry key (some entry))

variable (access : Access) (entry : FifoEntry)

/-- The end for both directions. -/
def openReadWrite : ℕ × Pipes :=
  match (s.upgrade entry.readEnd).filter fun p => (s.ends p).writable with
  | some p => (p, s)
  | none =>
    let p := s.nextEnd
    let s := s.newEnd ⟨true, true, entry.buffer⟩
    let s := (s.setReadEnd entry.buffer p).setWriteEnd entry.buffer p
    (p, s.setEntry key (some { entry with readEnd := some p, writeEnd := some p }))

def openRead : ℕ × Pipes :=
  match s.upgrade entry.readEnd with
  | some p => (p, s)
  | none =>
    let p := s.nextEnd
    let s := (s.newEnd ⟨true, false, entry.buffer⟩).setReadEnd entry.buffer p
    (p, s.setEntry key (some { entry with readEnd := some p }))

def openWrite : ℕ × Pipes :=
  match s.upgrade entry.writeEnd with
  | some p => (p, s)
  | none =>
    let p := s.nextEnd
    let s := (s.newEnd ⟨false, true, entry.buffer⟩).setWriteEnd entry.buffer p
    (p, s.setEntry key (some { entry with writeEnd := some p }))

variable (nonblock : Bool) (capacity : ℕ)

/-- `fifo_open`, with the capacity that a new ring gets. -/
def fifoOpen : Except Errno ℕ × Pipes :=
  let (entry, s) := (s.dropStale key).entryOf key capacity
  match access with
  | .readWrite => let (p, s) := s.openReadWrite key entry; (.ok p, s)
  | .readOnly => let (p, s) := s.openRead key entry; (.ok p, s)
  | .writeOnly =>
    if nonblock && (s.upgrade entry.readEnd).isNone then (.error Errno.ENXIO, s)
    else let (p, s) := s.openWrite key entry; (.ok p, s)

/-- `open` of a FIFO: the answer is the new description. -/
def openFifo : Except Errno ℕ × Pipes :=
  match s.fifoOpen key access nonblock capacity with
  | (.ok p, s) => (.ok s.nextFile, s.newFile ⟨.fifo key, p, access.forRead, access.forWrite, 1⟩)
  | (.error e, s) => (.error e, s)

end

/-- `make_pipe`: the read end and the write end of a new ring. -/
def makePipe (capacity : ℕ) : (ℕ × ℕ) × Pipes :=
  let b := s.nextBuffer
  let r := s.nextEnd
  let s := ((s.newBuffer capacity).newEnd ⟨true, false, b⟩).newEnd ⟨false, true, b⟩
  ((r, r + 1), (s.setWriteEnd b (r + 1)).setReadEnd b r)

/-- `pipe2`, with the two descriptions it opens. -/
def pipe2 (capacity : ℕ) : (ℕ × ℕ) × Pipes :=
  let name := Name.unnamed s.nextBuffer
  let ((r, w), s) := s.makePipe capacity
  let s := (s.newFile ⟨name, r, true, false, 1⟩).newFile ⟨name, w, false, true, 1⟩
  ((s.nextFile - 2, s.nextFile - 1), s)

/-- Another descriptor for a description, or one less; the last one closes it. -/
def dup (f : ℕ) : Pipes :=
  { s with
    files := update s.files f
      ((s.files f).map fun d => { d with descriptors := d.descriptors + 1 }) }

def close (f : ℕ) : Pipes :=
  { s with
    files := update s.files f
      ((s.files f).bind fun d =>
        if d.descriptors ≤ 1 then none else some { d with descriptors := d.descriptors - 1 }) }

def compactFifoRegistry : Pipes :=
  { s with
    registry := fun key => (s.registry key).filter fun entry =>
      (s.upgrade entry.readEnd).isSome || (s.upgrade entry.writeEnd).isSome }

/-! ## Reads and writes -/

variable (d : Description)

/-- The ring behind a description, as a call finds it. -/
def ringOf : PipeRingBuffer :=
  let b := s.buffers (s.ends d.pipe).buffer
  { b.ring with
    readEnd := (s.upgrade b.readEnd).isSome
    writeEnd := (s.upgrade b.writeEnd).isSome }

/-- The ring that a call leaves behind. -/
def setRing (r : PipeRingBuffer) : Pipes :=
  let b := (s.ends d.pipe).buffer
  { s with buffers := update s.buffers b { s.buffers b with ring := r } }

/-- `read` through a description; `File::read` checks its mode first. -/
def read (len : ℕ) : ReadAnswer × PipeRingBuffer :=
  readAt (d.forRead && (s.ends d.pipe).readable) (s.ringOf d) len

def readUser (dst : UserBuffer) (resolves : ℕ → ℕ → Bool) : ReadAnswer × PipeRingBuffer :=
  readAtUser (d.forRead && (s.ends d.pipe).readable) (s.ringOf d) dst resolves

def write (buf : List UInt8) : WriteAnswer × PipeRingBuffer :=
  writeAt (d.forWrite && (s.ends d.pipe).writable) (s.ringOf d) buf

def writeUser (src : UserBuffer) (data : ℕ → UInt8)
    (resolves : ℕ → ℕ → Bool) : WriteAnswer × PipeRingBuffer :=
  writeAtUser (d.forWrite && (s.ends d.pipe).writable) (s.ringOf d) src data resolves

end Pipes

inductive PipeCall where
  | openFifo (key : ℕ × ℕ) (access : Access) (nonblock : Bool) (capacity : ℕ)
  | pipe2 (capacity : ℕ)
  | dup (f : ℕ)
  | close (f : ℕ)
  | compact
  | read (f len : ℕ)
  | readUser (f : ℕ) (dst : UserBuffer) (resolves : ℕ → ℕ → Bool)
  | write (f : ℕ) (buf : List UInt8)
  | writeUser (f : ℕ) (src : UserBuffer) (data : ℕ → UInt8) (resolves : ℕ → ℕ → Bool)

/-- The state after a call; a call with a number that is no open description does nothing. -/
def Pipes.call (s : Pipes) : PipeCall → Pipes
  | .openFifo key access nonblock capacity => (s.openFifo key access nonblock capacity).2
  | .pipe2 capacity => (s.pipe2 capacity).2
  | .dup f => s.dup f
  | .close f => s.close f
  | .compact => s.compactFifoRegistry
  | .read f len => (s.files f).elim s fun d => s.setRing d (s.read d len).2
  | .readUser f dst resolves =>
    (s.files f).elim s fun d => s.setRing d (s.readUser d dst resolves).2
  | .write f buf => (s.files f).elim s fun d => s.setRing d (s.write d buf).2
  | .writeUser f src data resolves =>
    (s.files f).elim s fun d => s.setRing d (s.writeUser d src data resolves).2

/-- The runs of the calls. -/
def pipeCalls : System Pipes PipeCall :=
  System.ofFun (fun s => s = .initial) fun s c => some (s.call c)
end MangoCore.Fs.Pipe
