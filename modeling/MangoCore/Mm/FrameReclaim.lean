import MangoCore.Mm.FrameStore

/-!
# Reclaiming and restoring the pages of a mapping

When memory runs out, `do_oom` takes the reclaim candidates of a mapping one by one and moves each
to the compressed store or, when that is full, to the swap device.  A later fault brings the page
back.  The four transitions of a single `Frame` are `zip`, `swap_out`, `unzip` and `swap_in`; the
counters and the queue of candidates are kept by their callers, `do_oom` on the way out and
`finish_decompress_page`, `finish_swap_in_page` and `cow_source_frame` on the way back.

What the rest of the kernel answers on the way is an argument: how many owners a frame has, what the
two devices return, whether a frame can be allocated, whether the page table takes the page, and
whether the queue can grow.  The effects on the page table are not those of the store and are left
out here.
-/

namespace MangoCore.Mm

/-! ## One page -/

namespace Frame

variable (f : Frame) (frameAlloc : Option ℕ) (strongCount : ℕ)

/-- A page with one owner is compressed; the frame it had is returned. -/
def zip (write : Option ℕ) : Except MemoryError ℕ × Frame :=
  match f with
  | .inMemory ppn =>
    if strongCount = 1 then
      match write with
      | some slot => (.ok ppn, .compressed slot)
      | none => (.error .zramIsFull, f)
    else (.error .sharedPage, f)
  | _ => (.error .notInMemory, f)

/-- A page with one owner is written to the swap device; the frame it had is returned. -/
def swapOut (write : Except MemoryError ℕ) : Except MemoryError ℕ × Frame :=
  match f with
  | .inMemory ppn =>
    if strongCount = 1 then
      match write with
      | .ok slot => (.ok ppn, .swappedOut slot)
      | .error e => (.error e, f)
    else (.error .sharedPage, f)
  | _ => (.error .notInMemory, f)

/-- A compressed page is unpacked into a new frame. -/
def unzip (readOk : Bool) : Except MemoryError ℕ × Frame :=
  match f with
  | .compressed _ =>
    match frameAlloc with
    | none => (.error .outOfMemory, f)
    | some ppn => if readOk then (.ok ppn, .inMemory ppn) else (.error .backingStoreFailure, f)
  | _ => (.error .notCompressed, f)

/-- A swapped page is read into a new frame. -/
def swapIn (read : Except MemoryError Unit) : Except MemoryError ℕ × Frame :=
  match f with
  | .swappedOut _ =>
    match frameAlloc with
    | none => (.error .outOfMemory, f)
    | some ppn =>
      match read with
      | .ok () => (.ok ppn, .inMemory ppn)
      | .error e => (.error e, f)
  | _ => (.error .notSwappedOut, f)

end Frame

namespace VmPageStore

section

variable (s : VmPageStore)

variable (vpn key : ℕ)

def frameMutIfPresent : Except MemoryError Frame :=
  if s.containsVpn key then
    match s.frames.get? key with
    | some frame => .ok frame
    | none => .error .notMapped
  else .error .badAddress

variable (frame : Frame) (env : ReclaimEnv)

/-- A frame is changed where it is stored. -/
def setFrame : VmPageStore :=
  { s with frames := s.frames.insert key frame }

def incCompressed : VmPageStore := { s with compressed := s.compressed + 1 }
def incSwapped : VmPageStore := { s with swapped := s.swapped + 1 }
def decCompressed : VmPageStore := { s with compressed := s.compressed - 1 }
def decSwapped : VmPageStore := { s with swapped := s.swapped - 1 }

/-- A candidate that was taken goes to the end of the queue again. -/
def requeueActive : VmPageStore :=
  { s with active := s.active ++ [vpn] }

/-! ## Reclaiming -/

/-- The answers to `do_oom` for one candidate. -/
structure ReclaimEnv where
  strongCount : ℕ
  zramWrite : Option ℕ
  swapWrite : Except MemoryError ℕ

/-- The second half of a round, when the compressed store is full; the result says whether the loop
goes on. -/
def reclaimToSwap : Bool × VmPageStore :=
  match frame.swapOut env.strongCount env.swapWrite with
  | (.ok _, frame) => (true, (s.setFrame vpn frame).incSwapped)
  | (.error .sharedPage, _) => (true, s.requeueActive vpn)
  | (.error .notInMemory, _) => (true, s)
  | (.error .outOfMemory, _) => (false, s.requeueActive vpn)
  | (.error .swapIsFull, _) => (false, s.requeueActive vpn)
  | (.error .backingStoreFailure, _) => (false, s.requeueActive vpn)
  | (.error _, _) => (false, s)

/-- One round of `do_oom`: the first candidate is taken and moved out, if it can be. -/
def reclaimOne : Bool × VmPageStore :=
  match s.active with
  | [] => (false, s)
  | vpn :: active =>
    let s := { s with active := active }
    match s.frameMutIfPresent vpn with
    | .error _ => (true, s)
    | .ok frame =>
      if frame.isInMemory then
        match frame.zip env.strongCount env.zramWrite with
        | (.ok _, frame) => (true, (s.setFrame vpn frame).incCompressed)
        | (.error .sharedPage, _) => (true, s.requeueActive vpn)
        | (.error .zramIsFull, _) => s.reclaimToSwap vpn frame env
        | (.error _, _) => (true, s)
      else (true, s)

end

def doOomLoop : List ReclaimEnv → VmPageStore → VmPageStore
  | [], s => s
  | env :: envs, s =>
    match s.reclaimOne env with
    | (true, s) => doOomLoop envs s
    | (false, s) => s

section

variable (s : VmPageStore)

/-- As many rounds as there were candidates at the start. -/
def doOom (env : ℕ → ReclaimEnv) : VmPageStore :=
  doOomLoop ((List.range s.active.length).map env) s

/-! ## Restoring -/

/-- The answers on the way back. -/
structure RestoreEnv where
  frameAlloc : Option ℕ
  zramRead : Bool
  swapRead : Except MemoryError Unit
  pageTable : Except MemoryError Unit
  reserve : Bool

variable (vpn : ℕ) (env : RestoreEnv)

/-- A frame transition is carried out where the frame is stored. -/
def restoreFrame (restore : Frame → Except MemoryError ℕ × Frame) :
    Except MemoryError ℕ × VmPageStore :=
  match s.frameMutIfPresent vpn with
  | .error e => (.error e, s)
  | .ok frame =>
    match restore frame with
    | (.error e, _) => (.error e, s)
    | (.ok ppn, frame) => (.ok ppn, s.setFrame vpn frame)

def vmDecompressPage : Except MemoryError ℕ × VmPageStore :=
  s.restoreFrame vpn fun frame => frame.unzip env.frameAlloc env.zramRead

def vmSwapInPage : Except MemoryError ℕ × VmPageStore :=
  s.restoreFrame vpn fun frame => frame.swapIn env.frameAlloc env.swapRead

end

variable (s : VmPageStore) (restored : Except MemoryError ℕ × VmPageStore) (vpn : ℕ)
  (env : RestoreEnv) (dec : VmPageStore → VmPageStore)

/-- A page that was restored is mapped, recorded as a candidate, and taken off its counter, in this
order and without a way back. -/
def finishRestore : Except MemoryError ℕ × VmPageStore :=
  match restored with
  | (.error e, s) => (.error e, s)
  | (.ok ppn, s) =>
    match env.pageTable with
    | .error e => (.error e, s)
    | .ok () =>
      match s.recordActive vpn env.reserve with
      | (.error e, s) => (.error e, s)
      | (.ok (), s) => (.ok ppn, dec s)

def finishDecompressPage : Except MemoryError ℕ × VmPageStore :=
  finishRestore (s.vmDecompressPage vpn env) vpn env decCompressed

def finishSwapInPage : Except MemoryError ℕ × VmPageStore :=
  finishRestore (s.vmSwapInPage vpn env) vpn env decSwapped

/-- In a copy-on-write fault the page is recorded and counted before the answer of the page table
is looked at. -/
def cowRestore : Except MemoryError ℕ × VmPageStore :=
  match restored with
  | (.error e, s) => (.error e, s)
  | (.ok ppn, s) =>
    match s.recordActive vpn env.reserve with
    | (.error e, s) => (.error e, s)
    | (.ok (), s) =>
      match env.pageTable with
      | .error e => (.error e, dec s)
      | .ok () => (.ok ppn, dec s)

/-- The resident frame behind a page that is about to be copied. -/
def cowSourceFrame : Except MemoryError ℕ × VmPageStore :=
  match s.frameMutIfPresent vpn with
  | .error e => (.error e, s)
  | .ok (.inMemory ppn) => (.ok ppn, s)
  | .ok (.compressed _) => cowRestore (s.vmDecompressPage vpn env) vpn env decCompressed
  | .ok (.swappedOut _) => cowRestore (s.vmSwapInPage vpn env) vpn env decSwapped
  | .ok .unallocated => (.error .notMapped, s)

end VmPageStore
end MangoCore.Mm
