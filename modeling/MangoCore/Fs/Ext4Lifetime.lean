import MangoCore.Lib.System

/-!
# The lifetime record of an ext4 inode

All wrappers of an ext4 inode share one `InodeLifetime`.  It holds the size and the times that the
kernel shows, which run ahead of the inode on the device, and the marks that say so: a generation
that every write and resize raises, a generation and two flags that every timestamp update sets, and
a strong reference to the page cache, which a write sets so that dirty pages outlive the last open
file.

A sync writes the dirty pages back, commits size and times, flushes the device, and only then
takes the marks away: each by a compare-and-exchange of the generation that it read before it
committed.  The per-file sync does all of this under the I/O gate of the page cache; the
filesystem-wide sync commits under the gate and clears the marks after one flush for all inodes.

The writers do not hold the gate when they raise a generation, and the steps below are single loads
and stores of the atomics.  A page counts as dirty until its writeback has succeeded.
-/

namespace MangoCore.Fs.Ext4

/-- `TimeSpec`, as it is packed into one atomic. -/
structure TimeSpec where
  tvSec : ℕ
  tvNsec : ℕ
  deriving DecidableEq, Repr

/-- The part of the inode on the device that a sync commits.  Times have whole seconds there. -/
structure Attr where
  size : ℕ
  mtime : ℕ
  ctime : ℕ
  deriving DecidableEq, Repr

structure CachedTimestamps where
  mtime : TimeSpec
  ctime : TimeSpec
  generation : ℕ
  deriving DecidableEq, Repr

/-- Where a sync stands.  The argument `gen` is the size generation that it has loaded. -/
inductive Phase where
  /-- In `writeback_all_before_io_gate`. -/
  | writeback
  /-- No page was dirty under the gate, which has been released again. -/
  | checked
  /-- The closure of the metadata starts. -/
  | entered
  | loaded (gen : ℕ)
  /-- The first `dirty_timestamps` has read `mtime_dirty` as false. -/
  | testMtime (gen : ℕ)
  /-- The result of the first `dirty_timestamps`. -/
  | tested (gen : ℕ) (stamps : Bool)
  | sizeLoaded (gen size : ℕ) (stamps : Bool)
  /-- The size is committed, if it had to be. -/
  | sizeDone (gen : ℕ) (stamps : Bool)
  /-- The second `dirty_timestamps` has read `mtime_dirty` as false. -/
  | retestMtime (gen : ℕ)
  | flagged (gen : ℕ)
  | mtimeLoaded (gen : ℕ) (mtime : TimeSpec)
  | ctimeLoaded (gen : ℕ) (mtime ctime : TimeSpec)
  | snapshot (gen : ℕ) (stamps : CachedTimestamps)
  /-- All metadata is committed; `stamps` is the generation of the committed times. -/
  | committed (gen : ℕ) (stamps : Option ℕ)
  | flushed (gen : ℕ) (stamps : Option ℕ)
  /-- The size generation has been exchanged for zero. -/
  | sizeReset (stamps : Option ℕ)
  | sizeFinished (stamps : Option ℕ)
  /-- The timestamp generation has been exchanged for zero. -/
  | stampReset
  /-- It was still zero when it was read again. -/
  | stampChecked
  | mtimeCleared
  | finished
  deriving DecidableEq, Repr

/-- Where a thread stands. -/
inductive Pc where
  | idle
  /-- `write_at` and `write_at_user`, before the gate is taken for reading. -/
  | write
  /-- Pages are copied under the gate; `wrote` says that one is committed. -/
  | copying (wrote : Bool)
  | copied (writtenEnd : ℕ)
  | advanced
  | raised
  /-- `resize`, which has loaded the old size. -/
  | resize (len oldSize : ℕ)
  | resizeChecked (len oldSize : ℕ) (cached : Bool)
  | truncated (len : ℕ)
  | resized
  /-- `cache_modified_time`. -/
  | touch (now : TimeSpec)
  | ctimeStored (now : TimeSpec)
  | mtimeStored
  | touchRaised
  | mtimeFlagged
  /-- A sync of this inode: the filesystem-wide one or that of one file, and whether it holds the
  gate. -/
  | sync (wide gate : Bool) (phase : Phase)
  deriving DecidableEq, Repr

/-- The record of one inode, its page cache, its inode on the device, and `n` threads. -/
structure State (n : ℕ) where
  logicalSize : ℕ
  sizeGeneration : ℕ
  cachedMtime : TimeSpec
  cachedCtime : TimeSpec
  mtimeDirty : Bool
  ctimeDirty : Bool
  timestampGeneration : ℕ
  /-- `dirty_page_cache` is `Some`. -/
  dirtyPageCache : Bool
  /-- The indices of the dirty pages of the cache, those under writeback among them. -/
  dirty : List ℕ
  /-- The readers of `op_gate`, and whether it is held for writing. -/
  readers : ℕ
  writer : Bool
  backend : Attr
  pc : Fin n → Pc

/-- `last_release_generation`, which nothing ever stores to. -/
def lastReleaseGeneration : ℕ := 0

def pageSize : ℕ := 4096

namespace State

variable {n : ℕ}

/-- `InodeLifetime::new`, with the attributes of the inode on the device. -/
def initial (size : ℕ) (mtime ctime : TimeSpec) : State n where
  logicalSize := size
  sizeGeneration := 0
  cachedMtime := mtime
  cachedCtime := ctime
  mtimeDirty := false
  ctimeDirty := false
  timestampGeneration := 0
  dirtyPageCache := false
  dirty := []
  readers := 0
  writer := false
  backend := ⟨size, mtime.tvSec, ctime.tvSec⟩
  pc := fun _ => .idle

variable (s : State n)

variable (t : Fin n)

/-- A thread goes on to another place. -/
def goto (pc : Pc) : State n := { s with pc := Function.update s.pc t pc }

@[simp] theorem goto_pc (t : Fin n) (pc : Pc) : (s.goto t pc).pc = Function.update s.pc t pc := rfl

/-- The gate can be taken for writing. -/
def GateFree : Prop := s.readers = 0 ∧ s.writer = false

instance (s : State n) : Decidable s.GateFree := inferInstanceAs (Decidable (_ ∧ _))

/-- The body of `truncate_with_backend_locked`, or `truncate_inode` alone when the file grows. -/
def truncate (len oldSize : ℕ) : State n :=
  { s with
    backend := { s.backend with size := len }
    dirty :=
      if len < oldSize then s.dirty.filter fun page => page < (len + pageSize - 1) / pageSize
      else s.dirty }

def releaseDirtyPageCache : State n :=
  if s.dirtyPageCache = true ∧ s.sizeGeneration = lastReleaseGeneration then
    { s with dirtyPageCache := false }
  else s

/-- One step of `sync_metadata`, of the closure `commit_size` of `sync_lifetimes`, or of what comes
around them. -/
def stepSync (wide gate : Bool) : Phase → Option (State n)
  | .writeback =>
    if s.dirty = [] ∧ s.GateFree then some (s.goto t (.sync wide gate .checked)) else none
  | .checked =>
    if s.GateFree then some ({ s with writer := true }.goto t (.sync wide true .entered))
    else none
  | .entered => some (s.goto t (.sync wide gate (.loaded s.sizeGeneration)))
  | .loaded gen =>
    some (s.goto t (.sync wide gate (if s.mtimeDirty then .tested gen true else .testMtime gen)))
  | .testMtime gen => some (s.goto t (.sync wide gate (.tested gen s.ctimeDirty)))
  | .tested gen stamps =>
    some (s.goto t (.sync wide gate
      (if gen = 0 then .sizeDone gen stamps else .sizeLoaded gen s.logicalSize stamps)))
  | .sizeLoaded gen size stamps =>
    some ({ s with backend := { s.backend with size := size } }.goto t
      (.sync wide gate (.sizeDone gen stamps)))
  | .sizeDone gen stamps =>
    some (s.goto t (.sync wide gate
      (if stamps then (if s.mtimeDirty then .flagged gen else .retestMtime gen)
      else .committed gen none)))
  | .retestMtime gen =>
    some (s.goto t (.sync wide gate (if s.ctimeDirty then .flagged gen else .committed gen none)))
  | .flagged gen => some (s.goto t (.sync wide gate (.mtimeLoaded gen s.cachedMtime)))
  | .mtimeLoaded gen mtime =>
    some (s.goto t (.sync wide gate (.ctimeLoaded gen mtime s.cachedCtime)))
  | .ctimeLoaded gen mtime ctime =>
    some (s.goto t (.sync wide gate (.snapshot gen ⟨mtime, ctime, s.timestampGeneration⟩)))
  | .snapshot gen stamps =>
    -- `u32::try_from` of both seconds.
    if stamps.mtime.tvSec < 2 ^ 32 ∧ stamps.ctime.tvSec < 2 ^ 32 then
      some ({ s with
        backend := ⟨s.backend.size, stamps.mtime.tvSec, stamps.ctime.tvSec⟩ }.goto t
          (.sync wide gate (.committed gen (some stamps.generation))))
    else none
  | .committed gen stamps =>
    -- The filesystem-wide sync leaves the gate before the flush.
    if wide = true ∧ gate = true then
      some ({ s with writer := false }.goto t (.sync wide false (.committed gen stamps)))
    else some (s.goto t (.sync wide gate (.flushed gen stamps)))
  | .flushed gen stamps =>
    if gen ≠ 0 ∧ s.sizeGeneration = gen then
      some ({ s with sizeGeneration := 0 }.goto t (.sync wide gate (.sizeReset stamps)))
    else some (s.goto t (.sync wide gate (.sizeFinished stamps)))
  | .sizeReset stamps =>
    some (s.releaseDirtyPageCache.goto t (.sync wide gate (.sizeFinished stamps)))
  | .sizeFinished none => some (s.goto t (.sync wide gate .finished))
  | .sizeFinished (some generation) =>
    if s.timestampGeneration = generation then
      some ({ s with timestampGeneration := 0 }.goto t (.sync wide gate .stampReset))
    else some (s.goto t (.sync wide gate .finished))
  | .stampReset =>
    some (s.goto t (.sync wide gate
      (if s.timestampGeneration = 0 then .stampChecked else .finished)))
  | .stampChecked => some ({ s with mtimeDirty := false }.goto t (.sync wide gate .mtimeCleared))
  | .mtimeCleared => some ({ s with ctimeDirty := false }.goto t (.sync wide gate .finished))
  | .finished => some ({ s with writer := s.writer && !gate }.goto t .idle)

/-- The next load or store of a thread whose place is given. -/
def run : Pc → Option (State n)
  | .idle | .copying _ => none
  -- `write_at`
  | .write =>
    if s.writer then none else some ({ s with readers := s.readers + 1 }.goto t (.copying false))
  | .copied writtenEnd =>
    some ({ s with logicalSize := max s.logicalSize writtenEnd }.goto t .advanced)
  | .advanced => some ({ s with sizeGeneration := s.sizeGeneration + 1 }.goto t .raised)
  | .raised => some ({ s with dirtyPageCache := true }.goto t .idle)
  -- `resize`
  | .resize len oldSize =>
    if s.dirty = [] ∧ s.GateFree then some (s.goto t (.resizeChecked len oldSize true)) else none
  | .resizeChecked len oldSize cached =>
    if cached = true → s.GateFree then
      some ((s.truncate len (if cached then oldSize else 0)).goto t (.truncated len))
    else none
  | .truncated len => some ({ s with logicalSize := len }.goto t .resized)
  | .resized => some ({ s with sizeGeneration := s.sizeGeneration + 1 }.goto t .idle)
  -- `cache_modified_time`
  | .touch now => some ({ s with cachedCtime := now }.goto t (.ctimeStored now))
  | .ctimeStored now => some ({ s with cachedMtime := now }.goto t .mtimeStored)
  | .mtimeStored =>
    some ({ s with timestampGeneration := s.timestampGeneration + 1 }.goto t .touchRaised)
  | .touchRaised => some ({ s with mtimeDirty := true }.goto t .mtimeFlagged)
  | .mtimeFlagged => some ({ s with ctimeDirty := true }.goto t .idle)
  | .sync wide gate phase => s.stepSync t wide gate phase

/-- An operation that fails ends with an error, and the gate is given back. -/
def fail : Pc → Option (State n)
  | .write | .resize _ _ | .resizeChecked _ _ _ => some (s.goto t .idle)
  -- A write fails only as long as it has not committed a page.
  | .copying false => some ({ s with readers := s.readers - 1 }.goto t .idle)
  | .sync _ gate .writeback | .sync _ gate (.sizeLoaded _ _ _) | .sync _ gate (.snapshot _ _)
  | .sync _ gate (.committed _ _) =>
    some ({ s with writer := s.writer && !gate }.goto t .idle)
  | _ => none

end State

variable {n : ℕ}

/-- The calls, and the steps of the threads that run them. -/
inductive Event (n : ℕ) where
  | beginWrite (t : Fin n)
  /-- The copy into a page is done and the page is marked dirty. -/
  | copyPage (t : Fin n) (page : ℕ)
  /-- The cache returns the bytes written, and the gate is released. -/
  | copyEnd (t : Fin n) (writtenEnd : ℕ)
  | beginResize (t : Fin n) (len : ℕ) (cached : Bool)
  | beginTouch (t : Fin n) (now : TimeSpec)
  | beginSync (t : Fin n) (wide cached : Bool)
  /-- The writeback of a page succeeds, whoever started it. -/
  | writeback (page : ℕ)
  | run (t : Fin n)
  | fail (t : Fin n)

/-- The record has no page cache: none is retained, and none holds a page. -/
def State.Uncached (s : State n) : Prop := s.dirtyPageCache = false ∧ s.dirty = []

instance (s : State n) : Decidable s.Uncached := inferInstanceAs (Decidable (_ ∧ _))

/-- The transition function. -/
def State.step (s : State n) : Event n → Option (State n)
  | .beginWrite t => if s.pc t = .idle then some (s.goto t .write) else none
  | .copyPage t page =>
    match s.pc t with
    | .copying _ => some ({ s with dirty := s.dirty.insert page }.goto t (.copying true))
    | _ => none
  | .copyEnd t writtenEnd =>
    match s.pc t with
    | .copying _ => some ({ s with readers := s.readers - 1 }.goto t (.copied writtenEnd))
    | _ => none
  | .beginResize t len cached =>
    if s.pc t = .idle ∧ (cached = false → s.Uncached) then
      some (s.goto t (if cached then .resize len s.logicalSize
        else .resizeChecked len s.logicalSize false))
    else none
  | .beginTouch t now => if s.pc t = .idle then some (s.goto t (.touch now)) else none
  | .beginSync t wide cached =>
    if s.pc t = .idle ∧ (cached = false → s.Uncached) then
      some (s.goto t (.sync wide false (if cached then .writeback else .entered)))
    else none
  | .writeback page => some { s with dirty := s.dirty.filter fun p => p ≠ page }
  | .run t => s.run t (s.pc t)
  | .fail t => s.fail t (s.pc t)

/-- All interleavings of the calls of `n` threads on an inode of any size and times. -/
def system (n : ℕ) : System (State n) (Event n) :=
  .ofFun (fun s => ∃ size mtime ctime, s = .initial size mtime ctime) State.step
end MangoCore.Fs.Ext4
