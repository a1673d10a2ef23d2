import MangoCore.Hal.Firmware
import MangoCore.Lib.Marks

/-!
# The physical frame allocator

Every usable range of physical memory is a `FrameRegion`: the frames below its cursor were handed
out at some time, the frames from the cursor on are fresh.  Frames that come back go on one stack
for all regions, and a mark for every frame says whether it is on the stack.  Page ranges of the
kernel image that are given up at run time become `ReclaimedRegion`s, which have marks and no
cursor.  A second stack holds frames that an idle processor has already cleared.

An operation returns its result with the allocator it leaves, or `none` where an assertion of the
source fails.  The contents of frames and the statistics are not modelled.  Stacks have their top in
front.  The operations that allocate kernel memory for their own tables take the outcome of that
allocation as an argument.
-/

namespace MangoCore.Mm

open List

def prezeroPoolHighWater : ℕ := 2048
def prezeroMinFreeFrames : ℕ := 2048
def maxCpus : ℕ := 16

/-! ## Regions -/

/-- A range of memory with the cursor of its fresh frames. -/
structure FrameRegion where
  start : ℕ
  current : ℕ
  stop : ℕ
  recycledFlags : List Bool
  start_le : start ≤ current
  current_le : current ≤ stop
  length_flags : recycledFlags.length = stop - start

namespace FrameRegion

variable {r : FrameRegion} {n : ℕ}

def new (start stop : ℕ) (h : start ≤ stop) : FrameRegion where
  start := start
  current := start
  stop := stop
  recycledFlags := replicate (stop - start) false
  start_le := le_rfl
  current_le := h
  length_flags := length_replicate

section

variable (r : FrameRegion)

def contains (ppn : ℕ) : Bool := r.start ≤ ppn && ppn < r.stop

def isRecycled (ppn : ℕ) : Bool := markAt r.start r.recycledFlags ppn

def markRecycled (ppn : ℕ) (value : Bool) : FrameRegion :=
  { r with
    recycledFlags := setMark r.start r.recycledFlags ppn value
    length_flags := (length_setMark _).trans r.length_flags }

variable (first count : ℕ)

/-- The frames from `first` on lie in the region.  The end of the extent is a 64-bit sum that the
source checks; a region ends below that bound, so an overflowing extent is not inside one. -/
def containsExtent : Bool :=
  r.start ≤ first && first + count ≤ r.stop

def extentIsRecycled : Bool :=
  r.containsExtent first count && (range' first count).all r.isRecycled

def markRecycledExtent (value : Bool) : FrameRegion :=
  { r with
    recycledFlags := setMarks r.start r.recycledFlags value first count
    length_flags := (length_setMarks _ _).trans r.length_flags }

def unallocatedFrames : ℕ := r.stop - r.current

/-- The cursor moves over `num` fresh frames; every caller has made sure that there are as many. -/
def take (num : ℕ) : FrameRegion :=
  if h : r.current + num ≤ r.stop then
    { r with
      current := r.current + num
      start_le := r.start_le.trans (Nat.le_add_right _ _)
      current_le := h }
  else r

end

/-- Only frames of the region are marked. -/
theorem mem_of_isRecycled (h : r.isRecycled n = true) : r.start ≤ n ∧ n < r.stop := by
  have hn := mem_table_of_markAt h
  have hlen := r.length_flags
  omega

theorem isRecycled_markRecycled {ppn : ℕ} (h : r.contains ppn = true) (value : Bool) (n : ℕ) :
    (r.markRecycled ppn value).isRecycled n = if n = ppn then value else r.isRecycled n := by
  have hlen := r.length_flags
  simp only [contains, Bool.and_eq_true, decide_eq_true_eq] at h
  have hin : r.start ≤ ppn ∧ ppn < r.start + r.recycledFlags.length := by omega
  exact markAt_setMark hin

theorem isRecycled_markRecycledExtent {first count : ℕ}
    (h : r.containsExtent first count = true) {value : Bool} :
    (r.markRecycledExtent first count value).isRecycled n
      = if n ∈ range' first count then value else r.isRecycled n := by
  have hlen := r.length_flags
  simp only [containsExtent, Bool.and_eq_true, decide_eq_true_eq] at h
  have hin : r.start ≤ first ∧ first + count ≤ r.start + r.recycledFlags.length := by omega
  exact markAt_setMarks hin

end FrameRegion

/-- A range of the kernel image that was given up. -/
structure ReclaimedRegion where
  start : ℕ
  stop : ℕ
  freeFlags : List Bool
  start_le : start ≤ stop
  length_flags : freeFlags.length = stop - start

namespace ReclaimedRegion

variable {r : ReclaimedRegion}

def new (start stop : ℕ) (h : start ≤ stop) : ReclaimedRegion where
  start := start
  stop := stop
  freeFlags := replicate (stop - start) true
  start_le := h
  length_flags := length_replicate

section

variable (r : ReclaimedRegion)

def contains (ppn : ℕ) : Bool := r.start ≤ ppn && ppn < r.stop

def isFree (ppn : ℕ) : Bool := markAt r.start r.freeFlags ppn

def markFree (ppn : ℕ) (value : Bool) : ReclaimedRegion :=
  { r with
    freeFlags := setMark r.start r.freeFlags ppn value
    length_flags := (length_setMark _).trans r.length_flags }

variable (first count : ℕ)

def containsExtent : Bool :=
  r.start ≤ first && first + count ≤ r.stop

def extentIsFree : Bool :=
  r.containsExtent first count && (range' first count).all r.isFree

def markFreeExtent (value : Bool) : ReclaimedRegion :=
  { r with
    freeFlags := setMarks r.start r.freeFlags value first count
    length_flags := (length_setMarks _ _).trans r.length_flags }

end

/-- Only frames of the region are marked. -/
theorem mem_of_isFree {n : ℕ} (h : r.isFree n = true) : r.start ≤ n ∧ n < r.stop := by
  have hn := mem_table_of_markAt h
  have hlen := r.length_flags
  omega

theorem isFree_markFree {ppn : ℕ} (h : r.contains ppn = true) (value : Bool) (n : ℕ) :
    (r.markFree ppn value).isFree n = if n = ppn then value else r.isFree n := by
  have hlen := r.length_flags
  simp only [contains, Bool.and_eq_true, decide_eq_true_eq] at h
  have hin : r.start ≤ ppn ∧ ppn < r.start + r.freeFlags.length := by omega
  exact markAt_setMark hin

theorem isFree_markFreeExtent {first count : ℕ}
    (h : r.containsExtent first count = true) {value : Bool} {n : ℕ} :
    (r.markFreeExtent first count value).isFree n
      = if n ∈ range' first count then value else r.isFree n := by
  have hlen := r.length_flags
  simp only [containsExtent, Bool.and_eq_true, decide_eq_true_eq] at h
  have hin : r.start ≤ first ∧ first + count ≤ r.start + r.freeFlags.length := by omega
  exact markAt_setMarks hin

end ReclaimedRegion

/-! ## The allocator -/

structure StackFrameAllocator where
  regions : List FrameRegion
  reclaimedRegions : List ReclaimedRegion
  freshRegion : ℕ
  recycled : List ℕ
  prezeroed : List ℕ
  prezeroedCapacity : ℕ

namespace StackFrameAllocator

variable (a : StackFrameAllocator)

/-- The index of the first region from `freshRegion` on that has a fresh frame. -/
def firstFresh : ℕ :=
  a.freshRegion +
    ((a.regions.drop a.freshRegion).takeWhile fun r => r.current == r.stop).length

def takeFreshPpn : Option ℕ × StackFrameAllocator :=
  let a := { a with freshRegion := a.firstFresh }
  match a.regions[a.freshRegion]? with
  | none => (none, a)
  | some region =>
    (some region.current, { a with regions := a.regions.set a.freshRegion (region.take 1) })

def takeRecycledPpn : Option (Option ℕ × StackFrameAllocator) :=
  match a.recycled with
  | [] => some (none, a)
  | ppn :: recycled =>
    let a := { a with recycled := recycled }
    match a.regions.find? fun r => r.contains ppn with
    | some region =>
      if region.isRecycled ppn then
        some (some ppn, { a with
          regions := modifyFirst (fun r => r.contains ppn)
            (fun r => r.markRecycled ppn false) a.regions })
      else none
    | none =>
      match a.reclaimedRegions.find? fun r => r.contains ppn with
      | some region =>
        if region.isFree ppn then
          some (some ppn, { a with
            reclaimedRegions := modifyFirst (fun r => r.contains ppn)
              (fun r => r.markFree ppn false) a.reclaimedRegions })
        else none
      | none => none

/-- A frame of the stack from which `count` consecutive frames of one region are on the stack. -/
def recycledExtent? (count : ℕ) : Option ℕ :=
  a.recycled.find? fun first =>
    (a.regions.any fun r => r.extentIsRecycled first count)
      || a.reclaimedRegions.any fun r => r.extentIsFree first count

def takeRecycledExtent (count : ℕ) : Option (Option ℕ × StackFrameAllocator) :=
  if count = 1 then a.takeRecycledPpn
  else
    match a.recycledExtent? count with
    | none => some (none, a)
    | some first =>
      let rest := a.recycled.filter fun ppn => !(first ≤ ppn && ppn < first + count)
      if a.recycled.length - rest.length = count then
        let a := { a with recycled := rest }
        if (a.regions.find? fun r => r.containsExtent first count).isSome then
          some (some first, { a with
            regions := modifyFirst (fun r => r.containsExtent first count)
              (fun r => r.markRecycledExtent first count false) a.regions })
        else if (a.reclaimedRegions.find? fun r => r.containsExtent first count).isSome then
          some (some first, { a with
            reclaimedRegions := modifyFirst (fun r => r.containsExtent first count)
              (fun r => r.markFreeExtent first count false) a.reclaimedRegions })
        else none
      else none

/-- The index of a region, from `freshRegion` on, with `num` fresh frames. -/
def regionWith? (num : ℕ) : Option ℕ :=
  ((a.regions.drop a.freshRegion).findIdx? fun r => decide (num ≤ r.stop - r.current)).map
    (a.freshRegion + ·)

/-- `num` fresh frames of one region. -/
def takeFreshContiguous (num : ℕ) : Option ℕ × StackFrameAllocator :=
  match a.regionWith? num with
  | none => (none, a)
  | some index =>
    match a.regions[index]? with
    | none => (none, a)
    | some region =>
      (some region.current, { a with regions := a.regions.set index (region.take num) })

variable (fw : Hal.Firmware) (heapOk : Bool) (num : ℕ)

def allocContiguous : Option (Option (List ℕ) × StackFrameAllocator) :=
  if !heapOk then some (none, a)
  else if num = 0 then some (some [], a)
  else
    match a.takeRecycledExtent num with
    | none => none
    | some (some first, a) => some (some (range' first num), a)
    | some (none, a) =>
      match a.takeFreshContiguous num with
      | (some first, a) => some (some (range' first num), a)
      | (none, a) => some (none, a)

def allocFreshContiguous : Option (List ℕ) × StackFrameAllocator :=
  if !heapOk then (none, a)
  else if num = 0 then (some [], a)
  else
    match a.takeFreshContiguous num with
    | (some first, a) => (some (range' first num), a)
    | (none, a) => (none, a)

def reserveFreshContiguous : Option ℕ × StackFrameAllocator :=
  if num = 0 then (none, a) else a.takeFreshContiguous num

def unallocatedFrames (a : StackFrameAllocator) : ℕ :=
  (a.regions.map FrameRegion.unallocatedFrames).sum + a.recycled.length + a.prezeroed.length

/-- A frame from the stack, else a fresh one where that is allowed. -/
def takeRecycledOrFresh (fresh : Bool) : Option (Option ℕ × StackFrameAllocator) :=
  match a.takeRecycledPpn with
  | none => none
  | some (some ppn, a) => some (some ppn, a)
  | some (none, a) => if fresh then some a.takeFreshPpn else some (none, a)

/-- One frame for clearing in the background. -/
def reserveForPrezero (zeroInit : Bool) : Option (Option ℕ × StackFrameAllocator) :=
  if a.prezeroedCapacity < prezeroPoolHighWater || prezeroPoolHighWater ≤ a.prezeroed.length
      || a.unallocatedFrames ≤ prezeroMinFreeFrames then some (none, a)
  else a.takeRecycledOrFresh !zeroInit

def popPrezeroed : Option ℕ × StackFrameAllocator :=
  match a.prezeroed with
  | [] => (none, a)
  | ppn :: prezeroed => (some ppn, { a with prezeroed := prezeroed })

def reservePrezeroedOnly : Option ℕ × StackFrameAllocator :=
  a.popPrezeroed

def publishPrezeroed (ppn : ℕ) : Option StackFrameAllocator :=
  if a.prezeroed.length < a.prezeroedCapacity then
    some { a with prezeroed := ppn :: a.prezeroed }
  else none

def reserveOne : Option (Option ℕ × StackFrameAllocator) :=
  match a.popPrezeroed with
  | (some ppn, a) => some (some ppn, a)
  | (none, a) => a.takeRecycledOrFresh true

def allocUninit : Option (Option ℕ × StackFrameAllocator) :=
  match a.takeRecycledOrFresh true with
  | none => none
  | some (some ppn, a) => some (some ppn, a)
  | some (none, a) => some a.popPrezeroed

/-- A frame comes back.  Frames the allocator does not know, or that are not handed out, are ignored
with a warning; a debug build stops at a frame that is already on the stack. -/
def dealloc (debug : Bool) (ppn : ℕ) : Option StackFrameAllocator :=
  match a.regions.find? fun r => r.contains ppn with
  | some region =>
    if region.current ≤ ppn then some a
    else if region.isRecycled ppn then if debug then none else some a
    else
      some { a with
        regions := modifyFirst (fun r => r.contains ppn)
          (fun r => r.markRecycled ppn true) a.regions
        recycled := ppn :: a.recycled }
  | none =>
    match a.reclaimedRegions.find? fun r => r.contains ppn with
    | some region =>
      if region.isFree ppn then if debug then none else some a
      else
        some { a with
          reclaimedRegions := modifyFirst (fun r => r.contains ppn)
            (fun r => r.markFree ppn true) a.reclaimedRegions
          recycled := ppn :: a.recycled }
    | none => some a

/-! ## Initialisation -/

/-- One region for each range of usable memory, and the stack of cleared frames with the capacity
that its reservation got. -/
def ofRanges (ranges : List (ℕ × ℕ)) (prezeroedCapacity : ℕ) : StackFrameAllocator where
  regions := ranges.map fun r =>
    .new (r.1 / pageSize) (max (r.1 / pageSize) (r.2 / pageSize)) (le_max_left _ _)
  reclaimedRegions := []
  freshRegion := 0
  recycled := []
  prezeroed := []
  prezeroedCapacity := prezeroedCapacity

def init (kernelImage : ℕ × ℕ) (prezeroedCapacity : ℕ) : Option StackFrameAllocator :=
  (Hal.forEachUsableRamRange fw [kernelImage]).map (ofRanges · prezeroedCapacity)

/-! ## Reclaiming -/

/-- Two ranges share a point. -/
def overlaps (start stop start' stop' : ℕ) : Bool := start < stop' && start' < stop

inductive ReclaimError where
  | reversed | startOverflows | endOverflows | notInOneRegion | overlapsReserved | overlapsFresh
  | overlapsEarlier | outOfMemory
  deriving DecidableEq

/-- A range of the kernel image is given up.  All checks and allocations come before the first
change. -/
def reclaimLinkerFrames (start stop : ℕ) : Except ReclaimError ℕ × StackFrameAllocator :=
  if h : stop < start then (.error .reversed, a)
  else if start = stop then (.ok 0, a)
  else if usizeRange ≤ start * pageSize then (.error .startOverflows, a)
  else if usizeRange ≤ stop * pageSize then (.error .endOverflows, a)
  else if !(fw.memoryRegions.any fun m => m.1 ≤ start * pageSize && stop * pageSize ≤ m.2) then
    (.error .notInOneRegion, a)
  else if fw.reservedRegions.any fun m => overlaps (start * pageSize) (stop * pageSize) m.1 m.2 then
    (.error .overlapsReserved, a)
  else if a.regions.any fun r => overlaps start stop r.start r.stop then (.error .overlapsFresh, a)
  else if a.reclaimedRegions.any fun r => overlaps start stop r.start r.stop then
    (.error .overlapsEarlier, a)
  else if !heapOk then (.error .outOfMemory, a)
  else
    (.ok (stop - start), { a with
      reclaimedRegions := a.reclaimedRegions ++ [.new start stop (not_lt.mp h)]
      recycled := (range' start (stop - start)).reverse ++ a.recycled })

end StackFrameAllocator
end MangoCore.Mm
