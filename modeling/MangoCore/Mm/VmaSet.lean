import MangoCore.Lib.IntervalMap
import MangoCore.Mm.Vma

/-!
# The set of mappings of an address space

`VmaSet` indexes the mappings of a user address space by their first page and keeps three derived
structures beside them: the table of free ranges of the mmap arena, the number of user mappings and
the number of user pages.  This file embeds its operations; `VmaSetHoles` and `VmaSetInvariant`
prove what they keep up.

Every operation returns its result together with the set it leaves, since an error return does not
roll back what was done before it.  The soft limit on the number of mappings is a system setting
that can change between calls, so it is an argument (`maxMapCount`).
-/

namespace MangoCore.Mm

open VirtAddr

/-- The record a page cache keeps of a shared file mapping. -/
structure FileVmaRmap where
  inode : ℕ
  startVpn : ℕ
  endVpn : ℕ
  fileOffset : ℕ
  owner : ℕ
  deriving DecidableEq, Repr

/-- Only shared file mappings of a published address space are recorded. -/
def FileVmaRmap.fromVma (a : Vma) : Option FileVmaRmap :=
  if a.flags.contains .MAP_SHARED then
    match a.mapFile, a.userAddressSpace with
    | some inode, some owner => some ⟨inode, a.vmStart, a.vmEnd, a.mapFileOffset, owner⟩
    | _, _ => none
  else none

structure VmaSet where
  vmas : OrdMap ℕ Vma
  fileRmaps : OrdMap ℕ FileVmaRmap
  owner : Option ℕ
  mmapHoles : OrdMap ℕ ℕ
  userAreaCount : ℕ
  userPageCount : ℕ

def stackGuardGapPages : ℕ := 256

def Arch.growsdownMaxFaultGapPages (arch : Arch) : ℕ := arch.userStackSize / pageSize

/-- The first page of the mmap arena and the page after its last. -/
def Arch.mmapBounds (arch : Arch) : ℕ × ℕ :=
  (floor arch.mmapBase, floor arch.mmapEnd)

def errnoToMemoryError : Errno → MemoryError
  | .ENOMEM => .outOfMemory
  | .EACCES => .noPermission
  | _ => .badAddress

/-- Rounding up to a multiple of a power of two, or `none` on overflow. -/
def alignUp (value align : ℕ) : Option ℕ :=
  if align ≤ 1 then some value
  else if value + (align - 1) < usizeRange then
    some (BitVec.ofNat 64 (value + (align - 1)) &&& ~~~ BitVec.ofNat 64 (align - 1)).toNat
  else none

namespace VmaSet

section

variable (arch : Arch)

/-- The empty set: the whole arena is one hole. -/
def new : VmaSet where
  vmas := OrdMap.empty
  fileRmaps := OrdMap.empty
  owner := none
  mmapHoles := OrdMap.empty.insert arch.mmapBounds.1 arch.mmapBounds.2
  userAreaCount := 0
  userPageCount := 0

/-! ## Storing and taking one mapping -/

variable (s : VmaSet)

section

variable (start : ℕ) (area : Vma)

/-- The mapping as it is stored: it points back to the address space, once that is published. -/
def adopt : Vma :=
  match s.owner with
  | some owner => { area with userAddressSpace := some owner }
  | none => area

def putVma : VmaSet :=
  { s with
    vmas := s.vmas.insert (s.adopt area).vmStart (s.adopt area)
    fileRmaps :=
      match FileVmaRmap.fromVma (s.adopt area) with
      | some rmap => s.fileRmaps.insert (s.adopt area).vmStart rmap
      | none => s.fileRmaps }

def takeVma : Except Errno Vma × VmaSet :=
  match s.vmas.get? start with
  | none => (.error .EINVAL, s)
  | some area =>
    (.ok area, { s with vmas := s.vmas.erase start, fileRmaps := s.fileRmaps.erase start })

/-- A mapping is changed where it is stored. -/
def updateVma : VmaSet :=
  { s with vmas := s.vmas.insert start area }

def ensureCanAdd (maxMapCount additional : ℕ) : Except Errno Unit :=
  if maxMapCount + 1 < s.userAreaCount + additional then .error .ENOMEM else .ok ()

def untrackArea : VmaSet :=
  if area.vmIsUser then
    { s with
      userAreaCount := s.userAreaCount - 1
      userPageCount := s.userPageCount - area.areaPageCount }
  else s

end

/-! ## Queries -/

def findVmaKey (vpn : ℕ) : Option ℕ :=
  match s.vmas.lastLE? vpn with
  | some (start, area) => if area.vmContains vpn then some start else none
  | none => none

def findUserVmaKey (vpn : ℕ) : Option ℕ :=
  match s.findVmaKey vpn with
  | some start =>
    match s.vmas.get? start with
    | some area => if area.vmIsUser then some start else none
    | none => none
  | none => none

variable (startVpn endVpn : ℕ)

def hasOverlap : Bool :=
  if endVpn ≤ startVpn then false
  else
    (match s.vmas.lastLE? startVpn with
      | some (_, area) => startVpn < area.vmEnd
      | none => false)
    || (match s.vmas.firstGE? startVpn with
      | some (_, area) => area.vmStart < endVpn
      | none => false)

def firstOverlapKey : Option ℕ :=
  let after :=
    (s.vmas.entries.find? fun e => startVpn ≤ e.1 && e.2.vmOverlaps startVpn endVpn).map Prod.fst
  match s.vmas.lastLE? startVpn with
  | some (key, area) => if area.vmOverlaps startVpn endVpn then some key else after
  | none => after

/-! ## The holes of the arena -/

/-- The part of a range inside the arena. -/
def clipMmapRange : Option (ℕ × ℕ) :=
  let start := if arch.mmapBounds.1 < startVpn then startVpn else arch.mmapBounds.1
  let stop := if endVpn < arch.mmapBounds.2 then endVpn else arch.mmapBounds.2
  if start < stop then some (start, stop) else none

section

variable (holes : OrdMap ℕ ℕ)

/-- A hole loses its pages in `[startVpn, endVpn)` and keeps what sticks out on either side. -/
def carveHole (hole : ℕ × ℕ) : OrdMap ℕ ℕ :=
  IntervalMap.insertNonempty
    (IntervalMap.insertNonempty (holes.erase hole.1) hole.1 startVpn) endVpn hole.2

variable (startVpn endVpn : ℕ)

/-- The overlapping holes are collected first and carved one by one. -/
def reserveHoles : OrdMap ℕ ℕ :=
  (holes.entries.filter fun hole => hole.1 < endVpn && startVpn < hole.2).foldl
    (carveHole startVpn endVpn) holes

/-- The range leaves the holes.  The function of the source has no error return. -/
def reserveMmapRange : VmaSet :=
  match clipMmapRange arch startVpn endVpn with
  | none => s
  | some (startVpn, endVpn) => { s with mmapHoles := reserveHoles s.mmapHoles startVpn endVpn }

/-- The hole that begins at or before the released range is joined to it if they touch. -/
def absorbPrev : OrdMap ℕ ℕ × ℕ × ℕ :=
  match holes.lastLE? startVpn with
  | some (prevStart, prevEnd) =>
    if startVpn ≤ prevEnd then
      (holes.erase prevStart, prevStart, if endVpn < prevEnd then prevEnd else endVpn)
    else (holes, startVpn, endVpn)
  | none => (holes, startVpn, endVpn)

end

/-- The holes that begin inside or right after the range are joined to it.  Every round removes a
hole, so as many rounds as there are holes are enough. -/
def absorbNext (startVpn : ℕ) : ℕ → OrdMap ℕ ℕ → ℕ → OrdMap ℕ ℕ × ℕ
  | 0, holes, endVpn => (holes, endVpn)
  | fuel + 1, holes, endVpn =>
    match holes.firstGE? startVpn with
    | none => (holes, endVpn)
    | some (nextStart, nextEnd) =>
      if endVpn < nextStart then (holes, endVpn)
      else
        absorbNext startVpn fuel (holes.erase nextStart)
          (if endVpn < nextEnd then nextEnd else endVpn)

def releaseHoles (holes : OrdMap ℕ ℕ) (startVpn endVpn : ℕ) : OrdMap ℕ ℕ :=
  let (holes, startVpn, endVpn) := absorbPrev holes startVpn endVpn
  let (holes, endVpn) := absorbNext startVpn holes.size holes endVpn
  holes.insert startVpn endVpn

/-- The range joins the holes.  The function of the source has no error return. -/
def releaseMmapRange : VmaSet :=
  match clipMmapRange arch startVpn endVpn with
  | none => s
  | some (startVpn, endVpn) => { s with mmapHoles := releaseHoles s.mmapHoles startVpn endVpn }

/-- The walk over the holes under `[cursor, endVpn)`; the cursor advances in every round. -/
def rangeFreeLoop (holes : OrdMap ℕ ℕ) (endVpn : ℕ) : ℕ → ℕ → Bool
  | 0, _ => true
  | fuel + 1, cursor =>
    if cursor < endVpn then
      match holes.lastLE? cursor with
      | none => false
      | some (_, holeEnd) =>
        if holeEnd ≤ cursor then false
        else rangeFreeLoop holes endVpn fuel (if holeEnd < endVpn then holeEnd else endVpn)
    else true

def isMmapRangeFree : Bool :=
  match clipMmapRange arch startVpn endVpn with
  | none => false
  | some (clippedStart, clippedEnd) =>
    if clippedStart ≠ startVpn || clippedEnd ≠ endVpn then false
    else rangeFreeLoop s.mmapHoles endVpn (endVpn - startVpn) startVpn

/-- The first hole that can hold an aligned range of the length. -/
def findFreeLoop (len align : ℕ) : List (ℕ × ℕ) → Except Errno ℕ
  | [] => .error .ENOMEM
  | (holeStart, holeEnd) :: holes =>
    match alignUp (ofVpn holeStart) align with
    | none => .error .EINVAL
    | some startAddr =>
      if usizeRange ≤ startAddr + len then .error .EINVAL
      else if startAddr + len ≤ ofVpn holeEnd then .ok startAddr
      else findFreeLoop len align holes

def findFreeMmapRange (len align : ℕ) : Except Errno ℕ :=
  findFreeLoop len (max align pageSize) s.mmapHoles.entries

/-! ## Inserting, splitting and removing -/

def insertVma (maxMapCount : ℕ) (s : VmaSet) (newArea : Vma) : Except Errno Unit × VmaSet :=
  if newArea.vmEnd ≤ newArea.vmStart then (.error .EINVAL, s)
  else if s.hasOverlap newArea.vmStart newArea.vmEnd then (.error .EINVAL, s)
  else
    match s.ensureCanAdd maxMapCount 1 with
    | .error e => (.error e, s)
    | .ok () =>
      let s := (s.reserveMmapRange arch newArea.vmStart newArea.vmEnd).putVma newArea
      (.ok (),
        if newArea.vmIsUser then
          { s with
            userAreaCount := s.userAreaCount + 1
            userPageCount := s.userPageCount + newArea.areaPageCount }
        else s)

end

/-- The counter of user mappings follows a split of a user mapping. -/
def countSplit (s : VmaSet) (isUser : Bool) (pieces : ℕ) : VmaSet :=
  if isUser then { s with userAreaCount := s.userAreaCount + pieces } else s

/-- How many mappings more there are once `[startVpn, endVpn)` is one of its own. -/
def splitAdditional (area : Vma) (startVpn endVpn : ℕ) : ℕ :=
  if startVpn = area.vmStart ∧ endVpn = area.vmEnd then 0
  else if startVpn = area.vmStart ∨ endVpn = area.vmEnd then 1
  else 2

/-- The mapping stored at `areaStart` is cut so that `[startVpn, endVpn)` is a mapping of its own;
the first page of that one is returned.  When a cut fails, what `intoTwo` or `intoThree` left of the
mapping is stored again. -/
def splitForRange (maxMapCount : ℕ) (s : VmaSet) (areaStart startVpn endVpn : ℕ) :
    Except Errno ℕ × VmaSet :=
  match s.vmas.get? areaStart with
  | none => (.error .EINVAL, s)
  | some area =>
    if startVpn < area.vmStart || area.vmEnd < endVpn || endVpn ≤ startVpn then
      (.error .EINVAL, s)
    else
      match s.ensureCanAdd maxMapCount (splitAdditional area startVpn endVpn) with
      | .error e => (.error e, s)
      | .ok () =>
        match s.takeVma areaStart with
        | (.error e, s) => (.error e, s)
        | (.ok area, s) =>
          if startVpn = area.vmStart ∧ endVpn = area.vmEnd then
            (.ok area.vmStart, s.putVma area)
          else if startVpn = area.vmStart then
            match area.intoTwo endVpn with
            | (first, none) => (.error .EINVAL, s.putVma first)
            | (first, some second) =>
              (.ok first.vmStart,
                ((s.putVma first).putVma second).countSplit area.vmIsUser 1)
          else if endVpn = area.vmEnd then
            match area.intoTwo startVpn with
            | (first, none) => (.error .EINVAL, s.putVma first)
            | (first, some second) =>
              (.ok second.vmStart,
                ((s.putVma first).putVma second).countSplit area.vmIsUser 1)
          else
            match area.intoThree startVpn endVpn with
            | (first, none) => (.error .EINVAL, s.putVma first)
            | (first, some (second, third)) =>
              (.ok second.vmStart,
                (((s.putVma first).putVma second).putVma third).countSplit
                  area.vmIsUser 2)

section Mapped

variable {M : Type} [UserMapper M] (arch : Arch)

def removeAreaWithStart (s : VmaSet) (mapper : M) (startVpn : ℕ) :
    Except MemoryError Unit × VmaSet × M :=
  match s.takeVma startVpn with
  | (.error _, s) => (.error .areaNotFound, s, mapper)
  | (.ok area, s) =>
    let s := s.untrackArea area
    match area.unmap mapper with
    | (result, _, mapper) => (result, s.releaseMmapRange arch area.vmStart area.vmEnd, mapper)

variable (maxMapCount : ℕ)

/-- One round of `unmap_range`: the part of the mapping at `areaStart` inside the range is split
off, unmapped, and its pages go back to the holes. -/
def unmapStep (s : VmaSet) (mapper : M)
    (areaStart startVpn endVpn : ℕ) : Except Errno Unit × VmaSet × M :=
  match s.vmas.get? areaStart with
  | none => (.error .EINVAL, s, mapper)
  | some area =>
    if !area.vmIsUser then (.error .EINVAL, s, mapper)
    else
      let overlapStart := if area.vmStart < startVpn then startVpn else area.vmStart
      let overlapEnd := if endVpn < area.vmEnd then endVpn else area.vmEnd
      match s.splitForRange maxMapCount areaStart overlapStart overlapEnd with
      | (.error e, s) => (.error e, s, mapper)
      | (.ok targetStart, s) =>
        match s.takeVma targetStart with
        | (.error e, s) => (.error e, s, mapper)
        | (.ok target, s) =>
          let s := s.untrackArea target
          match target.unmap mapper with
          | (_, _, mapper) =>
            (.ok (), s.releaseMmapRange arch target.vmStart target.vmEnd, mapper)

/-- The loop of `unmap_range`.  Nothing in its text bounds the number of rounds, so the model counts
them; `none` means that the count ran out. -/
def unmapRangeLoop (arch : Arch) (maxMapCount startVpn endVpn : ℕ) (allowEmpty : Bool) :
    ℕ → Bool → VmaSet → M → Option (Except Errno Bool × VmaSet × M)
  | 0, _, _, _ => none
  | fuel + 1, foundArea, s, mapper =>
    match s.firstOverlapKey startVpn endVpn with
    | none =>
      some (if foundArea || allowEmpty then .ok foundArea else .error .EINVAL, s, mapper)
    | some areaStart =>
      match s.unmapStep arch maxMapCount mapper areaStart startVpn endVpn with
      | (.error e, s, mapper) => some (.error e, s, mapper)
      | (.ok (), s, mapper) =>
        unmapRangeLoop arch maxMapCount startVpn endVpn allowEmpty fuel true s mapper

/-- Every mapping is cut back to what lies outside the range.  Each round frees at least one of its
pages, so a round per page and one for the final test are enough. -/
def unmapRange (s : VmaSet) (mapper : M) (startVpn endVpn : ℕ)
    (allowEmpty : Bool) : Option (Except Errno Bool × VmaSet × M) :=
  unmapRangeLoop arch maxMapCount startVpn endVpn allowEmpty (endVpn - startVpn + 1) false s mapper

/-! ## Protection and advice -/

def protectArea (s : VmaSet) (mapper : M) (areaStart : ℕ) (prot : MapPermission) :
    Except Errno Unit × VmaSet × M :=
  match s.vmas.get? areaStart with
  | none => (.error .EINVAL, s, mapper)
  | some area =>
    -- a store fault, not `mprotect`, makes a resident page writable
    let mapper := Vma.setFlagsLoop (prot.difference .W) area.inner.inMemoryVpns mapper
    (.ok (), s.updateVma areaStart { area with mapPerm := prot }, mapper)

/-- The first pass of `mprotect` looks for a reason to refuse. -/
def protectCheckLoop (s : VmaSet) (endVpn : ℕ) (prot : MapPermission) :
    ℕ → ℕ → Except Errno Unit
  | 0, _ => .ok ()
  | fuel + 1, cursor =>
    if cursor < endVpn then
      match s.findUserVmaKey cursor with
      | none => .error .ENOMEM
      | some areaStart =>
        match s.vmas.get? areaStart with
        | none => .error .ENOMEM
        | some area =>
          if prot.contains .W && area.flags.contains .MAP_SHARED && area.writeSealed then
            .error .EPERM
          else if prot.contains .W && area.flags.contains .MAP_SHARED && !area.mayWrite then
            .error .EACCES
          else
            protectCheckLoop s endVpn prot fuel
              (if area.vmEnd < endVpn then area.vmEnd else endVpn)
    else .ok ()

/-- The second pass splits and changes one mapping in every round. -/
def protectLoop (maxMapCount endVpn : ℕ) (prot : MapPermission) :
    ℕ → ℕ → VmaSet → M → Except Errno Unit × VmaSet × M
  | 0, _, s, mapper => (.ok (), s, mapper)
  | fuel + 1, cursor, s, mapper =>
    if cursor < endVpn then
      match s.findUserVmaKey cursor with
      | none => (.error .ENOMEM, s, mapper)
      | some areaStart =>
        match s.vmas.get? areaStart with
        | none => (.error .ENOMEM, s, mapper)
        | some area =>
          let protectEnd := if area.vmEnd < endVpn then area.vmEnd else endVpn
          match s.splitForRange maxMapCount areaStart cursor protectEnd with
          | (.error e, s) => (.error e, s, mapper)
          | (.ok targetStart, s) =>
            match s.protectArea mapper targetStart prot with
            | (.error e, s, mapper) => (.error e, s, mapper)
            | (.ok (), s, mapper) =>
              protectLoop maxMapCount endVpn prot fuel protectEnd s mapper
    else (.ok (), s, mapper)

def protectRange (s : VmaSet) (mapper : M) (startVpn endVpn : ℕ)
    (prot : MapPermission) : Except Errno Unit × VmaSet × M :=
  match s.protectCheckLoop endVpn prot (endVpn - startVpn) startVpn with
  | .error e => (.error e, s, mapper)
  | .ok () => protectLoop maxMapCount endVpn prot (endVpn - startVpn) startVpn s mapper

def madvDontneed : ℕ := 4
def madvFree : ℕ := 8
def madvDontfork : ℕ := 10
def madvDofork : ℕ := 11
def madvMergeable : ℕ := 12
def madvUnmergeable : ℕ := 13
def madvWipeonfork : ℕ := 18
def madvKeeponfork : ℕ := 19

/-- `[startVpn, endVpn)` of the mapping at `areaStart` becomes a mapping of its own, with a mark. -/
def splitAndMark (s : VmaSet) (areaStart startVpn endVpn : ℕ) (mark : Vma → Vma) :
    Except Errno Unit × VmaSet :=
  match s.splitForRange maxMapCount areaStart startVpn endVpn with
  | (.error e, s) => (.error e, s)
  | (.ok targetStart, s) =>
    match s.vmas.get? targetStart with
    | none => (.error .ENOMEM, s)
    | some area => (.ok (), s.updateVma targetStart (mark area))

/-- What one piece of advice does to `[cursor, adviseEnd)` of the mapping at `areaStart`. -/
def adviseStep (maxMapCount advice : ℕ) (s : VmaSet) (mapper : M) (areaStart : ℕ) (area : Vma)
    (cursor adviseEnd : ℕ) : Except Errno Unit × VmaSet × M :=
  if advice = madvDontneed then
    if area.mapFile.isNone && area.flags.contains .MAP_PRIVATE then
      match area.discardRange mapper cursor adviseEnd with
      | (.error _, area, mapper) => (.error .EINVAL, s.updateVma areaStart area, mapper)
      | (.ok (), area, mapper) => (.ok (), s.updateVma areaStart area, mapper)
    else (.ok (), s, mapper)
  else if advice = madvFree then
    if area.isAnonymousPrivate then (.ok (), s, mapper) else (.error .EINVAL, s, mapper)
  else if advice = madvMergeable ∨ advice = madvUnmergeable then
    if area.mapPerm.contains .W then (.ok (), s, mapper) else (.error .EINVAL, s, mapper)
  else if advice = madvDontfork ∨ advice = madvDofork then
    match s.splitAndMark maxMapCount areaStart cursor adviseEnd
        (fun area => { area with dontFork := advice = madvDontfork }) with
    | (result, s) => (result, s, mapper)
  else if advice = madvWipeonfork ∨ advice = madvKeeponfork then
    if advice = madvWipeonfork ∧ ¬ area.isAnonymousPrivate then (.error .EINVAL, s, mapper)
    else
      match s.splitAndMark maxMapCount areaStart cursor adviseEnd
          (fun area => { area with wipeOnFork := advice = madvWipeonfork }) with
      | (result, s) => (result, s, mapper)
  else (.ok (), s, mapper)

def adviseLoop (maxMapCount advice endVpn : ℕ) :
    ℕ → ℕ → VmaSet → M → Except Errno Unit × VmaSet × M
  | 0, _, s, mapper => (.ok (), s, mapper)
  | fuel + 1, cursor, s, mapper =>
    if cursor < endVpn then
      match s.findUserVmaKey cursor with
      | none => (.error .ENOMEM, s, mapper)
      | some areaStart =>
        match s.vmas.get? areaStart with
        | none => (.error .ENOMEM, s, mapper)
        | some area =>
          let adviseEnd := if area.vmEnd < endVpn then area.vmEnd else endVpn
          match s.adviseStep maxMapCount advice mapper areaStart area cursor adviseEnd with
          | (.error e, s, mapper) => (.error e, s, mapper)
          | (.ok (), s, mapper) =>
            adviseLoop maxMapCount advice endVpn fuel adviseEnd s mapper
    else (.ok (), s, mapper)

variable (s : VmaSet)

def adviseRange (mapper : M) (startVpn endVpn advice : ℕ) : Except Errno Unit × VmaSet × M :=
  adviseLoop maxMapCount advice endVpn (endVpn - startVpn) startVpn s mapper

/-! ## Dropping everything -/

/-- The set is as new, but for its owner. -/
def clear : VmaSet :=
  { VmaSet.new arch with owner := s.owner }

/-- The mappings are unmapped in order; the first error is reported, none stops the walk. -/
def unmapEach : List (ℕ × Vma) → Except MemoryError Unit → M → Except MemoryError Unit × M
  | [], result, mapper => (result, mapper)
  | (_, area) :: areas, result, mapper =>
    match area.unmap mapper with
    | (.ok (), _, mapper) => unmapEach areas result mapper
    | (.error e, _, mapper) =>
      unmapEach areas (match result with | .ok () => .error e | .error e' => .error e') mapper

def unmapAll (mapper : M) : Except MemoryError Unit × VmaSet × M :=
  match unmapEach s.vmas.entries (.ok ()) mapper with
  | (result, mapper) => (result, s.clear arch, mapper)

end Mapped

/-! ## Growing in place -/

variable (arch : Arch) (s : VmaSet)

/-- A new private anonymous mapping is appended to its left neighbour instead of being inserted. -/
def tryMergeLazyPrivateMmap (startVa len : ℕ) (prot : MapPermission)
    (flags : MapFlags) : Except Errno (Option ℕ) × VmaSet :=
  if usizeRange ≤ startVa + len then (.error .EINVAL, s)
  else
    let startVpn := floor startVa
    let newEnd := startVa + len
    let endVpn := ceil newEnd
    if !s.isMmapRangeFree arch startVpn endVpn then (.ok none, s)
    else
      match s.vmas.lastLE? startVpn with
      | none => (.ok none, s)
      | some (key, area) =>
        if area.vmEnd ≠ startVpn || !area.vmCanMergeLazyPrivate prot flags then (.ok none, s)
        else
          let s := s.reserveMmapRange arch startVpn endVpn
          match area.expandTo newEnd with
          | .error errno => (.error errno, s.releaseMmapRange arch startVpn endVpn)
          | .ok grown =>
            let s := s.updateVma key grown
            (.ok (some startVa),
              if area.vmIsUser then
                { s with
                  userPageCount :=
                    s.userPageCount + (grown.areaPageCount - area.areaPageCount) }
              else s)

/-- The last mapping before a page, if any, leaves the guard gap free below `faultVpn`. -/
def guardGapOk (oldStart faultVpn : ℕ) : Bool :=
  match s.vmas.lastLT? oldStart with
  | none => true
  | some (_, prev) => prev.vmEnd ≤ faultVpn && stackGuardGapPages ≤ faultVpn - prev.vmEnd

/-- A grow-down mapping is extended to a page below it. -/
def expandGrowsdownForFault (faultVpn : ℕ) : Except MemoryError (Option ℕ) × VmaSet :=
  match s.vmas.firstGE? faultVpn with
  | none => (.ok none, s)
  | some (oldStart, area) =>
    if oldStart ≤ faultVpn || !area.vmIsUser || !area.flags.contains .MAP_GROWSDOWN then
      (.ok none, s)
    else if arch.growsdownMaxFaultGapPages < oldStart - faultVpn then (.ok none, s)
    else if !s.guardGapOk oldStart faultVpn then (.ok none, s)
    else if s.hasOverlap faultVpn oldStart then (.ok none, s)
    else
      let s := s.reserveMmapRange arch faultVpn oldStart
      match s.takeVma oldStart with
      | (.error _, s) => (.error .badAddress, s)
      | (.ok area, s) =>
        match area.expandDownTo (ofVpn faultVpn) with
        | .error errno =>
          (.error (errnoToMemoryError errno),
            (s.putVma area).releaseMmapRange arch faultVpn oldStart)
        | .ok grown =>
          let s :=
            if area.vmIsUser then
              { s with
                userPageCount :=
                  s.userPageCount + (grown.areaPageCount - area.areaPageCount) }
            else s
          (.ok (some grown.vmStart), s.putVma grown)

end VmaSet
end MangoCore.Mm
