import MangoCore.Mm.VmaSetReachable

/-!
# An address space and its mapping calls

What the lock of an address space protects: the set of mappings, the user page table behind it, the
program break, and the pages that are locked in memory.  This file embeds `mmap`, `munmap` and
`mprotect` on top of `VmaSet`.

Every call returns its result together with the address space it leaves.  The settings of the system
(`Limits`) and the answers of the frame allocator are arguments of the calls that look at them.  A
result of `none` means that the call does not return; the loop of `unmap_range` is the only place
where that is not plain from the text, and it does return on every consistent set of mappings.
-/

namespace MangoCore.Mm

open VirtAddr

/-- The layout of a build: the window of the trap contexts, in pages, is inside the user range on
LoongArch only. -/
structure Platform extends Arch where
  trapWindow : Option (ℕ × ℕ)
  userHeapSize : ℕ

def Platform.riscv : Platform where
  toArch := .riscv
  trapWindow := none
  userHeapSize := pageSize * 0x100

def Platform.loongarch64 : Platform where
  toArch := .loongarch64
  trapWindow := some (floor (0x2000000000 - 2 * pageSize - 1024 * pageSize),
    ceil (0x2000000000 - 2 * pageSize))
  userHeapSize := pageSize * 0x100

/-- The settings that the mapping calls look at. -/
structure Limits where
  maxMapCount : ℕ
  overcommitMemory : ℕ
  commitLimitBytes : ℕ
  reportedMemoryBytes : ℕ

def Limits.overcommitAllows (l : Limits) (currentCommittedBytes additionalBytes : ℕ) : Bool :=
  if l.overcommitMemory = 1 then true
  else if l.overcommitMemory = 2 then
    min (currentCommittedBytes + additionalBytes) (usizeRange - 1) ≤ l.commitLimitBytes
  else additionalBytes ≤ l.reportedMemoryBytes

/-- The settings, and what the frame allocator and the queue of candidates answer for each page that
`mmap` allocates. -/
structure MmapEnv where
  limits : Limits
  frameAlloc : ℕ → Option ℕ
  reserve : ℕ → Bool

structure AddressSpace (M : Type) where
  vmas : VmaSet
  mapper : M
  heapBottom : ℕ
  heapPt : ℕ
  lockedPages : Finset ℕ

/-- The arguments of `mmap` behind the system call: permissions and flags are parsed, the file is
looked up. -/
structure MmapArgs where
  start : ℕ
  len : ℕ
  prot : MapPermission
  flags : MapFlags
  offset : ℕ
  mapFile : Option ℕ
  mayWrite : Bool
  writeSealed : Bool

def maxEagerMmapSize : ℕ := 1024 * 1024 * 1024

def isizeMax : ℕ := 2 ^ 63 - 1

/-- The end of a user range. -/
def checkedUserRange (arch : Arch) (start len : ℕ) : Except Errno ℕ :=
  if len = 0 then .error .EINVAL
  else if usizeRange ≤ start + len then .error .EINVAL
  else if arch.userVaEnd ≤ start || arch.userVaEnd < start + len then .error .EINVAL
  else .ok (start + len)

/-- A request that touches the window of the trap contexts. -/
def Platform.intersectsTrapWindow (pf : Platform) (startVpn endVpn : ℕ) : Bool :=
  match pf.trapWindow with
  | none => false
  | some (reservedStart, reservedEnd) => startVpn < reservedEnd && reservedStart < endVpn

def chargesOvercommit (prot : MapPermission) (flags : MapFlags) : Bool :=
  flags.contains .MAP_ANONYMOUS && prot.contains .W

theorem floor_le_ceil {a b : ℕ} (h : a ≤ b) : floor a ≤ ceil b := by
  unfold floor ceil pageSize
  split_ifs <;> omega

def PROT_READ : BitVec 64 := 0x1
def PROT_WRITE : BitVec 64 := 0x2
def PROT_EXEC : BitVec 64 := 0x4

/-- The permissions of a request; to write means to read as well. -/
def parseMmapProt (prot : BitVec 64) : Except Errno MapPermission :=
  if prot &&& ~~~(PROT_READ ||| PROT_WRITE ||| PROT_EXEC) ≠ 0 then .error .EINVAL
  else
    let mapPerm := MapPermission.U
    let mapPerm := if prot &&& PROT_READ ≠ 0 then mapPerm.union .R else mapPerm
    let mapPerm := if prot &&& PROT_WRITE ≠ 0 then mapPerm.union (.union .R .W) else mapPerm
    let mapPerm := if prot &&& PROT_EXEC ≠ 0 then mapPerm.union .X else mapPerm
    .ok mapPerm

/-- Every parsed permission is one for the user. -/
theorem contains_of_parseMmapProt {prot : BitVec 64} {perm : MapPermission}
    (h : parseMmapProt prot = .ok perm) : perm.contains .U = true := by
  unfold parseMmapProt at h
  split at h
  · cases h
  · rw [← Except.ok.inj h]
    split_ifs <;> decide

namespace AddressSpace

variable {M : Type} [UserMapper M]

def committedBytes (as : AddressSpace M) : ℕ :=
  min (as.vmas.userPageCount * pageSize) (usizeRange - 1)

/-- The pages of a range are locked or unlocked, one by one in the source. -/
def setLockedPages (as : AddressSpace M) (startVpn endVpn : ℕ) (locked : Bool) : AddressSpace M :=
  { as with
    lockedPages :=
      if locked then as.lockedPages ∪ Finset.Ico startVpn endVpn
      else as.lockedPages \ Finset.Ico startVpn endVpn }

variable (arch : Arch) (limits : Limits)

section

variable (as : AddressSpace M)

variable (startVpn endVpn : ℕ)

def unmapUserRange (allowEmpty : Bool) : Option (Except Errno Bool × AddressSpace M) :=
  (as.vmas.unmapRange arch limits.maxMapCount as.mapper startVpn endVpn allowEmpty).map
    fun r => (r.1, { as with vmas := r.2.1, mapper := r.2.2 })

def protectUserRange (prot : MapPermission) : Except Errno Unit × AddressSpace M :=
  match as.vmas.protectRange limits.maxMapCount as.mapper startVpn endVpn prot with
  | (result, vmas, mapper) => (result, { as with vmas := vmas, mapper := mapper })

/-! ## Placing a mapping -/

/-- Where a mapping without a fixed address goes: to the hint, if that is free, or else to the first
hole that can hold it. -/
def mmapPlacement (start len : ℕ) : Except Errno ℕ :=
  if start ≠ 0
      && as.vmas.isMmapRangeFree arch (floor start) (ceil (start + len)) then
    .ok start
  else as.vmas.findFreeMmapRange len pageSize

/-- A place for the new mapping, or the address at which it was merged into its neighbour. -/
inductive Place where
  | at (startVa : ℕ)
  | merged (startVa : ℕ)

/-- Whatever is mapped at a fixed address goes away first. -/
def placeFixed (pf : Platform) (env : MmapEnv) (as : AddressSpace M) (args : MmapArgs)
    (startVpn endVpn : ℕ) : Option (Except Errno Place × AddressSpace M) :=
  if pf.intersectsTrapWindow startVpn endVpn then some (.error .EINVAL, as)
  else if args.flags.contains .MAP_FIXED_NOREPLACE && as.vmas.hasOverlap startVpn endVpn then
    some (.error .EEXIST, as)
  else
    (as.unmapUserRange pf.toArch env.limits startVpn endVpn true).map fun r =>
      match r with
      | (.error e, as) => (.error e, as)
      | (.ok _, as) => (.ok (.at args.start), as.setLockedPages startVpn endVpn false)

def placeAuto (args : MmapArgs) : Except Errno Place × AddressSpace M :=
  match as.mmapPlacement arch args.start args.len with
  | .error e => (.error e, as)
  | .ok startVa =>
    if args.flags.contains .MAP_LOCKED then (.ok (.at startVa), as)
    else
      match as.vmas.tryMergeLazyPrivateMmap arch startVa args.len args.prot args.flags with
      | (.error e, vmas) => (.error e, { as with vmas := vmas })
      | (.ok (some endVa), vmas) => (.ok (.merged endVa), { as with vmas := vmas })
      | (.ok none, vmas) => (.ok (.at startVa), { as with vmas := vmas })

end

/-! ## Building and storing it -/

def allocOneZeroedUnmapped (area : Vma) (vpn : ℕ) (frame : Option ℕ) (reserve : Bool) :
    Except MemoryError Vma :=
  match frame with
  | none => .error .outOfMemory
  | some ppn =>
    match area.inner.allocInMemory vpn ppn reserve with
    | (.error e, _) => .error e
    | (.ok (), inner) => .ok { area with inner := inner }

/-- The frames of a shared anonymous mapping are allocated at once, so that fork can share them. -/
def preallocate (env : MmapEnv) : List ℕ → Vma → Except Errno Vma
  | [], area => .ok area
  | vpn :: vpns, area =>
    match allocOneZeroedUnmapped area vpn (env.frameAlloc vpn) (env.reserve vpn) with
    | .error .outOfMemory => .error .ENOMEM
    | .error _ => .error .EINVAL
    | .ok area => preallocate env vpns area

/-- The file part of the arguments. -/
def backFile (args : MmapArgs) (area : Vma) : Except Errno Vma :=
  if args.flags.contains .MAP_ANONYMOUS then .ok area
  else if args.offset % pageSize ≠ 0 || isizeMax < args.offset then .error .EINVAL
  else
    match args.mapFile with
    | none => .error .EBADF
    | some inode => .ok { area with mapFile := some inode, mapFileOffset := args.offset }

/-- The request is for writable memory that is shared but has no file. -/
def sharedAnonymous (args : MmapArgs) (area : Vma) : Bool :=
  args.flags.contains .MAP_SHARED && area.mapFile.isNone && area.mapPerm.contains .W

variable (env : MmapEnv) (as : AddressSpace M) (args : MmapArgs)

def backShared (area : Vma) : Except Errno Vma :=
  if sharedAnonymous args area then
    if maxEagerMmapSize < args.len then .error .ENOMEM
    else preallocate env (List.range' area.vmStart (area.vmEnd - area.vmStart)) area
  else .ok area

variable (start startVa : ℕ)

/-- The new mapping, before its backing. -/
def bareArea : Vma :=
  { Vma.tryNew startVa (startVa + args.len) args.prot none 0 (floor_le_ceil (Nat.le_add_right _ _))
      with
    flags := args.flags
    mayWrite := args.mayWrite
    writeSealed := args.writeSealed }

/-- The second half of `do_mmap`: a mapping is built and stored at a place. -/
def mapAt : Except Errno ℕ × AddressSpace M :=
  if usizeRange ≤ startVa + args.len then (.error .EINVAL, as)
  else
    let startVpn := floor startVa
    let endVpn := ceil (startVa + args.len)
    if as.vmas.hasOverlap startVpn endVpn then (.error .EINVAL, as)
    else
      match as.vmas.ensureCanAdd env.limits.maxMapCount 1 with
      | .error e => (.error e, as)
      | .ok () =>
        match backFile args (bareArea args startVa) with
        | .error e => (.error e, as)
        | .ok area =>
          match backShared env args area with
          | .error e => (.error e, as)
          | .ok area =>
            match as.vmas.insertVma arch env.limits.maxMapCount area with
            | (.error e, vmas) => (.error e, { as with vmas := vmas })
            | (.ok (), vmas) =>
              (.ok startVa,
                if args.flags.contains .MAP_LOCKED then
                  { as with vmas := vmas }.setLockedPages startVpn endVpn true
                else { as with vmas := vmas })

def isFixed (flags : MapFlags) : Bool :=
  flags.contains .MAP_FIXED || flags.contains .MAP_FIXED_NOREPLACE

/-- What `do_mmap` does with a place. -/
def settle : Except Errno Place × AddressSpace M → Except Errno ℕ × AddressSpace M
  | (.error e, as) => (.error e, as)
  | (.ok (.merged startVa), as) => (.ok startVa, as)
  | (.ok (.at startVa), as) => as.mapAt arch env args startVa

def doMmap (pf : Platform) (env : MmapEnv) (as : AddressSpace M) (args : MmapArgs) :
    Option (Except Errno ℕ × AddressSpace M) :=
  if args.start % pageSize ≠ 0 then some (.error .EINVAL, as)
  else
    match checkedUserRange pf.toArch args.start args.len with
    | .error e => some (.error e, as)
    | .ok requestedEnd =>
      if chargesOvercommit args.prot args.flags
          && !env.limits.overcommitAllows as.committedBytes args.len then
        some (.error .ENOMEM, as)
      else
        let placed :=
          if isFixed args.flags then
            as.placeFixed pf env args (floor args.start) (ceil requestedEnd)
          else some (as.placeAuto pf.toArch args)
        placed.map (settle pf.toArch env args)

/-- Either `mmap` fails before it touches anything, or it goes on from a place. -/
theorem doMmap_cases {pf : Platform} {env : MmapEnv} {as as' : AddressSpace M} {args : MmapArgs}
    {r : Except Errno ℕ} (h : doMmap pf env as args = some (r, as')) :
    (∃ e, r = .error e ∧ as' = as) ∨ ∃ stop placed, args.start % pageSize = 0 ∧
      checkedUserRange pf.toArch args.start args.len = .ok stop ∧
      ((isFixed args.flags = true ∧ as.placeFixed pf env args (floor args.start)
          (ceil stop) = some placed) ∨
        (isFixed args.flags = false ∧ as.placeAuto pf.toArch args = placed)) ∧
      settle pf.toArch env args placed = (r, as') := by
  unfold doMmap at h
  by_cases haligned : args.start % pageSize ≠ 0
  · grind
  rw [if_neg haligned] at h
  cases hrange : checkedUserRange pf.toArch args.start args.len with
  | error e => grind
  | ok stop =>
    rw [hrange] at h
    dsimp only at h
    by_cases hcommit : (chargesOvercommit args.prot args.flags
        && !env.limits.overcommitAllows as.committedBytes args.len) = true
    · grind
    rw [if_neg hcommit, Option.map_eq_some_iff] at h
    obtain ⟨placed, hplaced, hsettle⟩ := h
    refine .inr ⟨stop, placed, not_not.mp haligned, rfl, ?_, hsettle⟩
    cases hfixed : isFixed args.flags with
    | true =>
      rw [if_pos hfixed] at hplaced
      exact .inl ⟨rfl, hplaced⟩
    | false => grind

/-! ## Unmapping and protecting -/

def doMunmap (len : ℕ) : Option (Except Errno Unit × AddressSpace M) :=
  match checkedUserRange arch start len with
  | .error e => some (.error e, as)
  | .ok stop =>
    if start % pageSize ≠ 0 then some (.error .EINVAL, as)
    else
      (as.unmapUserRange arch limits (floor start) (ceil stop) true).map
        fun r => (r.1.map fun _ => (), r.2)

/-- `munmap` also forgets that the pages were locked. -/
def munmap (len : ℕ) : Option (Except Errno Unit × AddressSpace M) :=
  (as.doMunmap arch limits start len).map fun r =>
    match r with
    | (.ok (), as) =>
      (.ok (),
        as.setLockedPages (floor start) (ceil (start + len)) false)
    | (.error e, as) => (.error e, as)

def mprotect (addr len : ℕ) (prot : MapPermission) : Except Errno Unit × AddressSpace M :=
  if len = 0 then (.ok (), as)
  else
    match checkedUserRange arch addr len with
    | .error e => (.error e, as)
    | .ok stop =>
      if addr % pageSize ≠ 0 then (.error .EINVAL, as)
      else as.protectUserRange limits (floor addr) (ceil stop) prot

end AddressSpace
end MangoCore.Mm
