import MangoCore.Mm.AddressSpace

/-!
# The program break

`sbrk` moves the break of an address space by a signed number of bytes, and `brk` moves it to an
address.  Growing maps the pages between the old and the new break with a fixed private mapping,
after a test that refuses to go over some kinds of foreign mappings; shrinking unmaps the pages
between the new and the old break.  Every failure returns the old break.
-/

namespace MangoCore.Mm

namespace MapPermission

/-- The permissions of the heap. -/
def heap : MapPermission := .union .R (.union .W .U)

end MapPermission

/-- The mappings that the heap does not grow over. -/
def brkOverlapBlocks (area : Vma) : Bool :=
  !area.vmIsUser || area.mapFile.isSome
    || area.flags.bits &&& MapFlags.MAP_TYPE.bits ≠ MapFlags.MAP_PRIVATE.bits
    || !area.mapPerm.contains .heap

/-- Rounding up clears the low bits of the sum. -/
def pageRoundUpAddr (addr : ℕ) : Option ℕ :=
  if addr + (pageSize - 1) < usizeRange then some ((addr + (pageSize - 1)) / pageSize * pageSize)
  else none

/-- The request behind a growing heap. -/
def heapArgs (start len : ℕ) : MmapArgs where
  start := start
  len := len
  prot := .heap
  flags := .union .MAP_ANONYMOUS (.union .MAP_FIXED .MAP_PRIVATE)
  offset := 0
  mapFile := none
  mayWrite := true
  writeSealed := false

namespace AddressSpace

variable {M : Type} [UserMapper M] (pf : Platform)

variable (env : MmapEnv) (as : AddressSpace M) (increment : ℤ)

/-- The break that an increment asks for, if that is a legal one. -/
def newBreak : Option ℕ :=
  if usizeRange ≤ as.heapBottom + pf.userHeapSize then none
  else
    let newPt :=
      if 0 < increment then
        if as.heapPt + increment.toNat < usizeRange then some (as.heapPt + increment.toNat)
        else none
      else if increment < 0 then
        -- the least increment has no negative
        if increment = -2 ^ 63 then none
        else if (-increment).toNat ≤ as.heapPt then some (as.heapPt - (-increment).toNat)
        else none
      else none
    newPt.filter fun newPt =>
      as.heapBottom ≤ newPt && newPt ≤ as.heapBottom + pf.userHeapSize

/-- The pages between the old break and a higher one are mapped. -/
def growHeap (newPt oldEnd newEnd : ℕ) : Option (ℕ × AddressSpace M) :=
  let startVpn := VirtAddr.floor oldEnd
  let endVpn := VirtAddr.ceil newEnd
  if as.vmas.vmas.entries.any fun e => e.2.vmOverlaps startVpn endVpn && brkOverlapBlocks e.2 then
    some (as.heapPt, as)
  else if !env.limits.overcommitAllows as.committedBytes (newEnd - oldEnd) then
    some (as.heapPt, as)
  else
    (as.doMmap pf env (heapArgs oldEnd (newEnd - oldEnd))).map fun r =>
      match r with
      | (.error _, as') => (as.heapPt, as')
      | (.ok _, as') => (newPt, { as' with heapPt := newPt })

/-- The pages between a lower break and the old one are unmapped. -/
def shrinkHeap (limits : Limits) (as : AddressSpace M) (newPt oldEnd newEnd : ℕ) :
    Option (ℕ × AddressSpace M) :=
  (as.doMunmap pf.toArch limits newEnd (oldEnd - newEnd)).map fun r =>
    match r with
    | (.error _, as') => (as.heapPt, as')
    | (.ok (), as') => (newPt, { as' with heapPt := newPt })

def doSbrk : Option (ℕ × AddressSpace M) :=
  match as.newBreak pf increment with
  | none => some (as.heapPt, as)
  | some newPt =>
    match pageRoundUpAddr as.heapPt, pageRoundUpAddr newPt with
    | some oldEnd, some newEnd =>
      if as.heapPt < newPt then
        if oldEnd < newEnd then as.growHeap pf env newPt oldEnd newEnd
        else some (newPt, { as with heapPt := newPt })
      else if newEnd < oldEnd then as.shrinkHeap pf env.limits newPt oldEnd newEnd
      else some (newPt, { as with heapPt := newPt })
    | _, _ => some (as.heapPt, as)

/-- The increment that `brk` computes from the address; one that does not fit a word is dropped. -/
def growSize (brkAddr formerAddr : ℕ) : ℤ :=
  if brkAddr < formerAddr then
    if isizeMax < formerAddr - brkAddr then 0 else -((formerAddr - brkAddr : ℕ) : ℤ)
  else if isizeMax < brkAddr - formerAddr then 0 else ((brkAddr - formerAddr : ℕ) : ℤ)

def sysBrk (brkAddr : ℕ) : Option (ℕ × AddressSpace M) :=
  if brkAddr = 0 then as.doSbrk pf env 0
  else
    match as.doSbrk pf env 0 with
    | none => none
    | some (formerAddr, as) => as.doSbrk pf env (growSize brkAddr formerAddr)

end AddressSpace
end MangoCore.Mm
