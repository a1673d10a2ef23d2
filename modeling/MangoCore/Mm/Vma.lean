import MangoCore.Mm.FrameStore

/-!
# One mapping

A `Vma` is a page range with its permissions, flags, file backing and page store.  This file models
the operations on a single mapping that move its ends or cut it, and the ones that walk its resident
pages through a user page table.

The page table is a parameter: `UserMapper M` lists what the code asks of it, and every definition
and lemma here holds for any implementation, failing ones included.  The mapping counts that a
file's page cache keeps for statistics are not modelled.
-/

namespace MangoCore.Mm

open VirtAddr VmPageStore

/-- What the code of a mapping asks of the user page table and its record of changes. -/
class UserMapper (M : Type) where
  isMapped : M → ℕ → Bool
  unmapUserPageIfMapped : M → ℕ → Except MemoryError Bool × M
  setUserFlags : M → ℕ → MapPermission → Except MemoryError Unit × M
  retireFrame : M → ℕ → M

/-- A user virtual memory area.  Files, executable images and address spaces are named by number. -/
structure Vma where
  inner : VmPageStore
  mapPerm : MapPermission
  mapFile : Option ℕ
  elfLazy : Option ℕ
  mapFileOffset : ℕ
  mayWrite : Bool
  writeSealed : Bool
  flags : MapFlags
  wipeOnFork : Bool
  dontFork : Bool
  forkInherited : Bool
  userAddressSpace : Option ℕ

/-- What a mapping says about one of its pages.  A page of a file mapping names the file and its
offset there. -/
structure PageView where
  mapPerm : MapPermission
  flags : MapFlags
  filePage : Option (ℕ × ℕ)
  elfLazy : Option ℕ
  mayWrite : Bool
  writeSealed : Bool
  wipeOnFork : Bool
  dontFork : Bool
  forkInherited : Bool
  frame : Option Frame
  deriving DecidableEq

namespace Vma

section

variable (a : Vma)

def vmStart : ℕ := a.inner.vpnRange.getStart

def vmEnd : ℕ := a.inner.vpnRange.getEnd

def vmContains (vpn : ℕ) : Bool := a.vmStart ≤ vpn && vpn < a.vmEnd

def vmOverlaps (startVpn endVpn : ℕ) : Bool := startVpn < a.vmEnd && a.vmStart < endVpn

def vmIsUser : Bool := a.mapPerm.contains .U

/-- The mapping may be extended by a new private anonymous one of the same permissions. -/
def vmCanMergeLazyPrivate (prot : MapPermission) (flags : MapFlags) : Bool :=
  a.flags.contains (.union .MAP_PRIVATE .MAP_ANONYMOUS)
    && flags.contains (.union .MAP_PRIVATE .MAP_ANONYMOUS)
    && prot = a.mapPerm
    && a.mapFile.isNone
    && !a.wipeOnFork
    && !a.dontFork
    && !a.forkInherited

/-- A private anonymous mapping, as `madvise` asks for it. -/
def isAnonymousPrivate : Bool :=
  a.mapFile.isNone
    && a.flags.contains (.union .MAP_PRIVATE .MAP_ANONYMOUS)
    && !a.flags.contains .MAP_SHARED

def areaPageCount : ℕ := a.vmEnd - a.vmStart

def pageView (p : ℕ) : PageView where
  mapPerm := a.mapPerm
  flags := a.flags
  filePage := a.mapFile.map fun file => (file, a.mapFileOffset + (p - a.vmStart) * pageSize)
  elfLazy := a.elfLazy
  mayWrite := a.mayWrite
  writeSealed := a.writeSealed
  wipeOnFork := a.wipeOnFork
  dontFork := a.dontFork
  forkInherited := a.forkInherited
  frame := a.inner.frames.get? p

/-- A fresh mapping over the pages an address range touches.  The range constructor panics when the
range runs backwards; that is the hypothesis. -/
def tryNew (startVa endVa : ℕ) (mapPerm : MapPermission) (mapFile : Option ℕ) (mapFileOffset : ℕ)
    (h : floor startVa ≤ ceil endVa) : Vma where
  inner := VmPageStore.tryNew ⟨floor startVa, ceil endVa, h⟩
  mapPerm := mapPerm
  mapFile := mapFile
  elfLazy := none
  mapFileOffset := mapFileOffset
  mayWrite := true
  writeSealed := false
  flags := ⟨0⟩
  wipeOnFork := false
  dontFork := false
  forkInherited := false
  userAddressSpace := none

/-! ## Moving the ends -/

def expandTo (newEnd : ℕ) : Except Errno Vma :=
  if ceil newEnd < a.vmEnd then .error .EINVAL
  else
    match a.inner.setEnd (ceil newEnd) with
    | .error () => .error .ENOMEM
    | .ok inner => .ok { a with inner := inner }

def expandDownTo (newStart : ℕ) : Except Errno Vma :=
  if a.vmStart < floor newStart then .error .EINVAL
  else if a.mapFile.isSome then .error .EINVAL
  else
    match a.inner.setStart (floor newStart) with
    | .error () => .error .ENOMEM
    | .ok inner => .ok { a with inner := inner }

/-- The file offset of the part of a mapping that begins at `cut`. -/
def secondOffset (cut : ℕ) : Option ℕ :=
  if a.mapFile.isSome then
    if a.mapFileOffset + (ofVpn cut - ofVpn a.vmStart) < usizeRange then
      some (a.mapFileOffset + (ofVpn cut - ofVpn a.vmStart))
    else none
  else some 0

/-- The mapping is cut in two.  The first component is what is left in place, cut or not. -/
def intoTwo (a : Vma) (cut : ℕ) : Vma × Option Vma :=
  match a.secondOffset cut with
  | none => (a, none)
  | some offset =>
    match a.inner.intoTwo cut with
    | none => (a, none)
    | some (first, second) =>
      ({ a with inner := first }, some { a with inner := second, mapFileOffset := offset })

/-- The mapping is cut in three.  When only the second cut fails, the first one stays made and the
rest of the mapping is dropped. -/
def intoThree (firstCut secondCut : ℕ) : Vma × Option (Vma × Vma) :=
  match a.intoTwo firstCut with
  | (first, none) => (first, none)
  | (first, some second) =>
    match second.intoTwo secondCut with
    | (_, none) => (first, none)
    | (second, some third) => (first, some (second, third))

end

/-! ## Walking the resident pages -/

section Walk

variable {M : Type} [UserMapper M]

/-- One resident page leaves the page table and the store; its frame is retired if it was mapped. -/
def dropResident (a : Vma) (mapper : M) (vpn : ℕ) : Except MemoryError Unit × Vma × M :=
  match UserMapper.unmapUserPageIfMapped mapper vpn with
  | (.error e, mapper) => (.error e, a, mapper)
  | (.ok unmapped, mapper) =>
    match a.inner.removeInMemory vpn with
    | (some frame, inner) =>
      (.ok (), { a with inner := inner },
        if unmapped then UserMapper.retireFrame mapper frame else mapper)
    | (none, inner) => (.ok (), { a with inner := inner }, mapper)

/-- The loop over the resident pages of `[cursor, stop)`.  The cursor moves past a page in every
round, so `fuel = stop - cursor` rounds empty the range. -/
def dropResidentLoop (stop : ℕ) : ℕ → ℕ → Vma → M → Except MemoryError Unit × Vma × M
  | 0, _, a, mapper => (.ok (), a, mapper)
  | fuel + 1, cursor, a, mapper =>
    match a.inner.firstInMemoryVpnInRange cursor stop with
    | none => (.ok (), a, mapper)
    | some vpn =>
      match a.dropResident mapper vpn with
      | (.error e, a, mapper) => (.error e, a, mapper)
      | (.ok (), a, mapper) => dropResidentLoop stop fuel (vpn + 1) a mapper

/-- Every resident page is unmapped. -/
def unmap (a : Vma) (mapper : M) : Except MemoryError Unit × Vma × M :=
  dropResidentLoop a.vmEnd (a.vmEnd - a.vmStart) a.vmStart a mapper

/-- The resident pages of a range are dropped. -/
def discardRange (a : Vma) (mapper : M) (startVpn endVpn : ℕ) : Except MemoryError Unit × Vma × M :=
  if startVpn < a.vmStart || a.vmEnd < endVpn then (.error .badAddress, a, mapper)
  else dropResidentLoop endVpn (endVpn - startVpn) startVpn a mapper

/-- The flags of the resident pages are rewritten; failures are only logged. -/
def setFlagsLoop (prot : MapPermission) : List ℕ → M → M
  | [], mapper => mapper
  | vpn :: vpns, mapper => setFlagsLoop prot vpns (UserMapper.setUserFlags mapper vpn prot).2

end Walk

/-! ## What these operations leave alone -/

/-- Two mappings that differ at most in the pages they hold. -/
structure SameShape (a b : Vma) : Prop where
  vmStart : b.vmStart = a.vmStart
  vmEnd : b.vmEnd = a.vmEnd
  mapPerm : b.mapPerm = a.mapPerm
  mapFile : b.mapFile = a.mapFile
  mapFileOffset : b.mapFileOffset = a.mapFileOffset

theorem SameShape.refl {a : Vma} : SameShape a a := ⟨rfl, rfl, rfl, rfl, rfl⟩

theorem SameShape.trans {a b c : Vma} (h : SameShape a b) (h' : SameShape b c) : SameShape a c :=
  ⟨h'.vmStart.trans h.vmStart, h'.vmEnd.trans h.vmEnd, h'.mapPerm.trans h.mapPerm,
    h'.mapFile.trans h.mapFile, h'.mapFileOffset.trans h.mapFileOffset⟩

/-- Replacing the page store by one of the same range keeps the shape. -/
theorem sameShape_of_vpnRange {a : Vma} {inner : VmPageStore}
    (h : inner.vpnRange = a.inner.vpnRange) : SameShape a { a with inner := inner } :=
  ⟨congrArg VPNRange.getStart h, congrArg VPNRange.getEnd h, rfl, rfl, rfl⟩

section Walk

variable {M : Type} [UserMapper M]

variable (a : Vma) (mapper : M)

theorem dropResident_sameShape (vpn : ℕ) : SameShape a (a.dropResident mapper vpn).2.1 := by
  have hrange : (a.inner.removeInMemory vpn).2.vpnRange = a.inner.vpnRange :=
    removeInMemory_vpnRange ..
  unfold dropResident
  rcases UserMapper.unmapUserPageIfMapped mapper vpn with ⟨_ | unmapped, mapper'⟩
  · exact SameShape.refl
  · grind [sameShape_of_vpnRange]

theorem dropResidentLoop_sameShape (stop : ℕ) : ∀ (fuel cursor : ℕ) (a : Vma) (mapper : M),
      SameShape a (dropResidentLoop stop fuel cursor a mapper).2.1 := by
  intro fuel
  induction fuel with
  | zero =>
    intro cursor a mapper
    exact SameShape.refl
  | succ fuel ih =>
    intro cursor a mapper
    rw [dropResidentLoop]
    cases a.inner.firstInMemoryVpnInRange cursor stop with
    | none => exact SameShape.refl
    | some vpn => grind [dropResident_sameShape, SameShape.trans]

theorem discardRange_sameShape (startVpn endVpn : ℕ) :
    SameShape a (a.discardRange mapper startVpn endVpn).2.1 := by
  unfold discardRange
  split
  · exact SameShape.refl
  · exact dropResidentLoop_sameShape ..

end Walk

/-! ## Expansion and cuts -/

theorem expandTo_eq_ok {a b : Vma} {newEnd : ℕ} (h : a.expandTo newEnd = .ok b) :
    b.vmStart = a.vmStart ∧ b.vmEnd = ceil newEnd ∧ b.mapPerm = a.mapPerm ∧
      b.mapFile = a.mapFile ∧ b.mapFileOffset = a.mapFileOffset := by
  unfold expandTo at h
  split_ifs at h
  cases hs : a.inner.setEnd (ceil newEnd) with
  | error e => rw [hs] at h; cases h
  | ok inner => grind [vmStart, vmEnd, setEnd_vpnRange]

theorem expandDownTo_eq_ok {a b : Vma} {newStart : ℕ} (h : a.expandDownTo newStart = .ok b) :
    b.vmStart = floor newStart ∧ b.vmEnd = a.vmEnd ∧ b.mapPerm = a.mapPerm ∧
      b.mapFile = none ∧ b.mapFileOffset = a.mapFileOffset := by
  unfold expandDownTo at h
  split_ifs at h with hlt hfile
  cases hs : a.inner.setStart (floor newStart) with
  | error e => rw [hs] at h; cases h
  | ok inner =>
    rw [hs] at h
    obtain ⟨hstart, hend⟩ := setStart_vpnRange hs
    rw [← Except.ok.inj h]
    exact ⟨hstart, hend, rfl, Option.not_isSome_iff_eq_none.mp hfile, rfl⟩

/-- The pages of the mapping are pages of 64-bit addresses, and the file offsets of all of them are
64-bit numbers.  This is what the callers of `insert_vma` establish. -/
structure Fits (a : Vma) : Prop where
  vmEnd_le : a.vmEnd ≤ pageNumRange
  offset_le : a.mapFile.isSome = true → a.mapFileOffset + a.areaPageCount * pageSize ≤ usizeRange

/-- What `do_mmap` checks is enough: the range ends in the lower half of the address space, and a
file offset is at most `isize::MAX`. -/
theorem fits_tryNew {startVa endVa : ℕ} {mapPerm : MapPermission} {mapFile : Option ℕ}
    {mapFileOffset : ℕ} (h : floor startVa ≤ ceil endVa)
    (hend : endVa ≤ 2 ^ 63) (hoffset : mapFile.isSome = true → mapFileOffset < 2 ^ 63) :
    (tryNew startVa endVa mapPerm mapFile mapFileOffset h).Fits := by
  have hceil : ceil endVa ≤ 2 ^ 51 := by
    unfold ceil pageSize
    split_ifs <;> omega
  constructor
  · show ceil endVa ≤ pageNumRange
    unfold pageNumRange
    omega
  · intro hfile
    have hlt := hoffset hfile
    show mapFileOffset + (ceil endVa - floor startVa) * pageSize ≤ usizeRange
    unfold usizeRange pageSize
    omega

/-! ## Parts of a mapping -/

/-- A part of a mapping fits again, and says of its pages what the mapping says. -/
structure IsPart (a b : Vma) : Prop where
  nonempty : b.vmStart < b.vmEnd
  fits : b.Fits
  view : ∀ p, b.vmStart ≤ p → p < b.vmEnd → b.pageView p = a.pageView p

theorem IsPart.mapPerm {a b : Vma} (h : a.IsPart b) : b.mapPerm = a.mapPerm :=
  congrArg PageView.mapPerm (h.view b.vmStart le_rfl h.nonempty)

/-- The mappings of a list are parts of `a` and cover `[lo, hi)` one after the other. -/
inductive Parts (a : Vma) : ℕ → List Vma → ℕ → Prop
  | nil {lo} : Parts a lo [] lo
  | cons {lo b l hi} (hstart : b.vmStart = lo) (hpart : a.IsPart b) (hrest : Parts a b.vmEnd l hi) :
    Parts a lo (b :: l) hi

theorem Parts.le {a : Vma} {lo hi : ℕ} {l : List Vma} (h : a.Parts lo l hi) : lo ≤ hi := by
  induction h with
  | nil => exact le_rfl
  | cons hstart hpart _ ih => exact hstart ▸ hpart.nonempty.le.trans ih

/-- The part in the middle of a list, and the parts behind it. -/
theorem Parts.split {a b : Vma} {hi : ℕ} {l r : List Vma} :
    ∀ {lo : ℕ}, a.Parts lo (l ++ b :: r) hi → a.IsPart b ∧ a.Parts b.vmEnd r hi := by
  induction l with
  | nil =>
    rintro lo (_ | ⟨-, hpart, hrest⟩)
    exact ⟨hpart, hrest⟩
  | cons c l ih =>
    rintro lo (_ | ⟨-, -, hrest⟩)
    exact ih hrest

theorem IsPart.trans {a b c : Vma} (h : a.IsPart b) (hc : b.IsPart c) (hs : b.vmStart ≤ c.vmStart)
    (he : c.vmEnd ≤ b.vmEnd) : a.IsPart c :=
  ⟨hc.nonempty, hc.fits, fun p h₁ h₂ =>
    (hc.view p h₁ h₂).trans (h.view p (hs.trans h₁) (h₂.trans_le he))⟩

/-- The file offset of a second part cannot overflow. -/
theorem secondOffset_of_fits {a : Vma} (hfits : a.Fits) {cut : ℕ} (hstart : a.vmStart < cut)
    (hend : cut < a.vmEnd) : ∃ offset, a.secondOffset cut = some offset ∧
      (a.mapFile.isSome = true → offset = a.mapFileOffset + (cut - a.vmStart) * pageSize) := by
  have hcut : cut < pageNumRange := lt_of_lt_of_le hend hfits.vmEnd_le
  unfold secondOffset
  split_ifs with hfile hlt
  · grind [ofVpn_of_lt, Nat.sub_mul]
  · exfalso
    apply hlt
    have hle := hfits.offset_le hfile
    rw [ofVpn_of_lt hcut, ofVpn_of_lt (hstart.trans hcut)]
    unfold areaPageCount pageSize at hle
    unfold pageSize
    omega
  · exact ⟨0, rfl, fun h => absurd h hfile⟩

/-- A page range of a mapping, with its entries and its offset. -/
theorem isPart_of {a : Vma} {inner : VmPageStore} {offset lo hi : ℕ} (hfits : a.Fits)
    (hlo : inner.vpnRange.getStart = lo) (hhi : inner.vpnRange.getEnd = hi) (hlt : lo < hi)
    (hs : a.vmStart ≤ lo) (he : hi ≤ a.vmEnd)
    (hoff : a.mapFile.isSome = true → offset = a.mapFileOffset + (lo - a.vmStart) * pageSize)
    (hframes : ∀ p, lo ≤ p → p < hi → inner.frames.get? p = a.inner.frames.get? p) :
    a.IsPart { a with inner := inner, mapFileOffset := offset } := by
  refine ⟨(hlo.trans_lt hlt).trans_eq hhi.symm, ⟨(hhi.trans_le he).trans hfits.vmEnd_le,
    fun hfile => ?_⟩, fun p h₁ h₂ => ?_⟩
  · have hle := hfits.offset_le hfile
    show offset + (inner.vpnRange.getEnd - inner.vpnRange.getStart) * pageSize ≤ usizeRange
    rw [hlo, hhi, hoff hfile]
    unfold areaPageCount pageSize at *
    omega
  · have hp : lo ≤ p := hlo.symm.trans_le h₁
    unfold pageView
    rw [hframes p hp (h₂.trans_eq hhi)]
    congr 1
    show a.mapFile.map (fun file => (file, offset + (p - inner.vpnRange.getStart) * pageSize)) = _
    rw [hlo]
    cases hfile : a.mapFile with
    | none => rfl
    | some file =>
      have hsum : offset + (p - lo) * pageSize = a.mapFileOffset + (p - a.vmStart) * pageSize := by
        rw [hoff (by rw [hfile]; rfl)]
        unfold pageSize
        omega
      rw [Option.map_some, Option.map_some, hsum]

/-- **A cut inside a fitting mapping succeeds**, and the two parts meet at it. -/
theorem exists_intoTwo_of_lt {a : Vma} (hfits : a.Fits) (cut : ℕ) (hstart : a.vmStart < cut)
    (hend : cut < a.vmEnd) : ∃ first second, a.intoTwo cut = (first, some second) ∧
      first.vmStart = a.vmStart ∧ first.vmEnd = cut ∧ a.IsPart first ∧
      second.vmStart = cut ∧ second.vmEnd = a.vmEnd ∧ a.IsPart second := by
  obtain ⟨s₁, s₂, htwo, ⟨h₁s, h₁e, hv₁⟩, h₂s, h₂e, hv₂⟩ :=
    VmPageStore.exists_intoTwo_of_lt hstart hend
  obtain ⟨offset, hoff, hoffEq⟩ := secondOffset_of_fits hfits hstart hend
  refine ⟨{ a with inner := s₁ }, { a with inner := s₂, mapFileOffset := offset },
    by rw [intoTwo, hoff, htwo], h₁s, h₁e, ?_, h₂s, h₂e, ?_⟩
  · refine isPart_of hfits h₁s h₁e hstart le_rfl hend.le (fun _ => ?_) fun p _ hp => hv₁ p hp
    change _ = _ + (a.vmStart - a.vmStart) * pageSize
    rw [Nat.sub_self, zero_mul, add_zero]
  · exact isPart_of hfits h₂s h₂e hend hstart.le le_rfl hoffEq fun p hp _ => hv₂ p hp

/-- Two cuts inside a fitting mapping succeed. -/
theorem exists_intoThree_of_lt {a : Vma} (hfits : a.Fits) (c₁ c₂ : ℕ) (hstart : a.vmStart < c₁)
    (hmid : c₁ < c₂) (hend : c₂ < a.vmEnd) :
    ∃ first second third, a.intoThree c₁ c₂ = (first, some (second, third)) ∧
      (first.vmStart = a.vmStart ∧ first.vmEnd = c₁ ∧ a.IsPart first) ∧
      (second.vmStart = c₁ ∧ second.vmEnd = c₂ ∧ a.IsPart second) ∧
      third.vmStart = c₂ ∧ third.vmEnd = a.vmEnd ∧ a.IsPart third := by
  obtain ⟨first, rest, htwo, h₁s, h₁e, hp₁, hrs, hre, hpr⟩ :=
    exists_intoTwo_of_lt hfits c₁ hstart (hmid.trans hend)
  obtain ⟨second, third, htwo', h₂s, h₂e, hp₂, h₃s, h₃e, hp₃⟩ :=
    exists_intoTwo_of_lt hpr.fits c₂ (by omega) (by omega)
  refine ⟨first, second, third, ?_, ⟨h₁s, h₁e, hp₁⟩, ⟨h₂s.trans hrs, h₂e, ?_⟩, h₃s,
    h₃e.trans hre, ?_⟩
  · rw [intoThree, htwo]
    dsimp only
    rw [htwo']
  · exact hpr.trans hp₂ h₂s.ge (by omega)
  · exact hpr.trans hp₃ (by omega) h₃e.le

end Vma
end MangoCore.Mm
