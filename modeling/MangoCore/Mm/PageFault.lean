import MangoCore.Mm.Vma

/-!
# The classification of page faults

A fault on a page of a mapping is first checked against the permissions of the mapping and then
classified: the kind and the sharing type of the mapping, the state of the page in its store and
whether the page table has an entry decide which repair is made.  What fork does with a page is
decided from the same data and stands beside it.

Whether the page table has an entry is an argument here.
-/

namespace MangoCore.Mm

/-- What stands behind the pages of a mapping. -/
inductive VmAreaKind where
  | anonymous | fileBacked | elfLazy
  deriving DecidableEq, Repr

/-- The sharing type of a mapping. -/
inductive VmAreaMapping where
  | priv | shared
  deriving DecidableEq, Repr

/-- The repair chosen for a fault. -/
inductive FaultAction where
  | lazyAlloc | fileBackedRead | fileBackedWrite | fileBackedSharedWrite | elfLazy | decompress
  | swapIn | sharedWrite | staleLazyPte | cow | mappedRead | residentWithoutPte
  deriving DecidableEq, Repr

namespace Vma

variable (a : Vma)

def vmKind : VmAreaKind :=
  if a.elfLazy.isSome then .elfLazy
  else if a.mapFile.isSome then .fileBacked
  else .anonymous

def vmMapping : VmAreaMapping :=
  if a.flags.contains .MAP_SHARED then .shared else .priv

def vmAllows : FaultAccess → Bool
  | .load => a.mapPerm.contains .R
  | .store => a.mapPerm.contains .W
  | .execute => a.mapPerm.contains .X

variable (vpn : ℕ)

def vmPageState : Except MemoryError FrameState := a.inner.frameState vpn

def vmIsStaleLazy : Bool :=
  match a.vmPageState vpn with
  | .ok .unallocated => true
  | _ => false

def checkAreaPermission (access : FaultAccess) : Except MemoryError Unit :=
  if a.vmAllows access then .ok () else .error .noPermission

/-- The repair of a page without an entry in the page table whose contents are in the store; a page
that was never touched is made by `fresh`. -/
def classifyStored (fresh : FaultAction) : Except MemoryError FaultAction :=
  match a.vmPageState vpn with
  | .error e => .error e
  | .ok .inMemory => .ok .residentWithoutPte
  | .ok .unallocated => .ok fresh
  | .ok .compressed => .ok .decompress
  | .ok .swappedOut => .ok .swapIn

def classify (isMapped : Bool) (vpn : ℕ) (access : FaultAccess) : Except MemoryError FaultAction :=
  if isMapped then
    .ok <|
      match access with
      | .load | .execute => .mappedRead
      | .store =>
        if a.vmMapping = .shared then .sharedWrite
        else if a.vmIsStaleLazy vpn then .staleLazyPte
        else .cow
  else
    match a.vmKind with
    | .elfLazy => a.classifyStored vpn .elfLazy
    | .fileBacked =>
      .ok <|
        match access with
        | .store => if a.vmMapping = .shared then .fileBackedSharedWrite else .fileBackedWrite
        | .load | .execute => .fileBackedRead
    | .anonymous => a.classifyStored vpn .lazyAlloc

/-! ## Fork -/

/-- What a child gets of a page: the entry of its store, and the permissions of the entry that its
page table gets if the parent's has one.  The entry of the parent may lose its write permission. -/
structure ForkedPage where
  entry : Option Frame
  mapPerm : MapPermission
  protectParentForCow : Bool
  deriving DecidableEq, Repr

/-- The permissions with which the entries of the parent are copied. -/
def forkPerm : MapPermission :=
  if a.flags.contains .MAP_SHARED && a.mapFile.isSome && a.mapPerm.contains .W then
    a.mapPerm.difference .W
  else if !a.flags.contains .MAP_SHARED && a.mapPerm.contains .W then a.mapPerm.difference .W
  else a.mapPerm

/-- A page of a mapping in the child of a fork.  Mappings that are not the user's or are marked stay
behind; of a mapping that is wiped the child gets the pages but not what is in them. -/
def forkPage : Option ForkedPage :=
  if a.vmIsUser && !a.dontFork then
    if a.wipeOnFork then some ⟨none, a.mapPerm, false⟩
    else
      some ⟨a.inner.frames.get? vpn, a.forkPerm,
        !a.flags.contains .MAP_SHARED && a.mapPerm.contains .W⟩
  else none

end Vma
end MangoCore.Mm
