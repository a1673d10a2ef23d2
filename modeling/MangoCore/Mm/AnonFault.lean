import MangoCore.Mm.FrameReclaim
import MangoCore.Mm.PageFault
import MangoCore.Mm.VmaSet

/-!
# Repairing faults on anonymous pages

The repairs that `handle_page_fault` makes to a mapping without a file, with the page table and the
contents of memory as part of the state.  A page table is a partial function from pages to entries;
its inner nodes only matter in that they may not be there and have to be allocated.  The contents of
a frame or of a slot of one of the two stores are a value of an arbitrary type `B`, with one value
for a cleared frame.

What the rest of the kernel answers during a fault is `FaultEnv`: whether there is a frame, whether
the nodes of the page table can be allocated, whether the queue of reclaim candidates can grow, what
the two stores return, and how many owners a frame has.  The repairs that read a file are not
modelled; they stand in `FaultEnv` as one function.
-/

namespace MangoCore.Mm

open VmPageStore

/-! ## The user page table -/

structure Pte where
  ppn : ℕ
  flags : MapPermission
  deriving DecidableEq, Repr

structure UserTable where
  pte : ℕ → Option Pte

namespace UserTable

section

variable (t : UserTable) (vpn : ℕ) {perm : MapPermission}

def isMapped : Bool := (t.pte vpn).isSome

def set (e : Option Pte) : UserTable := ⟨Function.update t.pte vpn e⟩

def translate : Option ℕ := (t.pte vpn).map Pte.ppn

def unmapUserPageIfMapped : Except MemoryError Bool × UserTable :=
  if t.isMapped vpn then (.ok true, t.set vpn none) else (.ok false, t)

def setUserFlags (flags : MapPermission) : Except MemoryError Unit × UserTable :=
  if flags.contains .U then
    match t.pte vpn with
    | some e => (.ok (), t.set vpn (some { e with flags := flags }))
    | none => (.error .notMapped, t)
  else (.error .noPermission, t)

section

variable (vpn ppn : ℕ)

def setPpn : Except MemoryError Unit × UserTable :=
  match t.pte vpn with
  | some e => (.ok (), t.set vpn (some { e with ppn := ppn }))
  | none => (.error .notMapped, t)

section

variable (flags : MapPermission) (nodes : Bool)

/-- A new entry; `nodes` is whether the nodes above it are there or can be allocated. -/
def tryMapNoFlush : Except MemoryError Unit × UserTable :=
  if !nodes then (.error .outOfMemory, t)
  else if t.isMapped vpn then (.error .alreadyMapped, t)
  else (.ok (), t.set vpn (some ⟨ppn, flags⟩))

def mapUserPage : Except MemoryError Unit × UserTable :=
  if flags.contains .U then t.tryMapNoFlush vpn ppn flags nodes else (.error .noPermission, t)

end

/-- Pages that are not the user's own are mapped without the check. -/
def mapPageWithPerm (perm : MapPermission) (nodes : Bool) : Except MemoryError Unit × UserTable :=
  if perm.contains .U then t.mapUserPage vpn ppn perm nodes
  else t.tryMapNoFlush vpn ppn perm nodes

theorem tryMapNoFlush_cases (flags : MapPermission) (nodes : Bool) :
    (∃ e, t.tryMapNoFlush vpn ppn flags nodes = (.error e, t)) ∨
      (nodes = true ∧ t.isMapped vpn = false ∧
        t.tryMapNoFlush vpn ppn flags nodes = (.ok (), t.set vpn (some ⟨ppn, flags⟩))) := by
  grind [tryMapNoFlush]

/-- A page is mapped or nothing happens. -/
theorem mapPageWithPerm_cases {nodes : Bool} :
    (∃ e, t.mapPageWithPerm vpn ppn perm nodes = (.error e, t)) ∨
      (nodes = true ∧ t.isMapped vpn = false ∧
        t.mapPageWithPerm vpn ppn perm nodes = (.ok (), t.set vpn (some ⟨ppn, perm⟩))) := by
  rw [mapPageWithPerm]
  split_ifs with hU
  · rw [mapUserPage, if_pos hU]
    exact tryMapNoFlush_cases ..
  · exact tryMapNoFlush_cases ..

end

theorem mapPageWithPerm_of_unmapped {t : UserTable} {vpn : ℕ} (h : t.isMapped vpn = false)
    {ppn : ℕ} : t.mapPageWithPerm vpn ppn perm true = (.ok (), t.set vpn (some ⟨ppn, perm⟩)) := by
  grind [tryMapNoFlush, mapPageWithPerm, mapUserPage]

/-- The frame of a page if its entry allows an access. -/
def resolveUserVa (access : FaultAccess) : Except MemoryError ℕ :=
  match t.pte vpn with
  | none => .error .notMapped
  | some e =>
    let ok :=
      match access with
      | .load => e.flags.contains .U && e.flags.contains .R
      | .store => e.flags.contains .U && e.flags.contains .W
      | .execute => e.flags.contains .X
    if ok then .ok e.ppn else .error .noPermission

end

/-- The table with a frame that is on its way out; the frame itself is not looked at again. -/
instance : UserMapper UserTable where
  isMapped := isMapped
  unmapUserPageIfMapped := unmapUserPageIfMapped
  setUserFlags := setUserFlags
  retireFrame t _ := t

end UserTable

/-! ## The state of a fault -/

/-- The contents of the frames and of the slots of the two stores. -/
structure PageMemory (B : Type) where
  frames : ℕ → B
  zram : ℕ → B
  swap : ℕ → B

structure FaultState (B : Type) where
  area : Vma
  table : UserTable
  memory : PageMemory B

/-- The answers of the rest of the kernel, by page where a fault may ask for several. -/
structure FaultEnv (B : Type) where
  frameAlloc : Option ℕ
  nodes : ℕ → Bool
  reserve : ℕ → Bool
  prezeroed : ℕ → Option ℕ
  faultAround : Bool
  zramRead : Bool
  swapRead : Except MemoryError Unit
  strongCount : ℕ
  copyFrame : Option ℕ
  filemap : FaultAction → FaultState B → Except MemoryError ℕ × FaultState B

namespace FaultState

variable {B : Type}

def withInner (st : FaultState B) (inner : VmPageStore) : FaultState B :=
  { st with area := { st.area with inner := inner } }

def fill (st : FaultState B) (ppn : ℕ) (content : B) : FaultState B :=
  { st with memory := { st.memory with frames := Function.update st.memory.frames ppn content } }

/-! ## Pages that were never touched -/

section

variable (zero : B) (env : FaultEnv B) (st : FaultState B) (vpn : ℕ)

/-- A cleared frame is stored and mapped; if it cannot be mapped it is taken out again. -/
def mapFrame (ppn : ℕ) (nodes reserve : Bool) : Except MemoryError ℕ × FaultState B :=
  let st := st.fill ppn zero
  match st.area.inner.allocInMemory vpn ppn reserve with
  | (.error e, inner) => (.error e, st.withInner inner)
  | (.ok (), inner) =>
    match st.table.mapPageWithPerm vpn ppn st.area.mapPerm nodes with
    | (.error e, table) =>
      (.error e, { st.withInner (inner.removeInMemory vpn).2 with table := table })
    | (.ok (), table) => (.ok ppn, { st.withInner inner with table := table })

def mapOneZeroedUnchecked : Except MemoryError ℕ × FaultState B :=
  match env.frameAlloc with
  | none => (.error .outOfMemory, st)
  | some ppn => st.mapFrame zero vpn ppn (env.nodes vpn) (env.reserve vpn)

/-- A page beside the faulting one, from the pool of cleared frames; `none` when that is empty. -/
def tryMapOnePrezeroedUnchecked : Except MemoryError (Option ℕ) × FaultState B :=
  match env.prezeroed vpn with
  | none => (.ok none, st)
  | some ppn =>
    match st.mapFrame zero vpn ppn (env.nodes vpn) (env.reserve vpn) with
    | (.error e, st) => (.error e, st)
    | (.ok ppn, st) => (.ok (some ppn), st)

end

inductive AnonFaultAroundDirection where
  | forward | backward
  deriving DecidableEq, Repr

variable (env : FaultEnv B)

/-- Pages are mapped in advance away from the one neighbour that is mapped. -/
def anonFaultAroundDirection (st : FaultState B) (vpn : ℕ) : Option AnonFaultAroundDirection :=
  if !env.faultAround || st.area.vmMapping ≠ .priv then none
  else
    match st.area.vmStart < vpn && st.table.isMapped (vpn - 1),
      vpn + 1 < st.area.vmEnd && st.table.isMapped (vpn + 1) with
    | true, false => some .forward
    | false, true => some .backward
    | _, _ => none

def anonFaultAroundPages : ℕ := 2

def candidate (faultVpn distance : ℕ) : AnonFaultAroundDirection → Option ℕ
  | .forward => if faultVpn + distance < usizeRange then some (faultVpn + distance) else none
  | .backward => if distance ≤ faultVpn then some (faultVpn - distance) else none

/-- The loop stops at the first page it does not map. -/
def populateLoop (zero : B) (env : FaultEnv B) (faultVpn : ℕ)
    (direction : AnonFaultAroundDirection) : List ℕ → FaultState B → FaultState B
  | [], st => st
  | distance :: distances, st =>
    match candidate faultVpn distance direction with
    | none => st
    | some vpn =>
      if !st.area.vmContains vpn then st
      else if st.table.isMapped vpn || !st.area.vmIsStaleLazy vpn then st
      else
        match st.tryMapOnePrezeroedUnchecked zero env vpn with
        | (.ok (some _), st) => populateLoop zero env faultVpn direction distances st
        | (_, st) => st

section

variable (zero : B) (env : FaultEnv B) (st : FaultState B)

def populateAnonFaultAround (faultVpn : ℕ)
    (direction : Option AnonFaultAroundDirection) : FaultState B :=
  match direction with
  | none => st
  | some direction =>
    populateLoop zero env faultVpn direction (List.range' 1 anonFaultAroundPages) st

def mapLazyZeroPage (vpn : ℕ) : Except MemoryError ℕ × FaultState B :=
  let direction := st.anonFaultAroundDirection env vpn
  match st.mapOneZeroedUnchecked zero env vpn with
  | (.error e, st) => (.error e, st)
  | (.ok ppn, st) => (.ok ppn, st.populateAnonFaultAround zero env vpn direction)

end

/-! ## Pages with contents -/

variable (st : FaultState B) (vpn : ℕ)

def mapExistingInMemory : Except MemoryError ℕ × FaultState B :=
  if st.table.isMapped vpn then (.error .alreadyMapped, st)
  else
    match st.area.inner.getInMemory vpn with
    | none => (.error .notMapped, st)
    | some ppn =>
      match st.table.mapPageWithPerm vpn ppn st.area.mapPerm (env.nodes vpn) with
      | (.error e, table) => (.error e, { st with table := table })
      | (.ok (), table) => (.ok ppn, { st with table := table })

/-- What a page holds that was moved out of memory. -/
def storedContent : Option B :=
  match st.area.inner.frames.get? vpn with
  | some (.compressed slot) => some (st.memory.zram slot)
  | some (.swappedOut slot) => some (st.memory.swap slot)
  | _ => none

/-- The contents of a restored page arrive in its new frame. -/
def fillRestored (vpn ppn : ℕ) : FaultState B :=
  match st.storedContent vpn with
  | some content => st.fill ppn content
  | none => st

def restoreEnv (pageTable : Except MemoryError Unit) : RestoreEnv where
  frameAlloc := env.frameAlloc
  zramRead := env.zramRead
  swapRead := env.swapRead
  pageTable := pageTable
  reserve := env.reserve vpn

/-- A page comes back into memory and is mapped; then the store goes on with the answer of the page
table. -/
def finishRestore
    (restored : Except MemoryError ℕ × VmPageStore) (dec : VmPageStore → VmPageStore) :
    Except MemoryError ℕ × FaultState B :=
  match restored with
  | (.error e, inner) => (.error e, st.withInner inner)
  | (.ok ppn, inner) =>
    let st := st.fillRestored vpn ppn
    let (mapped, table) := st.table.mapUserPage vpn ppn st.area.mapPerm (env.nodes vpn)
    let (r, inner) := VmPageStore.finishRestore (.ok ppn, inner) vpn (restoreEnv env vpn mapped) dec
    (r, { st.withInner inner with table := table })

def finishDecompressPage : Except MemoryError ℕ × FaultState B :=
  st.finishRestore env vpn (st.area.inner.vmDecompressPage vpn (restoreEnv env vpn (.ok ())))
    decCompressed

def finishSwapInPage : Except MemoryError ℕ × FaultState B :=
  st.finishRestore env vpn (st.area.inner.vmSwapInPage vpn (restoreEnv env vpn (.ok ())))
    decSwapped

def translateMappedPage : Except MemoryError ℕ × FaultState B :=
  match st.table.translate vpn with
  | some ppn => (.ok ppn, st)
  | none => (.error .notMapped, st)

/-! ## Writing to a page that is mapped -/

def restoreSharedWrite : Except MemoryError ℕ × FaultState B :=
  match st.table.setUserFlags vpn st.area.mapPerm with
  | (.error e, table) => (.error e, { st with table := table })
  | (.ok (), table) => { st with table := table }.translateMappedPage vpn

variable (zero : B) (env : FaultEnv B) (st : FaultState B) (vpn : ℕ)

def repairStaleLazyPte : Except MemoryError ℕ × FaultState B :=
  let st := { st with table := (st.table.unmapUserPageIfMapped vpn).2 }
  if st.area.vmKind = .fileBacked then (.error .notMapped, st)
  else st.mapOneZeroedUnchecked zero env vpn

/-- A page that comes back during a copy-on-write fault is entered in the page table; the store
looks at the answer last. -/
def cowRestore (restored : Except MemoryError ℕ × VmPageStore) (dec : VmPageStore → VmPageStore) :
    Except MemoryError ℕ × FaultState B :=
  match restored with
  | (.error e, inner) => (.error e, st.withInner inner)
  | (.ok ppn, inner) =>
    let st := st.fillRestored vpn ppn
    let (entered, table) := st.table.setPpn vpn ppn
    let (r, inner) := VmPageStore.cowRestore (.ok ppn, inner) vpn (restoreEnv env vpn entered) dec
    (r, { st.withInner inner with table := table })

/-- The frame behind a page that is about to be copied, restored if need be. -/
def cowSourceFrame : Except MemoryError ℕ × FaultState B :=
  match st.area.inner.frameMutIfPresent vpn with
  | .error e => (.error e, st)
  | .ok (.inMemory ppn) => (.ok ppn, st)
  | .ok (.compressed _) =>
    st.cowRestore env vpn (st.area.inner.vmDecompressPage vpn (restoreEnv env vpn (.ok ())))
      decCompressed
  | .ok (.swappedOut _) =>
    st.cowRestore env vpn (st.area.inner.vmSwapInPage vpn (restoreEnv env vpn (.ok ())))
      decSwapped
  | .ok .unallocated => (.error .notMapped, st)

/-- A page is copied into a new frame, which then replaces the old one in the store and in the page
table.  When a step fails the old frame goes back, to the end of the queue. -/
def copyInto (oldPpn newPpn : ℕ) : Except MemoryError ℕ × FaultState B :=
  let st := st.fill newPpn (st.memory.frames oldPpn)
  let removed := (st.area.inner.removeInMemory vpn).2
  let restored := st.withInner (removed.allocInMemory vpn oldPpn true).2
  match removed.allocInMemory vpn newPpn (env.reserve vpn) with
  | (.error e, _) => (.error e, restored)
  | (.ok (), inner) =>
    match st.table.setPpn vpn newPpn with
    | (.error _, _) => (.error .notMapped, restored)
    | (.ok (), table) =>
      match table.setUserFlags vpn st.area.mapPerm with
      | (.error _, _) => (.error .notMapped, restored)
      | (.ok (), table) => (.ok newPpn, { st.withInner inner with table := table })

/-- A frame with one owner is written in place; another one is copied first.  The count includes the
handle that this function holds. -/
def copyOnWrite : Except MemoryError ℕ × FaultState B :=
  match st.cowSourceFrame env vpn with
  | (.error e, st) => (.error e, st)
  | (.ok oldPpn, st) =>
    if env.strongCount ≤ 2 then
      match st.table.setUserFlags vpn st.area.mapPerm with
      | (.error e, table) => (.error e, { st with table := table })
      | (.ok (), table) => (.ok oldPpn, { st with table := table })
    else if !st.table.isMapped vpn then (.error .notMapped, st)
    else
      match env.copyFrame with
      | none => (.error .outOfMemory, st)
      | some newPpn => st.copyInto env vpn oldPpn newPpn

/-! ## The handler -/

def repair : FaultAction → Except MemoryError ℕ × FaultState B
  | .lazyAlloc => st.mapLazyZeroPage zero env vpn
  | .decompress => st.finishDecompressPage env vpn
  | .swapIn => st.finishSwapInPage env vpn
  | .sharedWrite => st.restoreSharedWrite vpn
  | .staleLazyPte => st.repairStaleLazyPte zero env vpn
  | .cow => st.copyOnWrite env vpn
  | .mappedRead => st.translateMappedPage vpn
  | .residentWithoutPte => st.mapExistingInMemory env vpn
  | action => env.filemap action st

def handlePageFault (access : FaultAccess) : Except MemoryError ℕ × FaultState B :=
  match st.area.checkAreaPermission access with
  | .error e => (.error e, st)
  | .ok () =>
    match st.area.classify (st.table.isMapped vpn) vpn access with
    | .error e => (.error e, st)
    | .ok action => st.repair zero env vpn action

end FaultState

/-! ## Faults of an address space -/

/-- The mappings of an address space with its page table and the memory of the machine. -/
structure PagedSpace (B : Type) where
  vmas : VmaSet
  table : UserTable
  memory : PageMemory B

namespace PagedSpace

variable {B : Type}

/-- The mapping that a fault belongs to; one that grows down may be extended to the page. -/
def faultArea (arch : Arch) (sp : PagedSpace B) (vpn : ℕ) :
    Except MemoryError (Option ℕ) × PagedSpace B :=
  match sp.vmas.findUserVmaKey vpn with
  | some start => (.ok (some start), sp)
  | none =>
    match sp.vmas.expandGrowsdownForFault arch vpn with
    | (r, vmas) => (r, { sp with vmas := vmas })

variable (arch : Arch) (zero : B) (env : FaultEnv B) (sp : PagedSpace B) (vpn : ℕ)
  (access : FaultAccess)

def doPageFault : Except MemoryError ℕ × PagedSpace B :=
  match sp.table.resolveUserVa vpn access with
  | .ok ppn => (.ok ppn, sp)
  | .error _ =>
    match sp.faultArea arch vpn with
    | (.error e, sp) => (.error e, sp)
    | (.ok none, sp) => (.error .badAddress, sp)
    | (.ok (some start), sp) =>
      match sp.vmas.vmas.get? start with
      | none => (.error .badAddress, sp)
      | some area =>
        match FaultState.handlePageFault zero env ⟨area, sp.table, sp.memory⟩ vpn access with
        | (r, st) => (r, ⟨sp.vmas.updateVma start st.area, st.table, st.memory⟩)

/-- An access to a page from outside the page table: the page is brought in and its entry is looked
at once more. -/
def faultInUserVa : Except MemoryError ℕ × PagedSpace B :=
  match sp.table.resolveUserVa vpn access with
  | .ok ppn => (.ok ppn, sp)
  | .error _ =>
    match sp.doPageFault arch zero env vpn access with
    | (.error e, sp) => (.error e, sp)
    | (.ok _, sp) => (sp.table.resolveUserVa vpn access, sp)

/-- What a load finds in a page. -/
def load (arch : Arch) (zero : B) (env : FaultEnv B) (sp : PagedSpace B) (vpn : ℕ) :
    Except MemoryError B × PagedSpace B :=
  match sp.faultInUserVa arch zero env vpn .load with
  | (.error e, sp) => (.error e, sp)
  | (.ok ppn, sp) => (.ok (sp.memory.frames ppn), sp)

end PagedSpace
end MangoCore.Mm
