import MangoCore.Mm.FrameStoreRuns
import MangoCore.Mm.MmapPages
import MangoCore.Mm.PageFault

/-!
# Appending a mapping to its neighbour

`mmap` does not always store a new mapping.  A private anonymous request that lands right behind a
private anonymous mapping of the same permissions is appended to it, and the pages of the request
then live under the attributes of the neighbour.  The test for this, `vm_can_merge_lazy_private`,
compares the permissions and looks for two flag bits on either side.  It does not compare the
sharing type, although the type of a validated shared mapping contains the bit of a private one, nor
the limits on later permissions, nor the bits for growth, stack and locking.

`PageBehaviour` collects what the later operations decide about a page: the attributes, the faults,
fork, `mprotect` and `madvise`.  The merged mapping behaves like the two separate ones on every page
exactly when the request agrees with its neighbour in what the test leaves out (`MergeSafe`).
-/

namespace MangoCore.Mm

open IntervalMap VirtAddr VmaSet VmPageStore OrdMap Vma Option Except

/-! ## What later operations decide about a page -/

/-- The attributes a mapping was made with. -/
structure MapAttributes where
  mapping : VmAreaMapping
  mapPerm : MapPermission
  mayWrite : Bool
  writeSealed : Bool
  growsDown : Bool
  stack : Bool
  locked : Bool
  deriving DecidableEq, Repr

/-- All that a later operation asks about a page of a mapping.  The classification of a fault stands
apart from its permission check, because `mprotect` may change the one and not the other. -/
structure PageBehaviour where
  attributes : MapAttributes
  entry : Option Frame
  allows : FaultAccess → Bool
  fault : Bool → FaultAccess → Except MemoryError FaultAction
  fork : Option ForkedPage
  protect : MapPermission → Except Errno Unit
  advise : ℕ → Except Errno Unit
  discards : Bool

namespace Vma

variable (a : Vma)

def attributes : MapAttributes where
  mapping := a.vmMapping
  mapPerm := a.mapPerm
  mayWrite := a.mayWrite
  writeSealed := a.writeSealed
  growsDown := a.flags.contains .MAP_GROWSDOWN
  stack := a.flags.contains .MAP_STACK
  locked := a.flags.contains .MAP_LOCKED

/-- The reason of the first pass of `mprotect` to refuse a mapping. -/
def protectVerdict (prot : MapPermission) : Except Errno Unit :=
  if prot.contains .W && a.flags.contains .MAP_SHARED && a.writeSealed then .error .EPERM
  else if prot.contains .W && a.flags.contains .MAP_SHARED && !a.mayWrite then .error .EACCES
  else .ok ()

/-- The reason of `madvise` to refuse a mapping. -/
def adviseVerdict (advice : ℕ) : Except Errno Unit :=
  if advice = madvFree ∨ advice = madvWipeonfork then
    if a.isAnonymousPrivate then .ok () else .error .EINVAL
  else if advice = madvMergeable ∨ advice = madvUnmergeable then
    if a.mapPerm.contains .W then .ok () else .error .EINVAL
  else .ok ()

/-- The pages of the mapping are dropped when they are not needed. -/
def adviseDiscards : Bool := a.mapFile.isNone && a.flags.contains .MAP_PRIVATE

def behaviour (p : ℕ) : PageBehaviour where
  attributes := a.attributes
  entry := a.inner.frames.get? p
  allows := a.vmAllows
  fault isMapped access := a.classify isMapped p access
  fork := a.forkPage p
  protect := a.protectVerdict
  advise := a.adviseVerdict
  discards := a.adviseDiscards

end Vma

/-! ## Mappings that behave alike -/

/-- Two mappings agree in what the operations look at on one of their pages. -/
structure Vma.Alike (a b : Vma) (p : ℕ) : Prop where
  mem : a.inner.containsVpn p = b.inner.containsVpn p
  entry : a.inner.frames.get? p = b.inner.frames.get? p
  mapPerm : a.mapPerm = b.mapPerm
  mapFile : a.mapFile.isSome = b.mapFile.isSome
  elfLazy : a.elfLazy.isSome = b.elfLazy.isSome
  mayWrite : a.mayWrite = b.mayWrite
  writeSealed : a.writeSealed = b.writeSealed
  wipeOnFork : a.wipeOnFork = b.wipeOnFork
  dontFork : a.dontFork = b.dontFork
  shared : a.flags.contains .MAP_SHARED = b.flags.contains .MAP_SHARED
  priv : a.flags.contains .MAP_PRIVATE = b.flags.contains .MAP_PRIVATE
  anonymous : a.flags.contains (.union .MAP_PRIVATE .MAP_ANONYMOUS) =
    b.flags.contains (.union .MAP_PRIVATE .MAP_ANONYMOUS)
  growsDown : a.flags.contains .MAP_GROWSDOWN = b.flags.contains .MAP_GROWSDOWN
  stack : a.flags.contains .MAP_STACK = b.flags.contains .MAP_STACK
  locked : a.flags.contains .MAP_LOCKED = b.flags.contains .MAP_LOCKED

variable {a b : Vma} {maxMapCount r : ℕ}

theorem Vma.Alike.classify_eq {p : ℕ} (h : a.Alike b p) {isMapped : Bool}
    {access : FaultAccess} : a.classify isMapped p access = b.classify isMapped p access := by
  have hstate : a.vmPageState p = b.vmPageState p := by
    unfold vmPageState frameState
    rw [h.mem, h.entry]
  have hmapping : a.vmMapping = b.vmMapping := by
    unfold vmMapping
    rw [h.shared]
  have hkind : a.vmKind = b.vmKind := by
    unfold vmKind
    rw [h.elfLazy, h.mapFile]
  unfold classify classifyStored vmIsStaleLazy
  rw [hstate, hmapping, hkind]

theorem Vma.Alike.forkPage_eq {p : ℕ} (h : a.Alike b p) : a.forkPage p = b.forkPage p := by
  unfold forkPage forkPerm vmIsUser
  rw [h.mapPerm, h.dontFork, h.wipeOnFork, h.entry, h.shared, h.mapFile]

/-- **Nothing but these attributes matters.** -/
theorem Vma.Alike.behaviour_eq {p : ℕ} (h : a.Alike b p) : a.behaviour p = b.behaviour p := by
  have hfile : a.mapFile.isNone = b.mapFile.isNone := by
    rw [← not_isSome, ← not_isSome, h.mapFile]
  have hattributes : a.attributes = b.attributes := by
    unfold attributes vmMapping
    rw [h.shared, h.mapPerm, h.mayWrite, h.writeSealed, h.growsDown, h.stack, h.locked]
  have hprotect : a.protectVerdict = b.protectVerdict := by
    funext prot
    unfold protectVerdict
    rw [h.shared, h.writeSealed, h.mayWrite]
  have hadvise : a.adviseVerdict = b.adviseVerdict := by
    funext advice
    unfold adviseVerdict isAnonymousPrivate
    rw [hfile, h.anonymous, h.shared, h.mapPerm]
  have hallows : a.vmAllows = b.vmAllows := by
    funext access
    unfold vmAllows
    rw [h.mapPerm]
  have hdiscards : a.adviseDiscards = b.adviseDiscards := by
    unfold adviseDiscards
    rw [hfile, h.priv]
  unfold behaviour
  rw [hattributes, h.entry, hallows, h.forkPage_eq, hprotect, hadvise, hdiscards]
  congr 1
  funext isMapped access
  exact h.classify_eq

namespace VmPageStore

variable {s t : VmPageStore} {key ppn p : ℕ} {reserve : Bool}
  (h : s.allocInMemory key ppn reserve = (.ok (), t))
include h

/-- What a successful `alloc_in_memory` leaves: the page had no frame and has one now. -/
theorem frames_of_allocInMemory :
    (s.frames.get? key = none ∨ s.frames.get? key = some .unallocated) ∧
      t.frames.get? key = some (.inMemory ppn) ∧
      ∀ q, q ≠ key → t.frames.get? q = s.frames.get? q := by
  unfold allocInMemory at h
  split at h
  · rename_i hkey
    have hin : ∀ frames, containsVpn { s with frames := frames } key = true := fun _ => hkey
    dsimp only at h
    cases reserve with
    | false => split at h <;> split_ifs at h <;> simp [recordActive, hin] at h
    | true =>
      split at h
      · rename_i hstale
        split_ifs at h with hsome
        · simp at h
        simp only [recordActive, hin, if_true, Prod.mk.injEq, true_and] at h
        subst h
        refine ⟨.inr hstale, get?_insert_self .., fun q hq => ?_⟩
        rw [get?_insert_of_ne _ hq, get?_erase_of_ne _ hq]
      · split_ifs at h with hsome
        · simp at h
        simp only [recordActive, hkey, if_true, Prod.mk.injEq, true_and] at h
        subst h
        exact ⟨.inl (by simpa using hsome), get?_insert_self .., fun q hq =>
          get?_insert_of_ne _ hq⟩
  · cases h

/-- A resident page stays resident while another one gets its frame. -/
theorem get?_of_allocInMemory {ppn' : ℕ}
    (hp : s.frames.get? p = some (.inMemory ppn')) : t.frames.get? p = some (.inMemory ppn') := by
  obtain ⟨hfree, -, hsame⟩ := frames_of_allocInMemory h
  grind

end VmPageStore

namespace VmaSet

/-- The behaviour of a page, if it is mapped. -/
def behaviourAt (vmas : OrdMap ℕ Vma) (p : ℕ) : Option PageBehaviour :=
  (valueAt vmEnd vmas p).map fun a => a.behaviour p

/-! ## The merged mapping -/

section Merged

variable {arch : Arch} {s : VmaSet} {startVa len : ℕ} {prot : MapPermission} {flags : MapFlags}

/-- A successful merge: the neighbour `area` at `key` is replaced by `grown`. -/
structure Merge (s merged : VmaSet) (startVa len : ℕ) (prot : MapPermission) (flags : MapFlags)
    (key : ℕ) (area grown : Vma) : Prop where
  get : s.vmas.get? key = some area
  last : s.vmas.lastLE? (floor startVa) = some (key, area)
  adjacent : area.vmEnd = floor startVa
  canMerge : area.vmCanMergeLazyPrivate prot flags = true
  grow : area.expandTo (startVa + len) = .ok grown
  free : ∀ p, floor startVa ≤ p → p < ceil (startVa + len) → ¬ Mapped s.vmas p
  vmas : merged.vmas = s.vmas.insert key grown

theorem merge_of_tryMerge (hinv : Inv arch s) {merged : VmaSet}
    (h : s.tryMergeLazyPrivateMmap arch startVa len prot flags = (.ok (some r), merged)) :
    ∃ key area grown, Merge s merged startVa len prot flags key area grown := by
  unfold tryMergeLazyPrivateMmap at h
  dsimp only at h
  split at h
  · cases h
  split at h
  · cases h
  rename_i hbusy
  have hfree : ∀ p, floor startVa ≤ p → p < ceil (startVa + len) →
      ¬ Mapped s.vmas p := fun p h₁ h₂ =>
    ((hinv.cover p).mp (inHole_of_isMmapRangeFree (by simpa using hbusy) h₁ h₂)).2
  split at h
  · cases h
  rename_i key area hlast
  have hget := (lastLE?_eq_some_iff.mp hlast).1
  split at h
  · cases h
  rename_i hno
  rw [Bool.or_eq_true, not_or, decide_eq_true_eq, not_not, Bool.not_eq_true',
    Bool.not_eq_false] at hno
  split at h
  · cases h
  rename_i grown hgrow
  refine ⟨key, area, grown, hget, hlast, hno.1, hno.2, hgrow, hfree, ?_⟩
  rw [← (Prod.mk.inj h).2]
  split
  all_goals exact congrArg (·.insert key grown) reserveMmapRange_vmas

variable {merged : VmaSet} {key : ℕ} {area grown : Vma}
  (h : Merge s merged startVa len prot flags key area grown)
include h

/-- Only the store of the neighbour changes. -/
theorem Merge.grown_eq :
    ∃ inner, grown = { area with inner := inner } ∧ inner.vpnRange.getStart = area.vmStart ∧
      inner.vpnRange.getEnd = ceil (startVa + len) ∧ area.vmEnd ≤ inner.vpnRange.getEnd ∧
      ∀ p, inner.containsVpn p = true → inner.frames.get? p = area.inner.frames.get? p := by
  have hgrow := h.grow
  unfold expandTo at hgrow
  split at hgrow
  · cases hgrow
  rename_i hle
  split at hgrow
  · cases hgrow
  rename_i inner hset
  obtain ⟨hstart, hend⟩ := setEnd_vpnRange hset
  refine ⟨inner, (ok.inj hgrow).symm, hstart, hend, hend ▸ Nat.le_of_not_lt hle, ?_⟩
  unfold setEnd at hset
  split at hset
  · intro p hp
    rw [← ok.inj hset] at hp ⊢
    change (area.inner.frames.retain _).get? p = _
    rw [get?_retain]
    cases area.inner.frames.get? p with
    | none => rfl
    | some frame => exact filter_some_pos hp
  · cases hset

/-- The mapping of a page after the merge. -/
theorem Merge.valueAt_eq (hmap : MapInv s.vmas) {p : ℕ} : valueAt vmEnd merged.vmas p =
      if area.vmStart ≤ p ∧ p < grown.vmEnd then some grown else valueAt vmEnd s.vmas p := by
  obtain ⟨inner, rfl, hstart, hend, hle, -⟩ := h.grown_eq
  have hkey := hmap.key key area h.get
  have hne := hmap.nonempty h.get
  have hend' : ({ area with inner := inner } : Vma).vmEnd = ceil (startVa + len) := hend
  have hle' : area.vmEnd ≤ ({ area with inner := inner } : Vma).vmEnd := hle
  have hfree : ∀ p, key ≤ p → p < ({ area with inner := inner } : Vma).vmEnd →
      ¬ Mapped (s.vmas.erase key) p := by
    intro p h₁ h₂ hmapped
    rw [Mapped, hmap.spaced.covers_erase h.get] at hmapped
    by_cases hold : p < area.vmEnd
    · exact hmapped.2 ⟨h₁, hold⟩
    · exact h.free p (by rw [← h.adjacent]; omega) (hend' ▸ h₂) hmapped.1
  rw [h.vmas, ← insert_erase_self, (hmap.erase key).spaced.valueAt_insert (by omega) hfree,
    hkey, hmap.spaced.valueAt_erase h.get]
  grind

end Merged

/-! ## The separate mapping -/

theorem behaviour_adopt {s : VmaSet} {p : ℕ} : (s.adopt a).behaviour p = a.behaviour p := by
  unfold adopt
  cases s.owner <;> rfl

/-- A mapping stored on its own brings its own behaviour. -/
theorem behaviourAt_insertVma {arch : Arch} {s t : VmaSet}
    (h : MapInv s.vmas) (hok : s.insertVma arch maxMapCount a = (.ok (), t)) {p : ℕ} :
    behaviourAt t.vmas p =
      if a.vmStart ≤ p ∧ p < a.vmEnd then some (a.behaviour p) else behaviourAt s.vmas p := by
  obtain ⟨hlt, hfree, hput⟩ := insertVma_eq_ok h hok
  let reserved := s.reserveMmapRange arch a.vmStart a.vmEnd
  have hshape := adopt_sameShape reserved a
  have hvmas : t.vmas = s.vmas.insert a.vmStart (reserved.adopt a) := by
    grind [putVma, Vma.SameShape.vmStart, reserveMmapRange_vmas]
  rw [behaviourAt, hvmas, h.spaced.valueAt_insert (hshape.vmEnd ▸ hlt)
    (fun q h₁ h₂ => hfree q h₁ (hshape.vmEnd ▸ h₂)), hshape.vmEnd]
  split_ifs
  · rw [map_some, behaviour_adopt]
  · rfl

end VmaSet

namespace AddressSpace

variable {M : Type} {arch : Arch} {as : AddressSpace M} {args : MmapArgs} {env : MmapEnv}
  {startVa : ℕ}

/-- A page that has a frame keeps it while other frames are allocated. -/
theorem get?_preallocate {p ppn : ℕ} :
    ∀ (vpns : List ℕ) (area area' : Vma), preallocate env vpns area = .ok area' →
      area.inner.frames.get? p = some (.inMemory ppn) →
      area'.inner.frames.get? p = some (.inMemory ppn) := by
  intro vpns
  induction vpns with
  | nil =>
    intro area area' h hp
    rw [← ok.inj h]
    exact hp
  | cons vpn vpns ih =>
    intro area area' h hp
    rw [preallocate] at h
    split at h
    any_goals cases h
    rename_i next hone
    refine ih next area' h ?_
    unfold allocOneZeroedUnmapped at hone
    grind [get?_of_allocInMemory]

/-- A word that contains some bits contains any of them. -/
theorem contains_of_contains {a b c : MapFlags} (h : a.contains b = true)
    (hbc : b.contains c = true) : a.contains c = true := by
  grind [MapFlags.contains]

/-- All that the merge test has established. -/
structure Mergeable (area : Vma) (args : MmapArgs) : Prop where
  area_anonymous : area.flags.contains (.union .MAP_PRIVATE .MAP_ANONYMOUS) = true
  args_anonymous : args.flags.contains (.union .MAP_PRIVATE .MAP_ANONYMOUS) = true
  mapPerm : args.prot = area.mapPerm
  mapFile : area.mapFile = none
  wipeOnFork : area.wipeOnFork = false
  dontFork : area.dontFork = false

theorem mergeable_of_vmCanMerge {area : Vma}
    (h : area.vmCanMergeLazyPrivate args.prot args.flags = true) : Mergeable area args := by
  unfold vmCanMergeLazyPrivate at h
  simp only [Bool.and_eq_true, decide_eq_true_eq, isNone_iff_eq_none, Bool.not_eq_true'] at h
  obtain ⟨⟨⟨⟨⟨⟨harea, hargs⟩, hperm⟩, hfile⟩, hwipe⟩, hdont⟩, -⟩ := h
  exact ⟨harea, hargs, hperm, hfile, hwipe, hdont⟩

/-- The request on its own: its pages behave as its own mapping says, all others as before. -/
theorem behaviourAt_mapAt (hmap : MapInv as.vmas.vmas)
    (hanon : args.flags.contains .MAP_ANONYMOUS = true) {separate : AddressSpace M}
    (hsep : as.mapAt arch env args startVa = (.ok r, separate)) :
    ∃ area, backShared env args (bareArea args startVa) = .ok area ∧ ∀ p,
      behaviourAt separate.vmas.vmas p =
        if floor startVa ≤ p ∧ p < ceil (startVa + args.len) then some (area.behaviour p)
        else behaviourAt as.vmas.vmas p := by
  rcases mapAt_cases arch env as args startVa with
    ⟨e, herr⟩ | ⟨area₀, area, vmas, -, hfile, hshared, -, hinsert, hok⟩
  · rw [hsep] at herr
    cases herr
  rw [backFile, if_pos hanon] at hfile
  rw [← ok.inj hfile] at hshared
  have hshape : (bareArea args startVa).SameShape area := by
    unfold backShared at hshared
    grind [preallocate_sameShape, Vma.SameShape.refl]
  have hvmas : separate.vmas = vmas := by
    rw [hsep] at hok
    rw [(Prod.mk.inj hok).2]
    split_ifs <;> rfl
  refine ⟨area, hshared, fun p => ?_⟩
  rw [hvmas, behaviourAt_insertVma hmap hinsert, hshape.vmStart, hshape.vmEnd]
  rfl

/-- What the merge test leaves out: the neighbour and the request have the same sharing type and the
same limits, growth, stack and lock attributes, the neighbour is not an executable image, and the
request is not one whose frames have to be there from the start. -/
structure MergeSafe (area : Vma) (args : MmapArgs) : Prop where
  mapping : area.flags.contains .MAP_SHARED = args.flags.contains .MAP_SHARED
  lazy : (args.flags.contains .MAP_SHARED && args.prot.contains .W) = false
  mayWrite : area.mayWrite = args.mayWrite
  writeSealed : area.writeSealed = args.writeSealed
  growsDown : area.flags.contains .MAP_GROWSDOWN = args.flags.contains .MAP_GROWSDOWN
  stack : area.flags.contains .MAP_STACK = args.flags.contains .MAP_STACK
  locked : area.flags.contains .MAP_LOCKED = args.flags.contains .MAP_LOCKED
  elfLazy : area.elfLazy = none

/-- The request has a mapping of its own without frames, unless it is shared and writable. -/
theorem backShared_bareArea {area : Vma}
    (h : backShared env args (bareArea args startVa) = .ok area) :
    ((args.flags.contains .MAP_SHARED && args.prot.contains .W) = false ∧
        area = bareArea args startVa) ∨ (0 < args.len →
        ∃ ppn, area.inner.frames.get? (floor startVa) = some (.inMemory ppn)) := by
  have htest : sharedAnonymous args (bareArea args startVa) =
      (args.flags.contains .MAP_SHARED && args.prot.contains .W) := by
    show (args.flags.contains .MAP_SHARED && true && args.prot.contains .W) = _
    rw [Bool.and_true]
  unfold backShared at h
  rw [htest] at h
  split at h
  · refine .inr fun hlen => ?_
    split at h
    · cases h
    obtain ⟨n, hn⟩ := exists_pages_bareArea hlen
    rw [hn, List.range'_succ, preallocate] at h
    split at h
    any_goals cases h
    rename_i next hone
    unfold allocOneZeroedUnmapped at hone
    split at hone
    · cases hone
    rename_i ppn _
    split at hone
    · cases hone
    rename_i inner halloc
    refine ⟨ppn, get?_preallocate _ next area h ?_⟩
    rw [← ok.inj hone]
    exact (frames_of_allocInMemory halloc).2.1
  · grind

/-! ## The comparison -/

section Compare

variable {merged : VmaSet} {key : ℕ} {area grown : Vma}

section

variable {p : ℕ} (h : Merge as.vmas merged startVa args.len args.prot args.flags key area grown)
include h

/-- The pages of the neighbour behave as before. -/
theorem behaviour_grown_old
    (hp : area.vmStart ≤ p ∧ p < area.vmEnd) : grown.behaviour p = area.behaviour p := by
  obtain ⟨inner, rfl, hstart, -, hle, hframes⟩ := h.grown_eq
  have hin : inner.containsVpn p = true := by grind [containsVpn]
  have hin' : area.inner.containsVpn p = true := by
    rw [containsVpn, Bool.and_eq_true, decide_eq_true_eq, decide_eq_true_eq]
    exact hp
  have halike : Alike { area with inner := inner } area p :=
    { mem := hin.trans hin'.symm
      entry := hframes p hin
      mapPerm := rfl, mapFile := rfl, elfLazy := rfl, mayWrite := rfl, writeSealed := rfl
      wipeOnFork := rfl, dontFork := rfl, shared := rfl, priv := rfl, anonymous := rfl
      growsDown := rfl, stack := rfl, locked := rfl }
  exact halike.behaviour_eq

/-- The pages of the request have no entry in the store of the neighbour. -/
theorem get?_grown_new (hkeyed : area.inner.Keyed)
    (hp : floor startVa ≤ p ∧ p < ceil (startVa + args.len)) (hstart : area.vmStart ≤ p) :
    grown.inner.containsVpn p = true ∧ grown.inner.frames.get? p = none := by
  obtain ⟨inner, rfl, hs, he, -, hframes⟩ := h.grown_eq
  have hin : inner.containsVpn p = true := by grind [containsVpn]
  refine ⟨hin, (hframes p hin).trans ?_⟩
  cases hentry : area.inner.frames.get? p with
  | none => rfl
  | some frame =>
    have hold := hkeyed p frame hentry
    rw [containsVpn, Bool.and_eq_true, decide_eq_true_eq, decide_eq_true_eq] at hold
    have hadj : area.inner.vpnRange.getEnd = floor startVa := h.adjacent
    omega

/-- A request that agrees with its neighbour behaves on its pages as the neighbour does. -/
theorem behaviour_grown_new (hkeyed : area.inner.Keyed) (hsafe : MergeSafe area args)
    (hp : floor startVa ≤ p ∧ p < ceil (startVa + args.len))
    (hstart : area.vmStart ≤ p) : grown.behaviour p = (bareArea args startVa).behaviour p := by
  obtain ⟨hin, hentry⟩ := get?_grown_new h hkeyed hp hstart
  have hcan := mergeable_of_vmCanMerge h.canMerge
  have hpriv : MapFlags.contains (.union .MAP_PRIVATE .MAP_ANONYMOUS) .MAP_PRIVATE = true := by
    decide
  obtain ⟨inner, rfl, -⟩ := h.grown_eq
  have hnew : (bareArea args startVa).inner.containsVpn p = true := by
    rw [containsVpn, Bool.and_eq_true, decide_eq_true_eq, decide_eq_true_eq]
    exact hp
  have halike : Alike { area with inner := inner } (bareArea args startVa) p :=
    { mem := hin.trans hnew.symm
      entry := hentry.trans (get?_empty p).symm
      mapPerm := hcan.mapPerm.symm
      mapFile := by rw [hcan.mapFile]; rfl
      elfLazy := by rw [hsafe.elfLazy]; rfl
      mayWrite := hsafe.mayWrite
      writeSealed := hsafe.writeSealed
      wipeOnFork := hcan.wipeOnFork
      dontFork := hcan.dontFork
      shared := hsafe.mapping
      priv := (contains_of_contains hcan.area_anonymous hpriv).trans
        (contains_of_contains hcan.args_anonymous hpriv).symm
      anonymous := hcan.area_anonymous.trans hcan.args_anonymous.symm
      growsDown := hsafe.growsDown
      stack := hsafe.stack
      locked := hsafe.locked }
  exact halike.behaviour_eq

end

theorem vmMapping_eq_iff : a.vmMapping = b.vmMapping ↔
    a.flags.contains .MAP_SHARED = b.flags.contains .MAP_SHARED := by
  grind [vmMapping]

/-- The first page of the request tells a neighbour that does not agree with it. -/
theorem mergeSafe_of_behaviour_eq
    (h : Merge as.vmas merged startVa args.len args.prot args.flags key area grown)
    (hkeyed : area.inner.Keyed) (hlen : 0 < args.len) {separate : Vma}
    (hback : backShared env args (bareArea args startVa) = .ok separate)
    (hstart : area.vmStart ≤ floor startVa)
    (heq : grown.behaviour (floor startVa) = separate.behaviour (floor startVa)) :
    MergeSafe area args := by
  obtain ⟨hin, hentry⟩ := get?_grown_new h hkeyed ⟨le_rfl, floor_lt_ceil hlen⟩ hstart
  rcases backShared_bareArea hback with ⟨hlazy, rfl⟩ | hframe
  · obtain ⟨inner, rfl, -⟩ := h.grown_eq
    have hattr := congrArg PageBehaviour.attributes heq
    have helf : area.elfLazy = none := by
      by_contra hsome
      have hkind : ({ area with inner := inner } : Vma).vmKind = .elfLazy :=
        if_pos (isSome_iff_ne_none.mpr hsome)
      have hfault := congrArg (fun b => b.fault false .load) heq
      have hleft : ({ area with inner := inner } : Vma).classify false (floor startVa)
          .load = .ok .elfLazy := by
        unfold classify classifyStored vmPageState frameState
        rw [hkind, if_neg (by decide), hentry]
        rw [if_pos hin]
      have hnew : (bareArea args startVa).inner.containsVpn (floor startVa) = true := by
        rw [containsVpn, Bool.and_eq_true, decide_eq_true_eq, decide_eq_true_eq]
        exact ⟨le_rfl, floor_lt_ceil hlen⟩
      have hright : (bareArea args startVa).classify false (floor startVa) .load
          = .ok .lazyAlloc := by
        show (bareArea args startVa).classifyStored _ _ = _
        unfold classifyStored vmPageState frameState
        rw [if_pos hnew]
        rfl
      cases hleft.symm.trans (hfault.trans hright)
    exact
      { mapping := vmMapping_eq_iff.mp (congrArg MapAttributes.mapping hattr)
        lazy := hlazy
        mayWrite := congrArg MapAttributes.mayWrite hattr
        writeSealed := congrArg MapAttributes.writeSealed hattr
        growsDown := congrArg MapAttributes.growsDown hattr
        stack := congrArg MapAttributes.stack hattr
        locked := congrArg MapAttributes.locked hattr
        elfLazy := helf }
  · -- the frames of the request are there from the start, those of the neighbour are not
    obtain ⟨ppn, hppn⟩ := hframe hlen
    have hsame : grown.inner.frames.get? _ = separate.inner.frames.get? _ :=
      congrArg PageBehaviour.entry heq
    rw [hentry, hppn] at hsame
    cases hsame

end Compare

/-- **The merged mapping behaves like the two separate ones** on every page, for the attributes as
for every later fault, fork, `mprotect` and `madvise`, exactly when the request agrees with its
neighbour in what the merge test does not look at. -/
theorem behaviours_of_merge_iff (hinv : Inv arch as.vmas)
    (hstores : ∀ k a, as.vmas.vmas.get? k = some a → a.inner.Keyed) (hlen : 0 < args.len)
    {r r' : ℕ} {merged : VmaSet} {separate : AddressSpace M}
    (hmerge : as.vmas.tryMergeLazyPrivateMmap arch startVa args.len args.prot args.flags =
      (.ok (some r), merged)) (hsep : as.mapAt arch env args startVa = (.ok r', separate)) :
    (∀ p, behaviourAt merged.vmas p = behaviourAt separate.vmas.vmas p) ↔
      ∀ key area, as.vmas.vmas.lastLE? (floor startVa) = some (key, area) →
        MergeSafe area args := by
  obtain ⟨key, area, grown, h⟩ := merge_of_tryMerge hinv hmerge
  have hcan := mergeable_of_vmCanMerge h.canMerge
  obtain ⟨new, hback, hnew⟩ := behaviourAt_mapAt hinv.map
    (contains_of_contains hcan.args_anonymous (by decide)) hsep
  have hkeyed := hstores key area h.get
  have hne := hinv.map.nonempty h.get
  have hadj := h.adjacent
  have hstart : area.vmStart ≤ floor startVa := by omega
  have hend : grown.vmEnd = ceil (startVa + args.len) := by
    obtain ⟨inner, rfl, -, hend, -⟩ := h.grown_eq
    exact hend
  have hlt : floor startVa < ceil (startVa + args.len) := floor_lt_ceil hlen
  have hmerged : ∀ p, behaviourAt merged.vmas p =
      if area.vmStart ≤ p ∧ p < grown.vmEnd then some (grown.behaviour p)
      else behaviourAt as.vmas.vmas p := by
    intro p
    rw [behaviourAt, h.valueAt_eq hinv.map]
    split_ifs
    all_goals rfl
  constructor
  · intro hsame key' area' hlast
    obtain ⟨rfl, rfl⟩ := Prod.mk.inj (some.inj (hlast.symm.trans h.last))
    have hfirst := hsame (floor startVa)
    rw [hmerged, hnew, if_pos ⟨hstart, hend ▸ hlt⟩, if_pos ⟨le_rfl, hlt⟩] at hfirst
    exact mergeSafe_of_behaviour_eq h hkeyed hlen hback hstart (some.inj hfirst)
  · intro hall p
    have hsafe := hall key area h.last
    have hbare : new = bareArea args startVa := by
      unfold backShared at hback
      have htest : sharedAnonymous args (bareArea args startVa) = false := by
        show (args.flags.contains .MAP_SHARED && true && args.prot.contains .W) = false
        rw [Bool.and_true]
        exact hsafe.lazy
      rw [htest] at hback
      exact (ok.inj hback).symm
    rw [hmerged, hnew]
    by_cases hin : floor startVa ≤ p ∧ p < ceil (startVa + args.len)
    · rw [if_pos hin, if_pos ⟨hstart.trans hin.1, hend ▸ hin.2⟩, hbare,
        behaviour_grown_new h hkeyed hsafe hin (hstart.trans hin.1)]
    · rw [if_neg hin]
      by_cases hold : area.vmStart ≤ p ∧ p < area.vmEnd
      · have hkey := hinv.map.key key area h.get
        have hvalue : valueAt vmEnd as.vmas.vmas p = some area :=
          hinv.map.spaced.valueAt_eq_some_iff.mpr ⟨key, h.get, by omega, hold.2⟩
        rw [if_pos ⟨hold.1, by omega⟩, behaviour_grown_old h hold, behaviourAt, hvalue]
        rfl
      · rw [if_neg (by omega)]

/-! ## Two requests behind one page -/

/-- A request for one anonymous page that can be read and written. -/
def anonymousPage (type : MapFlags) : MmapArgs where
  start := 0
  len := pageSize
  prot := .union .R (.union .W .U)
  flags := .union .MAP_ANONYMOUS type
  offset := 0
  mapFile := none
  mayWrite := true
  writeSealed := false

/-- An address space with a private anonymous page at the bottom of the arena. -/
def neighbourSpace : AddressSpace NoPages :=
  { twoPagesSpace with
    vmas := (insertVma .riscv 8 (new .riscv)
      (bareArea (anonymousPage .MAP_PRIVATE) 0x20000000)).2 }

theorem inv_neighbourSpace : Inv .riscv neighbourSpace.vmas := by
  refine (VmaSet.Inv.new .riscv).insertVma ⟨by decide, fun h => ?_⟩
  exact absurd h (by decide)

theorem get?_neighbourSpace {k : ℕ} (h : neighbourSpace.vmas.vmas.get? k = some a) :
    a = bareArea (anonymousPage .MAP_PRIVATE) 0x20000000 := by
  have hvmas : neighbourSpace.vmas.vmas =
      empty.insert 0x20000 (bareArea (anonymousPage .MAP_PRIVATE) 0x20000000) := rfl
  simp_all [get?_insert]

/-- A second private page may join the first. -/
theorem behaviours_of_twoPrivatePages : ∃ merged separate,
      neighbourSpace.vmas.tryMergeLazyPrivateMmap .riscv 0x20001000 pageSize
        (.union .R (.union .W .U)) (.union .MAP_ANONYMOUS .MAP_PRIVATE) =
          (.ok (some 0x20001000), merged) ∧
      neighbourSpace.mapAt .riscv (noFrames 8) (anonymousPage .MAP_PRIVATE) 0x20001000 =
        (.ok 0x20001000, separate) ∧
      ∀ p, behaviourAt merged.vmas p = behaviourAt separate.vmas.vmas p := by
  have hmerge : neighbourSpace.vmas.tryMergeLazyPrivateMmap .riscv 0x20001000
      (anonymousPage .MAP_PRIVATE).len (anonymousPage .MAP_PRIVATE).prot
      (anonymousPage .MAP_PRIVATE).flags = (.ok (some 0x20001000), _) :=
    Prod.ext (by decide) rfl
  have hsep : neighbourSpace.mapAt .riscv (noFrames 8) (anonymousPage .MAP_PRIVATE) 0x20001000 =
      (.ok 0x20001000, _) :=
    Prod.ext (by decide) rfl
  refine ⟨_, _, hmerge, hsep, (behaviours_of_merge_iff inv_neighbourSpace (fun k a h => ?_)
    (by decide) hmerge hsep).mpr fun key area h => ?_⟩
  · rw [get?_neighbourSpace h]
    exact inv_tryNew.key_mem
  · rw [get?_neighbourSpace (lastLE?_eq_some_iff.mp h).1]
    exact ⟨rfl, by decide, rfl, rfl, rfl, rfl, rfl, rfl⟩

/-- A frame for every page. -/
def someFrames : MmapEnv where
  limits := ⟨8, 1, 0, 0⟩
  frameAlloc vpn := some vpn
  reserve _ := true

/-- **A shared page is appended to a private one.**  It is private from then on, and a child of a
fork gets a copy instead of the page itself. -/
theorem shared_page_merged : ∃ merged separate,
      neighbourSpace.vmas.tryMergeLazyPrivateMmap .riscv 0x20001000 pageSize
        (.union .R (.union .W .U)) (.union .MAP_ANONYMOUS .MAP_SHARED_VALIDATE) =
          (.ok (some 0x20001000), merged) ∧
      neighbourSpace.mapAt .riscv someFrames (anonymousPage .MAP_SHARED_VALIDATE) 0x20001000 =
        (.ok 0x20001000, separate) ∧
      (behaviourAt merged.vmas 0x20001).map (fun b => (b.attributes.mapping,
        b.fork.map fun page => (page.entry, page.protectParentForCow))) =
          some (.priv, some (none, true)) ∧
      (behaviourAt separate.vmas.vmas 0x20001).map (fun b => (b.attributes.mapping,
        b.fork.map fun page => (page.entry, page.protectParentForCow))) =
          some (.shared, some (some (.inMemory 0x20001), false)) :=
  ⟨_, _, Prod.ext (by decide) rfl, Prod.ext (by decide +kernel) rfl, by decide +kernel,
    by decide⟩

end AddressSpace
end MangoCore.Mm
