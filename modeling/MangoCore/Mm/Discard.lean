import MangoCore.Mm.AnonFault
import MangoCore.Mm.FrameStoreRuns
import MangoCore.Mm.VmaSetReachable

/-!
# Pages that are not needed any more

`madvise` with `MADV_DONTNEED` promises that a private anonymous page reads as zero on its next
access.  `discard_range` walks the resident pages of the range, takes them out of the page table and
out of the store, and the next load finds a page that was never touched.  A page that was compressed
or swapped out is not resident, so the walk passes it by: its entry and its slot stay, and the next
load brings the old contents back.

`Coherent` is what the page table owes to the mappings: an entry for an anonymous page leads to the
frame in its store.  Under it the promise is kept on a range exactly when no page of the range was
moved out of memory.
-/

namespace MangoCore.Mm

open IntervalMap Function VmaSet VmPageStore UserTable FaultState Option OrdMap VPNRange Vma
open Mm.Frame

/-! ## The walk over the resident pages -/

theorem Frame.isInMemory_iff {f : Frame} : f.isInMemory = true ↔ ∃ ppn, f = .inMemory ppn := by
  cases f <;> simp [isInMemory]

namespace VmPageStore

variable {s : VmPageStore} {start stop vpn : ℕ} {ppn : ℕ}

theorem firstInMemoryVpnInRange_eq_some (h : s.firstInMemoryVpnInRange start stop = some vpn) :
    start ≤ vpn ∧ vpn < stop ∧ (∃ ppn, s.frames.get? vpn = some (.inMemory ppn)) ∧
      ∀ p ppn, start ≤ p → p < stop → s.frames.get? p = some (.inMemory ppn) → vpn ≤ p := by
  unfold firstInMemoryVpnInRange at h
  obtain ⟨e, hfind, rfl⟩ := map_eq_some_iff.mp h
  obtain ⟨hget, htest, hfirst⟩ := find?_entries hfind
  simp only [Bool.and_eq_true, decide_eq_true_eq] at htest
  refine ⟨htest.1.1, htest.1.2, ?_, fun p ppn h₁ h₂ hp => hfirst p _ hp ?_⟩
  · grind [isInMemory_iff]
  · simp [h₁, h₂, isInMemory]

theorem firstInMemoryVpnInRange_eq_none (h : s.firstInMemoryVpnInRange start stop = none) {p : ℕ}
    (h₁ : start ≤ p) (h₂ : p < stop) : s.frames.get? p ≠ some (.inMemory ppn) := by
  unfold firstInMemoryVpnInRange at h
  rw [map_eq_none_iff, List.find?_eq_none] at h
  intro hp
  refine h (p, .inMemory ppn) (mem_entries_iff.mpr hp) ?_
  simp only [Bool.and_eq_true, decide_eq_true_eq]
  exact ⟨⟨h₁, h₂⟩, rfl⟩

/-- A resident page is taken out; nothing else is touched. -/
theorem frames_removeInMemory (hin : s.containsVpn vpn = true)
    (hget : s.frames.get? vpn = some (.inMemory ppn)) : (s.removeInMemory vpn).1 = some ppn ∧
      (s.removeInMemory vpn).2.frames = s.frames.erase vpn := by
  grind [removeInMemory]

theorem exists_allocInMemory (hin : s.containsVpn vpn = true)
    (hentry : s.frames.get? vpn = none ∨ s.frames.get? vpn = some .unallocated) :
    ∃ t, s.allocInMemory vpn ppn true = (.ok (), t) := by
  unfold allocInMemory recordActive
  rw [if_pos hin]
  rcases hentry with hentry | hentry
  · simp [hentry, hin]
  · rw [hentry]
    have hin' : { s with frames := s.frames.erase vpn }.containsVpn vpn = true := hin
    simp [hin']

end VmPageStore

namespace Vma

/-- A resident page of `[lo, hi)`. -/
def ResidentIn (a : Vma) (lo hi p : ℕ) : Prop :=
  (lo ≤ p ∧ p < hi) ∧ ∃ ppn, a.inner.frames.get? p = some (.inMemory ppn)

/-- The walk over `[lo, hi)` takes the resident pages out of the store and the page table, and
leaves everything else. -/
structure Dropped (a a' : Vma) (t t' : UserTable) (lo hi : ℕ) : Prop where
  area : ∃ inner, a' = { a with inner := inner } ∧ inner.vpnRange = a.inner.vpnRange
  gone : ∀ p, a.ResidentIn lo hi p → a'.inner.frames.get? p = none ∧ t'.pte p = none
  kept : ∀ p, ¬ a.ResidentIn lo hi p →
    a'.inner.frames.get? p = a.inner.frames.get? p ∧ t'.pte p = t.pte p

variable {a : Vma} {t : UserTable} {cursor stop vpn : ℕ}

theorem dropResident_eq {ppn : ℕ} (hin : a.inner.containsVpn vpn = true)
    (hget : a.inner.frames.get? vpn = some (.inMemory ppn)) :
    a.dropResident t vpn =
      (.ok (), { a with inner := (a.inner.removeInMemory vpn).2 }, t.set vpn none) := by
  have hremove := (frames_removeInMemory hin hget).1
  have hunmap : (UserMapper.unmapUserPageIfMapped t vpn : Except MemoryError Bool × UserTable) =
      (.ok (t.isMapped vpn), t.set vpn none) := by
    show t.unmapUserPageIfMapped vpn = _
    unfold unmapUserPageIfMapped
    split
    · rename_i hmapped
      rw [hmapped]
    · rename_i hmapped
      have hnone : t.pte vpn = none := by simpa [isMapped] using hmapped
      rw [UserTable.set, ← hnone, update_eq_self]
      simpa using hmapped
  unfold dropResident
  rw [hunmap]
  rcases hr : a.inner.removeInMemory vpn with ⟨frame, inner⟩
  rw [hr] at hremove
  rw [show frame = some ppn from hremove]
  dsimp only
  split
  · rfl
  · rfl

theorem Dropped.of_none (h : ∀ p, ¬ a.ResidentIn cursor stop p) : Dropped a a t t cursor stop :=
  ⟨⟨a.inner, rfl, rfl⟩, fun p hp => absurd hp (h p), fun _ _ => ⟨rfl, rfl⟩⟩

theorem dropResidentLoop_dropped :
    ∀ (fuel cursor : ℕ) (a : Vma) (t : UserTable), a.vmStart ≤ cursor → stop ≤ a.vmEnd →
      stop ≤ cursor + fuel →
      ∃ a' t', dropResidentLoop stop fuel cursor a t = (.ok (), a', t') ∧
        Dropped a a' t t' cursor stop := by
  intro fuel
  induction fuel with
  | zero =>
    intro cursor a t _ _ hfuel
    exact ⟨a, t, rfl, .of_none fun p hp => by have := hp.1; omega⟩
  | succ fuel ih =>
    intro cursor a t hstart hstop hfuel
    rw [dropResidentLoop]
    cases hfirst : a.inner.firstInMemoryVpnInRange cursor stop with
    | none => grind [Dropped.of_none, ResidentIn, firstInMemoryVpnInRange_eq_none]
    | some vpn =>
      obtain ⟨h₁, h₂, ⟨ppn, hget⟩, hleast⟩ :=
        firstInMemoryVpnInRange_eq_some hfirst
      have hin : a.inner.containsVpn vpn = true := by
        have hs : a.vmStart = a.inner.vpnRange.getStart := rfl
        have he : a.vmEnd = a.inner.vpnRange.getEnd := rfl
        grind [containsVpn]
      have hrange := removeInMemory_vpnRange a.inner vpn
      have hframes := (frames_removeInMemory hin hget).2
      dsimp only
      rw [dropResident_eq hin hget]
      let b : Vma := { a with inner := (a.inner.removeInMemory vpn).2 }
      have hs : b.vmStart = a.vmStart := congrArg getStart hrange
      have he : b.vmEnd = a.vmEnd := congrArg getEnd hrange
      obtain ⟨a', t', hloop, ⟨inner, rfl, hinner⟩, hgone, hkept⟩ :=
        ih (vpn + 1) b (t.set vpn none) (by omega) (by omega) (by omega)
      have hb : ∀ p, p ≠ vpn → b.inner.frames.get? p = a.inner.frames.get? p := fun p hp =>
        (congrArg (get? · p) hframes).trans (get?_erase_of_ne _ hp)
      have hbv : b.inner.frames.get? vpn = none :=
        (congrArg (get? · vpn) hframes).trans (get?_erase_self ..)
      -- behind `vpn` the rest of the walk sees the pages as they were, before it there are none
      have hres : ∀ p, p ≠ vpn →
          (b.ResidentIn (vpn + 1) stop p ↔ a.ResidentIn cursor stop p) := by
        intro p hp
        unfold ResidentIn
        rw [hb p hp]
        constructor
        · rintro ⟨hr, hppn⟩
          exact ⟨by omega, hppn⟩
        · grind
      have hvpn : ¬ b.ResidentIn (vpn + 1) stop vpn := fun hr => by
        have := hr.1.1
        omega
      refine ⟨_, t', hloop, ⟨inner, rfl, hinner.trans hrange⟩, fun p hp => ?_, fun p hp => ?_⟩
      · by_cases heq : p = vpn
        · obtain ⟨hf, ht⟩ := hkept vpn hvpn
          rw [heq]
          exact ⟨hf.trans hbv, ht.trans (update_self ..)⟩
        · exact hgone p ((hres p heq).mpr hp)
      · by_cases heq : p = vpn
        · exact absurd ⟨⟨by omega, by omega⟩, ppn, heq ▸ hget⟩ hp
        · obtain ⟨hf, ht⟩ := hkept p fun hr => hp ((hres p heq).mp hr)
          exact ⟨hf.trans (hb p heq), ht.trans (update_of_ne heq ..)⟩

theorem discardRange_dropped {lo hi : ℕ} (hlo : a.vmStart ≤ lo) (hhi : hi ≤ a.vmEnd) :
    ∃ a' t', a.discardRange t lo hi = (.ok (), a', t') ∧ Dropped a a' t t' lo hi := by
  unfold discardRange
  rw [if_neg (by
    rw [Bool.or_eq_true, decide_eq_true_eq, decide_eq_true_eq]
    omega)]
  exact dropResidentLoop_dropped (hi - lo) lo a t hlo hhi (by omega)

/-- A mapping of the user that is private and has nothing behind it. -/
structure IsPrivateAnonymous (a : Vma) : Prop where
  user : a.vmIsUser = true
  mapFile : a.mapFile = none
  elfLazy : a.elfLazy = none
  priv : a.flags.contains .MAP_PRIVATE = true
  notShared : a.flags.contains .MAP_SHARED = false

end Vma

/-! ## One call -/

namespace VmaSet

variable {s : VmaSet} {k : ℕ} {a : Vma} (h : MapInv s.vmas) (hk : s.vmas.get? k = some a)
include h hk

/-- Advice for a part of one mapping takes one round. -/
theorem adviseRange_dontneed
    (ha : a.IsPrivateAnonymous) {lo hi : ℕ} (hlo : a.vmStart ≤ lo) (hlt : lo < hi)
    (hhi : hi ≤ a.vmEnd) {maxMapCount : ℕ} {t : UserTable} :
    ∃ a' t', s.adviseRange maxMapCount t lo hi madvDontneed = (.ok (), s.updateVma k a', t') ∧
      a.Dropped a' t t' lo hi := by
  obtain ⟨a', t', hdiscard, hdropped⟩ := discardRange_dropped hlo hhi
  refine ⟨a', t', ?_, hdropped⟩
  obtain ⟨n, hn⟩ : ∃ n, hi - lo = n + 1 := ⟨hi - lo - 1, by omega⟩
  have hstep : s.adviseStep maxMapCount madvDontneed t k a lo hi =
      (.ok (), s.updateVma k a', t') := by
    unfold adviseStep
    rw [if_pos rfl, ha.mapFile, ha.priv, if_pos (by decide), hdiscard]
  have hend : (if a.vmEnd < hi then a.vmEnd else hi) = hi := if_neg (by omega)
  have hdone : ∀ (fuel : ℕ) (s : VmaSet) (t : UserTable),
      adviseLoop maxMapCount madvDontneed hi fuel hi s t = (.ok (), s, t) := by
    intro fuel s t
    cases fuel with
    | zero => rfl
    | succ fuel => rw [adviseLoop, if_neg (lt_irrefl hi)]
  rw [adviseRange, hn, adviseLoop, if_pos hlt, findUserVmaKey_of_get? h hk ha.user ⟨hlo, by omega⟩]
  dsimp only
  rw [hk]
  dsimp only
  rw [hend, hstep]
  exact hdone n _ t'

end VmaSet

/-! ## The next load -/

namespace FaultState

variable {B : Type} {zero : B} {env : FaultEnv B} {vpn ppn p : ℕ} {st : FaultState B}

/-- A page that is mapped to a cleared frame. -/
def Cleared (zero : B) (st : FaultState B) (p : ℕ) : Prop :=
  ∃ e, st.table.pte p = some e ∧ st.memory.frames e.ppn = zero

/-- Another cleared frame may be the same one, but it is cleared as well. -/
theorem Cleared.mapFrame (h : Cleared zero st p) (ppn : ℕ)
    (nodes reserve : Bool) (hvpn : st.table.isMapped vpn = false) :
    Cleared zero (st.mapFrame zero vpn ppn nodes reserve).2 p := by
  obtain ⟨e, hpte, hzero⟩ := h
  have hne : p ≠ vpn := by grind [isMapped]
  have hfill : ∀ ppn, update st.memory.frames ppn zero e.ppn = zero := by grind
  unfold FaultState.mapFrame
  dsimp only
  split
  · exact ⟨e, hpte, hfill ppn⟩
  · rcases (st.fill ppn zero).table.mapPageWithPerm_cases vpn ppn with ⟨err, hmap⟩ | ⟨-, -, hmap⟩
    · rw [hmap]
      exact ⟨e, hpte, hfill ppn⟩
    · rw [hmap]
      exact ⟨e, (update_of_ne hne ..).trans hpte, hfill ppn⟩

theorem Cleared.populateLoop (direction : AnonFaultAroundDirection) :
    ∀ (distances : List ℕ) (st : FaultState B), Cleared zero st p →
      Cleared zero (populateLoop zero env vpn direction distances st) p := by
  intro distances
  induction distances with
  | nil =>
    intro st h
    exact h
  | cons distance distances ih =>
    intro st h
    rw [FaultState.populateLoop]
    cases candidate vpn distance direction with
    | none => exact h
    | some q =>
      dsimp only
      split
      · exact h
      split
      · exact h
      rename_i hfree
      have hunmapped : st.table.isMapped q = false := by
        rw [Bool.or_eq_true, not_or] at hfree
        simpa using hfree.1
      unfold tryMapOnePrezeroedUnchecked
      grind [h.mapFrame]

/-- The first load of a page maps it to a cleared frame. -/
theorem cleared_mapLazyZeroPage {st' : FaultState B}
    (h : st.mapLazyZeroPage zero env vpn = (.ok ppn, st')) : Cleared zero st' vpn := by
  unfold mapLazyZeroPage at h
  split at h
  · cases h
  rename_i ppn' st₁ hone
  have hcleared : Cleared zero st₁ vpn := by
    unfold mapOneZeroedUnchecked at hone
    split at hone
    · cases hone
    rename_i frame _
    unfold mapFrame at hone
    dsimp only at hone
    split at hone
    · cases hone
    rcases (st.fill frame zero).table.mapPageWithPerm_cases vpn frame with
      ⟨err, hmap⟩ | ⟨-, -, hmap⟩
    · rw [hmap] at hone
      cases hone
    · rw [hmap] at hone
      rw [← (Prod.mk.inj hone).2]
      exact ⟨_, update_self .., update_self ..⟩
  rw [← (Prod.mk.inj h).2]
  unfold populateAnonFaultAround
  split
  · exact hcleared
  · exact hcleared.populateLoop ..

/-- With a frame, a node and room in the queue the first load succeeds. -/
theorem exists_mapLazyZeroPage (hin : st.area.inner.containsVpn vpn = true)
    (hentry : st.area.inner.frames.get? vpn = none ∨
      st.area.inner.frames.get? vpn = some .unallocated)
    (hvpn : st.table.isMapped vpn = false) (hframe : env.frameAlloc = some ppn)
    (hnodes : env.nodes vpn = true) (hreserve : env.reserve vpn = true)
    (haround : env.faultAround = false) : ∃ st', st.mapLazyZeroPage zero env vpn = (.ok ppn, st') ∧
      st'.table = st.table.set vpn (some ⟨ppn, st.area.mapPerm⟩) := by
  obtain ⟨inner, halloc⟩ :
      ∃ inner, st.area.inner.allocInMemory vpn ppn true = (.ok (), inner) :=
    exists_allocInMemory hin hentry
  have hone : st.mapOneZeroedUnchecked zero env vpn =
      (.ok ppn, { (st.fill ppn zero).withInner inner with
        table := st.table.set vpn (some ⟨ppn, st.area.mapPerm⟩) }) := by
    unfold mapOneZeroedUnchecked mapFrame
    rw [hframe, hnodes, hreserve]
    dsimp only
    rw [show (st.fill ppn zero).area.inner.allocInMemory vpn ppn true = (.ok (), inner) from halloc]
    rw [show (st.fill ppn zero).table.mapPageWithPerm vpn ppn (st.fill ppn zero).area.mapPerm true =
      (.ok (), st.table.set vpn (some ⟨ppn, st.area.mapPerm⟩)) from
        mapPageWithPerm_of_unmapped hvpn]
  unfold mapLazyZeroPage
  rw [hone]
  refine ⟨_, rfl, ?_⟩
  unfold anonFaultAroundDirection populateAnonFaultAround
  rw [haround]
  rfl

end FaultState

namespace PagedSpace

variable {B : Type} {arch : Arch} {zero : B} {sp sp' : PagedSpace B} {k : ℕ} {a : Vma}

/-- The mappings are in order, and an entry of the page table for a page without a file leads to the
frame that the store has for it. -/
structure Coherent (sp : PagedSpace B) : Prop where
  map : MapInv sp.vmas.vmas
  entry : ∀ p e v, sp.table.pte p = some e → pageAt sp.vmas.vmas p = some v →
    v.filePage = none → v.frame = some (.inMemory e.ppn)

/-- `madvise` behind the check for locked pages. -/
def madvise (maxMapCount : ℕ) (sp : PagedSpace B) (startVpn endVpn advice : ℕ) :
    Except Errno Unit × PagedSpace B :=
  match sp.vmas.adviseRange maxMapCount sp.table startVpn endVpn advice with
  | (r, vmas, table) => (r, { sp with vmas := vmas, table := table })

/-- The next load of the page, if it succeeds, finds zeros; it succeeds when the page is readable
and there is memory for it. -/
structure ReadsZero (arch : Arch) (zero : B) (sp : PagedSpace B) (p : ℕ) : Prop where
  value : ∀ env b sp', sp.load arch zero env p = (.ok b, sp') → b = zero
  succeeds : ∀ v, pageAt sp.vmas.vmas p = some v → v.mapPerm.contains .R = true →
    ∃ env sp', sp.load arch zero env p = (.ok zero, sp')

/-- The store holds no slot for the page. -/
def Released (sp : PagedSpace B) (p : ℕ) : Prop :=
  ∀ v frame, pageAt sp.vmas.vmas p = some v → v.frame = some frame →
    frame.isMovedOut = false

/-- Nothing has changed for the page. -/
structure SamePage (sp sp' : PagedSpace B) (p : ℕ) : Prop where
  view : pageAt sp'.vmas.vmas p = pageAt sp.vmas.vmas p
  pte : sp'.table.pte p = sp.table.pte p
  memory : sp'.memory = sp.memory

/-- A page of a private anonymous mapping that has no contents anywhere. -/
structure Fresh (sp : PagedSpace B) (k : ℕ) (a : Vma) (p : ℕ) : Prop where
  get : sp.vmas.vmas.get? k = some a
  anonymous : a.IsPrivateAnonymous
  mem : a.vmStart ≤ p ∧ p < a.vmEnd
  entry : a.inner.frames.get? p = none ∨ a.inner.frames.get? p = some .unallocated
  pte : sp.table.pte p = none

variable {p : ℕ} {env : FaultEnv B}

section

variable (h : Fresh sp k a p)
include h

theorem Fresh.contains : a.inner.containsVpn p = true := by
  rw [containsVpn, Bool.and_eq_true, decide_eq_true_eq, decide_eq_true_eq]
  exact h.mem

theorem Fresh.classify : a.classify false p .load = .ok .lazyAlloc := by
  grind [vmPageState, frameState, h.contains, h.entry, vmKind,
    h.anonymous.elfLazy, h.anonymous.mapFile, classify, classifyStored]

theorem Fresh.doPageFault (hmap : MapInv sp.vmas.vmas) :
    sp.doPageFault arch zero env p .load =
      if a.mapPerm.contains .R then
        match mapLazyZeroPage zero env ⟨a, sp.table, sp.memory⟩ p with
        | (r, st) => (r, ⟨sp.vmas.updateVma k st.area, st.table, st.memory⟩)
      else (.error .noPermission, ⟨sp.vmas.updateVma k a, sp.table, sp.memory⟩) := by
  have hresolve : sp.table.resolveUserVa p .load = .error .notMapped := by
    unfold resolveUserVa
    rw [h.pte]
  have harea : sp.faultArea arch p = (.ok (some k), sp) := by
    unfold faultArea
    rw [findUserVmaKey_of_get? hmap h.get h.anonymous.user h.mem]
  have hunmapped : sp.table.isMapped p = false := by
    unfold isMapped
    rw [h.pte]
    rfl
  unfold PagedSpace.doPageFault
  rw [hresolve]
  rw [harea]
  dsimp only
  rw [h.get]
  unfold handlePageFault checkAreaPermission vmAllows
  dsimp only
  rw [hunmapped, h.classify]
  by_cases hread : a.mapPerm.contains .R = true
  · rw [if_pos hread, if_pos hread]
    rfl
  · rw [if_neg hread, if_neg hread]

theorem Fresh.load :
    sp.load arch zero env p =
      match sp.doPageFault arch zero env p .load with
      | (.error e, sp) => (.error e, sp)
      | (.ok _, sp) =>
        match sp.table.resolveUserVa p .load with
        | .error e => (.error e, sp)
        | .ok ppn => (.ok (sp.memory.frames ppn), sp) := by
  have hresolve : sp.table.resolveUserVa p .load = .error .notMapped := by
    unfold resolveUserVa
    rw [h.pte]
  unfold PagedSpace.load faultInUserVa
  rw [hresolve]
  rcases sp.doPageFault arch zero env p .load with ⟨e | ppn, sp'⟩
  · rfl
  · grind

/-- **A page without contents reads as zero.** -/
theorem Fresh.readsZero (hmap : MapInv sp.vmas.vmas) : ReadsZero arch zero sp p := by
  have hunmapped : sp.table.isMapped p = false := by
    unfold isMapped
    rw [h.pte]
    rfl
  refine ⟨fun env b sp' hload => ?_, fun v hv hread => ?_⟩
  · rw [h.load, h.doPageFault hmap] at hload
    split at hload
    · cases hload
    rename_i ppn sp₁ hfault
    split at hfault
    · rcases hlazy : mapLazyZeroPage zero env ⟨a, sp.table, sp.memory⟩ p with ⟨r, st⟩
      rw [hlazy] at hfault
      cases hfault
      obtain ⟨e, hpte, hzero⟩ := cleared_mapLazyZeroPage hlazy
      split at hload
      · cases hload
      rename_i ppn' hresolve
      unfold resolveUserVa at hresolve
      rw [hpte] at hresolve
      dsimp only at hresolve
      split at hresolve
      · grind
      · cases hresolve
    · cases hfault
  · have hview := pageAt_of_get? hmap h.get h.mem
    rw [← some.inj (hview.symm.trans hv)] at hread
    have huser := h.anonymous.user
    let env : FaultEnv B :=
      { frameAlloc := some 0, nodes := fun _ => true, reserve := fun _ => true
        prezeroed := fun _ => none, faultAround := false, zramRead := true, swapRead := .ok ()
        strongCount := 0, copyFrame := none, filemap := fun _ st => (.error .notMapped, st) }
    obtain ⟨st, hlazy, htable⟩ :
        ∃ st, mapLazyZeroPage zero env ⟨a, sp.table, sp.memory⟩ p = (.ok 0, st) ∧
          st.table = sp.table.set p (some ⟨0, a.mapPerm⟩) :=
      exists_mapLazyZeroPage h.contains h.entry hunmapped rfl rfl rfl rfl
    have hpte : st.table.pte p = some ⟨0, a.mapPerm⟩ := by
      rw [htable]
      exact update_self ..
    have hresolve : st.table.resolveUserVa p .load = .ok 0 := by
      unfold resolveUserVa
      rw [hpte]
      dsimp only
      rw [show a.mapPerm.contains .U = true from huser,
        show a.mapPerm.contains .R = true from hread]
      rfl
    obtain ⟨e, hpte', hzero⟩ := cleared_mapLazyZeroPage hlazy
    rw [hpte] at hpte'
    rw [← some.inj hpte'] at hzero
    refine ⟨env, ⟨sp.vmas.updateVma k st.area, st.table, st.memory⟩, ?_⟩
    rw [h.load, h.doPageFault hmap, if_pos (show a.mapPerm.contains .R = true from hread), hlazy]
    dsimp only
    rw [hresolve]
    dsimp only
    rw [hzero]

end

/-! ## The promise -/

/-- What `MADV_DONTNEED` on `[lo, hi)` promises. -/
structure Discarded (arch : Arch) (zero : B) (sp sp' : PagedSpace B) (lo hi : ℕ) : Prop where
  zeros : ∀ p, lo ≤ p → p < hi → ReadsZero arch zero sp' p
  released : ∀ p, lo ≤ p → p < hi → Released sp' p
  others : ∀ p, ¬ (lo ≤ p ∧ p < hi) → SamePage sp sp' p

/-- The call on a part of a private anonymous mapping, page by page. -/
theorem madvise_dontneed (h : sp.Coherent) (hk : sp.vmas.vmas.get? k = some a)
    (ha : a.IsPrivateAnonymous) {lo hi : ℕ} (hlo : a.vmStart ≤ lo) (hlt : lo < hi)
    (hhi : hi ≤ a.vmEnd) {maxMapCount : ℕ} :
    ∃ sp' a', sp.madvise maxMapCount lo hi madvDontneed = (.ok (), sp') ∧
      sp'.memory = sp.memory ∧ a.Dropped a' sp.table sp'.table lo hi ∧
      sp'.vmas.vmas.get? k = some a' ∧ MapInv sp'.vmas.vmas ∧
      ∀ p, pageAt sp'.vmas.vmas p =
        if a.vmStart ≤ p ∧ p < a.vmEnd then some (a'.pageView p)
        else pageAt sp.vmas.vmas p := by
  obtain ⟨a', t', hadvise, hdropped⟩ :=
    adviseRange_dontneed h.map hk ha hlo hlt hhi
  obtain ⟨inner, rfl, hrange⟩ := hdropped.area
  have hshape : a.SameShape { a with inner := inner } := sameShape_of_vpnRange hrange
  obtain ⟨hmap, hpages⟩ := h.map.updateVma hk hshape.vmStart hshape.vmEnd
    (Fits_of_sameShape hshape (h.map.fits k a hk))
  refine ⟨⟨sp.vmas.updateVma k { a with inner := inner }, t', sp.memory⟩, _, ?_, rfl, hdropped,
    get?_insert_self .., hmap, hpages⟩
  unfold madvise
  rw [hadvise]

/-- **Discarded pages read as zero exactly when none of them was moved out.**  The call always
succeeds on a part of a private anonymous mapping and keeps the page table coherent. -/
theorem discarded_of_madvise_iff (arch : Arch) (zero : B) (h : sp.Coherent)
    (hk : sp.vmas.vmas.get? k = some a) (ha : a.IsPrivateAnonymous) {lo hi : ℕ}
    (hlo : a.vmStart ≤ lo) (hlt : lo < hi) (hhi : hi ≤ a.vmEnd) (maxMapCount : ℕ) :
    ∃ sp', sp.madvise maxMapCount lo hi madvDontneed = (.ok (), sp') ∧ sp'.Coherent ∧
      (Discarded arch zero sp sp' lo hi ↔ ∀ p, lo ≤ p → p < hi → Released sp p) := by
  obtain ⟨sp', a', hadvise, hmemory, hdropped, hk', hmap, hpages⟩ :=
    madvise_dontneed h hk ha hlo hlt hhi
  obtain ⟨inner, rfl, hrange⟩ := hdropped.area
  have hview : ∀ p, a.vmStart ≤ p → p < a.vmEnd →
      pageAt sp.vmas.vmas p = some (a.pageView p) := fun p h₁ h₂ =>
    pageAt_of_get? h.map hk ⟨h₁, h₂⟩
  have hfile : ∀ p, (a.pageView p).filePage = none := fun p => by
    show a.mapFile.map _ = none
    rw [ha.mapFile]
    rfl
  -- an entry for a page of the mapping means that the page is resident
  have hentry : ∀ p e, a.vmStart ≤ p → p < a.vmEnd → sp.table.pte p = some e →
      a.inner.frames.get? p = some (.inMemory e.ppn) := fun p e h₁ h₂ hp =>
    h.entry p e _ hp (hview p h₁ h₂) (hfile p)
  have hsame : ∀ p, ¬ a.ResidentIn lo hi p → SamePage sp sp' p := by
    intro p hp
    obtain ⟨hframe, hpte⟩ := hdropped.kept p hp
    refine ⟨?_, hpte, hmemory⟩
    rw [hpages p]
    split_ifs with hin
    · rw [hview p hin.1 hin.2]
      unfold pageView
      rw [hframe]
      have hstart : ({ a with inner := inner } : Vma).vmStart = a.vmStart :=
        congrArg getStart hrange
      rw [hstart]
    · rfl
  refine ⟨sp', hadvise, ⟨hmap, fun p e v hpte hv hnone => ?_⟩, fun hdisc p h₁ h₂ => ?_,
    fun hrel => ?_⟩
  · by_cases hres : a.ResidentIn lo hi p
    · rw [(hdropped.gone p hres).2] at hpte
      cases hpte
    · have hs := hsame p hres
      rw [hs.pte] at hpte
      rw [hs.view] at hv
      exact h.entry p e v hpte hv hnone
  · -- a page that was moved out is where it was
    intro v frame hv hframe
    by_cases hres : a.ResidentIn lo hi p
    · obtain ⟨-, ppn, hppn⟩ := hres
      rw [hview p (by omega) (by omega)] at hv
      rw [← some.inj hv] at hframe
      rw [← some.inj (hppn.symm.trans hframe)]
      rfl
    · rw [← (hsame p hres).view] at hv
      exact hdisc.released p h₁ h₂ v frame hv hframe
  · have hfresh : ∀ p, lo ≤ p → p < hi → Fresh sp' k { a with inner := inner } p := by
      intro p h₁ h₂
      have hstart : ({ a with inner := inner } : Vma).vmStart = a.vmStart :=
        congrArg getStart hrange
      have hend : ({ a with inner := inner } : Vma).vmEnd = a.vmEnd :=
        congrArg getEnd hrange
      refine ⟨hk', ⟨ha.user, ha.mapFile, ha.elfLazy, ha.priv, ha.notShared⟩, by omega, ?_, ?_⟩
      · by_cases hres : a.ResidentIn lo hi p
        · exact .inl (hdropped.gone p hres).1
        · have hkept := (hdropped.kept p hres).1
          cases hget : a.inner.frames.get? p with
          | none => exact .inl (hkept.trans hget)
          | some frame =>
              have hnot := hrel p h₁ h₂ _ frame (hview p (by omega) (by omega)) hget
              cases frame with
              | inMemory ppn => exact absurd ⟨⟨h₁, h₂⟩, ppn, hget⟩ hres
              | compressed slot => exact absurd hnot (by simp [isMovedOut, isCompressed])
              | swappedOut slot => exact absurd hnot (by simp [isMovedOut, isSwappedOut])
              | unallocated => exact .inr (hkept.trans hget)
      · by_cases hres : a.ResidentIn lo hi p
        · exact (hdropped.gone p hres).2
        · rw [(hdropped.kept p hres).2]
          cases hpte : sp.table.pte p with
          | none => rfl
          | some e => exact absurd ⟨⟨h₁, h₂⟩, _, hentry p e (by omega) (by omega) hpte⟩ hres
    refine ⟨fun p h₁ h₂ => (hfresh p h₁ h₂).readsZero hmap, fun p h₁ h₂ v frame hv hframe => ?_,
      fun p hp => hsame p fun hres => hp hres.1⟩
    by_cases hres : a.ResidentIn lo hi p
    · rw [hpages p, if_pos (by omega)] at hv
      rw [← some.inj hv] at hframe
      cases hframe.symm.trans (hdropped.gone p hres).1
    · rw [(hsame p hres).view] at hv
      exact hrel p h₁ h₂ v frame hv hframe

/-! ## Resident and compressed pages -/

variable (inner : VmPageStore)

/-- A private anonymous mapping at the bottom of the arena, over the pages of its store. -/
def anonArea : Vma :=
  { tryNew 0x20000000 0x20001000 (.union .R (.union .W .U)) none 0 (by decide) with
    inner := inner
    flags := .union .MAP_PRIVATE .MAP_ANONYMOUS }

/-- A page that is behind frame `8` and is compressed when memory runs out. -/
def compressedStore : VmPageStore :=
  ((tryNew ⟨0x20000, 0x20001, by decide⟩).allocInMemory 0x20000 8 true).2.doOom fun _ => roomyEnv

/-- Four pages: one of them compressed, and then two resident and one that was never touched. -/
def mixedStore : VmPageStore :=
  let s := ((tryNew ⟨0x20000, 0x20004, by decide⟩).allocInMemory 0x20003 8 true).2.doOom
    fun _ => roomyEnv
  ((s.allocInMemory 0x20000 5 true).2.allocInMemory 0x20001 6 true).2

/-- The pages hold `42`, in frames `5` and `6` or in slot `7` of the compressed store. -/
def anonSpace (pte : ℕ → Option Pte) : PagedSpace ℕ where
  vmas := (insertVma .riscv 8 (new .riscv) (anonArea inner)).2
  table := ⟨pte⟩
  memory := ⟨fun ppn => if ppn = 5 ∨ ppn = 6 then 42 else 0,
    fun slot => if slot = 7 then 42 else 0, fun _ => 0⟩

/-- The resident pages are mapped. -/
def mixedSpace : PagedSpace ℕ :=
  anonSpace mixedStore fun vpn =>
    if vpn = 0x20000 then some ⟨5, .union .R (.union .W .U)⟩
    else if vpn = 0x20001 then some ⟨6, .union .R (.union .W .U)⟩ else none

theorem coherent_mixedSpace : mixedSpace.Coherent := by
  refine ⟨((VmaSet.Inv.new .riscv).insertVma ⟨by decide, fun h => absurd h (by decide)⟩).map, ?_⟩
  intro p e v hpte hv _
  have hframe : (pageAt mixedSpace.vmas.vmas p).bind PageView.frame =
      (mixedSpace.table.pte p).map fun e => .inMemory e.ppn := by
    by_cases h₀ : p = 0x20000
    · rw [h₀]
      decide +kernel
    by_cases h₁ : p = 0x20001
    · rw [h₁]
      decide +kernel
    · cases hpte.symm.trans ((if_neg h₀).trans (if_neg h₁))
  rw [hv, hpte] at hframe
  exact hframe

theorem released_of_all {sp : PagedSpace ℕ} {p : ℕ}
    (h : ((pageAt sp.vmas.vmas p).bind PageView.frame).all (fun f => !f.isMovedOut) = true) :
    Released sp p := by
  intro v frame hv hframe
  rw [hv, bind_some, hframe] at h
  simpa using h

/-- The first three pages read as zero afterwards; the compressed one is not in the range. -/
theorem discarded_mixedSpace :
    ∃ sp', mixedSpace.madvise 8 0x20000 0x20003 madvDontneed = (.ok (), sp') ∧
      Discarded .riscv 0 mixedSpace sp' 0x20000 0x20003 := by
  have hk : mixedSpace.vmas.vmas.get? 0x20000 = some (anonArea mixedStore) := rfl
  obtain ⟨sp', hadvise, -, hiff⟩ := discarded_of_madvise_iff .riscv 0 coherent_mixedSpace hk
    ⟨by decide, rfl, rfl, by decide, by decide⟩ (le_refl 0x20000)
    (by decide : 0x20000 < 0x20003) (by decide) 8
  refine ⟨sp', hadvise, hiff.mpr fun p h₁ h₂ => ?_⟩
  obtain rfl | rfl | rfl : p = 0x20000 ∨ p = 0x20001 ∨ p = 0x20002 := by omega
  all_goals exact released_of_all (by decide +kernel)

/-- **A compressed page keeps its contents**: after the call the next load of it returns them, and
its slot is still taken. -/
theorem compressed_page_survives :
    ∃ sp', (anonSpace compressedStore fun _ => none).madvise 8 0x20000 0x20001
        madvDontneed = (.ok (), sp') ∧
      (pageAt sp'.vmas.vmas 0x20000).map PageView.frame = some (some (.compressed 7)) ∧
      (sp'.load .riscv 0
        { frameAlloc := some 6, nodes := fun _ => true, reserve := fun _ => true
          prezeroed := fun _ => none, faultAround := false, zramRead := true, swapRead := .ok ()
          strongCount := 0, copyFrame := none, filemap := fun _ st => (.error .notMapped, st) }
        0x20000).1 = .ok 42 :=
  ⟨_, Prod.ext (by decide) rfl, by decide +kernel, by decide +kernel⟩

end PagedSpace
end MangoCore.Mm
