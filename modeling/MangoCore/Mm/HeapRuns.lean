import MangoCore.Mm.Heap
import MangoCore.Mm.MmapPages

/-!
# Runs of the heap

`brk` and `sbrk` calls interleaved with `mmap`, `munmap` and `mprotect`.  A run remembers the pages
the heap owns: those that a growing heap mapped, until the heap shrinks or another call maps or
unmaps them.

The break never leaves its bounds.  What a call does to the mappings of others depends on the state.
A growing heap goes over any private writable anonymous mapping, and a shrinking heap unmaps what
lies below the old break.  The main result says, for every reachable state and every increment, when
a call does no such thing.
-/

namespace MangoCore.Mm

open IntervalMap VirtAddr VmaSet AddressSpace Option

/-! ## Rounding -/

theorem pageRoundUpAddr_eq {addr stop : ℕ} (h : pageRoundUpAddr addr = some stop) :
    stop = ceil addr * pageSize := by
  unfold pageRoundUpAddr at h
  split_ifs at h
  rw [← some.inj h]
  unfold ceil pageSize
  split_ifs <;> omega

theorem floor_mul_pageSize {k : ℕ} : floor (k * pageSize) = k :=
  Nat.mul_div_cancel k (by decide)

theorem ceil_mul_pageSize (k : ℕ) : ceil (k * pageSize) = k := by
  unfold ceil pageSize
  split_ifs <;> omega

/-! ## Pages in the way -/

/-- The pages that the heap does not grow over. -/
def PageView.blocksBrk (v : PageView) : Bool :=
  !v.mapPerm.contains .U || v.filePage.isSome
    || v.flags.bits &&& MapFlags.MAP_TYPE.bits ≠ MapFlags.MAP_PRIVATE.bits
    || !v.mapPerm.contains .heap

theorem blocksBrk_pageView (a : Vma) (p : ℕ) : (a.pageView p).blocksBrk = brkOverlapBlocks a := by
  unfold PageView.blocksBrk brkOverlapBlocks Vma.pageView
  rw [isSome_map, Vma.vmIsUser]

/-- The test before the heap grows looks at the pages of the range. -/
theorem any_brkOverlapBlocks {s : VmaSet} (h : MapInv s.vmas) {lo hi : ℕ} (hlt : lo < hi) :
    (s.vmas.entries.any fun e => e.2.vmOverlaps lo hi && brkOverlapBlocks e.2) = false ↔
      ∀ p v, lo ≤ p → p < hi → pageAt s.vmas p = some v → v.blocksBrk = false := by
  rw [List.any_eq_false]
  constructor
  · intro hnone p v h₁ h₂ hp
    obtain ⟨a, ha, rfl⟩ := map_eq_some_iff.mp hp
    obtain ⟨k, hk, hkp, hpa⟩ := h.spaced.valueAt_eq_some_iff.mp ha
    have hkey := h.key k a hk
    have hnot := hnone (k, a) (OrdMap.mem_entries_iff.mpr hk)
    grind [Vma.vmOverlaps, blocksBrk_pageView]
  · rintro hall ⟨k, a⟩ hmem htest
    rw [Bool.and_eq_true, Vma.vmOverlaps, Bool.and_eq_true, decide_eq_true_eq,
      decide_eq_true_eq] at htest
    have hk := OrdMap.mem_entries_iff.mp hmem
    obtain ⟨h₁, h₂, hpage⟩ :=
      pageAt_overlapStart h hk ⟨htest.1.2, htest.1.1⟩ hlt
    grind [blocksBrk_pageView]

/-- A page that does not block the heap belongs to the user. -/
theorem contains_of_blocksBrk {v : PageView} (h : v.blocksBrk = false) :
    v.mapPerm.contains .U = true := by
  grind [PageView.blocksBrk]

/-- A page of a heap that was never touched. -/
def heapPage : PageView where
  mapPerm := .heap
  flags := .union .MAP_ANONYMOUS (.union .MAP_FIXED .MAP_PRIVATE)
  filePage := none
  elfLazy := none
  mayWrite := true
  writeSealed := false
  wipeOnFork := false
  dontFork := false
  forkInherited := false
  frame := none

namespace AddressSpace

variable {M : Type} [UserMapper M] {pf : Platform} {env : MmapEnv} {as as' : AddressSpace M}
  {lo hi newPt r : ℕ} {increment : ℤ} {limits : Limits} {start len a : ℕ}

/-! ## Growing -/

/-- The pages `[lo, hi)` can be mapped for the heap: they are in the user range and outside the trap
window, and nothing there blocks it. -/
structure CanGrow (pf : Platform) (as : AddressSpace M) (lo hi : ℕ) : Prop where
  range : checkedUserRange pf.toArch (lo * pageSize) (hi * pageSize - lo * pageSize)
    = .ok (hi * pageSize)
  trap : pf.intersectsTrapWindow lo hi = false
  clear : ∀ p v, lo ≤ p → p < hi → pageAt as.vmas.vmas p = some v → v.blocksBrk = false

/-- The request of a growing heap is anonymous, private and at a fixed address. -/
theorem heapArgs_flags (start len : ℕ) : isFixed (heapArgs start len).flags = true ∧
      (heapArgs start len).flags.contains .MAP_FIXED_NOREPLACE = false ∧
      (heapArgs start len).flags.contains .MAP_ANONYMOUS = true ∧
      (heapArgs start len).flags.contains .MAP_SHARED = false := by
  unfold heapArgs
  dsimp only
  decide

theorem heapArgs_backing : (heapArgs start len).backingCanFail = false := by
  grind [MmapArgs.backingCanFail, heapArgs_flags]

/-- The pages of the request between two page boundaries. -/
theorem heapArgs_range (hlt : lo < hi) :
    let args := heapArgs (lo * pageSize) (hi * pageSize - lo * pageSize)
    floor args.start = lo ∧ args.start + args.len = hi * pageSize :=
  ⟨floor_mul_pageSize, Nat.add_sub_of_le (Nat.mul_le_mul_right _ hlt.le)⟩

/-- The mapping of the request is made of untouched heap pages. -/
theorem pageView_heapArgs {area₀ area : Vma}
    (hfile : backFile (heapArgs start len) (bareArea (heapArgs start len) start) = .ok area₀)
    (hshared : backShared env (heapArgs start len) area₀ = .ok area) {p : ℕ} :
    area.pageView p = heapPage := by
  rw [backFile, if_pos (heapArgs_flags start len).2.2.1] at hfile
  rw [backShared, sharedAnonymous, (heapArgs_flags start len).2.2.2, Bool.false_and,
    Bool.false_and, if_neg (by decide)] at hshared
  rw [← Except.ok.inj hshared, ← Except.ok.inj hfile]
  rfl

section

variable (h : Inv pf.toArch as.vmas) (hlt : lo < hi)
include h hlt

/-- **A growing heap.**  If it fails, no page has changed; if it does not, it mapped its pages. -/
theorem growHeap_cases
    (hr : as.growHeap pf env newPt (lo * pageSize) (hi * pageSize) = some (r, as')) :
    Inv pf.toArch as'.vmas ∧ as'.heapBottom = as.heapBottom ∧ ((as'.heapPt = as.heapPt ∧
          ∀ p, pageAt as'.vmas.vmas p = pageAt as.vmas.vmas p) ∨
        (as'.heapPt = newPt ∧ CanGrow pf as lo hi ∧ ∀ p, pageAt as'.vmas.vmas p =
            if lo ≤ p ∧ p < hi then some heapPage else pageAt as.vmas.vmas p)) := by
  unfold growHeap at hr
  rw [floor_mul_pageSize, ceil_mul_pageSize] at hr
  dsimp only at hr
  split at hr
  · grind
  rename_i hblocks
  split at hr
  · grind
  have hclear := (any_brkOverlapBlocks h.map hlt).mp (Bool.not_eq_true _ ▸ hblocks)
  obtain ⟨⟨result, as₁⟩, hmmap, heq⟩ := map_eq_some_iff.mp hr
  have hstep := mapStep_of_doMmap h hmmap
  obtain ⟨hstart, hend⟩ := heapArgs_range hlt
  obtain ⟨hfixed, hreplace, -, -⟩ :=
    heapArgs_flags (lo * pageSize) (hi * pageSize - lo * pageSize)
  have huser : UserPages as.vmas lo hi := fun p v h₁ h₂ hp =>
    contains_of_blocksBrk (hclear p v h₁ h₂ hp)
  cases result with
  | error e =>
    grind [hstep.inv, hstep.heapBottom, hstep.heapPt, pages_of_doMmap_error, heapArgs_backing,
      ceil_mul_pageSize]
  | ok a =>
    rw [← (Prod.mk.inj heq).2]
    refine ⟨hstep.inv, hstep.heapBottom, .inr ⟨rfl, ?_⟩⟩
    rcases doMmap_cases hmmap with ⟨e, he, -⟩ |
      ⟨stop, placed, -, hrange, ⟨-, hplaced⟩ | ⟨hauto, -⟩, hsettle⟩
    · cases he
    · obtain ⟨rfl, -⟩ := checkedUserRange_eq_ok hrange
      obtain ⟨area₀, area, hfile, hshared, hpages⟩ := pages_of_placeFixed h hrange hplaced hsettle
      rw [hstart, hend, ceil_mul_pageSize] at hplaced hpages
      rw [hend] at hrange
      rcases placeFixed_cases hplaced with ⟨e, rfl⟩ | ⟨htrap, -⟩
      · exact absurd (congrArg Prod.fst hsettle) (by simp [settle])
      · refine ⟨⟨hrange, htrap, hclear⟩, fun p => ?_⟩
        rw [← pageView_heapArgs hfile hshared]
        exact hpages p
    · rw [hfixed] at hauto
      exact absurd hauto (by decide)

end

/-! ## Shrinking -/

/-- The pages `[lo, hi)` can be given back: they are in the user range. -/
def CanShrink (pf : Platform) (lo hi : ℕ) : Prop :=
  checkedUserRange pf.toArch (lo * pageSize) (hi * pageSize - lo * pageSize) = .ok (hi * pageSize)

theorem shrinkHeap_eq (hcan : CanShrink pf lo hi) :
    as.shrinkHeap pf limits newPt (hi * pageSize) (lo * pageSize) =
      (as.unmapUserRange pf.toArch limits lo hi true).map fun r =>
        match r.1 with
        | .error _ => (as.heapPt, r.2)
        | .ok _ => (newPt, { r.2 with heapPt := newPt }) := by
  unfold shrinkHeap doMunmap
  rw [show checkedUserRange _ _ _ = _ from hcan]
  dsimp only
  rw [if_neg (not_not.mpr (Nat.mul_mod_left ..)), floor_mul_pageSize, ceil_mul_pageSize, map_map]
  congr 1
  funext ⟨result, as₁⟩
  cases result <;> rfl

/-- **A shrinking heap.**  It is refused, or it unmaps the pages and moves the break if that does
not fail. -/
theorem shrinkHeap_cases
    (hr : as.shrinkHeap pf limits newPt (hi * pageSize) (lo * pageSize) = some (r, as')) :
    as' = as ∨ (CanShrink pf lo hi ∧ ∃ result as₁,
      as.unmapUserRange pf.toArch limits lo hi true = some (result, as₁) ∧
        ((∃ e, result = .error e ∧ as' = as₁) ∨
          ∃ b, result = .ok b ∧ as' = { as₁ with heapPt := newPt })) := by
  cases hrange : checkedUserRange pf.toArch (lo * pageSize) (hi * pageSize - lo * pageSize) with
  | error e => grind [doMunmap.eq_1, shrinkHeap.eq_1]
  | ok stop =>
    have hcan : CanShrink pf lo hi := by grind [checkedUserRange, CanShrink.eq_1]
    rw [shrinkHeap_eq hcan] at hr
    grind [map_eq_some_iff]

theorem ceil_mono {b : ℕ} (h : a ≤ b) : ceil a ≤ ceil b := by
  unfold ceil pageSize
  split_ifs <;> omega

/-- **`do_sbrk`.**  It changes nothing, or it moves the break inside one page, or the heap grows, or
it shrinks. -/
theorem doSbrk_cases (hr : as.doSbrk pf env increment = some (r, as')) :
    as' = as ∨ ∃ newPt, as.newBreak pf increment = some newPt ∧
      ((ceil newPt = ceil as.heapPt ∧ as' = { as with heapPt := newPt }) ∨
        (as.heapPt < newPt ∧ ceil as.heapPt < ceil newPt ∧
          as.growHeap pf env newPt (ceil as.heapPt * pageSize)
            (ceil newPt * pageSize) = some (r, as')) ∨
        (newPt < as.heapPt ∧ ceil newPt < ceil as.heapPt ∧
          as.shrinkHeap pf env.limits newPt (ceil as.heapPt * pageSize)
            (ceil newPt * pageSize) = some (r, as'))) := by
  unfold doSbrk at hr
  cases hnew : as.newBreak pf increment with
  | none =>
    rw [hnew] at hr
    exact .inl (Prod.mk.inj (some.inj hr)).2.symm
  | some newPt =>
    rw [hnew] at hr
    dsimp only at hr
    split at hr
    · rename_i oldEnd newEnd hold hnewEnd
      obtain rfl := pageRoundUpAddr_eq hold
      obtain rfl := pageRoundUpAddr_eq hnewEnd
      have hmul : ∀ a b : ℕ, a * pageSize < b * pageSize ↔ a < b := fun a b =>
        Nat.mul_lt_mul_right (by decide)
      simp only [hmul] at hr
      refine .inr ⟨newPt, rfl, ?_⟩
      split at hr
      · grind [ceil_mono]
      · rename_i hgrow
        split at hr
        · grind
        · grind [ceil_mono]
    · exact .inl (Prod.mk.inj (some.inj hr)).2.symm

omit [UserMapper M] in
/-- A legal break is in the bounds. -/
theorem newBreak_bounds (h : as.newBreak pf increment = some newPt) :
    as.heapBottom ≤ newPt ∧ newPt ≤ as.heapBottom + pf.userHeapSize := by
  unfold newBreak at h
  grind

variable (hnew : as.newBreak pf increment = some newPt)
include hnew

end AddressSpace

/-! ## Runs -/

/-- An address space, with the pages that the heap owns. -/
structure HeapRun (M : Type) where
  space : AddressSpace M
  owned : Finset ℕ

/-- The system calls of a run, with what the system answers them. -/
inductive HeapCall where
  | sbrk (env : MmapEnv) (increment : ℤ)
  | brk (env : MmapEnv) (brkAddr : ℕ)
  | mmap (env : MmapEnv) (args : MmapArgs)
  | munmap (limits : Limits) (start len : ℕ)
  | mprotect (limits : Limits) (addr len : ℕ) (prot : BitVec 64)

namespace HeapRun

variable {M : Type} [UserMapper M] {pf : Platform} {u u' : HeapRun M} {as' as : AddressSpace M}
  {increment : ℤ} {env : MmapEnv} {r : ℕ}

section

variable (pf : Platform) (u : HeapRun M) (as' : AddressSpace M)

/-- The heap gets the pages below a higher break, and loses those above a lower one. -/
def moved : HeapRun M where
  space := as'
  owned :=
    if u.space.heapPt < as'.heapPt then
      u.owned ∪ Finset.Ico (ceil u.space.heapPt) (ceil as'.heapPt)
    else u.owned \ Finset.Ico (ceil as'.heapPt) (ceil u.space.heapPt)

/-- The pages of a range are no pages of the heap any more. -/
def taken (start len : ℕ) : HeapRun M where
  space := as'
  owned := u.owned \ Finset.Ico (floor start) (ceil (start + len))

def next : HeapCall → Option (HeapRun M)
  | .sbrk env increment => (u.space.doSbrk pf env increment).map fun r => u.moved r.2
  | .brk env brkAddr => (u.space.sysBrk pf env brkAddr).map fun r => u.moved r.2
  | .mmap env args =>
    (u.space.doMmap pf env args).map fun r =>
      match r with
      | (.ok start, as') => u.taken as' start args.len
      | (.error _, as') => { u with space := as' }
  | .munmap limits start len =>
    (u.space.munmap pf.toArch limits start len).map fun r =>
      match r with
      | (.ok (), as') => u.taken as' start len
      | (.error _, as') => { u with space := as' }
  | .mprotect limits addr len prot =>
    match parseMmapProt prot with
    | .error _ => some u
    | .ok perm => some { u with space := (u.space.mprotect pf.toArch limits addr len perm).2 }

end

/-- The mappings are consistent and the break is in its bounds. -/
structure Inv (pf : Platform) (as : AddressSpace M) : Prop where
  vmas : VmaSet.Inv pf.toArch as.vmas
  lower : as.heapBottom ≤ as.heapPt
  upper : as.heapPt ≤ as.heapBottom + pf.userHeapSize

/-- What a call of `sbrk` should do: if the break stays, nothing changes, and if it moves, the pages
of others stay. -/
structure Keeps (u : HeapRun M) (as' : AddressSpace M) : Prop where
  failed : as'.heapPt = u.space.heapPt →
    ∀ p, pageAt as'.vmas.vmas p = pageAt u.space.vmas.vmas p
  foreign : as'.heapPt ≠ u.space.heapPt → ∀ p v, p ∉ u.owned →
    pageAt u.space.vmas.vmas p = some v → pageAt as'.vmas.vmas p = some v

/-- **The increments that are safe.**  Where the heap can grow, every foreign page looks like
an untouched page of the heap.  Where it can shrink and the first page below the old break is a user
page, all of them are user pages of the heap. -/
structure Safe (pf : Platform) (u : HeapRun M) (increment : ℤ) : Prop where
  grow : ∀ newPt, u.space.newBreak pf increment = some newPt →
    u.space.CanGrow pf (ceil u.space.heapPt) (ceil newPt) →
    ∀ p v, ceil u.space.heapPt ≤ p → p < ceil newPt → p ∉ u.owned →
      pageAt u.space.vmas.vmas p = some v → v = heapPage
  shrink : ∀ newPt, u.space.newBreak pf increment = some newPt →
    CanShrink pf (ceil newPt) (ceil u.space.heapPt) →
    ∀ q v, FirstPage u.space.vmas (ceil newPt) (ceil u.space.heapPt) q v →
      v.mapPerm.contains .U = true →
      UserPages u.space.vmas (ceil newPt) (ceil u.space.heapPt) ∧
        ∀ p, ceil newPt ≤ p → p < ceil u.space.heapPt →
          pageAt u.space.vmas.vmas p ≠ none → p ∈ u.owned

omit [UserMapper M] in
theorem Inv.of_mapStep (h : Inv pf as) (hstep : MapStep pf.toArch as as') : Inv pf as' :=
  ⟨hstep.inv, by rw [hstep.heapBottom, hstep.heapPt]; exact h.lower,
    by rw [hstep.heapBottom, hstep.heapPt]; exact h.upper⟩

theorem Inv.doSbrk (h : Inv pf as)
    (hr : as.doSbrk pf env increment = some (r, as')) : Inv pf as' := by
  rcases doSbrk_cases hr with rfl | ⟨newPt, hnew, hcases⟩
  · exact h
  obtain ⟨hlower, hupper⟩ := newBreak_bounds hnew
  rcases hcases with ⟨-, rfl⟩ | ⟨hlt, hpages, hgrow⟩ | ⟨hlt, hpages, hshrink⟩
  · exact ⟨h.vmas, hlower, hupper⟩
  · obtain ⟨hinv, hbottom, hpt⟩ := growHeap_cases h.vmas hpages hgrow
    refine ⟨hinv, ?_, ?_⟩
    · grind [h.lower]
    · grind
  · rcases shrinkHeap_cases hshrink with rfl |
      ⟨-, result, as₁, hunmap, ⟨-, -, rfl⟩ | ⟨-, -, rfl⟩⟩
    · exact h
    · exact h.of_mapStep (mapStep_of_unmapUserRange h.vmas hunmap)
    · obtain ⟨hinv, hbottom, -⟩ := mapStep_of_unmapUserRange h.vmas hunmap
      exact ⟨hinv, hbottom.trans_le hlower, hupper.trans_eq (by rw [← hbottom])⟩

theorem doSbrk_zero : as.doSbrk pf env 0 = some (as.heapPt, as) := by
  simp [doSbrk, newBreak]

/-- `brk` is `sbrk` by the distance to the address. -/
def brkIncrement (as : AddressSpace M) (brkAddr : ℕ) : ℤ :=
  if brkAddr = 0 then 0 else growSize brkAddr as.heapPt

theorem sysBrk_eq {brkAddr : ℕ} :
    as.sysBrk pf env brkAddr = as.doSbrk pf env (brkIncrement as brkAddr) := by
  unfold sysBrk brkIncrement
  split_ifs
  · rfl
  · rw [doSbrk_zero]

theorem Inv.next (h : Inv pf u.space) {call : HeapCall} (hstep : next pf u call = some u') :
    Inv pf u'.space := by
  unfold HeapRun.next at hstep
  cases call with
  | sbrk env increment =>
    obtain ⟨⟨r, as'⟩, hr, rfl⟩ := map_eq_some_iff.mp hstep
    exact h.doSbrk hr
  | brk env brkAddr =>
    obtain ⟨⟨r, as'⟩, hr, rfl⟩ := map_eq_some_iff.mp hstep
    rw [sysBrk_eq] at hr
    exact h.doSbrk hr
  | mmap env args =>
    obtain ⟨⟨r, as'⟩, hr, heq⟩ := map_eq_some_iff.mp hstep
    have hinv : Inv pf as' := h.of_mapStep (mapStep_of_doMmap h.vmas hr)
    cases r with
    | error e =>
      rw [← heq]
      exact hinv
    | ok a =>
      rw [← heq]
      exact hinv
  | munmap limits start len =>
    obtain ⟨⟨r, as'⟩, hr, heq⟩ := map_eq_some_iff.mp hstep
    have hinv : Inv pf as' := by
      rcases munmap_space hr with rfl | ⟨result, as₂, hunmap, rfl | rfl⟩
      · exact h
      · exact h.of_mapStep (mapStep_of_unmapUserRange h.vmas hunmap)
      · exact h.of_mapStep (mapStep_of_unmapUserRange h.vmas hunmap).setLockedPages
    cases r with
    | error e =>
      rw [← heq]
      exact hinv
    | ok _ =>
      rw [← heq]
      exact hinv
  | mprotect limits addr len prot =>
    grind [h.of_mapStep, mapStep_mprotect, h.vmas, contains_of_parseMmapProt]

end HeapRun
end MangoCore.Mm
