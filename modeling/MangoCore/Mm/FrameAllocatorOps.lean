import MangoCore.Mm.FrameAllocatorInvariant

/-!
# The operations of the frame allocator

One lemma for each operation.  An operation that hands out frames never stops at an assertion and
leaves an allocator for which these frames are among the frames that are out (`Takes`); the frames
of a contiguous allocation are consecutive and lie in the range of one region (`InOneSpan`).  A
frame that is out can come back (`Inv.dealloc`), or be published as cleared
(`Inv.publishPrezeroed`).
-/

namespace MangoCore.Mm.StackFrameAllocator

open List ReclaimedRegion

variable {a a' : StackFrameAllocator} {out frames taken rest : List ℕ}
  {reclaimed : List ReclaimedRegion}

/-- The frames of an extent that may not be there. -/
def extentFrames (first : Option ℕ) (num : ℕ) : List ℕ := first.elim [] fun f => range' f num

/-- An extent lies in the range of one region. -/
def InOneSpan (a : StackFrameAllocator) (first num : ℕ) : Prop :=
  ∃ x ∈ a.spans, x.1 ≤ first ∧ first + num ≤ x.2

theorem Takes.trans (h : Takes a out [] a') {a'' : StackFrameAllocator}
    (h' : Takes a' out frames a'') : Takes a out frames a'' where
  inv := h'.inv
  spans_eq := h'.spans_eq.trans h.spans_eq
  capacity := h'.capacity.trans h.capacity
  pool := h'.pool.trans h.pool

/-! ## Fresh frames -/

theorem mem_spans_of_region {index : ℕ} {region : FrameRegion}
    (h : a.regions[index]? = some region) : (region.start, region.stop) ∈ a.spans :=
  mem_append_left _ (mem_map_of_mem (mem_of_getElem? h))

/-- The loop over the regions stops at one that is not exhausted. -/
theorem not_of_getElem?_takeWhile_length {α : Type} {p : α → Bool} {l : List α} {x : α}
    (h : l[(l.takeWhile p).length]? = some x) : p x = false := by
  induction l with
  | nil => simp at h
  | cons y l ih =>
    by_cases p y = true
    · grind [takeWhile_cons_of_pos]
    · grind [takeWhile_cons_of_neg]

theorem Inv.takeFreshPpn (h : Inv a out) :
    Takes a out a.takeFreshPpn.1.toList a.takeFreshPpn.2 := by
  unfold StackFrameAllocator.takeFreshPpn
  rcases hregion : a.regions[a.firstFresh]? with _ | region <;> simp only [hregion]
  · exact ⟨⟨h.apart, h.perm, h.marked⟩, rfl, rfl, le_rfl⟩
  · have hstop : (region.current == region.stop) = false := by
      rw [firstFresh, ← getElem?_drop] at hregion
      grind [not_of_getElem?_takeWhile_length]
    have hne : region.current ≠ region.stop := by simpa using hstop
    have hle := region.current_le
    have hone : 1 ≤ region.stop - region.current := by omega
    exact h.takeFresh hregion hone

theorem Inv.takeFreshContiguous (h : Inv a out) (num : ℕ) :
    Takes a out (extentFrames (a.takeFreshContiguous num).1 num) (a.takeFreshContiguous num).2 ∧
      ∀ first, (a.takeFreshContiguous num).1 = some first → InOneSpan a first num := by
  unfold StackFrameAllocator.takeFreshContiguous
  rcases hindex : a.regionWith? num with _ | index
  · exact ⟨h.takes_nothing, nofun⟩
  · rcases hregion : a.regions[index]? with _ | region <;> simp only [hregion]
    · exact ⟨h.takes_nothing, nofun⟩
    · have hnum : num ≤ region.stop - region.current := by
        obtain ⟨i, hi, rfl⟩ := Option.map_eq_some_iff.mp hindex
        grind [findIdx?_eq_some_iff_getElem]
      refine ⟨h.takeFresh hregion hnum, fun first hfirst => ?_⟩
      have hle := region.current_le
      refine ⟨_, mem_spans_of_region hregion, ?_, ?_⟩
      · exact Option.some.inj hfirst ▸ region.start_le
      · grind

/-! ## Recycled frames -/

variable {ppn : ℕ} {r : ReclaimedRegion} {regions : List FrameRegion}

theorem contains_iff {r : FrameRegion} : r.contains ppn = true ↔ r.start ≤ ppn ∧ ppn < r.stop := by
  simp [FrameRegion.contains]

theorem reclaimed_contains_iff : r.contains ppn = true ↔ r.start ≤ ppn ∧ ppn < r.stop := by
  simp [ReclaimedRegion.contains]

section

variable (h : Inv a out)
include h

/-- The region of a marked frame has the mark. -/
theorem Inv.isRecycled_of_marked (hm : a.Marked ppn) {r : FrameRegion}
    (hr : r ∈ a.regions) (hc : r.start ≤ ppn ∧ ppn < r.stop) : r.isRecycled ppn = true := by
  rcases hm with hm | hm
  · exact mark_of_any (fun _ _ _ hn => FrameRegion.mem_of_isRecycled hn) h.regions_apart hm hr hc
  · obtain ⟨r', hr', hmark⟩ := any_eq_true.mp hm
    exact absurd (mem_of_isFree hmark) (h.not_both hr hr' hc)

theorem Inv.isFree_of_marked (hm : a.Marked ppn)
    (hr : r ∈ a.reclaimedRegions) (hc : r.start ≤ ppn ∧ ppn < r.stop) : r.isFree ppn = true := by
  rcases hm with hm | hm
  · obtain ⟨r', hr', hmark⟩ := any_eq_true.mp hm
    exact absurd hc (h.not_both hr' hr (FrameRegion.mem_of_isRecycled hmark))
  · exact mark_of_any (fun _ _ _ hn => mem_of_isFree hn) h.reclaimed_apart hm hr hc

/-- A frame of the stack or outside lies in a region. -/
theorem Inv.region_of_mem (hp : ppn ∈ a.freshFrames ++ a.recycled ++ a.prezeroed ++ out) :
    (∃ r ∈ a.regions, r.start ≤ ppn ∧ ppn < r.stop) ∨
      ∃ r ∈ a.reclaimedRegions, r.start ≤ ppn ∧ ppn < r.stop := by
  obtain ⟨x, hx, hpx⟩ := mem_managedFrames.mp (h.perm.mem_iff.mp hp)
  rcases mem_append.mp hx with hx | hx
  all_goals grind

/-- The marks are those of the rest of the stack once the marks of the taken frames are cleared. -/
theorem Inv.marked_rest (hperm : (taken ++ rest).Perm a.recycled) {n : ℕ} :
    (if n ∈ taken then false = true else a.Marked n) ↔ n ∈ rest := by
  grind [h.nodup_recycled, h.marked]

end

theorem perm_taken {recycled prezeroed : List ℕ} (h : (taken ++ rest).Perm recycled) :
    (rest ++ prezeroed ++ (taken ++ out)).Perm (recycled ++ prezeroed ++ out) := by
  grind

section

variable (h : Inv a out)
include h

/-- Frames leave the stack, and their marks are cleared. -/
theorem Inv.take (hperm : (taken ++ rest).Perm a.recycled)
    (hw : Writes a taken false regions reclaimed) :
    Takes a out taken
      { a with regions := regions, reclaimedRegions := reclaimed, recycled := rest } where
  inv := h.move hw.spans_eq hw.fresh_eq (fun n => (hw.marked n).trans (h.marked_rest hperm))
    (perm_taken hperm)
  spans_eq := hw.spans_eq
  capacity := rfl
  pool := le_rfl

/-- A frame that no region has is in a reclaimed one. -/
theorem Inv.find_reclaimed (hmem : ppn ∈ a.freshFrames ++ a.recycled ++ a.prezeroed ++ out)
    (hfind : (a.regions.find? fun r => r.contains ppn) = none) :
    ∃ region ∈ a.reclaimedRegions, region.contains ppn = true ∧
      (a.reclaimedRegions.find? fun r => r.contains ppn) = some region := by
  rcases h.region_of_mem hmem with ⟨r, hr, hc⟩ | ⟨r, hr, hc⟩
  · exact absurd (contains_iff.mpr hc) (find?_eq_none.mp hfind r hr)
  rcases hfind' : a.reclaimedRegions.find? fun r => r.contains ppn with _ | region
  · exact absurd (reclaimed_contains_iff.mpr hc) (find?_eq_none.mp hfind' r hr)
  exact ⟨region, mem_of_find?_eq_some hfind',
    find?_some (p := fun r : ReclaimedRegion => r.contains ppn) hfind', hfind'⟩

/-- A frame leaves the top of the stack. -/
theorem Inv.takeRecycledPpn :
    ∃ ppn? a', a.takeRecycledPpn = some (ppn?, a') ∧ Takes a out ppn?.toList a' := by
  unfold StackFrameAllocator.takeRecycledPpn
  rcases hrec : a.recycled with _ | ⟨ppn, rest⟩
  · exact ⟨none, a, rfl, h.takes_nothing⟩
  have hperm : ([ppn] ++ rest).Perm a.recycled := hrec ▸ List.Perm.refl _
  have hmark : a.Marked ppn := (h.marked ppn).mpr (hrec ▸ mem_cons_self)
  rcases hfind : a.regions.find? fun r => r.contains ppn with _ | region
  · obtain ⟨region, hmem, hregion, hfind'⟩ := h.find_reclaimed (by simp [hrec]) hfind
    have hfree : region.isFree ppn = true :=
      h.isFree_of_marked hmark hmem (reclaimed_contains_iff.mp hregion)
    refine ⟨some ppn, _, ?_, h.take hperm (h.writes_reclaimed (p := fun r => r.contains ppn)
      (f := fun r => r.markFree ppn false) ?_ ?_ (fun _ => rfl) ?_)⟩
    · grind
    · grind [reclaimed_contains_iff]
    · grind [isFree_markFree]
    · exact any_eq_true.mpr ⟨region, hmem, hregion⟩
  · have hregion : region.contains ppn = true :=
      find?_some (p := fun r : FrameRegion => r.contains ppn) hfind
    have hflag : region.isRecycled ppn = true := h.isRecycled_of_marked hmark
      (mem_of_find?_eq_some hfind) (contains_iff.mp hregion)
    refine ⟨some ppn, _, ?_, h.take hperm (h.writes_regions (p := fun r => r.contains ppn)
      (f := fun r => r.markRecycled ppn false) ?_ ?_ (fun _ => rfl) ?_)⟩
    · dsimp only
      rw [hfind]
      exact if_pos hflag
    · simp [contains_iff]
    · grind [FrameRegion.isRecycled_markRecycled]
    · exact any_eq_true.mpr ⟨region, mem_of_find?_eq_some hfind, hregion⟩

/-- The frames of an extent that is on the stack, and the rest of the stack. -/
theorem Inv.perm_extent {first count : ℕ} (hin : ∀ n ∈ range' first count, n ∈ a.recycled) :
    (range' first count
      ++ a.recycled.filter fun ppn => !(first ≤ ppn && ppn < first + count)).Perm a.recycled := by
  have hmem : ∀ n, (first ≤ n && n < first + count) = true ↔ n ∈ range' first count := by simp
  refine (perm_ext_iff_of_nodup ?_ h.nodup_recycled).mpr fun n => ?_
  · grind [h.nodup_recycled.filter]
  · rw [mem_append, mem_filter]
    constructor
    · rintro (hn | hn)
      · exact hin n hn
      · exact hn.1
    · grind

/-- A candidate of the stack is the first frame of an extent of one region that is on the stack. -/
theorem Inv.recycledExtent_spec {count first : ℕ} (hfirst : a.recycledExtent? count = some first) :
    (∀ n ∈ range' first count, n ∈ a.recycled) ∧
      ((∃ r ∈ a.regions, r.containsExtent first count = true) ∨
        ∃ r ∈ a.reclaimedRegions, r.containsExtent first count = true) := by
  have hp := find?_some hfirst
  rw [Bool.or_eq_true] at hp
  rcases hp with hp | hp
  · obtain ⟨r, hr, hext⟩ := any_eq_true.mp hp
    rw [FrameRegion.extentIsRecycled, Bool.and_eq_true] at hext
    refine ⟨fun n hn => (h.marked n).mp (.inl ?_), .inl ⟨r, hr, hext.1⟩⟩
    exact any_eq_true.mpr ⟨r, hr, all_eq_true.mp hext.2 n hn⟩
  · obtain ⟨r, hr, hext⟩ := any_eq_true.mp hp
    rw [extentIsFree, Bool.and_eq_true] at hext
    refine ⟨fun n hn => (h.marked n).mp (.inr ?_), .inr ⟨r, hr, hext.1⟩⟩
    exact any_eq_true.mpr ⟨r, hr, all_eq_true.mp hext.2 n hn⟩

end

variable {first count : ℕ}

theorem containsExtent_iff {r : FrameRegion} :
    r.containsExtent first count = true ↔ r.start ≤ first ∧ first + count ≤ r.stop := by
  simp [FrameRegion.containsExtent]

theorem reclaimed_containsExtent_iff :
    r.containsExtent first count = true ↔ r.start ≤ first ∧ first + count ≤ r.stop := by
  simp [containsExtent]

section

variable (h : Inv a out)
include h

/-- One frame lies in the range of a region. -/
theorem Inv.inOneSpan_one (hp : ppn ∈ a.freshFrames ++ a.recycled ++ a.prezeroed ++ out) :
    InOneSpan a ppn 1 := by
  grind [InOneSpan, mem_managedFrames, perm]

/-- An extent leaves the middle of the stack. -/
theorem Inv.takeRecycledExtent :
    ∃ first? a', a.takeRecycledExtent count = some (first?, a') ∧
      Takes a out (extentFrames first? count) a' ∧
      ∀ first, first? = some first → InOneSpan a first count := by
  unfold StackFrameAllocator.takeRecycledExtent
  by_cases hone : count = 1
  · subst hone
    obtain ⟨ppn?, a', heq, htakes⟩ := h.takeRecycledPpn
    have hframes : extentFrames ppn? 1 = ppn?.toList := by cases ppn? <;> rfl
    refine ⟨ppn?, a', (if_pos rfl).trans heq, hframes ▸ htakes, ?_⟩
    rintro first rfl
    -- the ranges did not change, so the frame can be looked up after the step
    have hmem : first ∈ a'.freshFrames ++ a'.recycled ++ a'.prezeroed
        ++ ((some first).toList ++ out) := by simp
    have hspan := htakes.inv.inOneSpan_one hmem
    rw [InOneSpan, htakes.spans_eq] at hspan
    exact hspan
  rw [if_neg hone]
  rcases hcand : a.recycledExtent? count with _ | first
  · exact ⟨none, a, rfl, h.takes_nothing, nofun⟩
  obtain ⟨hin, hregion⟩ := h.recycledExtent_spec hcand
  have hperm := h.perm_extent hin
  have hlen : a.recycled.length
      - (a.recycled.filter fun ppn => !(first ≤ ppn && ppn < first + count)).length = count := by
    have := hperm.length_eq
    rw [length_append, length_range'] at this
    omega
  dsimp only
  rw [if_pos hlen]
  by_cases hfound : (a.regions.find? fun r => r.containsExtent first count).isSome = true
  · rw [if_pos hfound]
    rw [find?_isSome] at hfound
    obtain ⟨r, hr, hext⟩ := hfound
    refine ⟨some first, _, rfl, h.take hperm (h.writes_regions ?_ ?_ (fun _ => rfl) ?_), ?_⟩
    · grind [containsExtent_iff, extentFrames]
    · exact fun r hr n => FrameRegion.isRecycled_markRecycledExtent hr
    · exact any_eq_true.mpr ⟨r, hr, hext⟩
    · rintro _ ⟨⟩
      exact ⟨_, mem_append_left _ (mem_map_of_mem hr), containsExtent_iff.mp hext⟩
  · rw [if_neg hfound]
    rw [find?_isSome] at hfound
    obtain ⟨r, hr, hext⟩ := hregion.resolve_left hfound
    have hfound' : (a.reclaimedRegions.find? fun r => r.containsExtent first count).isSome = true :=
      find?_isSome.mpr ⟨r, hr, hext⟩
    rw [if_pos hfound']
    refine ⟨some first, _, rfl, h.take hperm (h.writes_reclaimed ?_ ?_ (fun _ => rfl) ?_), ?_⟩
    · grind [reclaimed_containsExtent_iff, extentFrames]
    · exact fun r hr n => isFree_markFreeExtent hr
    · exact any_eq_true.mpr ⟨r, hr, hext⟩
    · rintro _ ⟨⟩
      exact ⟨_, mem_append_right _ (mem_map_of_mem hr), reclaimed_containsExtent_iff.mp hext⟩

/-! ## The operations that hand out frames -/

theorem Inv.popPrezeroed : Takes a out a.popPrezeroed.1.toList a.popPrezeroed.2 := by
  unfold StackFrameAllocator.popPrezeroed
  rcases hpre : a.prezeroed with _ | ⟨ppn, rest⟩
  · exact h.takes_nothing
  · refine ⟨h.move rfl rfl h.marked ?_, rfl, rfl, ?_⟩
    · grind
    · rw [hpre]
      exact Nat.le_succ _

theorem Inv.takeRecycledOrFresh {fresh : Bool} :
    ∃ ppn? a', a.takeRecycledOrFresh fresh = some (ppn?, a') ∧ Takes a out ppn?.toList a' := by
  obtain ⟨ppn?, a₁, heq, htakes⟩ := h.takeRecycledPpn
  unfold StackFrameAllocator.takeRecycledOrFresh
  rw [heq]
  cases ppn? with
  | some ppn => exact ⟨some ppn, a₁, rfl, htakes⟩
  | none =>
    cases fresh with
    | false => exact ⟨none, a₁, rfl, htakes⟩
    | true => exact ⟨_, _, rfl, htakes.trans htakes.inv.takeFreshPpn⟩

theorem Inv.reserveForPrezero {zeroInit : Bool} :
    ∃ ppn? a', a.reserveForPrezero zeroInit = some (ppn?, a') ∧ Takes a out ppn?.toList a' ∧
      (ppn? ≠ none → prezeroPoolHighWater ≤ a.prezeroedCapacity ∧
        a.prezeroed.length < prezeroPoolHighWater) := by
  unfold StackFrameAllocator.reserveForPrezero
  split_ifs
  · exact ⟨none, a, rfl, h.takes_nothing, fun hne => absurd rfl hne⟩
  · simp_all [h.takeRecycledOrFresh]

theorem Inv.reserveOne :
    ∃ ppn? a', a.reserveOne = some (ppn?, a') ∧ Takes a out ppn?.toList a' := by
  have hpop := h.popPrezeroed
  unfold StackFrameAllocator.reserveOne
  rcases hp : a.popPrezeroed with ⟨ppn?, a₁⟩
  rw [hp] at hpop
  cases ppn? with
  | some ppn => exact ⟨some ppn, a₁, rfl, hpop⟩
  | none =>
    obtain ⟨ppn?, a', heq, htakes⟩ := hpop.inv.takeRecycledOrFresh
    exact ⟨ppn?, a', heq, hpop.trans htakes⟩

theorem Inv.allocUninit :
    ∃ ppn? a', a.allocUninit = some (ppn?, a') ∧ Takes a out ppn?.toList a' := by
  obtain ⟨ppn?, a₁, heq, htakes⟩ := h.takeRecycledOrFresh
  unfold StackFrameAllocator.allocUninit
  rw [heq]
  cases ppn? with
  | some ppn => exact ⟨some ppn, a₁, rfl, htakes⟩
  | none => exact ⟨_, _, rfl, htakes.trans htakes.inv.popPrezeroed⟩

end

/-- The frames of a contiguous allocation: consecutive, and of one region unless there are none. -/
def Contiguous (a : StackFrameAllocator) (num : ℕ) (frames : List ℕ) : Prop :=
  ∃ first, frames = range' first num ∧ (num = 0 ∨ InOneSpan a first num)

variable {heapOk : Bool} {num : ℕ} {fw : Hal.Firmware} {start stop : ℕ}

theorem Inv.allocFreshContiguous (h : Inv a out) :
    let result := a.allocFreshContiguous heapOk num
    Takes a out (result.1.getD []) result.2 ∧ ∀ frames, result.1 = some frames → Contiguous a num
      frames := by
  unfold StackFrameAllocator.allocFreshContiguous
  split_ifs with hheap hnum
  · exact ⟨h.takes_nothing, nofun⟩
  · refine ⟨h.takes_nothing, ?_⟩
    rintro _ ⟨⟩
    exact ⟨0, by rw [hnum]; rfl, .inl hnum⟩
  · obtain ⟨htakes, hspan⟩ := h.takeFreshContiguous num
    rcases hres : a.takeFreshContiguous num with ⟨_ | first, a'⟩
    · rw [hres] at htakes
      exact ⟨htakes, nofun⟩
    · grind [Contiguous, extentFrames]

theorem Inv.allocContiguous (h : Inv a out) :
    ∃ frames? a', a.allocContiguous heapOk num = some (frames?, a') ∧
      Takes a out (frames?.getD []) a' ∧
      ∀ frames, frames? = some frames → Contiguous a num frames := by
  unfold StackFrameAllocator.allocContiguous
  split_ifs with hheap hnum
  · exact ⟨none, a, rfl, h.takes_nothing, nofun⟩
  · refine ⟨some [], a, rfl, h.takes_nothing, ?_⟩
    rintro _ ⟨⟩
    exact ⟨0, by rw [hnum]; rfl, .inl hnum⟩
  · obtain ⟨first?, a₁, heq, htakes, hspan⟩ := h.takeRecycledExtent
    rw [heq]
    cases first? with
    | some first =>
      refine ⟨some (range' first num), a₁, rfl, htakes, ?_⟩
      rintro _ ⟨⟩
      exact ⟨first, rfl, .inr (hspan first rfl)⟩
    | none =>
      obtain ⟨htakes', hspan'⟩ := htakes.inv.takeFreshContiguous num
      dsimp only
      rcases hres : a₁.takeFreshContiguous num with ⟨_ | first, a'⟩
      · rw [hres] at htakes'
        exact ⟨none, a', rfl, htakes.trans htakes', nofun⟩
      · grind [Contiguous, Takes.trans, extentFrames, Takes.spans_eq, InOneSpan.eq_1]

theorem Inv.reserveFreshContiguous (h : Inv a out) :
    let result := a.reserveFreshContiguous num
    Takes a out (extentFrames result.1 num) result.2 ∧ ∀ first, result.1 = some first → InOneSpan a
      first num := by
  unfold StackFrameAllocator.reserveFreshContiguous
  split_ifs
  · exact ⟨h.takes_nothing, nofun⟩
  · exact h.takeFreshContiguous num

/-! ## The operations that take frames back -/

/-- The allocator has frames back: the regions and the capacity of the pool are as before. -/
structure Returns (a : StackFrameAllocator) (out : List ℕ) (a' : StackFrameAllocator) : Prop where
  inv : Inv a' out
  spans_eq : a'.spans = a.spans
  capacity : a'.prezeroedCapacity = a.prezeroedCapacity

theorem Inv.publishPrezeroed (h : Inv a (ppn :: out))
    (hlt : a.prezeroed.length < a.prezeroedCapacity) :
    ∃ a', a.publishPrezeroed ppn = some a' ∧ Returns a out a' ∧
      a'.prezeroed.length = a.prezeroed.length + 1 := by
  refine ⟨_, if_pos hlt, ⟨h.move rfl rfl h.marked ?_, rfl, rfl⟩, rfl⟩
  grind

/-- A frame that is out is neither fresh nor on the stack. -/
theorem Inv.not_free (h : Inv a (ppn :: out)) : ppn ∉ a.freshFrames ∧ ppn ∉ a.recycled := by
  have hnodup := h.nodup
  rw [append_assoc, append_assoc] at hnodup
  grind

theorem mem_freshFrames_of_le {r : FrameRegion} (hr : r ∈ a.regions)
    (hle : r.current ≤ ppn) (hlt : ppn < r.stop) : ppn ∈ a.freshFrames :=
  mem_flatMap.mpr ⟨r, hr, mem_framesOf.mpr ⟨hle, hlt⟩⟩

/-- A frame comes back to the stack, and is marked. -/
theorem Inv.giveBack (h : Inv a (ppn :: out)) (hw : Writes a [ppn] true regions reclaimed) :
    Returns a out { a with
      regions := regions, reclaimedRegions := reclaimed, recycled := ppn :: a.recycled } where
  inv := by
    refine h.move hw.spans_eq hw.fresh_eq (fun n => (hw.marked n).trans ?_) perm_middle.symm
    grind [h.marked]
  spans_eq := hw.spans_eq
  capacity := rfl

/-- **A frame that is out goes back on the stack.** -/
theorem Inv.dealloc (h : Inv a (ppn :: out)) (debug : Bool) :
    ∃ a', a.dealloc debug ppn = some a' ∧ Returns a out a' ∧ a'.prezeroed = a.prezeroed := by
  obtain ⟨hfresh, hrec⟩ := h.not_free
  have hunmarked : ¬ a.Marked ppn := mt (h.marked ppn).mp hrec
  unfold StackFrameAllocator.dealloc
  rcases hfind : a.regions.find? fun r => r.contains ppn with _ | region
  · obtain ⟨region, hmem, hregion, hfind'⟩ := h.find_reclaimed (by simp) hfind
    have hflag : ¬ region.isFree ppn = true :=
      fun hfree => hunmarked (.inr (any_eq_true.mpr ⟨region, hmem, hfree⟩))
    have hback := h.giveBack (h.writes_reclaimed (p := fun r => r.contains ppn)
      (f := fun r => r.markFree ppn true) (by grind [reclaimed_contains_iff])
      (by grind [isFree_markFree]) (fun _ => rfl)
      (any_eq_true.mpr ⟨region, hmem, hregion⟩))
    grind
  · have hmem := mem_of_find?_eq_some hfind
    have hregion : region.contains ppn = true :=
      find?_some (p := fun r : FrameRegion => r.contains ppn) hfind
    have hcur : ¬ region.current ≤ ppn :=
      fun hle => hfresh (mem_freshFrames_of_le hmem hle (contains_iff.mp hregion).2)
    have hflag : ¬ region.isRecycled ppn = true :=
      fun hrec => hunmarked (.inl (any_eq_true.mpr ⟨region, hmem, hrec⟩))
    have hback := h.giveBack (h.writes_regions (p := fun r => r.contains ppn)
      (f := fun r => r.markRecycled ppn true) (by grind [contains_iff])
      (by grind [FrameRegion.isRecycled_markRecycled]) (fun _ => rfl)
      (any_eq_true.mpr ⟨region, hmem, hregion⟩))
    grind

/-! ## Reclaiming, and the first allocator -/

theorem apart_of_not_overlaps {start' stop' : ℕ} (h : ¬ overlaps start stop start' stop' = true) :
    Apart (start', stop') (start, stop) := by
  grind [Apart, overlaps]

theorem Inv.addReclaimed (h : Inv a out) (hle : start ≤ stop)
    (hapart : ∀ x ∈ a.spans, Apart x (start, stop)) :
    Inv { a with
      reclaimedRegions := a.reclaimedRegions ++ [.new start stop hle]
      recycled := (range' start (stop - start)).reverse ++ a.recycled } out := by
  have hspans : spans { a with
      reclaimedRegions := a.reclaimedRegions ++ [.new start stop hle]
      recycled := (range' start (stop - start)).reverse ++ a.recycled }
        = a.spans ++ [(start, stop)] := by
    simp [spans, new]
  refine ⟨?_, ?_, fun n => ?_⟩
  · grind [h.apart]
  · rw [managedFrames, hspans, flatMap_append, flatMap_singleton]
    refine List.Perm.trans ?_ (h.perm.append_right (framesOf (start, stop)))
    have hnew : ((range' start (stop - start)).reverse ++ (a.recycled ++ (a.prezeroed ++ out)))
        |>.Perm (a.recycled ++ (a.prezeroed ++ (out ++ framesOf (start, stop)))) := by
      refine ((reverse_perm _).append_right _).trans ?_
      refine perm_append_comm.trans ?_
      rw [append_assoc, append_assoc]
      rfl
    have hall := hnew.append_left a.freshFrames
    simp only [append_assoc] at hall ⊢
    exact hall
  · have hnew : (new start stop hle).isFree n = true
        ↔ n ∈ range' start (stop - start) := by
      unfold isFree new
      rw [markAt_replicate, Bool.and_true, decide_eq_true_iff, mem_range'_1]
    rw [mem_append, mem_reverse, ← hnew, ← h.marked n]
    unfold Marked
    grind

/-- **A reclaimed range joins the managed frames and the stack at once.**  An attempt that fails
changes nothing. -/
theorem Inv.reclaimLinkerFrames (h : Inv a out)
    :
    let result := a.reclaimLinkerFrames fw heapOk start stop
    Inv result.2 out ∧ result.2.prezeroed = a.prezeroed ∧ result.2.prezeroedCapacity =
      a.prezeroedCapacity := by
  unfold StackFrameAllocator.reclaimLinkerFrames
  split_ifs with hrev _ _ _ _ _
  case neg =>
    refine ⟨h.addReclaimed (not_lt.mp hrev) fun x hx => ?_, rfl, rfl⟩
    rcases mem_append.mp hx with hx | hx
    · grind [apart_of_not_overlaps]
    · grind [apart_of_not_overlaps]
  all_goals exact ⟨h, rfl, rfl⟩

/-- All frames of the first allocator are fresh. -/
theorem inv_ofRanges {ranges : List (ℕ × ℕ)} (hranges : ranges.Pairwise fun r r' => r.2 ≤ r'.1)
    (hlt : ∀ r ∈ ranges, r.1 < r.2) (capacity : ℕ) : Inv (ofRanges ranges capacity) [] := by
  have hspans : (ofRanges ranges capacity).spans
      = ranges.map fun r => (r.1 / pageSize, max (r.1 / pageSize) (r.2 / pageSize)) := by
    simp [spans, ofRanges, FrameRegion.new]
  refine ⟨?_, ?_, fun n => ?_⟩
  · grind [Apart, pageSize, List.Pairwise.imp_of_mem]
  · rw [managedFrames, hspans]
    unfold freshFrames ofRanges
    simp [flatMap_map, FrameRegion.new]
  · unfold Marked ofRanges
    simp [FrameRegion.new, FrameRegion.isRecycled, markAt_replicate]

theorem inv_init {kernelImage : ℕ × ℕ} {capacity : ℕ}
    (h : init fw kernelImage capacity = some a) : Inv a [] := by
  obtain ⟨ranges, hranges, rfl⟩ := Option.map_eq_some_iff.mp h
  grind [Hal.forEachUsableRamRange_sorted, inv_ofRanges]
end MangoCore.Mm.StackFrameAllocator
