import MangoCore.Mm.FrameAllocator

/-!
# What the frame allocator keeps

The frames of the regions, listed region by region, are the *managed* frames.  At any time they are,
up to order, the fresh frames, the two stacks and the frames that are out (`Inv.perm`).  An
operation moves frames between these four lists, so it keeps the invariant because the lists stay a
permutation of the managed frames; that a frame is in one list only is then a fact about
permutations of lists without duplicates.

* `Inv.move`: an operation on the stacks.
* `Inv.takeFresh`: the cursor of a region moves.
* `Writes`: the marks after a write.
-/

namespace MangoCore.Mm.StackFrameAllocator

open List FrameRegion ReclaimedRegion

variable {ppn : ℕ}

/-! ## Frames in lists -/

/-- The frames of a range. -/
def framesOf (x : ℕ × ℕ) : List ℕ := range' x.1 (x.2 - x.1)

/-- Two ranges that share no frame. -/
def Apart (x y : ℕ × ℕ) : Prop := x.2 ≤ y.1 ∨ y.2 ≤ x.1

section

variable (a : StackFrameAllocator)

/-- The ranges of all regions. -/
def spans : List (ℕ × ℕ) :=
  (a.regions.map fun r => (r.start, r.stop)) ++ a.reclaimedRegions.map fun r => (r.start, r.stop)

def managedFrames : List ℕ := a.spans.flatMap framesOf

def freshFrames : List ℕ :=
  a.regions.flatMap fun r => framesOf (r.current, r.stop)

/-- The table of the frame's region has its mark. -/
def Marked (ppn : ℕ) : Prop :=
  (a.regions.any fun r => r.isRecycled ppn) = true
    ∨ (a.reclaimedRegions.any fun r => r.isFree ppn) = true

theorem mem_framesOf {x : ℕ × ℕ} : ppn ∈ framesOf x ↔ x.1 ≤ ppn ∧ ppn < x.2 := by
  rw [framesOf, mem_range'_1]
  omega

theorem Apart.not_mem {x y : ℕ × ℕ} (h : Apart x y) (hx : ppn ∈ framesOf x) : ppn ∉ framesOf y := by
  intro hy
  rw [mem_framesOf] at hx hy
  rcases h with h | h <;> omega

/-- The frames of ranges that share no frame have no duplicates. -/
theorem nodup_flatMap_framesOf {l : List (ℕ × ℕ)} (h : l.Pairwise Apart) :
    (l.flatMap framesOf).Nodup := by
  grind [framesOf, nodup_range', Apart.not_mem]

theorem mem_managedFrames {a : StackFrameAllocator} :
    ppn ∈ a.managedFrames ↔ ∃ x ∈ a.spans, x.1 ≤ ppn ∧ ppn < x.2 := by
  simp only [managedFrames, mem_flatMap, mem_framesOf]

/-- The number of free frames that the allocator reports, as a length. -/
theorem unallocatedFrames_eq :
    a.unallocatedFrames = (a.freshFrames ++ a.recycled ++ a.prezeroed).length := by
  have hfresh : (a.regions.map FrameRegion.unallocatedFrames).sum = a.freshFrames.length := by
    unfold freshFrames
    induction a.regions with
    | nil => rfl
    | cons r l ih => grind [FrameRegion.unallocatedFrames, framesOf.eq_1]
  rw [unallocatedFrames, hfresh, length_append, length_append]

end

/-! ## The invariant -/

/-- The allocator with the list of frames that are out. -/
structure Inv (a : StackFrameAllocator) (out : List ℕ) : Prop where
  apart : a.spans.Pairwise Apart
  perm : (a.freshFrames ++ a.recycled ++ a.prezeroed ++ out).Perm a.managedFrames
  marked : ∀ ppn, a.Marked ppn ↔ ppn ∈ a.recycled

/-- An operation takes frames out: the invariant holds with them among the frames that are out, the
regions keep their ranges and the pool of cleared frames has not grown. -/
structure Takes (a : StackFrameAllocator) (out frames : List ℕ) (a' : StackFrameAllocator) :
    Prop where
  inv : Inv a' (frames ++ out)
  spans_eq : a'.spans = a.spans
  capacity : a'.prezeroedCapacity = a.prezeroedCapacity
  pool : a'.prezeroed.length ≤ a.prezeroed.length

variable {a a' : StackFrameAllocator} {out out' frames : List ℕ} {f : FrameRegion → FrameRegion}
  {p : FrameRegion → Bool}

namespace Inv

variable (h : Inv a out)
include h

theorem nodup : (a.freshFrames ++ a.recycled ++ a.prezeroed ++ out).Nodup :=
  h.perm.nodup_iff.mpr (nodup_flatMap_framesOf h.apart)

theorem nodup_recycled : a.recycled.Nodup := by
  have hn := h.nodup
  simp only [nodup_append] at hn
  exact hn.1.1.2.1

theorem congr_out (hout : out'.Perm out) : Inv a out' where
  apart := h.apart
  perm := (hout.append_left _).trans h.perm
  marked := h.marked

/-- **Frames move between the stacks and the outside.** -/
theorem move (hspans : a'.spans = a.spans)
    (hfresh : a'.freshFrames = a.freshFrames) (hmarked : ∀ ppn, a'.Marked ppn ↔ ppn ∈ a'.recycled)
    (hperm : (a'.recycled ++ a'.prezeroed ++ out').Perm (a.recycled ++ a.prezeroed ++ out)) :
    Inv a' out' where
  apart := hspans ▸ h.apart
  perm := by grind [h.perm, managedFrames]
  marked := hmarked

theorem takes_nothing : Takes a out [] a := ⟨h, rfl, rfl, le_rfl⟩

end Inv

/-! ## The regions share no frame -/

theorem apart_of_map {α : Type} {l : List α} {span : α → ℕ × ℕ} (h : (l.map span).Pairwise Apart) :
    l.Pairwise fun r r' => ∀ n, ((span r).1 ≤ n ∧ n < (span r).2) →
      ¬ ((span r').1 ≤ n ∧ n < (span r').2) := by
  refine (pairwise_map.mp h).imp fun hrr n hr hr' => ?_
  exact hrr.not_mem (mem_framesOf.mpr hr) (mem_framesOf.mpr hr')

namespace Inv

theorem regions_apart (h : Inv a out) :
    a.regions.Pairwise fun r r' => ∀ n, (r.start ≤ n ∧ n < r.stop) →
      ¬ (r'.start ≤ n ∧ n < r'.stop) :=
  apart_of_map (pairwise_append.mp h.apart).1

theorem reclaimed_apart (h : Inv a out) :
    a.reclaimedRegions.Pairwise fun r r' => ∀ n, (r.start ≤ n ∧ n < r.stop) →
      ¬ (r'.start ≤ n ∧ n < r'.stop) :=
  apart_of_map (pairwise_append.mp h.apart).2.1

/-- A frame is not in a region and in a reclaimed region. -/
theorem not_both (h : Inv a out) {r : FrameRegion} (hr : r ∈ a.regions) {r' : ReclaimedRegion}
    (hr' : r' ∈ a.reclaimedRegions) {n : ℕ} (hn : r.start ≤ n ∧ n < r.stop) :
    ¬ (r'.start ≤ n ∧ n < r'.stop) := by
  intro hn'
  have hrr := (pairwise_append.mp h.apart).2.2 _ (mem_map_of_mem hr) _ (mem_map_of_mem hr')
  exact hrr.not_mem (mem_framesOf.mpr hn) (mem_framesOf.mpr hn')

end Inv

/-! ## The marks after a write -/

/-- The tables after a write: the ranges and the fresh frames are as before, and so are the marks of
all frames but the written ones. -/
structure Writes (a : StackFrameAllocator) (written : List ℕ) (value : Bool)
    (regions : List FrameRegion) (reclaimed : List ReclaimedRegion) : Prop where
  spans_eq : spans { a with regions := regions, reclaimedRegions := reclaimed } = a.spans
  fresh_eq : freshFrames { a with regions := regions } = a.freshFrames
  marked : ∀ n, Marked { a with regions := regions, reclaimedRegions := reclaimed } n ↔
    if n ∈ written then value = true else a.Marked n

variable {written : List ℕ} {value : Bool}

theorem Inv.writes_regions (h : Inv a out)
    (hhas : ∀ r, p r = true → ∀ n ∈ written, r.start ≤ n ∧ n < r.stop)
    (hwrite : ∀ r, p r = true → ∀ n,
      (f r).isRecycled n = if n ∈ written then value else r.isRecycled n)
    (hkeep : ∀ r, ((f r).start, (f r).current, (f r).stop) = (r.start, r.current, r.stop))
    (hfound : a.regions.any p = true) :
    Writes a written value (modifyFirst p f a.regions) a.reclaimedRegions := by
  refine ⟨?_, ?_, fun n => ?_⟩
  · unfold spans
    rw [map_modifyFirst fun r => by grind]
  · grind [freshFrames, map_modifyFirst]
  · have hany := any_modifyFirst (fun r _ _ hn => mem_of_isRecycled hn) hhas hwrite
      h.regions_apart hfound n
    unfold Marked
    rw [hany]
    by_cases hw : n ∈ written
    · -- a reclaimed region has no mark for the frame, since the found region has the frame
      obtain ⟨r, hr, hpr⟩ := any_eq_true.mp hfound
      have hother : (a.reclaimedRegions.any fun r => r.isFree n) = false := by
        rw [any_eq_false]
        intro r' hr' hfree
        exact h.not_both hr hr' (hhas r hpr n hw) (mem_of_isFree hfree)
      simp [hw, hother]
    · rw [if_neg hw, if_neg hw]

/-- A write to a reclaimed region. -/
theorem Inv.writes_reclaimed (h : Inv a out) {p : ReclaimedRegion → Bool}
    {f : ReclaimedRegion → ReclaimedRegion}
    (hhas : ∀ r, p r = true → ∀ n ∈ written, r.start ≤ n ∧ n < r.stop)
    (hwrite : ∀ r, p r = true → ∀ n, (f r).isFree n = if n ∈ written then value else r.isFree n)
    (hkeep : ∀ r, ((f r).start, (f r).stop) = (r.start, r.stop))
    (hfound : a.reclaimedRegions.any p = true) :
    Writes a written value a.regions (modifyFirst p f a.reclaimedRegions) := by
  refine ⟨?_, rfl, fun n => ?_⟩
  · unfold spans
    rw [map_modifyFirst hkeep]
  · have hany := any_modifyFirst (fun r _ _ hn => mem_of_isFree hn) hhas
      hwrite h.reclaimed_apart hfound n
    unfold Marked
    rw [hany]
    by_cases hw : n ∈ written
    · obtain ⟨r', hr', hpr⟩ := any_eq_true.mp hfound
      have hother : (a.regions.any fun r => r.isRecycled n) = false := by
        rw [any_eq_false]
        intro r hr hrec
        exact h.not_both hr hr' (mem_of_isRecycled hrec) (hhas r' hpr n hw)
      simp [hw, hother]
    · rw [if_neg hw, if_neg hw]

/-! ## The cursor of a region -/

/-- `num` frames leave the fresh part of a region. -/
theorem Inv.takeFresh (h : Inv a out) {index num : ℕ} {region : FrameRegion}
    (hregion : a.regions[index]? = some region) (hnum : num ≤ region.stop - region.current)
    {freshRegion : ℕ} :
    Takes a out (range' region.current num)
      { a with freshRegion := freshRegion, regions := a.regions.set index (region.take num) } := by
  have hle : region.current + num ≤ region.stop := by
    have := region.current_le
    omega
  have htake : region.take num = { region with
      current := region.current + num
      start_le := region.start_le.trans (Nat.le_add_right ..)
      current_le := hle } := dif_pos hle
  obtain ⟨hlt, hget⟩ := List.getElem?_eq_some_iff.mp hregion
  -- the list before, at and behind the region
  have hsplit : a.regions = a.regions.take index ++ region :: a.regions.drop (index + 1) := by
    rw [← hget, getElem_cons_drop, take_append_drop]
  have hset : a.regions.set index (region.take num)
      = a.regions.take index ++ region.take num :: a.regions.drop (index + 1) :=
    set_eq_take_append_cons_drop.trans (if_pos hlt)
  have hspans : spans { a with
      freshRegion := freshRegion, regions := a.regions.set index (region.take num) } = a.spans := by
    unfold spans
    conv_rhs => rw [hsplit]
    rw [hset, htake]
    simp
  have hframes : framesOf (region.current, region.stop)
      = range' region.current num ++ framesOf (region.current + num, region.stop) := by
    unfold framesOf
    rw [range'_append_1]
    congr 1
    omega
  have hfresh : a.freshFrames.Perm (range' region.current num ++ freshFrames { a with
      freshRegion := freshRegion, regions := a.regions.set index (region.take num) }) := by
    unfold freshFrames
    conv_lhs => rw [hsplit]
    rw [hset, htake, flatMap_append, flatMap_cons, flatMap_append,
      flatMap_cons, hframes, append_assoc]
    exact perm_append_comm_assoc ..
  refine ⟨⟨hspans ▸ h.apart, ?_, fun ppn => ?_⟩, hspans, rfl, le_rfl⟩
  · grind [managedFrames, h.perm]
  · rw [← h.marked ppn]
    unfold Marked
    conv_rhs => rw [hsplit]
    rw [hset, htake]
    simp [isRecycled]
end MangoCore.Mm.StackFrameAllocator
