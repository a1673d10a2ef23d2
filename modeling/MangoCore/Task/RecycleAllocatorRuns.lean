import MangoCore.Lib.System
import MangoCore.Task.RecycleAllocator
import Mathlib.Order.Interval.Finset.Nat

/-!
# Runs of the id allocator

A run is a sequence of allocations, hints and releases of live ids, one after the other under the
lock of the allocator.  Next to the allocator the state records the ids that are live and the ranges
that a hint jumped over.

Every id below the bound is live, skipped or recycled, no live id is recycled, and a recycled id is
on the stack, as long as no hint asks for the largest word.  That hint makes the vector of flags
wrap to length zero and the bound wrap to zero after it, so the ids that are live are given out
again.
-/

namespace MangoCore.Task

open RecycleAllocator Option List

/-- The allocator with the ids in use and the ranges that hints skipped. -/
structure TidState where
  allocator : RecycleAllocator
  live : Finset ℕ
  /-- Half-open ranges. -/
  skipped : List (ℕ × ℕ)

inductive TidLabel where
  | alloc
  | allocFresh
  | setNextAllocHint (next : ℕ)
  | dealloc (id : ℕ)
  | releaseFreshId (id : ℕ)
  deriving DecidableEq

namespace TidState

def initial : TidState := ⟨.new, ∅, []⟩

variable (s : TidState)

/-- The id was jumped over by a hint. -/
def Skipped (id : ℕ) : Prop :=
  ∃ range ∈ s.skipped, range.1 ≤ id ∧ id < range.2

/-- The id is in use from now on. -/
def grant (result : ℕ × RecycleAllocator) : Option ℕ × TidState :=
  (some result.1, { s with allocator := result.2, live := insert result.1 s.live })

/-- One call; only live ids are given back. -/
def step : TidLabel → Option (Option ℕ × TidState)
  | .alloc => s.allocator.alloc.map s.grant
  | .allocFresh => s.allocator.allocFresh.map s.grant
  | .setNextAllocHint next =>
    (s.allocator.setNextAllocHint next).map fun a =>
      (none, { s with allocator := a, skipped := (s.allocator.current, a.current) :: s.skipped })
  | .dealloc id =>
    if id ∈ s.live then
      (s.allocator.dealloc id).map fun a =>
        (none, { s with allocator := a, live := s.live.erase id })
    else none
  | .releaseFreshId id =>
    if id ∈ s.live then
      (s.allocator.releaseFreshId id).map fun a =>
        (none, { s with allocator := a, live := s.live.erase id })
    else none

/-- The state after one call. -/
def next (l : TidLabel) : Option TidState :=
  (s.step l).map Prod.snd

end TidState

/-- Every sequence of calls on a new allocator. -/
def tidAllocator : System TidState TidLabel :=
  .ofFun (· = .initial) TidState.next

/-- No hint asks for the largest word. -/
def SmallHint : TidLabel → Prop
  | .setNextAllocHint next => next + 1 < wordSize
  | _ => True

instance (l : TidLabel) : Decidable (SmallHint l) := by
  cases l <;> unfold SmallHint <;> infer_instance

/-! ## The invariant -/

namespace TidState

/-- Who holds each id below the bound, and how far the bound can be. -/
structure Sound (s : TidState) : Prop where
  recycled : ∀ id, s.allocator.isRecycled id = true →
    id ∈ s.allocator.recycled ∧ 1 ≤ id ∧ id < s.allocator.current
  live : ∀ id ∈ s.live,
    1 ≤ id ∧ id < s.allocator.current ∧ s.allocator.isRecycled id = false
  cover : ∀ id, 1 ≤ id → id < s.allocator.current →
    id ∈ s.live ∨ s.Skipped id ∨ s.allocator.isRecycled id = true
  positive : 1 ≤ s.allocator.current
  covered : s.allocator.current ≤ s.allocator.recycledFlags.length + 1
  bounded : s.allocator.recycledFlags.length ≤ maxCapacity

theorem Sound.current_lt {s : TidState} (h : s.Sound) : s.allocator.current + 1 < wordSize := by
  grind [covered, maxCapacity, bounded, wordSize]

theorem sound_initial : initial.Sound := by
  refine ⟨fun id h => ?_, fun id h => absurd h (Finset.notMem_empty id), fun id h₁ h₂ => ?_,
    le_refl 1, le_refl 1, Nat.zero_le _⟩
  · rw [isRecycled] at h
    cases h
  · exact absurd h₂ (not_lt.mpr h₁)

variable {s : TidState} {a : RecycleAllocator} {id : ℕ} (h : s.Sound) {s' : TidState} {l : TidLabel}
include h

/-- Taking a recycled id makes it live. -/
theorem Sound.grant_takes (ht : s.allocator.Takes id a) : (s.grant (id, a)).2.Sound := by
  obtain ⟨-, hpos, hlt⟩ := h.recycled id ht.flagged
  refine ⟨fun x hx => ?_, fun x hx => ?_, fun x h₁ h₂ => ?_, ?_, ?_, ?_⟩
  · grind [grant, RecycleAllocator.Takes.isRecycled, recycled, RecycleAllocator.Takes.stack,
      RecycleAllocator.Takes.current]
  · change 1 ≤ x ∧ x < a.current ∧ a.isRecycled x = false
    rw [ht.current, ht.isRecycled]
    obtain rfl | hx := Finset.mem_insert.mp hx
    · exact ⟨hpos, hlt, if_pos rfl⟩
    · simp [hx, h.live]
  · change x < a.current at h₂
    rw [ht.current] at h₂
    change x ∈ insert id s.live ∨ s.Skipped x ∨ a.isRecycled x = true
    by_cases hx : x = id
    · exact .inl (Finset.mem_insert.mpr (.inl hx))
    · grind [ht.isRecycled, h.cover]
  · exact ht.current ▸ h.positive
  · change a.current ≤ a.recycledFlags.length + 1
    rw [ht.current, ht.length]
    exact h.covered
  · exact ht.length ▸ h.bounded

/-- The linear path makes the bound live and moves past it. -/
theorem Sound.grant_extends (he : s.allocator.Extends id a) : (s.grant (id, a)).2.Sound := by
  have hid := he.id_eq
  have hfresh : s.allocator.isRecycled id = false := by
    refine Bool.eq_false_iff.mpr fun hflag => ?_
    have := (h.recycled id hflag).2.2
    omega
  refine ⟨fun x hx => ?_, fun x hx => ?_, fun x h₁ h₂ => ?_, ?_, ?_, he.bounded h.bounded⟩
  · grind [grant, recycled, RecycleAllocator.Extends.isRecycled, RecycleAllocator.Extends.stack,
      RecycleAllocator.Extends.current]
  · change 1 ≤ x ∧ x < a.current ∧ a.isRecycled x = false
    rw [he.current, he.isRecycled]
    obtain rfl | hx := Finset.mem_insert.mp hx
    · exact ⟨hid ▸ h.positive, by omega, hfresh⟩
    · obtain ⟨h₁, h₂, h₃⟩ := h.live x hx
      exact ⟨h₁, by omega, h₃⟩
  · change x < a.current at h₂
    rw [he.current] at h₂
    change x ∈ insert id s.live ∨ s.Skipped x ∨ a.isRecycled x = true
    grind [he.isRecycled, h.cover]
  · change 1 ≤ a.current
    rw [he.current]
    exact Nat.le_add_left 1 _
  · change a.current ≤ a.recycledFlags.length + 1
    have := he.covers
    rw [he.current]
    omega

/-- A live id that is given back is recycled. -/
theorem Sound.release (hid : id ∈ s.live) (hg : s.allocator.Gives id a) :
    ({ s with allocator := a, live := s.live.erase id } : TidState).Sound := by
  obtain ⟨hpos, hlt, -⟩ := h.live id hid
  refine ⟨fun x hx => ?_, fun x hx => ?_, fun x h₁ h₂ => ?_, ?_, ?_, hg.bounded h.bounded⟩
  · grind [hg.recycled, hg.current, hg.isRecycled, h.recycled]
  · simp_all [hg.current, hg.isRecycled, h.live]
  · change x < a.current at h₂
    rw [hg.current] at h₂
    change x ∈ s.live.erase id ∨ s.Skipped x ∨ a.isRecycled x = true
    rw [hg.isRecycled]
    by_cases hx : x = id
    · exact .inr (.inr (if_pos hx))
    · grind [h.cover]
  · exact hg.current ▸ h.positive
  · change a.current ≤ a.recycledFlags.length + 1
    have := hg.le
    have := h.covered
    rw [hg.current]
    omega

/-- A hint moves the bound over ids that are recorded as skipped, or leaves it. -/
theorem Sound.hint {next : ℕ} (hnext : next + 1 < wordSize)
    (ha : s.allocator.setNextAllocHint next = some a) :
    ({ s with
      allocator := a, skipped := (s.allocator.current, a.current) :: s.skipped } : TidState).Sound
    := by
  -- what the hint does to the fields that the invariant reads
  have hspec : (∀ x, a.isRecycled x = s.allocator.isRecycled x) ∧
      a.recycled = s.allocator.recycled ∧ s.allocator.current ≤ a.current ∧
      a.current ≤ a.recycledFlags.length + 1 ∧ a.recycledFlags.length ≤ maxCapacity := by
    rw [setNextAllocHint] at ha
    split_ifs at ha with hge
    · rw [bind_eq_bind, bind_eq_some_iff] at ha
      obtain ⟨b, hb, ha⟩ := ha
      cases ha
      have hmax : max next 1 + 1 < wordSize := by
        have : 2 < wordSize := by decide
        omega
      have hgrows := grows_of_ensureFlagCapacity hmax hb
      have hcurrent : b.current = max next 1 := hgrows.current
      have hcovers := hgrows.covers
      refine ⟨hgrows.isRecycled, hgrows.recycled, ?_, ?_, hgrows.bounded h.bounded⟩
      · exact hcurrent ▸ hge
      · change b.current ≤ b.recycledFlags.length + 1
        omega
    · grind [isRecycled, covered, bounded]
    · grind [h.covered, h.bounded]
  obtain ⟨hflags, hstack, hle, hcovered, hbounded⟩ := hspec
  refine ⟨fun x hx => ?_, fun x hx => ?_, fun x h₁ h₂ => ?_, h.positive.trans hle, hcovered,
    hbounded⟩
  · grind [h.recycled]
  · obtain ⟨h₁, h₂, h₃⟩ := h.live x hx
    exact ⟨h₁, lt_of_lt_of_le h₂ hle, (hflags x).trans h₃⟩
  · grind [Skipped, cover, mem_cons_self]

/-- Both allocations take a recycled id or extend the bound. -/
theorem Sound.allocates (hstep : s.step l = some (some id, s')) :
    ∃ a, s' = (s.grant (id, a)).2 ∧ (s.allocator.Takes id a ∨ s.allocator.Extends id a) := by
  cases l with
  | alloc =>
    obtain ⟨⟨x, a⟩, ha, heq⟩ := map_eq_some_iff.mp hstep
    cases heq
    exact ⟨a, rfl, alloc_spec h.current_lt ha⟩
  | allocFresh =>
    obtain ⟨⟨x, a⟩, ha, heq⟩ := map_eq_some_iff.mp hstep
    cases heq
    exact ⟨a, rfl, allocFresh_spec h.current_lt ha⟩
  | setNextAllocHint next =>
    obtain ⟨a, -, heq⟩ := map_eq_some_iff.mp hstep
    cases heq
  | _ => grind [step, map_eq_some_iff]

/-- The other calls that do not move the bound give a live id back. -/
theorem Sound.releases (hstep : s.step l = some (none, s'))
    (hl : ∀ next, l ≠ .setNextAllocHint next) : ∃ id a, id ∈ s.live ∧ s.allocator.Gives id a ∧
      s' = { s with allocator := a, live := s.live.erase id } := by
  have hgives : ∀ {id : ℕ} {a : RecycleAllocator}, id ∈ s.live →
      s.allocator.dealloc id = some a → s.allocator.Gives id a := by
    intro id a hid ha
    have hlt := (h.live id hid).2.1
    have := h.current_lt
    exact dealloc_spec (by omega) ha
  cases l with
  | alloc | allocFresh =>
    obtain ⟨_, -, heq⟩ := map_eq_some_iff.mp hstep
    cases heq
  | setNextAllocHint next => exact absurd rfl (hl next)
  | dealloc id =>
    rw [TidState.step] at hstep
    split_ifs at hstep with hid
    obtain ⟨a, ha, heq⟩ := map_eq_some_iff.mp hstep
    cases heq
    exact ⟨id, a, hid, hgives hid ha, rfl⟩
  | releaseFreshId id =>
    rw [TidState.step] at hstep
    split_ifs at hstep with hid
    obtain ⟨a, ha, heq⟩ := map_eq_some_iff.mp hstep
    cases heq
    rw [releaseFreshId_eq_dealloc (h.live id hid).2.2] at ha
    exact ⟨id, a, hid, hgives hid ha, rfl⟩

/-- **One call keeps the invariant**, unless it is the hint for the largest word. -/
theorem Sound.step {result : Option ℕ}
    (hsmall : SmallHint l) (hstep : s.step l = some (result, s')) : s'.Sound := by
  cases result with
  | some id => grind [h.allocates, h.grant_takes, h.grant_extends]
  | none =>
    cases l with
    | setNextAllocHint next =>
      obtain ⟨a, ha, heq⟩ := map_eq_some_iff.mp hstep
      cases heq
      exact h.hint hsmall ha
    | _ =>
      obtain ⟨id, a, hid, hg, rfl⟩ := h.releases hstep nofun
      exact h.release hid hg

/-! ## Recycled ids come back -/

/-- The hint for a recycled id and one fresh allocation return it. -/
theorem Sound.returned_by_hint (hflag : s.allocator.isRecycled id = true) :
    ∃ s₁ s₂, s.step (.setNextAllocHint id) = some (none, s₁) ∧
      s₁.step .allocFresh = some (some id, s₂) := by
  obtain ⟨-, hpos, hlt⟩ := h.recycled id hflag
  let hinted : RecycleAllocator := { s.allocator with freshReuseHint := some id }
  have hhint : s.allocator.setNextAllocHint id = some hinted := by
    grind [setNextAllocHint]
  obtain ⟨b, hb, -⟩ := allocFresh_of_hint (a := hinted) rfl hlt hflag
  let s₁ : TidState := { s with
    allocator := hinted, skipped := (s.allocator.current, hinted.current) :: s.skipped }
  refine ⟨s₁, (s₁.grant (id, b)).2, ?_, ?_⟩
  · rw [TidState.step, hhint]
    rfl
  · grind [grant, step.eq_2]

/-- Plain allocations alone return every recycled id: each pops at least one entry. -/
theorem Sound.returned_by_alloc (hflag : s.allocator.isRecycled id = true) :
    ∃ n s₁ s₂, (replicate n TidLabel.alloc).foldlM next s = some s₁ ∧
      s₁.step .alloc = some (some id, s₂) := by
  induction hn : s.allocator.recycled.length using Nat.strong_induction_on generalizing s with
  | _ n ih =>
    obtain ⟨x, b, hb, htakes, hlt⟩ :=
      alloc_of_recycled (h.recycled id hflag).1 hflag
    have hstep : s.step .alloc = some (s.grant (x, b)) := by
      rw [TidState.step, hb]
      rfl
    by_cases hx : x = id
    · subst hx
      exact ⟨0, s, _, rfl, hstep⟩
    · -- the id keeps its flag, so the shorter stack still holds it
      have hflag' : b.isRecycled id = true := by
        rw [htakes.isRecycled, if_neg (Ne.symm hx)]
        exact hflag
      obtain ⟨k, s₁, s₂, hrun, hreturn⟩ :=
        ih b.recycled.length (hn ▸ hlt) (h.grant_takes htakes) hflag' rfl
      refine ⟨k + 1, s₁, s₂, ?_, hreturn⟩
      rw [replicate_succ, foldlM_cons, next, hstep]
      exact hrun

end TidState

/-! ## Every run -/

theorem sound_of_reachable_tidAllocator {s : TidState}
    (hs : (tidAllocator.restrict fun _ l => SmallHint l).Reachable s) : s.Sound := by
  refine hs.invariant ?_ ?_
  · rintro s rfl
    exact TidState.sound_initial
  · rintro s l t - hsound ⟨hsmall, hstep⟩
    obtain ⟨⟨result, s'⟩, hs', rfl⟩ := map_eq_some_iff.mp hstep
    exact hsound.step hsmall hs'

/-- **No live id is returned, recycled ids are on the stack below the bound, and every id that is
neither live nor skipped comes back**, by a hint and a fresh allocation or by plain allocations
alone, in every run in which no hint asks for the largest word. -/
theorem ids_of_reachable {s : TidState}
    (hs : (tidAllocator.restrict fun _ l => SmallHint l).Reachable s) :
    (∀ l id s', s.step l = some (some id, s') → id ∉ s.live) ∧
    (∀ id, s.allocator.isRecycled id = true →
      id ∈ s.allocator.recycled ∧ id < s.allocator.current) ∧
    ∀ id, 1 ≤ id → id < s.allocator.current → id ∉ s.live → ¬ s.Skipped id →
      (∃ s₁ s₂, s.step (.setNextAllocHint id) = some (none, s₁) ∧
        s₁.step .allocFresh = some (some id, s₂)) ∧
      ∃ n s₁ s₂, (replicate n TidLabel.alloc).foldlM TidState.next s = some s₁ ∧
        s₁.step .alloc = some (some id, s₂) := by
  have h := sound_of_reachable_tidAllocator hs
  refine ⟨fun l id s' hstep hlive => ?_, fun id hflag => ?_, fun id h₁ h₂ hlive hskip => ?_⟩
  · obtain ⟨-, hlt, hnot⟩ := h.live id hlive
    obtain ⟨a, -, htakes | hextends⟩ := h.allocates hstep
    · rw [htakes.flagged] at hnot
      cases hnot
    · exact absurd hextends.id_eq (ne_of_lt hlt)
  · obtain ⟨hmem, -, hlt⟩ := h.recycled id hflag
    exact ⟨hmem, hlt⟩
  · have hflag := ((h.cover id h₁ h₂).resolve_left hlive).resolve_left hskip
    exact ⟨h.returned_by_hint hflag, h.returned_by_alloc hflag⟩

/-- Two ids are given out, a hint skips two more, and the first comes back. -/
def skipTwo : List TidLabel :=
  [.allocFresh, .allocFresh, .setNextAllocHint 5, .releaseFreshId 1]

theorem ids_skipTwo : ∃ s, (tidAllocator.restrict fun _ l => SmallHint l).Reachable s ∧
    s.allocator.current = 5 ∧ s.live = {2} ∧
    ∃ n s₁ s₂, (replicate n TidLabel.alloc).foldlM TidState.next s = some s₁ ∧
      s₁.step .alloc = some (some 1, s₂) := by
  obtain ⟨s, hreach, hcurrent, hlive, hskip⟩ : ∃ s,
      (tidAllocator.restrict fun _ l => SmallHint l).Reachable s ∧ s.allocator.current = 5 ∧
        s.live = {2} ∧ ∀ range ∈ s.skipped, ¬ (range.1 ≤ 1 ∧ 1 < range.2) :=
    System.exists_run_restrict skipTwo rfl (by decide)
  have hreturns := (ids_of_reachable hreach).2.2 1 (le_refl 1) (by rw [hcurrent]; decide)
    (by rw [hlive]; decide) (fun ⟨range, hmem, hrange⟩ => hskip range hmem hrange)
  exact ⟨s, hreach, hcurrent, hlive, hreturns.2⟩

/-- A hint for the largest word, and two ids after it. -/
def wrapHint : List TidLabel :=
  [.allocFresh, .setNextAllocHint (2 ^ 64 - 1), .allocFresh, .allocFresh]

/-- **The hint for the largest word makes the allocator return a live id.** -/
theorem allocFresh_returns_live : ∃ s s', tidAllocator.Reachable s ∧ 1 ∈ s.live ∧
    s.step .allocFresh = some (some 1, s') := by
  obtain ⟨s, hs, hlive, hstep⟩ : ∃ s, tidAllocator.Reachable s ∧ 1 ∈ s.live ∧
      ((s.step .allocFresh).any fun result => decide (result.1 = some 1)) = true :=
    System.exists_run wrapHint rfl (by decide)
  obtain ⟨⟨answer, s'⟩, hs', hanswer⟩ := (any_eq_true _ _).mp hstep
  obtain rfl := of_decide_eq_true hanswer
  exact ⟨s, s', hs, hlive, hs'⟩

/-! ## The number of allocated ids -/

def setNsLastPid (lastPid : ℕ) : TidLabel := .setNextAllocHint (min (lastPid + 1) (wordSize - 1))

namespace TidState

/-- A hint skips no id, and a task is created only while the bound is below `pid_max` or an id above
the reserved ones is recycled. -/
def Dense (s : TidState) : TidLabel → Prop
  | .setNextAllocHint next => next ≤ s.allocator.current
  | .alloc => s.allocator.current < defaultPidMax
  | .allocFresh => s.allocator.current < defaultPidMax ∨
      ∃ id ∈ s.allocator.recycled, reservedPidReuseFloor ≤ id ∧ s.allocator.isRecycled id = true
  | _ => True

instance (s : TidState) (l : TidLabel) : Decidable (s.Dense l) := by
  cases l <;> unfold Dense <;> infer_instance

/-- The bound is within `pid_max`, and every id below it is live or recycled. -/
structure Counted (s : TidState) : Prop where
  sound : s.Sound
  le : s.allocator.current ≤ defaultPidMax
  notSkipped : ∀ id, ¬ s.Skipped id

theorem current_setNextAllocHint {a b : RecycleAllocator} {next : ℕ} (hpos : 1 ≤ a.current)
    (hnext : next ≤ a.current) (hlt : a.current + 1 < wordSize)
    (h : a.setNextAllocHint next = some b) : b.current = a.current := by
  rw [setNextAllocHint] at h
  split_ifs at h
  · rw [bind_eq_bind, bind_eq_some_iff] at h
    obtain ⟨c, hc, h⟩ := h
    cases h
    have hmax : max next 1 = a.current := by omega
    rw [hmax] at hc
    exact (grows_of_ensureFlagCapacity hlt hc).current
  all_goals grind

theorem Counted.step {s s' : TidState} {l : TidLabel} {result : Option ℕ} (h : s.Counted)
    (hdense : s.Dense l) (hstep : s.step l = some (result, s')) : s'.Counted := by
  obtain ⟨hsound, hle, hskip⟩ := h
  have hlt := hsound.current_lt
  cases result with
  | some id =>
    obtain ⟨a, rfl, halloc⟩ := hsound.allocates hstep
    refine ⟨halloc.elim hsound.grant_takes hsound.grant_extends, ?_, hskip⟩
    obtain htakes | hextends := halloc
    · exact htakes.current.trans_le hle
    · refine hextends.current.trans_le (Nat.succ_le_of_lt ?_)
      by_contra hge
      cases l with
      | alloc => exact hge hdense
      | allocFresh =>
        obtain ⟨⟨_, _⟩, ha, heq⟩ := map_eq_some_iff.mp hstep
        cases heq
        obtain ⟨x, hx, hfloor, hflag⟩ := hdense.resolve_left hge
        have hmark : freshReuseWatermark ≤ s.allocator.current :=
          (Nat.sub_le ..).trans (not_lt.mp hge)
        have htakes := takes_of_allocFresh hmark hx hfloor hflag ha
        -- the bound is not recycled
        exact (hsound.recycled _ htakes.flagged).2.2.ne hextends.id_eq
      | _ => grind [TidState.step, map_eq_some_iff]
  | none =>
    cases l with
    | setNextAllocHint next =>
      have hsmall : SmallHint (.setNextAllocHint next) := (Nat.succ_le_succ hdense).trans_lt hlt
      obtain ⟨a, ha, heq⟩ := map_eq_some_iff.mp hstep
      cases heq
      have hcurrent := current_setNextAllocHint hsound.positive hdense hlt ha
      refine ⟨hsound.hint hsmall ha, hcurrent.trans_le hle, fun id hid => ?_⟩
      obtain ⟨range, hmem, hrange⟩ := hid
      obtain rfl | hmem := mem_cons.mp hmem
      · exact absurd (hrange.1.trans_lt hrange.2) hcurrent.not_gt
      · exact hskip id ⟨range, hmem, hrange⟩
    | _ =>
      obtain ⟨id, a, hid, hg, rfl⟩ := hsound.releases hstep nofun
      exact ⟨hsound.release hid hg, hg.current.trans_le hle, hskip⟩

/-- The flags that are set, as ids. -/
theorem count_eq_card (flags : List Bool) : flags.count true =
    ((Finset.range flags.length).filter fun id => flags.getD id false = true).card := by
  induction flags using reverseRecOn with
  | nil => rfl
  | append_singleton flags flag ih =>
    have hlast : (flags ++ [flag]).getD flags.length false = flag := by simp
    have hrest : ∀ id ∈ Finset.range flags.length,
        ((flags ++ [flag]).getD id false = true ↔ flags.getD id false = true) := fun id hid => by
      rw [getD_append _ _ _ _ (Finset.mem_range.mp hid)]
    rw [count_append, ih, length_append, length_singleton, Finset.range_add_one,
      Finset.filter_insert, hlast, Finset.filter_congr hrest]
    cases flag with
    | _ => simp

theorem Counted.getAllocated_eq {s : TidState} (h : s.Counted) :
    s.allocator.getAllocated = s.live.card := by
  have hlive : s.live = (Finset.Ico 1 s.allocator.current).filter
      fun id => ¬ s.allocator.isRecycled id = true := by
    ext id
    have hin := h.sound.live id
    have hcover := h.sound.cover id
    grind [h.notSkipped]
  have hflags : (Finset.range s.allocator.recycledFlags.length).filter
      (fun id => s.allocator.isRecycled id = true) =
      (Finset.Ico 1 s.allocator.current).filter fun id => s.allocator.isRecycled id = true := by
    ext id
    have hid := h.sound.recycled id
    grind [lt_length_of_isRecycled]
  have hsum := Finset.card_filter_add_card_filter_not (s := Finset.Ico 1 s.allocator.current)
    fun id => s.allocator.isRecycled id = true
  rw [Nat.card_Ico, ← hflags, ← hlive] at hsum
  rw [getAllocated, count_eq_card]
  change _ - (Finset.card (Finset.filter (fun id => s.allocator.isRecycled id = true) _)) = _
  omega

end TidState

/-- **Live ids are below `pid_max`, and `get_allocated` counts them**, in every run in which hints
skip no id and tasks are created only while an id below `pid_max` can be taken. -/
theorem pids_of_reachable {s : TidState}
    (hs : (tidAllocator.restrict TidState.Dense).Reachable s) :
    (∀ id ∈ s.live, 0 < id ∧ id < defaultPidMax) ∧ s.allocator.getAllocated = s.live.card := by
  have h : s.Counted := by
    refine hs.invariant (I := TidState.Counted) ?_ ?_
    · rintro s rfl
      exact ⟨TidState.sound_initial, by decide, fun id ⟨_, hmem, _⟩ => nomatch hmem⟩
    · rintro s l t - hcounted ⟨hdense, hstep⟩
      obtain ⟨⟨result, s'⟩, hs', rfl⟩ := map_eq_some_iff.mp hstep
      exact hcounted.step hdense hs'
  refine ⟨fun id hid => ?_, h.getAllocated_eq⟩
  obtain ⟨hpos, hlt, -⟩ := h.sound.live id hid
  exact ⟨hpos, hlt.trans_le h.le⟩

/-- Two tasks are created, the first exits, and its id is written to `ns_last_pid`. -/
theorem pids_two : ∃ s, (tidAllocator.restrict TidState.Dense).Reachable s ∧
    s.live = {2} ∧ s.allocator.getAllocated = 1 := by
  obtain ⟨s, hreach, hlive⟩ : ∃ s, (tidAllocator.restrict TidState.Dense).Reachable s ∧
      s.live = {2} :=
    System.exists_run_restrict [.allocFresh, .allocFresh, .releaseFreshId 1, setNsLastPid 1] rfl
      (by decide)
  refine ⟨s, hreach, hlive, ?_⟩
  rw [(pids_of_reachable hreach).2, hlive]
  rfl

/-- **A value written to `ns_last_pid`** becomes the next id whatever `pid_max` is, and the ids that
it skips count as allocated. -/
theorem pids_of_hint :
    (∃ s, tidAllocator.Reachable s ∧ ∃ id ∈ s.live, defaultPidMax ≤ id) ∧
    ∃ s, tidAllocator.Reachable s ∧ s.live = ∅ ∧ s.allocator.getAllocated = 4 :=
  ⟨System.exists_run [setNsLastPid (2 ^ 64 - 2), .allocFresh] rfl (by decide),
    System.exists_run [setNsLastPid 4] rfl (by decide)⟩
end MangoCore.Task
