import MangoCore.Lib.System
import MangoCore.Mm.Address

/-!
# The collector of page-table changes

While the lock of an address space is held, `mmu_gather.rs` collects the pages whose entries change,
as one interval, and the frames that old translations may still reach.  `seal` makes a flush request
of it that takes the frames along; they are released when the flush is done.  Growing the list of
frames may fail at any retirement.  If no other CPU can reach them the frames are then released at
once, after a flush on the own CPU; otherwise they are leaked and the kernel panics.
-/

namespace MangoCore.Mm

inductive FlushRange
  | none
  | range (start stop : ℕ)
  | full
  deriving DecidableEq

namespace FlushRange

/-- The request drops the translations of the page. -/
def Covers : FlushRange → ℕ → Prop
  | none, _ => False
  | range start stop, vpn => start ≤ vpn ∧ vpn < stop
  | full, _ => True

def maxUserTlbRangePages : ℕ := 64

/-- `record_change`, in an interval that grows to take the page in as long as it stays short. -/
def recordChange (vpn : ℕ) (r : FlushRange) : FlushRange :=
  if usizeRange ≤ vpn + 1 then full
  else match r with
    | none => range vpn (vpn + 1)
    | range start stop =>
      if max stop (vpn + 1) - min start vpn ≤ maxUserTlbRangePages then
        range (min start vpn) (max stop (vpn + 1))
      else full
    | full => full

theorem covers_recordChange {r : FlushRange} {vpn p : ℕ} (h : p = vpn ∨ r.Covers p) :
    (r.recordChange vpn).Covers p := by
  unfold recordChange
  split_ifs
  · trivial
  · cases r with
    | none => exact h.elim (fun hp => ⟨hp.ge, hp ▸ p.lt_succ_self⟩) False.elim
    | range start stop =>
      dsimp only
      split_ifs
      · simp only [Covers] at h ⊢
        omega
      · trivial
    | full => trivial

end FlushRange

structure MmuGather (α : Type*) where
  range : FlushRange
  activeCpusAtBegin : ℕ
  retiredFrames : List α

variable {α : Type*}

section

variable (g : MmuGather α)

/-- What `handle_retire_oom` flushes before it releases the frames; it leaks them if another CPU is
active. -/
def MmuGather.handleRetireOom (cpu : ℕ) : Option FlushRange :=
  if g.activeCpusAtBegin = 0 then some .none
  else if g.activeCpusAtBegin = 2 ^ cpu then some g.range
  else none

/-- The flush request with its frames.  A full flush may be needed for the targets' address-space
numbers, and the generations may be exhausted. -/
def MmuGather.seal (targets : ℕ) (requireFull exhausted : Bool) :
    Option (Option (FlushRange × List α)) :=
  if g.range = .none then if g.retiredFrames.isEmpty then some none else none
  else if targets ≠ g.activeCpusAtBegin ∨ exhausted then none
  else some (some (if requireFull then .full else g.range, g.retiredFrames))

end

namespace MmuGather

/-- Frames released before the request was sealed, the CPU that did it, the flush it made before and
the pages that had changed by then. -/
structure Early (α : Type*) where
  cpu : ℕ
  flushed : FlushRange
  changed : List ℕ
  frames : List α
  deriving DecidableEq

/-- The collector with the pages that changed, the frames that were retired and those of them that
were released early. -/
structure State (α : Type*) extends MmuGather α where
  changed : List ℕ
  retired : List α
  early : List (Early α)

inductive Event (α : Type*)
  | change (vpn : ℕ)
  | fullFlush
  | retire (frame : α) (reserved : Bool) (cpu : ℕ)

/-- In `retire_frame`, `reserved` tells whether the list could grow. -/
def State.next (s : State α) : Event α → Option (State α)
  | .change vpn => some { s with range := s.range.recordChange vpn, changed := vpn :: s.changed }
  | .fullFlush => some { s with range := .full }
  | .retire frame reserved cpu =>
    let frames := s.retiredFrames ++ [frame]
    let s := { s with retired := s.retired ++ [frame] }
    if s.range = .none then none
    else if reserved then some { s with retiredFrames := frames }
    else (s.handleRetireOom cpu).map fun flushed =>
      { s with retiredFrames := [], early := s.early ++ [⟨cpu, flushed, s.changed, frames⟩] }

/-- Any number of changes and retirements after `begin`. -/
def collector : System (State α) (Event α) :=
  .ofFun (fun s => ∃ active, s = ⟨⟨.none, active, []⟩, [], [], []⟩) State.next

/-- No CPU was active, or only the one that released the frames, and its flush covered all pages
that had changed. -/
def Early.Safe (active : ℕ) (x : Early α) : Prop :=
  active = 0 ∨ active = 2 ^ x.cpu ∧ ∀ vpn ∈ x.changed, x.flushed.Covers vpn

structure Collected (s : State α) : Prop where
  covers : ∀ vpn ∈ s.changed, s.range.Covers vpn
  frames : s.retired = s.early.flatMap Early.frames ++ s.retiredFrames
  early : ∀ x ∈ s.early, x.Safe s.activeCpusAtBegin

variable {s s' : State α} {e : Event α}

theorem Collected.next (h : Collected s) (hs : s.next e = some s') : Collected s' := by
  cases e with
  | change vpn =>
    cases hs
    refine ⟨fun p hp => FlushRange.covers_recordChange ?_, h.frames, h.early⟩
    exact (List.mem_cons.mp hp).imp_right (h.covers p)
  | fullFlush =>
    cases hs
    exact ⟨fun _ _ => trivial, h.frames, h.early⟩
  | retire frame reserved cpu =>
    dsimp only [State.next] at hs
    split_ifs at hs
    · cases hs
      exact ⟨h.covers, by simp [h.frames], h.early⟩
    · obtain ⟨flushed, hoom, rfl⟩ := Option.map_eq_some_iff.mp hs
      refine ⟨h.covers, by simp [h.frames], fun x hx => ?_⟩
      rcases List.mem_append.mp hx with hx | hx
      · exact h.early x hx
      · rw [List.mem_singleton.mp hx]
        unfold handleRetireOom at hoom
        split_ifs at hoom with hzero hown
        · exact .inl hzero
        · cases hoom
          exact .inr ⟨hown, h.covers⟩

/-- **What is sealed.**  The request covers every page that changed and takes along, once and in
order, every retired frame that was not released early. -/
theorem sealed_of_collector {targets : ℕ} {requireFull exhausted : Bool}
    {request : Option (FlushRange × List α)} (hs : collector.Reachable s)
    (hseal : s.seal targets requireFull exhausted = some request) :
    (∀ vpn ∈ s.changed, (request.getD (.none, [])).1.Covers vpn) ∧
      s.retired = s.early.flatMap Early.frames ++ (request.getD (.none, [])).2 ∧
      ∀ x ∈ s.early, x.Safe s.activeCpusAtBegin := by
  have h : Collected s := by
    refine hs.invariant ?_ fun s e t _ h hstep => h.next hstep
    rintro _ ⟨active, rfl⟩
    exact ⟨nofun, rfl, nofun⟩
  rw [MmuGather.seal] at hseal
  split_ifs at hseal with hnone hempty <;> cases hseal
  · exact ⟨hnone ▸ h.covers, List.isEmpty_iff.mp hempty ▸ h.frames, h.early⟩
  · exact ⟨fun _ _ => trivial, h.frames, h.early⟩
  · exact ⟨h.covers, h.frames, h.early⟩

/-- A frame that CPU 2 releases early after a flush, and one that goes with the request. -/
theorem sealed_two : ∃ s : State ℕ, collector.Reachable s ∧
    s.seal 4 false false = some (some (.range 5 10, [8])) ∧ s.changed = [9, 5] ∧
      s.early = [⟨2, .range 5 6, [5], [7]⟩] ∧
      (∀ vpn ∈ s.changed, (FlushRange.range 5 10).Covers vpn) ∧
      s.retired = s.early.flatMap Early.frames ++ [8] ∧
      ∀ x ∈ s.early, x.Safe s.activeCpusAtBegin := by
  obtain ⟨s, hs, hseal, hchanged, hearly⟩ : ∃ s : State ℕ, collector.Reachable s ∧
      s.seal 4 false false = some (some (.range 5 10, [8])) ∧ s.changed = [9, 5] ∧
        s.early = [⟨2, .range 5 6, [5], [7]⟩] :=
    System.exists_run [.change 5, .retire 7 false 2, .change 9, .retire 8 true 2] ⟨4, rfl⟩
      (by decide)
  exact ⟨s, hs, hseal, hchanged, hearly, sealed_of_collector hs hseal⟩

/-- The frame that is retired while no list can be grown is not part of the request. -/
theorem retired_before_seal : ∃ s : State ℕ, collector.Reachable s ∧ s.retired = [7] ∧
    s.seal 1 false false = some (some (.range 5 6, [])) :=
  System.exists_run [.change 5, .retire 7 false 0] ⟨1, rfl⟩ (by decide)

end MmuGather

end MangoCore.Mm
