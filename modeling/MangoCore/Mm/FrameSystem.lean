import MangoCore.Lib.System
import MangoCore.Mm.FrameAllocatorOps
import Mathlib.Data.Set.Card

/-!
# Every frame is in one place

The frame allocator together with the frames it has handed out: the frames of a tracker (*owned*),
the frames that the kernel heap took for good (*reserved*), and the frames that an idle processor is
clearing (*in flight*, one for each processor at most).  The calls are those of the kernel: a
tracker gives back its own frame once, and a processor publishes or drops the frame it is clearing.

`partitioned_of_reachable` is about every sequence of such calls from the allocator that the boot
makes: each managed frame is in exactly one class, the marks are those of the stack, the frames that
a call hands out were free before it, a contiguous allocation gets consecutive frames of one region,
the allocator's count is the number of free frames, and no call stops at an assertion.  The count
leaves out the frames that are in flight or reserved (`unallocatedFrames_ne_unowned`).
-/

namespace MangoCore.Mm

open StackFrameAllocator List

/-- How the kernel was built, and the memory it found. -/
structure FrameConfig where
  fw : Hal.Firmware
  kernelImage : ℕ × ℕ
  zeroInit : Bool
  debug : Bool

/-- The allocator and the frames that are out.  A frame in flight stands with the processor that is
clearing it. -/
structure FrameSystem where
  alloc : StackFrameAllocator
  inFlight : List (ℕ × ℕ)
  owned : List ℕ
  reserved : List ℕ

namespace FrameSystem

inductive Op where
  | frameAlloc
  | frameAllocUninit
  | tryFrameAllocPrezeroed
  | framesAlloc (heapOk : Bool) (num : ℕ)
  | framesAllocFreshContiguous (heapOk : Bool) (num : ℕ)
  | reserveFreshContiguous (num : ℕ)
  | frameDealloc (ppn : ℕ)
  | prezeroReserve (cpu : ℕ)
  | prezeroPublish (cpu : ℕ)
  | prezeroDrop (cpu : ℕ)
  | frameReclaimLinkerRange (heapOk : Bool) (start stop : ℕ)

section

variable (cfg : FrameConfig) (s : FrameSystem)

/-- The frames of an answer become owned. -/
def own (r : Option (List ℕ) × StackFrameAllocator) : Option (List ℕ) × FrameSystem :=
  (r.1, { s with alloc := r.2, owned := r.1.getD [] ++ s.owned })

/-- The answer of a call that hands out one frame. -/
def single (r : Option ℕ × StackFrameAllocator) : Option (List ℕ) × StackFrameAllocator :=
  (r.1.map fun ppn => [ppn], r.2)

/-- The frames in flight but that of one processor. -/
def landed (cpu : ℕ) : List (ℕ × ℕ) := s.inFlight.filter fun f => f.1 != cpu

/-- The answer of a call (the frames it hands out, `none` if it fails) and the state it leaves; the
outer `none` is a failed assertion. -/
def apply : Op → Option (Option (List ℕ) × FrameSystem)
  | .frameAlloc => s.alloc.reserveOne.map (s.own ∘ single)
  | .frameAllocUninit => s.alloc.allocUninit.map (s.own ∘ single)
  | .tryFrameAllocPrezeroed => some (s.own (single s.alloc.reservePrezeroedOnly))
  | .framesAlloc heapOk num => (s.alloc.allocContiguous heapOk num).map s.own
  | .framesAllocFreshContiguous heapOk num => some (s.own (s.alloc.allocFreshContiguous heapOk num))
  | .reserveFreshContiguous num =>
    let r := s.alloc.reserveFreshContiguous num
    some (r.1.map fun first => range' first num,
      { s with alloc := r.2, reserved := extentFrames r.1 num ++ s.reserved })
  | .frameDealloc ppn =>
    (s.alloc.dealloc cfg.debug ppn).map fun a =>
      (some [], { s with alloc := a, owned := s.owned.erase ppn })
  | .prezeroReserve cpu =>
    (s.alloc.reserveForPrezero cfg.zeroInit).map fun r =>
      (r.1.map fun ppn => [ppn],
        { s with alloc := r.2, inFlight := (r.1.toList.map fun ppn => (cpu, ppn)) ++ s.inFlight })
  | .prezeroPublish cpu =>
    match s.inFlight.lookup cpu with
    | none => some (some [], s)
    | some ppn => (s.alloc.publishPrezeroed ppn).map fun a =>
      (some [], { s with alloc := a, inFlight := s.landed cpu })
  | .prezeroDrop cpu =>
    match s.inFlight.lookup cpu with
    | none => some (some [], s)
    | some ppn => (s.alloc.dealloc cfg.debug ppn).map fun a =>
      (some [], { s with alloc := a, inFlight := s.landed cpu })
  | .frameReclaimLinkerRange heapOk start stop =>
    some (some [],
      { s with alloc := (s.alloc.reclaimLinkerFrames cfg.fw heapOk start stop).2 })

/-- What the callers promise: a tracker gives back a frame it owns, and a processor of the machine
clears one frame at a time. -/
def Allowed : Op → Prop
  | .frameDealloc ppn => ppn ∈ s.owned
  | .prezeroReserve cpu => cpu < maxCpus ∧ cpu ∉ s.inFlight.map Prod.fst
  | _ => True

/-- Any allowed calls from the allocator of the boot.  The reservation of the pool of cleared frames
may fail, and then the pool stays without capacity. -/
def calls : System FrameSystem Op where
  init s := ∃ capacity,
    (capacity = 0 ∨ prezeroPoolHighWater + maxCpus * 2 ≤ capacity) ∧
      StackFrameAllocator.init cfg.fw cfg.kernelImage capacity = some s.alloc ∧
      s.inFlight = [] ∧ s.owned = [] ∧ s.reserved = []
  step s op t := s.Allowed op ∧ ∃ answer, s.apply cfg op = some (answer, t)

/-! ## The classes of a frame -/

inductive FrameClass where
  | fresh | recycled | prezeroed | inFlight | owned | reserved
  deriving DecidableEq

/-- The frames of a class. -/
def framesIn : FrameClass → List ℕ
  | .fresh => s.alloc.freshFrames
  | .recycled => s.alloc.recycled
  | .prezeroed => s.alloc.prezeroed
  | .inFlight => s.inFlight.map Prod.snd
  | .owned => s.owned
  | .reserved => s.reserved

/-- A frame that the allocator can hand out. -/
def Free (ppn : ℕ) : Prop :=
  ppn ∈ s.framesIn .fresh ∨ ppn ∈ s.framesIn .recycled ∨ ppn ∈ s.framesIn .prezeroed

/-- A call that asks for consecutive frames, with the number it asks for. -/
def Op.contiguous? : Op → Option ℕ
  | .framesAlloc _ num => some num
  | .framesAllocFreshContiguous _ num => some num
  | .reserveFreshContiguous num => some num
  | _ => none

/-- The state of the frames, and what the next call does. -/
structure Partitioned (cfg : FrameConfig) (s : FrameSystem) : Prop where
  one_class : ∀ ppn ∈ s.alloc.managedFrames, ∃! c, ppn ∈ s.framesIn c
  managed : ∀ c, ∀ ppn ∈ s.framesIn c, ppn ∈ s.alloc.managedFrames
  no_duplicates : ∀ c, (s.framesIn c).Nodup
  marks : ∀ ppn, s.alloc.Marked ppn ↔ ppn ∈ s.alloc.recycled
  count : s.alloc.unallocatedFrames = {ppn | s.Free ppn}.ncard
  returns : ∀ op, s.Allowed op → ∃ answer t, s.apply cfg op = some (answer, t)
  handed_out : ∀ op answer t, s.Allowed op → s.apply cfg op = some (some answer, t) →
    ∀ ppn ∈ answer, s.Free ppn ∧ ppn ∉ s.owned
  contiguous : ∀ op answer t num, s.Allowed op → s.apply cfg op = some (some answer, t) →
    op.contiguous? = some num → Contiguous s.alloc num answer

/-! ## The invariant of the calls -/

/-- The frames that are out. -/
def out : List ℕ := s.inFlight.map Prod.snd ++ s.owned ++ s.reserved

end

structure Inv (s : FrameSystem) : Prop where
  frames : s.alloc.Inv s.out
  cpus_nodup : (s.inFlight.map Prod.fst).Nodup
  cpus_lt : ∀ cpu ∈ s.inFlight.map Prod.fst, cpu < maxCpus
  pool : s.alloc.prezeroed.length + s.inFlight.length ≤ prezeroPoolHighWater + maxCpus
  capacity : s.alloc.prezeroedCapacity = 0
    ∨ prezeroPoolHighWater + maxCpus * 2 ≤ s.alloc.prezeroedCapacity
  flight : s.inFlight ≠ [] → prezeroPoolHighWater ≤ s.alloc.prezeroedCapacity

variable {cfg : FrameConfig} {s t : FrameSystem} {op : Op}

namespace Inv

variable {a' : StackFrameAllocator} {frames : List ℕ} {r : Option (List ℕ) × StackFrameAllocator}
  {ppn cpu : ℕ}

section

variable (h : Inv s)
include h

theorem inFlight_length_le : s.inFlight.length ≤ maxCpus := by
  have hsub : s.inFlight.map Prod.fst ⊆ range maxCpus :=
    fun cpu hcpu => mem_range.mpr (h.cpus_lt cpu hcpu)
  have hle := (subperm_of_subset h.cpus_nodup hsub).length_le
  rwa [length_map, length_range] at hle

/-- The frames that an operation took were free, and are not among those that were out. -/
theorem free_of_takes (htakes : Takes s.alloc s.out frames a') (hp : ppn ∈ frames) :
    s.Free ppn ∧ ppn ∉ s.out := by
  have hnodup := (nodup_append.mp htakes.inv.nodup).2.1
  have hout : ppn ∉ s.out := disjoint_of_nodup_append hnodup hp
  refine ⟨?_, hout⟩
  have hmanaged : ppn ∈ a'.managedFrames := htakes.inv.perm.mem_iff.mp (by simp [hp])
  rw [managedFrames, htakes.spans_eq] at hmanaged
  have hmem := h.frames.perm.mem_iff.mpr hmanaged
  rw [mem_append, or_iff_left hout, mem_append, mem_append, or_assoc] at hmem
  exact hmem

theorem free_of_answer (htakes : Takes s.alloc s.out (r.1.getD []) r.2) :
    ∀ l, r.1 = some l → ∀ ppn ∈ l, s.Free ppn ∧ ppn ∉ s.owned := by
  intro l hl ppn hp
  rw [hl] at htakes
  obtain ⟨hfree, hout⟩ := h.free_of_takes htakes hp
  exact ⟨hfree, fun howned => hout (by simp [out, howned])⟩

/-- Frames leave the allocator, and somebody has them. -/
theorem takes {owned reserved : List ℕ} (htakes : Takes s.alloc s.out frames a')
    (hframes : a'.Inv (s.inFlight.map Prod.snd ++ owned ++ reserved)) :
    Inv { s with alloc := a', owned, reserved } where
  frames := hframes
  cpus_nodup := h.cpus_nodup
  cpus_lt := h.cpus_lt
  pool := (Nat.add_le_add_right htakes.pool _).trans h.pool
  capacity := htakes.capacity.symm ▸ h.capacity
  flight := htakes.capacity.symm ▸ h.flight

/-- The frames of an answer become owned. -/
theorem own (htakes : Takes s.alloc s.out (r.1.getD []) r.2) : Inv (s.own r).2 :=
  h.takes htakes (by grind [htakes.inv.congr_out, out])

/-- The frames of an extent become reserved. -/
theorem reserve (htakes : Takes s.alloc s.out frames a') :
    Inv { s with alloc := a', reserved := frames ++ s.reserved } :=
  h.takes htakes (by grind [htakes.inv.congr_out, out])

/-- A processor begins to clear a frame. -/
theorem takeOff (htakes : Takes s.alloc s.out [ppn] a') (hcpu : cpu < maxCpus)
    (hidle : cpu ∉ s.inFlight.map Prod.fst)
    (hcap : prezeroPoolHighWater ≤ s.alloc.prezeroedCapacity)
    (hlow : s.alloc.prezeroed.length < prezeroPoolHighWater) :
    Inv { s with alloc := a', inFlight := (cpu, ppn) :: s.inFlight } where
  frames := htakes.inv
  cpus_nodup := nodup_cons.mpr ⟨hidle, h.cpus_nodup⟩
  cpus_lt := by simp_all [h.cpus_lt]
  pool := by grind [htakes.pool, h.inFlight_length_le]
  capacity := htakes.capacity.symm ▸ h.capacity
  flight _ := htakes.capacity.symm ▸ hcap

end

/-- The frame of a processor, and the frames of the others. -/
theorem perm_landed {l : List (ℕ × ℕ)} (hnodup : (l.map Prod.fst).Nodup)
    (hlookup : l.lookup cpu = some ppn) : ((cpu, ppn) :: l.filter fun f => f.1 != cpu).Perm l := by
  induction l with
  | nil => cases hlookup
  | cons f l ih =>
    rw [map_cons, nodup_cons] at hnodup
    by_cases hf : f.1 = cpu
    · have hfilter : (l.filter fun f => f.1 != cpu) = l := by
        refine filter_eq_self.mpr fun g hg => ?_
        have hne : g.1 ≠ cpu := fun hgc => hnodup.1 (hf.trans hgc.symm ▸ mem_map_of_mem hg)
        simpa using hne
      grind
    · grind

variable (h : Inv s) (hlookup : s.inFlight.lookup cpu = some ppn)
include h hlookup

/-- A processor has no frame in flight any more. -/
theorem land (hreturns : Returns s.alloc ((s.landed cpu).map Prod.snd ++ s.owned ++ s.reserved) a')
    (hpool : a'.prezeroed.length ≤ s.alloc.prezeroed.length + 1) :
    Inv { s with alloc := a', inFlight := s.landed cpu } := by
  have hperm := perm_landed h.cpus_nodup hlookup
  have hcpus := (hperm.map Prod.fst).nodup_iff.mpr h.cpus_nodup
  rw [map_cons, nodup_cons] at hcpus
  have hlen := hperm.length_eq
  rw [length_cons] at hlen
  refine ⟨hreturns.inv, hcpus.2, fun c hc => h.cpus_lt c ?_, ?_, ?_, fun hne => ?_⟩
  · exact (hperm.map Prod.fst).mem_iff.mp (mem_cons_of_mem _ hc)
  · have := h.pool
    unfold landed
    dsimp only
    omega
  · exact hreturns.capacity.symm ▸ h.capacity
  · grind [flight, Returns.capacity]

/-- The frame in flight of a processor, in front of the other frames that are out. -/
theorem frames_landed :
    s.alloc.Inv (ppn :: ((s.landed cpu).map Prod.snd ++ s.owned ++ s.reserved)) := by
  refine h.frames.congr_out ?_
  have hperm := (perm_landed h.cpus_nodup hlookup).map Prod.snd
  rw [map_cons] at hperm
  have hall := (hperm.append_right s.owned).append_right s.reserved
  exact hall

end Inv

/-! ## One call -/

/-- What a call does. -/
structure Step (s : FrameSystem) (op : Op) (answer : Option (List ℕ)) (t : FrameSystem) : Prop where
  inv : Inv t
  free : ∀ l, answer = some l → ∀ ppn ∈ l, s.Free ppn ∧ ppn ∉ s.owned
  contiguous : ∀ l num, answer = some l → op.contiguous? = some num → Contiguous s.alloc num l

/-- A call that hands out no frame. -/
theorem Step.ofInv (h : Inv t) (hop : op.contiguous? = none) : Step s op (some []) t where
  inv := h
  free l hl ppn hp := by
    rw [← Option.some.inj hl] at hp
    exact absurd hp not_mem_nil
  contiguous l num _ hnum := absurd (hop.symm.trans hnum) nofun

/-- A call that hands out frames to an owner. -/
theorem Step.own (h : Inv s) {r : Option (List ℕ) × StackFrameAllocator}
    (htakes : Takes s.alloc s.out (r.1.getD []) r.2)
    (hcontiguous : ∀ l num, r.1 = some l → op.contiguous? = some num → Contiguous s.alloc num l) :
    Step s op (s.own r).1 (s.own r).2 where
  inv := h.own htakes
  free := h.free_of_answer htakes
  contiguous := hcontiguous

/-- A call that hands out one frame to an owner. -/
theorem Step.ownSingle (h : Inv s) {r : Option ℕ × StackFrameAllocator}
    (htakes : Takes s.alloc s.out r.1.toList r.2) (hop : op.contiguous? = none) :
    Step s op (s.own (single r)).1 (s.own (single r)).2 := by
  have hframes : ((single r).1.getD [] : List ℕ) = r.1.toList := by
    unfold single
    cases r.1 <;> rfl
  exact Step.own h (hframes ▸ htakes) fun l num _ hnum => absurd (hop.symm.trans hnum) nofun

/-- **Every allowed call returns and keeps the invariant.** -/
theorem Inv.step (h : Inv s) (cfg : FrameConfig) (op : Op) (hop : s.Allowed op) :
    ∃ answer t, s.apply cfg op = some (answer, t) ∧ Step s op answer t := by
  cases op with
  | frameAlloc =>
    obtain ⟨ppn?, a', heq, htakes⟩ := h.frames.reserveOne
    exact ⟨_, _, congrArg (Option.map _) heq, Step.ownSingle h htakes rfl⟩
  | frameAllocUninit =>
    obtain ⟨ppn?, a', heq, htakes⟩ := h.frames.allocUninit
    exact ⟨_, _, congrArg (Option.map _) heq, Step.ownSingle h htakes rfl⟩
  | tryFrameAllocPrezeroed => exact ⟨_, _, rfl, Step.ownSingle h h.frames.popPrezeroed rfl⟩
  | framesAlloc heapOk num =>
    obtain ⟨frames?, a', heq, htakes, hcont⟩ := h.frames.allocContiguous
    refine ⟨_, _, congrArg (Option.map s.own) heq,
      Step.own (r := (frames?, a')) h htakes fun l n hl hn => ?_⟩
    exact Option.some.inj hn ▸ hcont l hl
  | framesAllocFreshContiguous heapOk num =>
    obtain ⟨htakes, hcont⟩ := h.frames.allocFreshContiguous
    refine ⟨_, _, rfl, Step.own h htakes fun l n hl hn => ?_⟩
    exact Option.some.inj hn ▸ hcont l hl
  | reserveFreshContiguous num =>
    obtain ⟨htakes, hspan⟩ := h.frames.reserveFreshContiguous
    refine ⟨_, _, rfl, h.reserve htakes, ?_, ?_⟩
    · intro l hl ppn hp
      obtain ⟨first, hfirst, rfl⟩ := Option.map_eq_some_iff.mp hl
      rw [hfirst] at htakes
      obtain ⟨hfree, hout⟩ := h.free_of_takes htakes hp
      exact ⟨hfree, fun howned => hout (by simp [out, howned])⟩
    · intro l n hl hn
      obtain ⟨first, hfirst, rfl⟩ := Option.map_eq_some_iff.mp hl
      exact Option.some.inj hn ▸ ⟨first, rfl, .inr (hspan first hfirst)⟩
  | frameDealloc ppn =>
    have howned : s.owned.Perm (ppn :: s.owned.erase ppn) := perm_cons_erase hop
    have hframes : s.alloc.Inv (ppn :: (s.inFlight.map Prod.snd ++ s.owned.erase ppn
        ++ s.reserved)) := by
      refine h.frames.congr_out ?_
      have hmid : (ppn :: (s.inFlight.map Prod.snd ++ s.owned.erase ppn)).Perm
          (s.inFlight.map Prod.snd ++ s.owned) :=
        perm_middle.symm.trans (howned.symm.append_left _)
      exact hmid.append_right s.reserved
    obtain ⟨a', heq, hreturns, hpre⟩ := hframes.dealloc cfg.debug
    refine ⟨_, _, congrArg (Option.map _) heq, Step.ofInv ?_ rfl⟩
    exact ⟨hreturns.inv, h.cpus_nodup, h.cpus_lt, hpre.symm ▸ h.pool,
      hreturns.capacity.symm ▸ h.capacity, hreturns.capacity.symm ▸ h.flight⟩
  | prezeroReserve cpu =>
    obtain ⟨ppn?, a', heq, htakes, hpool⟩ := h.frames.reserveForPrezero
    cases ppn? with
    | none =>
      exact ⟨_, _, congrArg (Option.map _) heq, h.takes htakes htakes.inv, by nofun, by nofun⟩
    | some ppn =>
      obtain ⟨hcap, hlow⟩ := hpool (Option.some_ne_none ppn)
      refine ⟨_, _, congrArg (Option.map _) heq, h.takeOff htakes hop.1 hop.2 hcap hlow, ?_,
        by nofun⟩
      grind [h.free_of_takes, out]
  | prezeroPublish cpu =>
    rcases hlookup : s.inFlight.lookup cpu with _ | ppn
    · exact ⟨_, _, by simp only [apply, hlookup], Step.ofInv h rfl⟩
    · have hne : s.inFlight ≠ [] := by
        rintro hnil
        rw [hnil] at hlookup
        cases hlookup
      have hroom : s.alloc.prezeroed.length < s.alloc.prezeroedCapacity := by
        have hpool := h.pool
        have hflight := h.flight hne
        have hpos := length_pos_iff.mpr hne
        have hcap := h.capacity
        unfold prezeroPoolHighWater at hflight
        unfold prezeroPoolHighWater maxCpus at hpool hcap
        omega
      obtain ⟨a', heq, hreturns, hlen⟩ := (h.frames_landed hlookup).publishPrezeroed hroom
      refine ⟨_, _, ?_, Step.ofInv (h.land hlookup hreturns hlen.le) rfl⟩
      simp only [apply, hlookup, heq, Option.map_some]
  | prezeroDrop cpu =>
    rcases hlookup : s.inFlight.lookup cpu with _ | ppn
    · exact ⟨_, _, by simp only [apply, hlookup], Step.ofInv h rfl⟩
    · obtain ⟨a', heq, hreturns, hpre⟩ := (h.frames_landed hlookup).dealloc cfg.debug
      refine ⟨_, _, ?_, Step.ofInv (h.land hlookup hreturns (hpre.symm ▸ Nat.le_succ _)) rfl⟩
      simp only [apply, hlookup, heq, Option.map_some]
  | frameReclaimLinkerRange heapOk start stop =>
    obtain ⟨hinv, hpre, hcap⟩ := h.frames.reclaimLinkerFrames
    refine ⟨_, _, rfl, Step.ofInv ⟨hinv, h.cpus_nodup, h.cpus_lt, ?_, ?_, ?_⟩ rfl⟩
    · exact hpre.symm ▸ h.pool
    · exact hcap.symm ▸ h.capacity
    · exact hcap.symm ▸ h.flight

/-! ## All calls -/

theorem inv_of_reachable (hs : (calls cfg).Reachable s) : Inv s := by
  refine hs.invariant ?_ ?_
  · rintro s ⟨capacity, hcap, hinit, hflight, howned, hreserved⟩
    have hframes := inv_init hinit
    obtain ⟨ranges, -, halloc⟩ := Option.map_eq_some_iff.mp hinit
    have hpre : s.alloc.prezeroed = [] := halloc ▸ rfl
    have hcapacity : s.alloc.prezeroedCapacity = capacity := halloc ▸ rfl
    refine ⟨?_, ?_, ?_, ?_, hcapacity ▸ hcap, fun hne => absurd hflight hne⟩
    · rw [out, hflight, howned, hreserved]
      exact hframes
    · rw [hflight]
      exact nodup_nil
    · rw [hflight]
      exact nofun
    · rw [hflight, hpre]
      exact Nat.zero_le _
  · rintro s op t - h ⟨hop, answer, happly⟩
    obtain ⟨answer', t', happly', hstep⟩ := h.step cfg op hop
    grind [hstep.inv]

/-- The classes one after the other. -/
theorem flatten_classes :
    [FrameClass.fresh, .recycled, .prezeroed, .inFlight, .owned, .reserved].flatMap s.framesIn
      = s.alloc.freshFrames ++ s.alloc.recycled ++ s.alloc.prezeroed ++ s.out := by
  simp [framesIn, out]

theorem mem_classes {c : FrameClass} :
    c ∈ [FrameClass.fresh, .recycled, .prezeroed, .inFlight, .owned, .reserved] := by
  cases c <;> simp

namespace Inv

variable (h : Inv s) {ppn : ℕ}
include h

theorem perm_classes :
    ([FrameClass.fresh, .recycled, .prezeroed, .inFlight, .owned, .reserved].flatMap
      s.framesIn).Perm s.alloc.managedFrames := flatten_classes ▸ h.frames.perm

theorem nodup_classes :
    ([FrameClass.fresh, .recycled, .prezeroed, .inFlight, .owned, .reserved].flatMap
      s.framesIn).Nodup := flatten_classes ▸ h.frames.nodup

theorem mem_managed_iff : ppn ∈ s.alloc.managedFrames ↔ ∃ c, ppn ∈ s.framesIn c := by
  rw [← h.perm_classes.mem_iff, mem_flatMap]
  exact ⟨fun ⟨c, _, hc⟩ => ⟨c, hc⟩, fun ⟨c, hc⟩ => ⟨c, mem_classes, hc⟩⟩

theorem class_unique {c d : FrameClass} (hc : ppn ∈ s.framesIn c)
    (hd : ppn ∈ s.framesIn d) : c = d := by
  by_contra hne
  have hdisj := (nodup_flatMap.mp h.nodup_classes).2
  have hsymm : Std.Symm (Function.onFun Disjoint s.framesIn) :=
    ⟨fun _ _ hxy => hxy.symm⟩
  exact hdisj.forall mem_classes mem_classes hne hc hd

theorem count : s.alloc.unallocatedFrames = {ppn | s.Free ppn}.ncard := by
  have hset : {ppn | s.Free ppn}
      = ((s.alloc.freshFrames ++ s.alloc.recycled ++ s.alloc.prezeroed).toFinset : Set ℕ) := by
    ext ppn
    simp [Free, framesIn]
  grind [h.frames.nodup, Set.ncard_coe_finset, toFinset_card_of_nodup, unallocatedFrames_eq]

end Inv

/-- **The frames stay partitioned.**  In every reachable state each managed frame is in exactly one
class, the marks are those of the stack, the allocator's count is the number of free frames, and the
next call, whichever it is, returns, hands out free frames only and gets consecutive frames of one
region where it asks for them. -/
theorem partitioned_of_reachable (hs : (calls cfg).Reachable s) : Partitioned cfg s := by
  have h := inv_of_reachable hs
  refine ⟨?_, ?_, ?_, h.frames.marked, h.count, ?_, ?_, ?_⟩
  · intro ppn hp
    obtain ⟨c, hc⟩ := h.mem_managed_iff.mp hp
    exact ⟨c, hc, fun d hd => h.class_unique hd hc⟩
  · exact fun c ppn hp => h.mem_managed_iff.mpr ⟨c, hp⟩
  · exact fun c => (nodup_flatMap.mp h.nodup_classes).1 c mem_classes
  · intro op hop
    obtain ⟨answer, t, happly, -⟩ := h.step cfg op hop
    exact ⟨answer, t, happly⟩
  · intro op answer t hop happly
    obtain ⟨answer', t', happly', hstep⟩ := h.step cfg op hop
    have heq := Prod.mk.inj (Option.some.inj (happly.symm.trans happly'))
    exact hstep.free answer heq.1.symm
  · intro op answer t num hop happly hnum
    obtain ⟨answer', t', happly', hstep⟩ := h.step cfg op hop
    have heq := Prod.mk.inj (Option.some.inj (happly.symm.trans happly'))
    exact hstep.contiguous answer num heq.1.symm hnum

/-! ## Small machines -/

/-- One bank of memory with the kernel in its first page. -/
def bank (stop : ℕ) : FrameConfig where
  fw := { memoryRegions := [(0, stop)], reservedRegions := [] }
  kernelImage := (0, 4096)
  zeroInit := false
  debug := false

/-- The system after the boot, with the capacity that the pool of cleared frames got. -/
def bankBoot (stop capacity : ℕ) : FrameSystem where
  alloc := ofRanges [(4096, stop)] capacity
  inFlight := []
  owned := []
  reserved := []

/-- The boot finds the bank behind the kernel. -/
theorem reachable_bankBoot {stop capacity : ℕ}
    (hcap : capacity = 0 ∨ prezeroPoolHighWater + maxCpus * 2 ≤ capacity) (hpos : 0 < stop)
    (hbank : Hal.usableFrom [(0, 4096)] (Hal.alignDown stop) 4096 = some [(4096, stop)]) :
    (calls (bank stop)).Reachable (bankBoot stop capacity) := by
  refine .init ⟨capacity, hcap, ?_, rfl, rfl, rfl⟩
  have hranges : Hal.forEachUsableRamRange (bank stop).fw [(bank stop).kernelImage]
      = some [(4096, stop)] := by
    unfold Hal.forEachUsableRamRange bank
    rw [Hal.usableAfter, if_pos ⟨hpos, le_rfl⟩]
    refine Option.bind_eq_some_iff.mpr ⟨0, by decide, ?_⟩
    exact Option.bind_eq_some_iff.mpr ⟨_, hbank, rfl⟩
  rw [StackFrameAllocator.init, hranges]
  rfl

instance (s : FrameSystem) (op : Op) : Decidable (s.Allowed op) := by
  cases op <;> unfold Allowed <;> infer_instance

/-- A frame, three consecutive ones and two for the kernel heap are taken, three come back and one
is taken again; processor 0 clears the first of them, and processor 1 is clearing a fresh one. -/
def everyClass : List Op :=
  [.frameAlloc, .framesAlloc true 3, .frameDealloc 1, .prezeroReserve 0, .prezeroPublish 0,
    .prezeroReserve 1, .frameDealloc 3, .frameDealloc 2, .frameAllocUninit,
    .reserveFreshContiguous 2]

/-- A run that leaves frames in every class. -/
theorem partitioned_everyClass : ∃ s, (calls (bank 12288000)).Reachable s ∧
    ([.recycled, .prezeroed, .inFlight, .owned, .reserved].map s.framesIn =
      [[3], [1], [5], [2, 4], [6, 7]] ∧ s.alloc.unallocatedFrames = 2994) ∧
    Partitioned (bank 12288000) s := by
  have hboot : (calls (bank 12288000)).Reachable (bankBoot 12288000 2080) :=
    reachable_bankBoot (.inr (by decide)) (by decide) (by rw [Hal.usableFrom]; rfl)
  have hrun : ((everyClass.foldlM (fun (s : FrameSystem) op => if s.Allowed op then
      (s.apply (bank 12288000) op).map Prod.snd else none) (bankBoot 12288000 2080)).any fun s =>
      decide ([.recycled, .prezeroed, .inFlight, .owned, .reserved].map s.framesIn =
        [[3], [1], [5], [2, 4], [6, 7]] ∧ s.alloc.unallocatedFrames = 2994)) = true := by
    decide +kernel
  obtain ⟨s, hs, hend⟩ := (Option.any_eq_true ..).mp hrun
  have hreach := hboot.foldlM everyClass (fun op _ s t hstep => by
    split_ifs at hstep with hop
    obtain ⟨⟨answer, _⟩, happly, rfl⟩ := Option.map_eq_some_iff.mp hstep
    exact ⟨hop, answer, happly⟩) hs
  exact ⟨s, hreach, of_decide_eq_true hend, partitioned_of_reachable hreach⟩

/-- **A reserved frame is neither owned nor counted.**  After the kernel heap has taken one of the
two frames, the allocator reports one frame, and no frame is owned. -/
theorem unallocatedFrames_ne_unowned : ∃ s, (calls (bank 12288)).Reachable s ∧
    s.alloc.unallocatedFrames ≠ {ppn | ppn ∈ s.alloc.managedFrames ∧ ppn ∉ s.owned}.ncard := by
  have hboot : (calls (bank 12288)).Reachable (bankBoot 12288 0) :=
    reachable_bankBoot (.inl rfl) (by decide) (by rw [Hal.usableFrom]; rfl)
  refine ⟨_, .step (a := .reserveFreshContiguous 1) hboot ⟨trivial, _, rfl⟩, ?_⟩
  have hset : {ppn | ppn ∈ [1, 2] ∧ ppn ∉ ([] : List ℕ)} = (({1, 2} : Finset ℕ) : Set ℕ) := by
    ext ppn
    simp
  change 1 ≠ {ppn | ppn ∈ [1, 2] ∧ ppn ∉ ([] : List ℕ)}.ncard
  rw [hset, Set.ncard_coe_finset]
  decide

end FrameSystem
end MangoCore.Mm
