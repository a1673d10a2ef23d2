import MangoCore.Lib.OrdMap
import MangoCore.Mm.Address

/-!
# The page store of one mapping

`VmPageStore` records, for the pages of one mapping, which are resident, compressed, swapped out or
not allocated at all.  It owns handles (a frame, a compressed page, a swap slot) and touches no page
table.  The queue of reclaim candidates and the two counters are those of the build with the
out-of-memory handler.

Only the range of a store is observable outside the mapping that holds it; the lemmas say that
every operation here either keeps the range or cuts it where it is told to.
-/

namespace MangoCore.Mm

/-- The state of one page.  A frame stands for a counted reference to it. -/
inductive Frame where
  | inMemory (ppn : ℕ)
  | compressed (slot : ℕ)
  | swappedOut (slot : ℕ)
  | unallocated
  deriving DecidableEq, Repr

/-- The state of a page without its handle. -/
inductive FrameState where
  | inMemory | unallocated | compressed | swappedOut
  deriving DecidableEq, Repr

def Frame.isInMemory : Frame → Bool
  | .inMemory _ => true
  | _ => false

/-- The pages of one mapping. -/
structure VmPageStore where
  vpnRange : VPNRange
  frames : OrdMap ℕ Frame
  active : List ℕ
  compressed : ℕ
  swapped : ℕ

namespace VmPageStore

def tryNew (vpnRange : VPNRange) : VmPageStore := ⟨vpnRange, OrdMap.empty, [], 0, 0⟩

variable (s : VmPageStore)

/-- A copy starts with no reclaim candidates. -/
def tryClone : VmPageStore := { s with active := [] }

variable (key : ℕ)

def containsVpn : Bool :=
  s.vpnRange.getStart ≤ key && key < s.vpnRange.getEnd

def frameState : Except MemoryError FrameState :=
  if s.containsVpn key then
    match s.frames.get? key with
    | some (.inMemory _) => .ok .inMemory
    | some (.compressed _) => .ok .compressed
    | some (.swappedOut _) => .ok .swappedOut
    | some .unallocated | none => .ok .unallocated
  else .error .badAddress

def getInMemory : Option ℕ :=
  if s.containsVpn key then
    match s.frames.get? key with
    | some (.inMemory ppn) => some ppn
    | _ => none
  else none

/-- The resident pages, in order. -/
def inMemoryVpns : List ℕ :=
  (s.frames.entries.filter fun e => e.2.isInMemory).map Prod.fst

/-- Counters recomputed from the entries. -/
def recountOomCounters : VmPageStore :=
  { s with
    compressed := s.frames.sum fun f => match f with | .compressed _ => 1 | _ => 0
    swapped := s.frames.sum fun f => match f with | .swappedOut _ => 1 | _ => 0 }

/-- A page joins the reclaim candidates.  `reserve` is whether the queue can grow. -/
def recordActive (vpn : ℕ) (reserve : Bool) : Except MemoryError Unit × VmPageStore :=
  if s.containsVpn vpn then
    if reserve then (.ok (), { s with active := s.active ++ [vpn] })
    else (.error .outOfMemory, s)
  else (.error .badAddress, s)

/-- A frame is stored for a page that has none.  A stale `unallocated` entry is dropped even when
the candidate queue then refuses the page. -/
def allocInMemory (key ppn : ℕ) (reserve : Bool) : Except MemoryError Unit × VmPageStore :=
  if s.containsVpn key then
    let s :=
      match s.frames.get? key with
      | some .unallocated => { s with frames := s.frames.erase key }
      | _ => s
    if (s.frames.get? key).isSome then (.error .alreadyAllocated, s)
    else
      match s.recordActive key reserve with
      | (.error e, s) => (.error e, s)
      | (.ok (), s) => (.ok (), { s with frames := s.frames.insert key (.inMemory ppn) })
  else (.error .badAddress, s)

/-- An entry is put back; a compressed or swapped one is counted a second time. -/
def insertExistingFrame (frame : Frame) : VmPageStore :=
  if s.containsVpn key then
    match frame with
    | .unallocated => s
    | .compressed _ =>
      { s with compressed := s.compressed + 1, frames := s.frames.insert key frame }
    | .swappedOut _ => { s with swapped := s.swapped + 1, frames := s.frames.insert key frame }
    | .inMemory _ => { s with frames := s.frames.insert key frame }
  else s

/-- A resident frame is taken out; any other entry stays. -/
def removeInMemory : Option ℕ × VmPageStore :=
  if s.containsVpn key then
    let s := { s with active := s.active.filter fun elem => elem ≠ key }
    match s.frames.get? key with
    | some (.inMemory ppn) => (some ppn, { s with frames := s.frames.erase key })
    | some frame => (none, { s with frames := s.frames.erase key }.insertExistingFrame key frame)
    | none => (none, s)
  else (none, s)

/-- The first resident page of a range. -/
def firstInMemoryVpnInRange (start stop : ℕ) : Option ℕ :=
  (s.frames.entries.find? fun e => start ≤ e.1 && e.1 < stop && e.2.isInMemory).map Prod.fst

def pruneOutOfRange : VmPageStore :=
  { s with
    frames := s.frames.retain fun vpn _ => s.containsVpn vpn
    active := s.active.filter fun vpn => s.containsVpn vpn }.recountOomCounters

def setStart (newStart : ℕ) : Except Unit VmPageStore :=
  if h : newStart ≤ s.vpnRange.getEnd then
    .ok { s with vpnRange := ⟨newStart, s.vpnRange.getEnd, h⟩ }.pruneOutOfRange
  else .error ()

def setEnd (newEnd : ℕ) : Except Unit VmPageStore :=
  if h : s.vpnRange.getStart ≤ newEnd then
    .ok { s with vpnRange := ⟨s.vpnRange.getStart, newEnd, h⟩ }.pruneOutOfRange
  else .error ()

/-- The store is cut in two; a cut at or outside an end is refused. -/
def intoTwo (cut : ℕ) : Option (VmPageStore × VmPageStore) :=
  if h : s.vpnRange.getStart < cut ∧ cut < s.vpnRange.getEnd then
    some
      ({ s with
          vpnRange := ⟨s.vpnRange.getStart, cut, h.1.le⟩
          frames := s.frames.retain fun vpn _ => vpn < cut
          active := s.active.filter fun vpn => vpn < cut }.recountOomCounters,
        { vpnRange := ⟨cut, s.vpnRange.getEnd, h.2.le⟩
          frames := s.frames.retain fun vpn _ => cut ≤ vpn
          active := s.active.filter fun vpn => ¬ vpn < cut
          compressed := 0
          swapped := 0 : VmPageStore }.recountOomCounters)
  else none

/-! ## Ranges -/

@[simp] theorem insertExistingFrame_vpnRange (frame : Frame) :
    (s.insertExistingFrame key frame).vpnRange = s.vpnRange := by
  unfold insertExistingFrame
  split
  · cases frame <;> rfl
  · rfl

@[simp] theorem removeInMemory_vpnRange : (s.removeInMemory key).2.vpnRange = s.vpnRange := by
  grind [removeInMemory, insertExistingFrame_vpnRange]

theorem setStart_vpnRange {s s' : VmPageStore} {newStart : ℕ} (h : s.setStart newStart = .ok s') :
    s'.vpnRange.getStart = newStart ∧ s'.vpnRange.getEnd = s.vpnRange.getEnd := by
  unfold setStart at h
  split_ifs at h
  rw [← Except.ok.inj h]
  exact ⟨rfl, rfl⟩

theorem setEnd_vpnRange {s s' : VmPageStore} {newEnd : ℕ} (h : s.setEnd newEnd = .ok s') :
    s'.vpnRange.getStart = s.vpnRange.getStart ∧ s'.vpnRange.getEnd = newEnd := by
  unfold setEnd at h
  split_ifs at h
  rw [← Except.ok.inj h]
  exact ⟨rfl, rfl⟩

/-- A cut strictly inside the range always succeeds.  The two parts meet at it, and each has the
entries of its pages. -/
theorem exists_intoTwo_of_lt {s : VmPageStore} {cut : ℕ} (hstart : s.vpnRange.getStart < cut)
    (hend : cut < s.vpnRange.getEnd) : ∃ s₁ s₂, s.intoTwo cut = some (s₁, s₂) ∧
      (s₁.vpnRange.getStart = s.vpnRange.getStart ∧ s₁.vpnRange.getEnd = cut ∧
        ∀ p, p < cut → s₁.frames.get? p = s.frames.get? p) ∧
      s₂.vpnRange.getStart = cut ∧ s₂.vpnRange.getEnd = s.vpnRange.getEnd ∧
        ∀ p, cut ≤ p → s₂.frames.get? p = s.frames.get? p := by
  have hkept : ∀ {p : ℕ} {test : ℕ → Frame → Bool}, (∀ f, test p f = true) →
      (s.frames.retain test).get? p = s.frames.get? p := by
    intro p test htest
    rw [OrdMap.get?_retain]
    cases s.frames.get? p with
    | none => rfl
    | some f => exact Option.filter_some_pos (htest f)
  unfold intoTwo
  rw [dif_pos ⟨hstart, hend⟩]
  exact ⟨_, _, rfl, ⟨rfl, rfl, fun p hp => hkept fun _ => decide_eq_true hp⟩, rfl, rfl,
    fun p hp => hkept fun _ => decide_eq_true hp⟩

end VmPageStore
end MangoCore.Mm
