import MangoCore.Mm.Address

/-!
# The memory that the firmware describes

The boot firmware lists the banks of memory and the ranges in them that it keeps.  The usable memory
is what remains of each bank after these ranges and the ranges of the caller (the kernel image) are
cut out, in whole pages: `forEachUsableRamRange` walks every bank with a cursor and looks through
all excluded ranges for the next free piece, so the exclusions need not be sorted or disjoint.

A failed assertion of the walk is `none`.  The visited ranges come in ascending order and do not
overlap (`forEachUsableRamRange_sorted`).
-/

namespace MangoCore.Hal

open Mm Option

variable {l exclusions : List (ℕ × ℕ)} {cursor stop addr lo hi : ℕ}

/-- The banks of memory and the ranges the firmware keeps, as half-open ranges of addresses. -/
structure Firmware where
  memoryRegions : List (ℕ × ℕ)
  reservedRegions : List (ℕ × ℕ)

/-- The address of the page an address lies in. -/
def alignDown (addr : ℕ) : ℕ := addr / pageSize * pageSize

/-- The first page boundary at or after an address; `none` if the sum overflows. -/
def alignUp (addr : ℕ) : Option ℕ :=
  if addr + (pageSize - 1) < usizeRange then some (alignDown (addr + (pageSize - 1))) else none

/-! ## One bank -/

/-- What one look through the exclusions finds from the cursor on: the end of the exclusions that
cover the cursor, and the next exclusion behind it. -/
structure Scan (cursor : ℕ) where
  coveringEnd : ℕ
  nextStart : ℕ
  nextEnd : ℕ
  lt_nextEnd : cursor < nextEnd

/-- Before the first exclusion the next one is the end of the bank. -/
def Scan.begin {cursor stop : ℕ} (h : cursor < stop) : Scan cursor where
  coveringEnd := cursor
  nextStart := stop
  nextEnd := stop
  lt_nextEnd := h

/-- One exclusion, in whole pages. -/
def Scan.exclude {cursor : ℕ} (stop : ℕ) (scan : Scan cursor) (exStart exEnd : ℕ) : Scan cursor :=
  if h : exEnd ≤ cursor ∨ stop ≤ exStart then scan
  else if exStart ≤ cursor then { scan with coveringEnd := max scan.coveringEnd (min exEnd stop) }
  else if exStart < scan.nextStart then
    { scan with nextStart := exStart, nextEnd := exEnd, lt_nextEnd := by omega }
  else if exStart = scan.nextStart then
    { scan with
      nextEnd := max scan.nextEnd exEnd
      lt_nextEnd := lt_of_lt_of_le scan.lt_nextEnd (le_max_left _ _) }
  else scan

/-- A look through a list of exclusions. -/
def Scan.excludeAll {cursor : ℕ} (stop : ℕ) : List (ℕ × ℕ) → Scan cursor → Option (Scan cursor)
  | [], scan => some scan
  | (exStart, exEnd) :: l, scan =>
    if exStart < exEnd then
      (alignUp exEnd).bind fun alignedEnd =>
        Scan.excludeAll stop l (scan.exclude stop (alignDown exStart) alignedEnd)
    else none

/-- The usable ranges of a bank from the cursor on. -/
def usableFrom (exclusions : List (ℕ × ℕ)) (stop cursor : ℕ) : Option (List (ℕ × ℕ)) :=
  if h : cursor < stop then
    match Scan.excludeAll stop exclusions (Scan.begin h) with
    | none => none
    | some scan =>
      if cursor < scan.coveringEnd then usableFrom exclusions stop scan.coveringEnd
      else
        let visited :=
          if cursor < scan.nextStart then [(cursor, min scan.nextStart stop)] else []
        if stop ≤ scan.nextStart then some visited
        else (usableFrom exclusions stop (min scan.nextEnd stop)).map (visited ++ ·)
  else some []
termination_by stop - cursor
decreasing_by
  · omega
  · have := scan.lt_nextEnd
    omega

/-! ## All banks -/

/-- The walk over the banks that follow one that ended at `previousEnd`. -/
def usableAfter (exclusions : List (ℕ × ℕ)) :
    (previousEnd : ℕ) → List (ℕ × ℕ) → Option (List (ℕ × ℕ))
  | _, [] => some []
  | previousEnd, (rawStart, rawEnd) :: banks =>
    if rawStart < rawEnd ∧ previousEnd ≤ rawStart then do
      let start ← alignUp rawStart
      let visited ← usableFrom exclusions (alignDown rawEnd) (max start pageSize)
      let rest ← usableAfter exclusions rawEnd banks
      some (visited ++ rest)
    else none

/-- The ranges of usable memory in the order in which they are visited. -/
def forEachUsableRamRange (fw : Firmware) (additionalExclusions : List (ℕ × ℕ)) :
    Option (List (ℕ × ℕ)) :=
  usableAfter (fw.reservedRegions ++ additionalExclusions) 0 fw.memoryRegions

/-! ## The visited ranges are in order -/

theorem alignDown_le : alignDown addr ≤ addr := Nat.div_mul_le_self ..

theorem le_of_alignUp {aligned : ℕ} (h : alignUp addr = some aligned) : addr ≤ aligned := by
  unfold alignUp at h
  split_ifs at h with hlt
  have haligned : alignDown (addr + (pageSize - 1)) = aligned := some.inj h
  unfold alignDown pageSize at haligned
  clear h hlt
  omega

theorem Scan.exclude_le {exStart exEnd : ℕ} {scan : Scan cursor}
    (hscan : scan.nextStart ≤ scan.nextEnd) (hex : exStart ≤ exEnd) :
    (scan.exclude stop exStart exEnd).nextStart ≤ (scan.exclude stop exStart exEnd).nextEnd := by
  grind [Scan.exclude]

theorem Scan.excludeAll_le {scan scan' : Scan cursor}
    (hscan : scan.nextStart ≤ scan.nextEnd)
    (h : Scan.excludeAll stop l scan = some scan') : scan'.nextStart ≤ scan'.nextEnd := by
  induction l generalizing scan with
  | nil => exact some.inj h ▸ hscan
  | cons ex l ih =>
    obtain ⟨exStart, exEnd⟩ := ex
    rw [Scan.excludeAll] at h
    split_ifs at h with hlt
    obtain ⟨alignedEnd, hup, h⟩ := bind_eq_some_iff.mp h
    have hex : alignDown exStart ≤ alignedEnd :=
      (alignDown_le.trans hlt.le).trans (le_of_alignUp hup)
    exact ih (exclude_le hscan hex) h

/-- Ranges between two bounds, each before the next. -/
def Ascending (lo hi : ℕ) (l : List (ℕ × ℕ)) : Prop :=
  (∀ r ∈ l, lo ≤ r.1 ∧ r.1 < r.2 ∧ r.2 ≤ hi) ∧ l.Pairwise fun r r' => r.2 ≤ r'.1

namespace Ascending

theorem nil : Ascending lo hi [] := ⟨by simp, List.Pairwise.nil⟩

theorem mono {lo' hi' : ℕ} (h : Ascending lo hi l) (hlo : lo' ≤ lo)
    (hhi : hi ≤ hi') : Ascending lo' hi' l := by
  refine ⟨fun r hr => ?_, h.2⟩
  obtain ⟨h₁, h₂, h₃⟩ := h.1 r hr
  exact ⟨hlo.trans h₁, h₂, h₃.trans hhi⟩

theorem append {mid : ℕ} {l' : List (ℕ × ℕ)} (h : Ascending lo mid l)
    (h' : Ascending mid hi l') (hlo : lo ≤ mid) (hhi : mid ≤ hi) : Ascending lo hi (l ++ l') := by
  constructor
  · intro r hr
    rcases List.mem_append.mp hr with hr | hr
    · exact (h.mono le_rfl hhi).1 r hr
    · exact (h'.mono hlo le_rfl).1 r hr
  · refine List.pairwise_append.mpr ⟨h.2, h'.2, fun r hr r' hr' => ?_⟩
    exact (h.1 r hr).2.2.trans (h'.1 r' hr').1

end Ascending

theorem usableFrom_sorted (hle : cursor ≤ stop) (h : usableFrom exclusions stop cursor = some l) :
    Ascending cursor stop l := by
  induction hn : stop - cursor using Nat.strong_induction_on generalizing cursor l with
  | _ n ih =>
  rw [usableFrom] at h
  by_cases hlt : cursor < stop
  · rw [dif_pos hlt] at h
    rcases hs : Scan.excludeAll stop exclusions (Scan.begin hlt) with _ | scan
    · simp [hs] at h
    rw [hs] at h
    dsimp only at h
    have hnext : scan.nextStart ≤ scan.nextEnd := Scan.excludeAll_le (le_refl stop) hs
    have hend := scan.lt_nextEnd
    by_cases hcov : cursor < scan.coveringEnd
    · rw [if_pos hcov] at h
      by_cases hstop : scan.coveringEnd ≤ stop
      · exact (ih _ (by omega) hstop h rfl).mono hcov.le le_rfl
      · grind [Ascending.nil, usableFrom.eq_1]
    · rw [if_neg hcov] at h
      -- the visited piece ends where the next exclusion begins
      have hvisited : Ascending cursor (min scan.nextStart stop)
          (if cursor < scan.nextStart then [(cursor, min scan.nextStart stop)] else []) := by
        split_ifs with hlt'
        · exact ⟨by simp [hlt, hlt'], List.pairwise_singleton ..⟩
        · exact .nil
      by_cases hlast : stop ≤ scan.nextStart
      · grind
      · rw [if_neg hlast] at h
        obtain ⟨rest, hrest, rfl⟩ := map_eq_some_iff.mp h
        have hr := ih _ (by omega) (min_le_right ..) hrest rfl
        split_ifs at hvisited ⊢
        · exact (hvisited.mono le_rfl (by omega)).append hr (by omega) (min_le_right ..)
        · exact hr.mono (by omega) le_rfl
  · rw [dif_neg hlt] at h
    exact some.inj h ▸ .nil

theorem usableAfter_sorted {banks : List (ℕ × ℕ)} {previousEnd : ℕ}
    (h : usableAfter exclusions previousEnd banks = some l) :
    ∃ hi, previousEnd ≤ hi ∧ Ascending previousEnd hi l := by
  induction banks generalizing previousEnd l with
  | nil =>
    refine ⟨previousEnd, le_rfl, ?_⟩
    exact some.inj h ▸ .nil
  | cons bank banks ih =>
    obtain ⟨rawStart, rawEnd⟩ := bank
    rw [usableAfter] at h
    split_ifs at h with hbank
    obtain ⟨start, hstart, h⟩ := bind_eq_some_iff.mp h
    obtain ⟨visited, hvisited, h⟩ := bind_eq_some_iff.mp h
    obtain ⟨rest, hrest, h⟩ := bind_eq_some_iff.mp h
    obtain ⟨hi, hhi, hasc⟩ := ih hrest
    have hfirst : Ascending rawStart rawEnd visited := by
      by_cases hle : max start pageSize ≤ alignDown rawEnd
      · exact (usableFrom_sorted hle hvisited).mono
          ((le_of_alignUp hstart).trans (le_max_left ..)) alignDown_le
      · grind [Ascending.nil, usableFrom.eq_1]
    refine ⟨hi, hbank.2.trans (hbank.1.le.trans hhi), ?_⟩
    rw [← some.inj h]
    exact (hfirst.append hasc hbank.1.le hhi).mono hbank.2 le_rfl

/-- **The ranges are visited in order and none overlaps the next.** -/
theorem forEachUsableRamRange_sorted {fw : Firmware} {additionalExclusions : List (ℕ × ℕ)}
    (h : forEachUsableRamRange fw additionalExclusions = some l) :
    (∀ r ∈ l, r.1 < r.2) ∧ l.Pairwise fun r r' => r.2 ≤ r'.1 := by
  obtain ⟨hi, -, hasc⟩ := usableAfter_sorted h
  exact ⟨fun r hr => (hasc.1 r hr).2.1, hasc.2⟩
end MangoCore.Hal
