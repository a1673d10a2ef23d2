import MangoCore.Net.Port

/-!
# The search for an ephemeral port

`select_ephemeral` starts at a port that moves on from call to call, goes up one port at a time,
wraps around at the end of the range and gives up when it is back at its start.  `selectLoop` is
this loop with a bound on its rounds.  `remaining` is the list of the ports that it has not tried:
every round takes the first one off, so one round for each port of the range is enough, and the
answer is the one that `selectEphemeral` reads off the list of all candidates.

The port that is found conflicts with no owner that is alive, and the search fails only if all ports
conflict, wherever it starts (`selectLoop_finds_free_port`).
-/

namespace MangoCore.Net.Port

open List

/-- An owner is in the way of a request: both want the port for a common address and interface, and
they have not both asked for reuse. -/
def BindIntent.Conflicts (intent : BindIntent) (o : PortOwner) : Prop :=
  o.key.protocol = intent.protocol ∧ o.key.port = intent.port ∧ keysOverlap intent o = true ∧
    reuseCompatible intent o = false

/-- The ephemeral range. -/
def Ephemeral (port : ℕ) : Prop := ephemeralPortMin ≤ port ∧ port ≤ ephemeralPortMax

/-- The next port of the range, which wraps around. -/
def nextPort (port : ℕ) : ℕ := if port = ephemeralPortMax then ephemeralPortMin else port + 1

namespace PortRegistry

variable (r : PortRegistry) (intent : BindIntent)

/-- The loop of `select_ephemeral`, with a bound on the number of rounds. -/
def selectLoop (start : ℕ) : ℕ → ℕ → Option (Except Errno (ℕ × PortRegistry))
  | 0, _ => none
  | rounds + 1, port =>
    if (r.checkConflict { intent with port := port }).isOk then
      some (.ok (port, { r with nextEphemeral := nextPort port }))
    else if nextPort port = start then some (.error .ENOSPC)
    else selectLoop start rounds (nextPort port)

/-- The port at which the search starts. -/
def searchStart : ℕ := max ephemeralPortMin (min r.nextEphemeral ephemeralPortMax)

/-- The answer of the search when it has found a port, or none. -/
def searchAnswer (found : Option ℕ) : Except Errno (ℕ × PortRegistry) :=
  match found with
  | some port => .ok (port, { r with nextEphemeral := nextPort port })
  | none => .error .ENOSPC

/-- The ports that the loop has not tried when it has come to `port`. -/
def remaining (start port : ℕ) : List ℕ :=
  if start ≤ port then
    range' port (ephemeralPortMax + 1 - port) ++
      range' ephemeralPortMin (start - ephemeralPortMin)
  else range' port (start - port)

variable {r intent} {start port : ℕ}

theorem checkConflict_isOk_iff :
    (r.checkConflict intent).isOk = true ↔ ∀ o ∈ r.owners, ¬ intent.Conflicts o := by
  have hstate : ∀ o : PortOwner, (o.state == .reserved || o.state == .bound) = true := by
    intro o
    cases o.state <;> rfl
  rw [checkConflict]
  simp only [hstate, Bool.true_and, BindIntent.Conflicts]
  split_ifs with hany <;> simp [Except.isOk, Except.toBool] at hany ⊢
  all_goals grind

theorem ephemeral_searchStart : Ephemeral r.searchStart := by
  rw [Ephemeral, searchStart, ephemeralPortMin, ephemeralPortMax]
  omega

theorem ephemeral_nextPort (h : Ephemeral port) : Ephemeral (nextPort port) := by
  obtain ⟨hmin, hmax⟩ := h
  rw [nextPort]
  split_ifs
  · exact ⟨le_rfl, by decide⟩
  · exact ⟨by omega, by omega⟩

theorem range'_eq_cons {a b : ℕ} (h : a < b) :
    range' a (b - a) = a :: range' (a + 1) (b - (a + 1)) := by
  rw [show b - a = b - (a + 1) + 1 by omega, range'_succ]

/-- **One round** takes the first port off the list. -/
theorem remaining_eq (hstart : Ephemeral start) (hport : Ephemeral port) : remaining start port =
      port :: if nextPort port = start then [] else remaining start (nextPort port) := by
  obtain ⟨hmin, hmax⟩ := hstart
  obtain ⟨-, hle⟩ := hport
  by_cases hpassed : start ≤ port
  · rw [remaining, if_pos hpassed, range'_eq_cons (by omega), cons_append]
    by_cases hlast : port = ephemeralPortMax
    · -- the end of the range: what is left is the part below the start
      rw [nextPort, if_pos hlast, hlast, Nat.sub_self, range'_zero, nil_append]
      split_ifs with hback
      · rw [hback, Nat.sub_self, range'_zero]
      · rw [remaining, if_neg (by omega)]
    · rw [nextPort, if_neg hlast, if_neg (by omega), remaining, if_pos (by omega)]
  · have hlast : port ≠ ephemeralPortMax := by omega
    rw [remaining, if_neg hpassed, range'_eq_cons (by omega), nextPort, if_neg hlast]
    split_ifs with hback
    · rw [hback, Nat.sub_self, range'_zero]
    · rw [remaining, if_neg (by omega)]

/-- **The loop** answers with the first remaining port that has no conflict. -/
theorem selectLoop_eq (hstart : Ephemeral start) {rounds : ℕ} :
    ∀ port, Ephemeral port → (remaining start port).length ≤ rounds →
      r.selectLoop intent start rounds port = some (r.searchAnswer ((remaining start port).find?
        fun port => (r.checkConflict { intent with port := port }).isOk)) := by
  induction rounds with
  | zero =>
    intro port hport hlen
    rw [remaining_eq hstart hport] at hlen
    cases hlen
  | succ rounds ih =>
    intro port hport hlen
    rw [remaining_eq hstart hport] at hlen ⊢
    rw [selectLoop, find?_cons]
    cases (r.checkConflict { intent with port := port }).isOk with
    | true => rfl
    | false =>
      rw [if_neg Bool.false_ne_true]
      by_cases hback : nextPort port = start
      · rw [if_pos hback, if_pos hback]
        rfl
      · rw [if_neg hback, length_cons] at hlen
        rw [if_neg hback, if_neg hback]
        exact ih _ (ephemeral_nextPort hport) (Nat.le_of_succ_le_succ hlen)

theorem remaining_self : remaining start start = candidates start := if_pos le_rfl

theorem mem_candidates (hstart : Ephemeral start) : port ∈ candidates start ↔ Ephemeral port := by
  rw [candidates, mem_append, mem_range'_1, mem_range'_1]
  grind [Ephemeral]

theorem length_candidates (hstart : Ephemeral start) :
    (candidates start).length = ephemeralPortMax + 1 - ephemeralPortMin := by
  rw [candidates, length_append, length_range', length_range']
  grind [Ephemeral]

/-- **The port of a request for port zero.**  The search is over after one round for each port of
the range.  The port that it returns conflicts with no owner that is alive, and it fails if and only
if all ports of the range conflict.  Nothing is assumed of the port at which it starts. -/
theorem selectLoop_finds_free_port (r : PortRegistry) (alive : ℕ → Bool) (intent : BindIntent) :
    let pruned := r.pruneDeadOwners alive
    let Taken := fun port => ∃ o ∈ r.owners, alive o.socket = true ∧
      { intent with port := port }.Conflicts o
    ∃ answer,
      (∀ rounds, ephemeralPortMax + 1 - ephemeralPortMin ≤ rounds →
        pruned.selectLoop intent pruned.searchStart rounds pruned.searchStart = some answer) ∧
      pruned.choosePort { intent with port := 0 } =
        answer.map (fun found => ({ intent with port := found.1 }, found.2)) ∧
      (∀ port r', answer = .ok (port, r') → Ephemeral port ∧ ¬ Taken port) ∧
      ((∃ e, answer = .error e) ↔ ∀ port, Ephemeral port → Taken port) := by
  intro pruned Taken
  have hstart := pruned.ephemeral_searchStart
  let free := fun port => (pruned.checkConflict { intent with port := port }).isOk
  have hfree : ∀ port, free port = true ↔ ¬ Taken port := by
    intro port
    refine checkConflict_isOk_iff.trans ?_
    simp only [pruned, pruneDeadOwners, mem_filter, Taken]
    grind
  refine ⟨pruned.searchAnswer ((candidates pruned.searchStart).find? free),
    fun rounds hrounds => ?_, rfl, ?_⟩
  · rw [← remaining_self]
    refine selectLoop_eq hstart _ hstart ?_
    rwa [remaining_self, length_candidates hstart]
  · cases hfound : (candidates pruned.searchStart).find? free with
    | some found =>
      have hmem := (mem_candidates hstart).mp (mem_of_find?_eq_some hfound)
      have hnot := (hfree found).mp (find?_some hfound)
      refine ⟨?_, ?_, fun htaken => absurd (htaken found hmem) hnot⟩
      · rintro port r' ⟨⟩
        exact ⟨hmem, hnot⟩
      · rintro ⟨e, ⟨⟩⟩
    | none =>
      refine ⟨fun port r' hanswer => ?_, fun _ port hport => ?_, fun _ => ⟨_, rfl⟩⟩
      · cases hanswer
      · have hbusy := find?_eq_none.mp hfound port ((mem_candidates hstart).mpr hport)
        by_contra hnot
        exact hbusy ((hfree port).mpr hnot)
end PortRegistry
end MangoCore.Net.Port
