import MangoCore.Ipc.Semaphore

/-!
# A list of operations with an index outside the set

`semop` finds an index outside the set only when the trial gets to it.  The call fails with `EFBIG`
exactly if all entries before that index can be applied (`semop_outside_iff`); a list that is
stopped earlier puts its caller to sleep.
-/

namespace MangoCore.Ipc.Sem

open MangoCore.Task SemState SemSet

variable {values : List ℤ} {ops : List Sembuf} {set : SemSet} {c : Caller}

/-- The counter of the tasks that wait for a semaphore to increase, or to become zero. -/
def counterAt (sems : List Semaphore) (i : ℕ) (waitZero : Bool) : ℕ :=
  (sems[i]?).elim 0 fun sem => if waitZero then sem.zcnt else sem.ncnt

def SemSet.counter (set : SemSet) (i : ℕ) (waitZero : Bool) : ℕ :=
  counterAt set.semaphores i waitZero

/-- The entries before the first one that names a semaphore outside the set. -/
def SemSet.entriesInside (set : SemSet) (ops : List Sembuf) : List Sembuf :=
  ops.takeWhile fun op => op.semNum < set.semaphores.length

/-- The trial gets to that entry only if all entries before it can be applied. -/
theorem tryEntries_outside (hout : ∃ op ∈ ops, set.semaphores.length ≤ op.semNum) :
    tryEntries set c values ops = .failed .EFBIG ↔
      ∃ v, tryEntries set c values (set.entriesInside ops) = .values v := by
  induction ops generalizing values with
  | nil => simp at hout
  | cons op ops ih =>
    by_cases hop : op.semNum < set.semaphores.length
    · have hrest : ∃ op ∈ ops, set.semaphores.length ≤ op.semNum := by
        simpa [hop.not_ge] using hout
      have hinside : set.entriesInside (op :: ops) = op :: set.entriesInside ops :=
        List.takeWhile_cons_of_pos (by simpa using hop)
      rw [hinside, tryEntries, tryEntries]
      cases htry : tryEntry set c values op with
      | values v => exact ih hrest
      | blocked semNum waitZero => simp
      | failed e =>
        -- the checks after the index have other errors
        have he : e ≠ .EFBIG := by
          rintro rfl
          rw [tryEntry, if_neg hop.not_ge, tryValue] at htry
          grind
        simpa using he
    · have hinside : set.entriesInside (op :: ops) = [] :=
        List.takeWhile_cons_of_neg (by simpa using hop)
      have htry : tryEntry set c values op = .failed .EFBIG := if_pos (not_lt.mp hop)
      rw [hinside, tryEntries.eq_2, htry]
      exact ⟨fun _ => ⟨values, rfl⟩, fun _ => rfl⟩

/-- The superuser. -/
def root : Caller := ⟨0, 0, 1, 0⟩

/-- **A list with an index outside the set** fails with `EFBIG`, and changes nothing, exactly if the
entries before that index can be applied. -/
theorem semop_outside_iff {s : SemState} {t semid : ℕ} {c : Caller} {limits : SemLimits}
    {memory : Bool} {ops : List Sembuf} {set : SemSet}
    (hset : s.registry.sets.get? semid = some set)
    (hout : ∃ op ∈ ops, set.semaphores.length ≤ op.semNum) :
    s.semop t c limits memory semid ops = (s, some (.error .EFBIG)) ↔
      ops.length ≤ limits.semopm ∧ memory = true ∧
        ∃ v, tryEntries set c set.values (set.entriesInside ops) = .values v := by
  have hne : ops.length ≠ 0 := by
    obtain ⟨op, hop, -⟩ := hout
    exact (List.length_pos_of_mem hop).ne'
  rw [← tryEntries_outside hout, SemState.semop, if_neg hne, hset]
  split_ifs with hlen
  · simp [hlen.not_ge]
  · simp only [tryApplySemOps, not_lt.mp hlen, true_and]
    cases memory with
    | false => simp
    | true =>
      cases tryEntries set c set.values ops with
      | _ => simp

/-- A new set with one semaphore. -/
def newSet : List Label :=
  [.spawn 7, .semget 7 root ⟨32000, 32000, 500, 1024⟩ true
    ⟨0, 1, true, false, false, false, 0o600⟩]

theorem semop_outside_newSet : ∃ s, (semaphores .riscv 0).Reachable s ∧
    s.semop 7 root ⟨32000, 32000, 500, 1024⟩ true 1 [⟨0, 1, 0⟩, ⟨9, 1, 0⟩] =
      (s, some (.error .EFBIG)) := by
  obtain ⟨s, hreach, hset⟩ : ∃ s, (semaphores .riscv 0).Reachable s ∧
      s.registry.sets.get? 1 = some (.new 0 1 0o600 root) :=
    System.exists_run newSet rfl (by decide)
  refine ⟨s, hreach, (semop_outside_iff hset ⟨⟨9, 1, 0⟩, by decide, by decide⟩).mpr ?_⟩
  exact ⟨by decide, rfl, [1], by decide⟩

/-- **The order of the entries matters**: a list that takes from a semaphore without value before it
names one outside the set puts the caller to sleep and counts it. -/
theorem outside_asleep : ∃ s, (semaphores .riscv 0).Reachable s ∧
    s.phase 7 = .waiting .asleep 1 [⟨0, -1, 0⟩, ⟨9, 1, 0⟩] (some (0, false)) ∧
    ((s.registry.sets.get? 1).map fun set => (set.semaphores.length, set.counter 0 false)) =
      some (1, 1) :=
  System.exists_run (newSet ++ [.semop 7 root ⟨32000, 32000, 500, 1024⟩ true 1
    [⟨0, -1, 0⟩, ⟨9, 1, 0⟩], .readTimeout 7 true, .evaluate 7 root true .sleep,
    .evaluate 7 root true .sleep]) rfl (by decide)
end MangoCore.Ipc.Sem
