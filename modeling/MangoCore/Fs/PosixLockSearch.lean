import MangoCore.Fs.PosixLock

/-!
# The search for a deadlock

A request that is about to sleep searches the wait graph for itself, and finds itself exactly if its
blocker waits for it, directly or through others (`deadlocks_iff`).  What a visited owner waits for
is visited or on the stack, and the rounds suffice because no owner is expanded twice.
-/

namespace MangoCore.Fs.PosixLock

open OrdMap Relation List

variable {wg rest : EdgeMap} {target n : ℕ} {visited stack : List ℕ}

/-- The owners that `n` waits for. -/
def blockers (wg : EdgeMap) (n : ℕ) : List ℕ :=
  match wg.get? n with
  | none => []
  | some edges => (edges.entries.map Prod.fst).reverse

/-- Owner `n` is owner `k` or waits for it, directly or through others. -/
def WaitsFor (wg : EdgeMap) : ℕ → ℕ → Prop := ReflTransGen fun n k => k ∈ blockers wg n

/-- No visited owner is the target, and they wait for what is visited or on the stack only. -/
def Closed (wg : EdgeMap) (target : ℕ) (visited stack : List ℕ) : Prop :=
  ∀ m ∈ visited, m ≠ target ∧ ∀ k ∈ blockers wg m, k ∈ visited ∨ k ∈ stack

/-- From a visited owner every way to the target leads through the stack. -/
theorem Closed.exists_mem (h : Closed wg target visited stack) (hn : n ∈ visited)
    (hpath : WaitsFor wg n target) : ∃ m ∈ stack, WaitsFor wg m target := by
  induction hpath using ReflTransGen.head_induction_on with
  | refl => exact absurd rfl (h _ hn).1
  | head hedge hpath ih =>
    rcases (h _ hn).2 _ hedge with hk | hk
    · exact ih hk
    · exact ⟨_, hk, hpath⟩

/-- The edges out of the owners that are not visited pay for the rounds. -/
theorem exists_rest (hrest : ∀ k ∉ visited, rest.get? k = wg.get? k) (hn : n ∉ visited) :
    ∃ rest' : EdgeMap, (∀ k ∉ n :: visited, rest'.get? k = wg.get? k) ∧
      (blockers wg n).length + rest'.sum size ≤ rest.sum size := by
  unfold blockers
  cases hedges : wg.get? n with
  | none => exact ⟨rest, fun k hk => hrest k (not_mem_of_not_mem_cons hk), by simp⟩
  | some edges =>
    refine ⟨rest.erase n, fun k hk => ?_, ?_⟩
    · rw [mem_cons, not_or] at hk
      rw [get?_erase, if_neg hk.1, hrest k hk.2]
    · rw [sum_erase size ((hrest n hn).trans hedges), length_reverse, length_map, size]

theorem searchFrom_iff {fuel : ℕ} (hfuel : stack.length + rest.sum size < fuel)
    (hrest : ∀ k ∉ visited, rest.get? k = wg.get? k) (h : Closed wg target visited stack) :
    searchFrom wg target fuel visited stack = true ↔ ∃ m ∈ stack, WaitsFor wg m target := by
  induction fuel generalizing visited stack rest with
  | zero => omega
  | succ fuel ih =>
    cases stack with
    | nil => simp [searchFrom]
    | cons n stack =>
      rw [length_cons] at hfuel
      unfold searchFrom
      split_ifs with htarget hn
      · simpa [htarget] using .inl .refl
      · have hclosed : Closed wg target visited stack := by
          intro m hm
          grind [h m hm]
        rw [ih (by omega) hrest hclosed]
        simpa using hclosed.exists_mem hn
      · obtain ⟨rest', hrest', hless⟩ := exists_rest hrest hn
        have hclosed : Closed wg target (n :: visited) (blockers wg n ++ stack) := by
          intro m hm
          grind [h m]
        have hexpand : WaitsFor wg n target ↔ ∃ m ∈ blockers wg n, WaitsFor wg m target :=
          ReflTransGen.cases_head_iff.trans (or_iff_right htarget)
        refine (ih ?_ hrest' hclosed).trans ?_
        · rw [length_append]
          omega
        · simp [or_and_right, exists_or, hexpand]

/-- **The search finds every deadlock, and nothing else.** -/
theorem deadlocks_iff {waiter blocker : ℕ} :
    deadlocks wg waiter blocker = true ↔ WaitsFor wg blocker waiter := by
  have hrounds : [blocker].length + wg.sum size < wg.sum size + 2 := by simp [add_comm]
  refine (searchFrom_iff hrounds (fun _ _ => rfl) fun m hm => absurd hm not_mem_nil).trans ?_
  simp

end MangoCore.Fs.PosixLock
