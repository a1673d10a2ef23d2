import Mathlib.Algebra.Order.Ring.Int

/-!
# Transition systems

A system is a set of initial states and a labelled step relation.  A label is one call of an
operation with its arguments, or one critical section of one thread, so a run of the system is a
sequence of calls, or an interleaving of the sections of any number of threads.

What holds of every reachable state is proved by the rule `Reachable.invariant`: the property holds
initially and every step keeps it.  The step premise may use that its source state is reachable, so
invariants that were proved earlier are at hand.

A system whose steps are computed (`ofFun`) reaches every state that its step function reaches on a
list of labels (`reachable_run`), and `restrict` keeps
only the steps that meet a condition on the state before them.
-/

namespace MangoCore

open Option

universe u v

/-- Initial states and labelled steps. -/
structure System (σ : Type u) (α : Type v) where
  init : σ → Prop
  step : σ → α → σ → Prop

namespace System

variable {σ : Type u} {α : Type v} {S : System σ α} {s : σ} {next : σ → α → σ} {P : σ → α → Prop}
  {init : σ → Prop} {t : σ}

/-- The states that a run reaches. -/
inductive Reachable (S : System σ α) : σ → Prop
  | init {s : σ} : S.init s → Reachable S s
  | step {s t : σ} {a : α} : Reachable S s → S.step s a t → Reachable S t

/-- **The invariant rule.** -/
theorem Reachable.invariant {I : σ → Prop} (hinit : ∀ s, S.init s → I s)
    (hstep : ∀ s a t, S.Reachable s → I s → S.step s a t → I t) (hs : S.Reachable s) : I s := by
  induction hs with
  | init h => exact hinit _ h
  | step hr h ih => exact hstep _ _ _ hr ih h

/-- A run leads from one state to the other. -/
def Leads (S : System σ α) : σ → σ → Prop := Relation.ReflTransGen fun s t => ∃ a, S.step s a t

theorem Reachable.leads (hs : S.Reachable s) (h : S.Leads s t) : S.Reachable t := by
  induction h with
  | refl => exact hs
  | tail _ hstep ih => exact .step ih hstep.choose_spec

/-- The steps of a partial function. -/
def ofFun (init : σ → Prop) (next : σ → α → Option σ) : System σ α where
  init := init
  step s a t := next s a = some t

/-- The steps that meet a condition. -/
def restrict (S : System σ α) (P : σ → α → Prop) : System σ α where
  init := S.init
  step s a t := P s a ∧ S.step s a t

/-- A run that meets the condition is a run. -/
theorem Reachable.of_restrict (hs : (S.restrict P).Reachable s) : S.Reachable s := by
  induction hs with
  | init h => exact .init h
  | step _ h ih => exact .step ih h.2

/-- A run that is computed by a function of steps. -/
theorem Reachable.foldlM {next : σ → α → Option σ} (hs : S.Reachable s) (l : List α)
    (hnext : ∀ a ∈ l, ∀ s t, next s a = some t → S.step s a t)
    (hrun : l.foldlM next s = some t) : S.Reachable t := by
  induction l generalizing s with
  | nil =>
    rw [List.foldlM_nil] at hrun
    exact some.inj hrun ▸ hs
  | cons a l ih =>
    rw [List.foldlM_cons] at hrun
    obtain ⟨u, hstep, hrest⟩ := bind_eq_some_iff.mp hrun
    exact ih (.step hs (hnext a List.mem_cons_self s u hstep))
      (fun b hb => hnext b (List.mem_cons_of_mem a hb)) hrest

/-- A run that is computed by a total function. -/
theorem Reachable.foldl {β : Type*} {next : σ → β → σ} (hs : S.Reachable s) (l : List β)
    (hnext : ∀ s b, ∃ a, S.step s a (next s b)) : S.Reachable (l.foldl next s) := by
  induction l generalizing s with
  | nil => exact hs
  | cons b l ih =>
    obtain ⟨a, hstep⟩ := hnext s b
    exact ih (.step hs hstep)

section

variable {init : σ → Prop} {next : σ → α → Option σ} {P : σ → α → Prop} {Q : σ → Prop} (l : List α)
include l

/-- A computed run ends in a reachable state. -/
theorem reachable_run (hs : (ofFun init next).Reachable s)
    (hrun : l.foldlM next s = some t) : (ofFun init next).Reachable t :=
  hs.foldlM l (fun _ _ _ _ hstep => hstep) hrun

/-- A computed run whose steps all meet a condition. -/
theorem reachable_run_restrict [∀ s a, Decidable (P s a)]
    (hs : ((ofFun init next).restrict P).Reachable s)
    (hrun : l.foldlM (fun s a => if P s a then next s a else none) s = some t) :
    ((ofFun init next).restrict P).Reachable t := by
  refine hs.foldlM l (fun a _ s t hstep => ?_) hrun
  split_ifs at hstep with hP
  exact ⟨hP, hstep⟩

/-- A computed run that ends in a state with a property that can be tested. -/
theorem exists_run [DecidablePred Q] (hs : init s)
    (hrun : ((l.foldlM next s).any fun t => decide (Q t)) = true) :
    ∃ t, (ofFun init next).Reachable t ∧ Q t := by
  obtain ⟨t, ht, hQ⟩ := (any_eq_true ..).mp hrun
  exact ⟨t, reachable_run l (.init hs) ht, of_decide_eq_true hQ⟩

theorem exists_run_restrict [∀ s a, Decidable (P s a)] [DecidablePred Q] (hs : init s)
    (hrun : ((l.foldlM (fun s a => if P s a then next s a else none) s).any fun t =>
      decide (Q t)) = true) : ∃ t, ((ofFun init next).restrict P).Reachable t ∧ Q t := by
  obtain ⟨t, ht, hQ⟩ := (any_eq_true ..).mp hrun
  exact ⟨t, reachable_run_restrict l (.init hs) ht, of_decide_eq_true hQ⟩

/-- A computed run that meets the condition because an invariant and a test of each step do. -/
theorem exists_run_of_test {J : σ → Prop} {T : σ → α → Bool} [DecidablePred Q]
    (hJ : ∀ s a t, J s → T s a = true → next s a = some t → P s a ∧ J t) (hs : init s)
    (hJs : J s) (hrun : ((l.foldlM (fun s a => if T s a then next s a else none) s).any fun t =>
      decide (Q t)) = true) : ∃ t, ((ofFun init next).restrict P).Reachable t ∧ Q t := by
  obtain ⟨t, ht, hQ⟩ := (any_eq_true ..).mp hrun
  refine ⟨t, ?_, of_decide_eq_true hQ⟩
  have hr : ((ofFun init next).restrict P).Reachable s := .init hs
  clear hrun hs hQ
  induction l generalizing s with
  | nil => exact some.inj ht ▸ hr
  | cons a l ih =>
    rw [List.foldlM_cons] at ht
    obtain ⟨u, hstep, hrest⟩ := bind_eq_some_iff.mp ht
    split_ifs at hstep with htest
    obtain ⟨hP, hJu⟩ := hJ s a u hJs htest hstep
    exact ih hJu hrest (.step hr ⟨hP, hstep⟩)

/-- A computed run of labels that meet the condition in every state. -/
theorem reachable_run_of_forall (hP : ∀ a ∈ l, ∀ s, P s a)
    (hs : ((ofFun init next).restrict P).Reachable s) (hrun : l.foldlM next s = some t) :
    ((ofFun init next).restrict P).Reachable t :=
  hs.foldlM l (fun a ha s _ hstep => ⟨hP a ha s, hstep⟩) hrun

end

/-- A run of a total step function whose steps all meet a condition. -/
theorem reachable_foldl_restrict [∀ s a, Decidable (P s a)] {l : List α}
    (hs : ((ofFun init fun s a => some (next s a)).restrict P).Reachable s)
    (hP : (l.foldlM (fun s a => if P s a then some (next s a) else none) s).isSome) :
    ((ofFun init fun s a => some (next s a)).restrict P).Reachable (l.foldl next s) := by
  induction l generalizing s with
  | nil => exact hs
  | cons a l ih =>
    rw [List.foldlM_cons] at hP
    obtain ⟨t, ht⟩ := isSome_iff_exists.mp hP
    obtain ⟨u, hstep, hrest⟩ := bind_eq_some_iff.mp ht
    split_ifs at hstep with hPs
    rw [← some.inj hstep] at hrest
    exact ih (.step hs ⟨hPs, rfl⟩) (isSome_iff_exists.mpr ⟨t, hrest⟩)

end System
end MangoCore
