import Mathlib.Data.List.Basic

/-!
# Wait lists

A wait list holds the waiters of one condition.  Each waiter has a token that is `waiting` from the
moment the waiter joins the list.  A wake-up takes all waiters off the list and marks their tokens,
so a waiter that joins the list before it looks at the condition a last time cannot miss a wake-up
that happens between that look and its going to sleep: it finds its token marked.

`Listed` is all that a proof needs to know: a token that is still waiting belongs to a waiter on the
list, so after a wake-up there is none (`wakeAll_ne_waiting`).
-/

namespace MangoCore

open Function

/-- The state of a waiter's token. -/
inductive Token where
  | waiting | notified | closed
  deriving DecidableEq, Repr

/-- A wake-up marks a token that is still waiting. -/
def Token.notify : Token → Token
  | .waiting => .notified
  | token => token

/-- A waiter that leaves closes its token. -/
def Token.close : Token → Token
  | .waiting => .closed
  | token => token

theorem Token.notify_ne_waiting {token : Token} : token.notify ≠ .waiting := by
  cases token <;> nofun

theorem Token.close_ne_waiting {token : Token} : token.close ≠ .waiting := by cases token <;> nofun

/-- The waiters of one condition, with the token of each. -/
structure WaitList where
  waiters : List ℕ
  token : ℕ → Token

namespace WaitList

def empty : WaitList := ⟨[], fun _ => .closed⟩

variable (w : WaitList)

/-- A waiter joins. -/
def join (t : ℕ) : WaitList := ⟨w.waiters ++ [t], update w.token t .waiting⟩

/-- A waiter leaves. -/
def leave (t : ℕ) : WaitList :=
  ⟨w.waiters.filter (· ≠ t), update w.token t (w.token t).close⟩

/-- All waiters are woken. -/
def wakeAll : WaitList :=
  ⟨[], fun t => if t ∈ w.waiters then (w.token t).notify else w.token t⟩

/-- **Whoever still waits is on the list.** -/
def Listed : Prop := ∀ t, w.token t = .waiting → t ∈ w.waiters

variable {w} {t u : ℕ}

theorem listed_empty : empty.Listed := nofun

theorem token_join_of_ne (h : u ≠ t) : (w.join t).token u = w.token u :=
  update_of_ne h ..

theorem Listed.join (h : w.Listed) : (w.join t).Listed := by
  intro u hu
  rw [WaitList.join, List.mem_append, List.mem_singleton]
  by_cases htu : u = t
  · exact .inr htu
  · rw [token_join_of_ne htu] at hu
    exact .inl (h u hu)

theorem token_leave_ne_waiting : (w.leave t).token t ≠ .waiting := by
  have hself : (w.leave t).token t = (w.token t).close := update_self ..
  rw [hself]
  exact Token.close_ne_waiting

theorem token_leave_of_ne (h : u ≠ t) : (w.leave t).token u = w.token u :=
  update_of_ne h ..

variable (h : w.Listed)
include h

theorem Listed.leave (t : ℕ) : (w.leave t).Listed := by
  intro u hu
  by_cases htu : u = t
  · rw [htu] at hu
    exact absurd hu token_leave_ne_waiting
  · rw [token_leave_of_ne htu] at hu
    exact List.mem_filter.mpr ⟨h u hu, decide_eq_true htu⟩

/-- **A wake-up leaves nobody waiting.** -/
theorem wakeAll_ne_waiting : w.wakeAll.token t ≠ .waiting := by
  show (if t ∈ w.waiters then (w.token t).notify else w.token t) ≠ .waiting
  split_ifs with ht
  · exact Token.notify_ne_waiting
  · exact fun hw => ht (h t hw)

theorem Listed.wakeAll : w.wakeAll.Listed :=
  fun _ ht => absurd ht (wakeAll_ne_waiting h)

/-- A wake-up marks the token of everyone who waits. -/
theorem wakeAll_notified (ht : w.token t = .waiting) : w.wakeAll.token t = .notified := by
  show (if t ∈ w.waiters then (w.token t).notify else w.token t) = .notified
  rw [if_pos (h t ht), ht]
  rfl

end WaitList
end MangoCore
