import MangoCore.Fs.PosixLockExclusion

/-!
# Waking the waiters of a lock

A blocked request sleeps in the queue of its entry.  It could be granted from the moment at which no
record of the entry stands against it, and an unlock request, or a release that drops a record,
wakes the queue.  A lock request does not, although it may take the record away as well: a process
that holds a write lock and asks for a read lock gives the write lock up.

A step that frees a waiter wakes its queue exactly if it is not such a request
(`wakes_iff_of_freed`).
-/

namespace MangoCore.Fs.PosixLock.Manager

open Function Option

/-- The entry whose queue a call wakes, in the critical section or right behind it. -/
def wakes (m : Manager) : ℕ × Act → Option ℕ
  | (t, .next) =>
    match m.pc t with
    | .start e c =>
      if !c.blocking ∧ (c.apply (m.entries e)).1 ∧ c.ltype = F_UNLCK then some e else none
    | .tryLock e c => if (c.apply (m.entries e)).1 ∧ c.ltype = F_UNLCK then some e else none
    | .release e _ who =>
      if ((m.entries e).records.filter who.keeps).length < (m.entries e).records.length then some e
      else none
    | _ => none
  | _ => none

variable {m m' : Manager} {a : ℕ × Act} {e t : ℕ} {c : Call} {key : LockKey}

namespace Numbered

variable (h : Numbered m)
include h

theorem move {pc : Pc} (hpc : m'.pc = update m.pc t pc) (hok : PcOk m.nextEntry pc)
    (hshards : m'.shards = m.shards := by rfl)
    (hnext : m'.nextEntry = m.nextEntry := by rfl) : Numbered m' where
  lookup_lt {key e} he := by
    rw [lookup, hshards] at he
    rw [hnext]
    exact h.lookup_lt he
  pcs u := by
    rw [hpc, hnext, update_apply]
    split_ifs
    · exact hok
    · exact h.pcs u

/-- A file gets an entry or loses it. -/
theorem relookup {o : Option ℕ} (hpc : m'.pc = m.pc)
    (hshards : m'.shards = (m.setLookup key o).shards) (hle : m.nextEntry ≤ m'.nextEntry)
    (ho : ∀ e, o = some e → e < m'.nextEntry) : Numbered m' where
  lookup_lt {key' e} he := by
    rw [lookup, hshards] at he
    have he' := (lookup_setLookup m key key').symm.trans he
    split_ifs at he'
    · exact ho e he'
    · exact (h.lookup_lt he').trans_le hle
  pcs u := by
    have hu := h.pcs u
    rw [hpc]
    cases hpc' : m.pc u <;> rw [hpc'] at hu <;> simp_all [PcOk] <;> omega

theorem step (hstep : m.step a = some m') : Numbered m' := by
  cases step_cases hstep with
  | stay => exact h
  | move wg _ hok => exact h.move rfl (hok h)
  | grant pc _ _ _ hok => exact h.move rfl (hok _)
  | @create c =>
    have hnew : Numbered (m.newEntry c.key) :=
      h.relookup rfl rfl (Nat.le_succ _) fun e he =>
        some.inj he ▸ Nat.lt_succ_self m.nextEntry
    exact hnew.move rfl (Nat.lt_add_one _)
  | startRelease _ hlook => exact h.move rfl (h.lookup_lt hlook)
  | drop _ _ heq =>
    rw [heq]
    dsimp only
    split_ifs <;> exact h.move rfl trivial
  | @remove key _ =>
    have hnone : Numbered (m.setLookup key none) := h.relookup rfl rfl le_rfl (by simp)
    exact hnone.move rfl trivial

/-- A granted request wakes the queue exactly if it is an unlock request. -/
theorem wakes_of_request (hreq : m.request? a = some (e, c))
    (hc : (c.apply (m.entries e)).1 = true) : m.wakes a = some e ↔ c.ltype = F_UNLCK := by
  obtain ⟨t, act⟩ := a
  cases act <;> simp only [request?] at hreq <;> try cases hreq
  have hok := h.pcs t
  cases hpc : m.pc t <;> rw [hpc] at hreq hok <;> simp only at hreq
  case start e' c' =>
    split_ifs at hreq with hb
    cases hreq
    simp [wakes, hpc, hb, hc]
  case tryLock e' c' =>
    cases hreq
    simp [wakes, hpc, hc]
  case waiting e' c' =>
    cases hreq
    simp [wakes, hpc, hok.2]
  all_goals cases hreq

end Numbered

theorem numbered_of_reachable (h : calls.Reachable m) : Numbered m := by
  refine h.invariant (fun m hm => ?_) fun m a m' _ hinv hstep => hinv.step hstep
  rw [show m = initial from hm]
  exact ⟨by simp [lookup, initial], fun _ => trivial⟩

/-! ## Freed waiters -/

/-- A thread sleeps in the queue of an entry, or is about to, with a request that is refused. -/
structure Blocked (m : Manager) (u e : ℕ) (c : Call) : Prop where
  pc : m.pc u = .waiting e c ∨ ∃ blocker, m.pc u = .graph e c blocker
  blocker : c.blocker (m.entries e) ≠ none

/-- A release that drops the record which stood against a request wakes the queue. -/
theorem wakes_of_release {who : Releaser}
    (hpc : m.pc t = .release e key who) (hblocked : c.blocker (m.entries e) ≠ none)
    (hfree : c.blocker ⟨(m.entries e).records.filter who.keeps⟩ = none) :
    m.wakes (t, .next) = some e := by
  obtain ⟨b, hb⟩ := ne_none_iff_exists'.mp hblocked
  obtain ⟨r, hr, -⟩ := map_eq_some_iff.mp hb
  have hmem := List.mem_of_find?_eq_some hr
  rw [Call.blocker, map_eq_none_iff, List.find?_eq_none] at hfree
  rw [wakes, hpc]
  refine if_pos (List.length_filter_lt_length_iff_exists.mpr ⟨r, hmem, fun hkeeps => ?_⟩)
  exact hfree r (List.mem_filter.mpr ⟨hmem, hkeeps⟩) (List.find?_some hr)

/-- **A step that frees a waiter wakes its queue exactly if it is not a lock request.** -/
theorem wakes_iff_of_freed (hm : calls.Reachable m) {u : ℕ} (hu : m.Blocked u e c)
    (hstep : m.step a = some m') (hfree : c.blocker (m'.entries e) = none) :
    m.wakes a = some e ↔ ∀ c', m.request? a = some (e, c') → c'.ltype = F_UNLCK := by
  have h := numbered_of_reachable hm
  have hchanged : m'.entries e ≠ m.entries e := fun heq => hu.blocker (heq ▸ hfree)
  cases step_cases hstep with
  | stay | move | startRelease | remove => exact absurd rfl hchanged
  | create =>
    -- the entry of a waiter has been made before
    have hok := h.pcs u
    have hlt : e < m.nextEntry := by
      rcases hu.pc with hpc | ⟨b, hpc⟩ <;> rw [hpc] at hok <;> exact hok.1
    exact absurd (update_of_ne hlt.ne _ _) hchanged
  | @grant pc e' c' hreq hc =>
    obtain rfl : e = e' := by_contra fun hne => hchanged (update_of_ne hne _ _)
    rw [h.wakes_of_request hreq hc, hreq]
    simp
  | @drop e' key who m' ha hpc heq =>
    obtain ⟨t, act⟩ := a
    obtain rfl : act = .next := ha
    have hentries : m'.entries =
        update m.entries e' ⟨(m.entries e').records.filter who.keeps⟩ := by
      rw [heq]
      dsimp only
      split_ifs <;> rfl
    obtain rfl : e = e' := by_contra fun hne => hchanged (by rw [hentries, update_of_ne hne])
    rw [hentries, update_self] at hfree
    refine iff_of_true (wakes_of_release hpc hu.blocker hfree) fun c' hreq => ?_
    rw [request?, hpc] at hreq
    cases hreq

/-! ## Two runs -/

/-- Process 10 has locked the file for writing, process 11 waits for a read lock, and process 10 is
about to make a request of the given type. -/
def secondRequest (ltype : ℤ) : List (ℕ × Act) :=
  [(0, .set someFile (.posix 10 100) wholeFile false), (0, .next),
   (1, .set someFile (.posix 11 110) { wholeFile with lType := F_RDLCK } true), (1, .next),
   (1, .next), (0, .set someFile (.posix 10 100) { wholeFile with lType := ltype } false)]

/-- The request frees the waiter. -/
def freesWaiter (m m' : Manager) : Bool :=
  match m.pc 1 with
  | .waiting e c => (c.blocker (m.entries e)).isSome && (c.blocker (m'.entries e)).isNone
  | _ => false

theorem exists_freed (ltype : ℤ) (P : Manager → Manager → Bool)
    (hend : ((secondRequest ltype).foldlM step initial).any (fun m =>
      (m.step (0, .next)).any fun m' => freesWaiter m m' && P m m') = true) :
    ∃ m m' e c, calls.Reachable m ∧ m.Blocked 1 e c ∧ m.step (0, .next) = some m' ∧
      c.blocker (m'.entries e) = none ∧ P m m' = true := by
  obtain ⟨m, hrun, hm⟩ := (any_eq_true ..).mp hend
  obtain ⟨m', hstep, hm'⟩ := (any_eq_true ..).mp hm
  obtain ⟨hfrees, hP⟩ := Bool.and_eq_true_iff.mp hm'
  unfold freesWaiter at hfrees
  split at hfrees <;> [skip; cases hfrees]
  rename_i e c hpc
  simp only [Bool.and_eq_true, isNone_iff_eq_none, isSome_iff_ne_none] at hfrees
  exact ⟨m, m', e, c, System.reachable_run _ (.init rfl) hrun, ⟨.inl hpc, hfrees.1⟩, hstep,
    hfrees.2, hP⟩

/-- An unlock request wakes the waiter. -/
theorem woken_of_unlock : ∃ (m : Manager) (e : ℕ), m.wakes (0, .next) = some e := by
  obtain ⟨m, m', e, c, hm, hu, hstep, hfree, hreq⟩ := exists_freed F_UNLCK
    (fun m _ => (m.request? (0, .next)).all fun r => r.2.ltype = F_UNLCK) (by decide +kernel)
  refine ⟨m, e, (wakes_iff_of_freed hm hu hstep hfree).mpr fun c' hc' => ?_⟩
  simpa [hc'] using hreq

/-- **A waiter that nobody wakes.**  Process 10 asks for a read lock in the place of its write lock.
The call returns, nothing stands against the waiting request, and its queue was not woken. -/
theorem not_woken_of_downgrade : ∃ m m' e c, calls.Reachable m ∧ m.Blocked 1 e c ∧
    m.step (0, .next) = some m' ∧ c.blocker (m'.entries e) = none ∧
      ((m.wakes (0, .next)).isNone && returnedOk m' 0) = true :=
  exists_freed F_RDLCK _ (by decide +kernel)
end MangoCore.Fs.PosixLock.Manager
