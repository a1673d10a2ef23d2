import MangoCore.Errno
import MangoCore.Lib.System
import Mathlib.Data.Finset.Dedup
import Mathlib.Data.Finset.Erase
import Mathlib.Data.Finset.SDiff

/-!
# Pending signals

Threads and processes have queues of pending signals; a bitmap says which signals have an entry.  A
signal below 32 that is pending already is not queued again, a POSIX timer has at most one entry,
and all entries but those of timers share a limit of 64.  The empty signal, which every call
ignores, is left out.

Bitmap and entries agree in every run.  `dequeue_matching` takes the first entry that matches, so a
lower realtime signal comes first only if it was sent first.  `kill` does not look at the answer of
the queue: when the limit is reached it reports success, and nothing is pending.  Where `kill` finds
the entry of a timer it adds none, and `timer_delete` takes that entry away.
-/

namespace MangoCore.Task.Signal

/-- `PendingSignal`; a timer event is named by the timer and its instance. -/
structure PendingSignal where
  signum : ℕ
  siginfo : ℕ
  timerEvent : Option (ℕ × ℕ)
  deriving DecidableEq

structure SignalQueue where
  bitmap : Finset ℕ
  queue : List PendingSignal

def maxQueuedSignals : ℕ := 64

def isRealtimeSignal (signum : ℕ) : Bool := 32 ≤ signum

namespace SignalQueue

variable (q : SignalQueue)

variable (set : Finset ℕ) (p : PendingSignal)

/-- Whether `enqueue` keeps the entry that is there. -/
def merges : Bool :=
  match p.timerEvent with
  | some e => q.queue.any fun x => x.timerEvent == some e
  | none => !isRealtimeSignal p.signum && p.signum ∈ q.bitmap

def enqueue : Except Errno Unit × SignalQueue :=
  if q.merges p then (.ok (), q)
  else if p.timerEvent = none ∧ maxQueuedSignals ≤ q.queue.length then (.error .EAGAIN, q)
  else (.ok (), ⟨insert p.signum q.bitmap, q.queue ++ [p]⟩)

def refreshBitmapFor (signum : ℕ) : SignalQueue :=
  if q.queue.any fun x => x.signum == signum then q
  else { q with bitmap := q.bitmap.erase signum }

/-- The search for an entry and its removal, which three functions have in common. -/
def removeFirst (f : PendingSignal → Bool) : Option PendingSignal × SignalQueue :=
  match q.queue.find? f with
  | none => (none, q)
  | some p => (some p, { q with queue := q.queue.eraseP f }.refreshBitmapFor p.signum)

def dequeueMatching : Option PendingSignal × SignalQueue :=
  q.removeFirst fun p => p.signum ∈ set

def removeSignal (signum : ℕ) : Option PendingSignal × SignalQueue :=
  q.removeFirst fun p => p.signum == signum

def removeTimerEvent (e : ℕ × ℕ) : Option PendingSignal × SignalQueue :=
  q.removeFirst fun p => p.timerEvent == some e

def rebuildBitmap : SignalQueue := { q with bitmap := (q.queue.map (·.signum)).toFinset }

def removeSignals : SignalQueue :=
  { q with queue := q.queue.filter fun p => p.signum ∉ set }.rebuildBitmap

end SignalQueue

/-- A queue, the entries it has accepted, and the signals that a system call has reported as sent
and that were neither dequeued nor discarded since. -/
structure State where
  q : SignalQueue
  sent : List PendingSignal
  due : Finset ℕ

inductive Label where
  /-- `tgkill` with the limit on pending signals, or without one `kill` and the timers. -/
  | send (p : PendingSignal) (limit : Option ℕ)
  | dequeueMatching (set : Finset ℕ)
  | removeSignal (signum : ℕ)
  | removeTimerEvent (e : ℕ × ℕ)
  | removeSignals (set : Finset ℕ)

namespace State

variable (s : State)

def send (p : PendingSignal) (limit : Option ℕ) : State :=
  if limit.any fun n => isRealtimeSignal p.signum && n ≤ s.q.queue.length then s
  else
    let (answer, q) := s.q.enqueue p
    { q := q
      sent := if q.queue = s.q.queue then s.sent else s.sent ++ [p]
      -- `kill` succeeds whatever the queue answers.
      due := if p.timerEvent = none ∧ (answer = .ok () ∨ limit = none) then insert p.signum s.due
        else s.due }

def taken (r : Option PendingSignal × SignalQueue) : State :=
  { s with q := r.2, due := r.1.elim s.due fun p => s.due.erase p.signum }

def next : Label → State
  | .send p limit => s.send p limit
  | .dequeueMatching set => s.taken (s.q.dequeueMatching set)
  | .removeSignal signum => s.taken (s.q.removeSignal signum)
  -- `timer_delete` answers for the timer, and not for a signal that `kill` has sent.
  | .removeTimerEvent e => { s with q := (s.q.removeTimerEvent e).2 }
  | .removeSignals set => { s with q := s.q.removeSignals set, due := s.due \ set }

end State

/-- All sequences of calls on a new queue. -/
def signals : System State Label :=
  .ofFun (· = ⟨⟨∅, []⟩, [], ∅⟩) fun s l => some (s.next l)

open List SignalQueue

/-- The bitmap is the union of what is queued. -/
def SignalQueue.Listed (q : SignalQueue) : Prop := ∀ n, n ∈ q.bitmap ↔ ∃ p ∈ q.queue, p.signum = n

/-- **The first entry that passes a test leaves the queue**, or there is none, with no change. -/
inductive Taken (q : SignalQueue) (f : PendingSignal → Bool) :
    Option PendingSignal × SignalQueue → Prop
  | none (hnone : ∀ x ∈ q.queue, f x = false) : Taken q f (none, q)
  | some {p : PendingSignal} {l₁ l₂ : List PendingSignal} {q' : SignalQueue}
    (hq : q.queue = l₁ ++ p :: l₂) (hq' : q'.queue = l₁ ++ l₂) (hp : f p = true)
    (hfirst : ∀ x ∈ l₁, f x = false) (hlisted : q'.Listed) : Taken q f (some p, q')

theorem taken_removeFirst {q : SignalQueue} (h : q.Listed) (f : PendingSignal → Bool) :
    Taken q f (q.removeFirst f) := by
  rw [removeFirst]
  cases hp : q.queue.find? f with
  | none => exact .none fun x hx => Bool.not_eq_true _ ▸ find?_eq_none.mp hp x hx
  | some p =>
    obtain ⟨hf, l₁, l₂, hq, hl⟩ := find?_eq_some_iff_append.mp hp
    have hfirst : ∀ x ∈ l₁, f x = false := fun x hx => Bool.not_eq_true' _ ▸ hl x hx
    have herase : q.queue.eraseP f = l₁ ++ l₂ := by
      rw [hq, eraseP_append_right _ (by simpa using hl), eraseP_cons_of_pos hf]
    have hmem : ∀ n, n ∈ q.bitmap ↔ n = p.signum ∨ ∃ x ∈ l₁ ++ l₂, x.signum = n := fun n => by
      rw [h n, hq]
      simp only [mem_append, mem_cons]
      grind
    refine .some hq ?_ hf hfirst fun n => ?_
    all_goals
      rw [herase, refreshBitmapFor]
      split_ifs with hleft
    · rfl
    · rfl
    · -- another entry has this number
      obtain ⟨x, hx, hxn⟩ := any_eq_true.mp hleft
      refine (hmem n).trans ⟨?_, .inr⟩
      rintro (rfl | hn)
      · exact ⟨x, hx, eq_of_beq hxn⟩
      · exact hn
    · rw [Finset.mem_erase, hmem n]
      refine ⟨fun ⟨hne, hn⟩ => hn.resolve_left hne, fun ⟨x, hx, hxn⟩ => ⟨?_, .inr ⟨x, hx, hxn⟩⟩⟩
      rintro rfl
      exact hleft (any_eq_true.mpr ⟨x, hx, beq_iff_eq.mpr hxn⟩)

/-- Entries are taken out, and the bitmap follows. -/
structure Removes (s t : State) : Prop where
  listed : t.q.Listed
  queue : t.q.queue <+ s.q.queue
  sent : t.sent = s.sent

variable {s : State}

theorem Taken.removes {r : Option PendingSignal × SignalQueue} {f : PendingSignal → Bool}
    (htaken : Taken s.q f r) (h : s.q.Listed) (due : Finset ℕ) :
    Removes s { s with q := r.2, due } := by
  cases htaken with
  | none _ => exact ⟨h, .refl _, rfl⟩
  | some hq hq' _ _ hlisted =>
    refine ⟨hlisted, ?_, rfl⟩
    rw [hq, hq']
    exact (Sublist.refl _).append (sublist_cons_self ..)

/-- Another signal stays pending. -/
theorem Taken.mem_bitmap {q q' : SignalQueue} {f : PendingSignal → Bool} {p : PendingSignal} {n : ℕ}
    (htaken : Taken q f (Option.some p, q')) (h : q.Listed) (hn : n ∈ q.bitmap)
    (hne : n ≠ p.signum) : n ∈ q'.bitmap := by
  cases htaken with
  | some hq hq' _ _ hlisted =>
    obtain ⟨x, hx, hxn⟩ := (h n).mp hn
    rw [hq, mem_append, mem_cons] at hx
    refine (hlisted n).mpr ⟨x, ?_, hxn⟩
    rw [hq', mem_append]
    rcases hx with hx | rfl | hx
    · exact .inl hx
    · exact absurd hxn.symm hne
    · exact .inr hx

/-- A call sends, or takes entries out. -/
theorem send_or_removes (h : s.q.Listed) (l : Label) :
    (∃ p limit, l = .send p limit) ∨ Removes s (s.next l) := by
  cases l with
  | send p limit => exact .inl ⟨p, limit, rfl⟩
  | removeSignals set =>
    refine .inr ⟨fun n => ?_, filter_sublist, rfl⟩
    simp [State.next, removeSignals, rebuildBitmap]
  | _ => exact .inr ((taken_removeFirst h _).removes h _)

/-- An entry is added at the end, merged or refused. -/
theorem send_cases (s : State) (p : PendingSignal) (limit : Option ℕ) :
    (∃ due, s.send p limit = ⟨s.q, s.sent, due⟩ ∧ ∀ n ∈ due, n ∈ s.due ∨ n = p.signum ∧
        p.timerEvent = none ∧ (s.q.merges p = true ∨ limit = none ∧
          maxQueuedSignals ≤ s.q.queue.length)) ∨
      ∃ due, s.send p limit = ⟨⟨insert p.signum s.q.bitmap, s.q.queue ++ [p]⟩, s.sent ++ [p], due⟩ ∧
        due ⊆ insert p.signum s.due ∧ s.q.merges p = false := by
  rw [State.send, enqueue]
  split_ifs
  · exact .inl ⟨s.due, rfl, fun _ => .inl⟩
  · dsimp only
    rw [if_pos rfl]
    exact .inl ⟨_, rfl, by grind⟩
  · dsimp only
    rw [if_pos rfl]
    exact .inl ⟨_, rfl, by grind⟩
  · dsimp only
    rw [if_neg (by simp)]
    exact .inr ⟨_, rfl, by grind⟩

/-- **The bitmap is what is queued**, a signal below 32 has one entry, timers aside, a timer has one
entry, and the entries stand in the order in which they were sent. -/
structure State.Sound (s : State) : Prop where
  listed : s.q.Listed
  single : s.q.queue.Pairwise fun a b => a.signum = b.signum →
    isRealtimeSignal a.signum = false → a.timerEvent = none → b.timerEvent ≠ none
  timers : s.q.queue.Pairwise fun a b => a.timerEvent = b.timerEvent → a.timerEvent = none
  order : s.q.queue <+ s.sent

/-- **One call.** -/
theorem State.Sound.next (h : s.Sound) (l : Label) : (s.next l).Sound := by
  obtain ⟨p, limit, rfl⟩ | hrem := send_or_removes h.listed l
  · rw [State.next]
    obtain ⟨due, heq, -⟩ | ⟨due, heq, -, hm⟩ := send_cases s p limit
    · exact heq ▸ ⟨h.listed, h.single, h.timers, h.order⟩
    · have hnew : ∀ x ∈ s.q.queue, (x.timerEvent = p.timerEvent → p.timerEvent = none) ∧
          (x.signum = p.signum → isRealtimeSignal p.signum = false → p.timerEvent ≠ none) := by
        have hlisted := h.listed
        grind [merges, Listed]
      refine heq ▸ ⟨?_, ?_, ?_, h.order.append (.refl _)⟩
      · grind [Listed, h.listed]
      · exact pairwise_append.mpr ⟨h.single, pairwise_singleton .., by grind⟩
      · exact pairwise_append.mpr ⟨h.timers, pairwise_singleton .., by grind⟩
  · exact ⟨hrem.listed, h.single.sublist hrem.queue, h.timers.sublist hrem.queue,
      hrem.sent ▸ hrem.queue.trans h.order⟩

theorem sound_of_reachable_signals (hs : signals.Reachable s) : s.Sound := by
  refine hs.invariant (I := State.Sound) ?_ ?_
  · rintro _ rfl
    exact ⟨by simp [Listed], .nil, .nil, .refl _⟩
  · rintro s l t - h hstep
    exact Option.some.inj hstep ▸ h.next l

/-! ## The order of realtime signals -/

/-- Realtime signals are sent in the order of their numbers. -/
def Ascending (s : State) : Label → Prop
  | .send p _ => isRealtimeSignal p.signum = true →
      ∀ x ∈ s.q.queue, isRealtimeSignal x.signum = true → x.signum ≤ p.signum
  | _ => True

instance (s : State) (l : Label) : Decidable (Ascending s l) := by
  cases l <;> unfold Ascending <;> infer_instance

/-- Then they stand in this order. -/
theorem ascending_of_reachable (hs : (signals.restrict Ascending).Reachable s) :
    s.q.queue.Pairwise fun a b => isRealtimeSignal a.signum = true →
      isRealtimeSignal b.signum = true → a.signum ≤ b.signum := by
  refine hs.invariant (I := fun s : State => s.q.queue.Pairwise _) ?_ ?_
  · rintro _ rfl
    exact .nil
  · rintro s l t hs h ⟨hl, hstep⟩
    cases hstep
    obtain ⟨p, limit, rfl⟩ | hrem :=
      send_or_removes (sound_of_reachable_signals hs.of_restrict).listed l
    · rw [State.next]
      obtain ⟨due, heq, -⟩ | ⟨due, heq, -⟩ := send_cases s p limit
      · exact heq ▸ h
      · exact heq ▸ pairwise_append.mpr ⟨h, pairwise_singleton .., by grind [Ascending]⟩
    · exact h.sublist hrem.queue

/-- **Dequeuing.**  `dequeue_matching` takes the first entry whose signal is in the set, if there is
one, so entries of one number come in the order of sending.  Realtime signals come in the order of
their numbers if they were sent in that order. -/
theorem realtime_of_reachable (hs : signals.Reachable s) : s.Sound ∧ ∀ set,
    Taken s.q (fun p => p.signum ∈ set) (s.q.dequeueMatching set) ∧
      ((signals.restrict Ascending).Reachable s → ∀ p q', s.q.dequeueMatching set = (some p, q') →
        isRealtimeSignal p.signum = true → ∀ x ∈ s.q.queue, isRealtimeSignal x.signum = true →
          x.signum ∈ set → p.signum ≤ x.signum) := by
  have hsound := sound_of_reachable_signals hs
  refine ⟨hsound, fun set => ?_⟩
  have htaken := taken_removeFirst hsound.listed fun p => p.signum ∈ set
  refine ⟨htaken, fun hasc p q' hp hreal x hx hreal' hset => ?_⟩
  have hpair := ascending_of_reachable hasc
  rw [show s.q.removeFirst _ = (some p, q') from hp] at htaken
  cases htaken with
  | some hq _ _ hfirst _ =>
    rw [hq, mem_append, mem_cons] at hx
    rw [hq, pairwise_append, pairwise_cons] at hpair
    rcases hx with hx | rfl | hx
    · exact absurd hset (of_decide_eq_false (hfirst x hx))
    · exact le_rfl
    · exact hpair.2.1.1 x hx hreal hreal'

/-- Signals 34, 40 and again 34 are queued; of the set with 40 and 50 the call takes 40, and of a
set without them nothing. -/
theorem realtime_ascending : ∃ s, signals.Reachable s ∧
    (s.q.queue = [⟨34, 0, none⟩, ⟨40, 1, none⟩, ⟨34, 2, none⟩] ∧
      (s.q.dequeueMatching {40, 50}).1 = some ⟨40, 1, none⟩ ∧
      (s.q.dequeueMatching {40, 50}).2.queue = [⟨34, 0, none⟩, ⟨34, 2, none⟩] ∧
      (s.q.dequeueMatching {50}).1 = none) ∧ s.Sound ∧
    Taken s.q (fun p => p.signum ∈ ({40, 50} : Finset ℕ)) (s.q.dequeueMatching {40, 50}) := by
  obtain ⟨s, hs, hend⟩ : ∃ s, signals.Reachable s ∧
      (s.q.queue = [⟨34, 0, none⟩, ⟨40, 1, none⟩, ⟨34, 2, none⟩] ∧
        (s.q.dequeueMatching {40, 50}).1 = some ⟨40, 1, none⟩ ∧
        (s.q.dequeueMatching {40, 50}).2.queue = [⟨34, 0, none⟩, ⟨34, 2, none⟩] ∧
        (s.q.dequeueMatching {50}).1 = none) :=
    System.exists_run [.send ⟨34, 0, none⟩ none, .send ⟨40, 1, none⟩ none, .send ⟨34, 2, none⟩ none]
      rfl (by decide)
  exact ⟨s, hs, hend, (realtime_of_reachable hs).1, ((realtime_of_reachable hs).2 {40, 50}).1⟩

/-- **The first entry comes first**: signal 40 is dequeued before signal 34. -/
theorem realtime_in_order_of_sending : ∃ s, signals.Reachable s ∧ 34 ∈ s.q.bitmap ∧
    (s.q.dequeueMatching {34, 40}).1 = some ⟨40, 0, none⟩ :=
  System.exists_run [.send ⟨40, 0, none⟩ none, .send ⟨34, 1, none⟩ none] rfl (by decide)

/-! ## Signals that were sent -/

/-- A process is sent a signal below 32 only while it is pending or there is room, and
`timer_delete` does not take the last entry of a signal that was sent. -/
def Room (s : State) : Label → Prop
  | .send p none => p.timerEvent = none → isRealtimeSignal p.signum = false →
      p.signum ∈ s.q.bitmap ∨ s.q.queue.length < maxQueuedSignals
  | .removeTimerEvent e => ∀ p ∈ (s.q.removeTimerEvent e).1, isRealtimeSignal p.signum = false →
      p.signum ∈ s.due → p.signum ∈ (s.q.removeTimerEvent e).2.bitmap
  | _ => True

instance (s : State) (l : Label) : Decidable (Room s l) := by
  unfold Room
  split <;> infer_instance

/-- What was sent stays pending when another signal is taken, or is no longer due. -/
theorem Taken.pending {f : PendingSignal → Bool} (h : s.q.Listed)
    (hdue : ∀ n ∈ s.due, isRealtimeSignal n = false → n ∈ s.q.bitmap) :
    ∀ n ∈ (s.taken (s.q.removeFirst f)).due, isRealtimeSignal n = false →
      n ∈ (s.taken (s.q.removeFirst f)).q.bitmap := by
  intro n hn hlow
  have htaken := taken_removeFirst h f
  rw [State.taken] at hn ⊢
  generalize s.q.removeFirst f = r at htaken hn ⊢
  obtain ⟨_ | p, q'⟩ := r
  · cases htaken
    exact hdue n hn hlow
  · obtain ⟨hne, hn⟩ := Finset.mem_erase.mp hn
    exact htaken.mem_bitmap h (hdue n hn hlow) hne

/-- **A signal below 32 that was sent is pending** until it is dequeued or discarded, if there was
room for it. -/
theorem pending_of_reachable (hs : (signals.restrict Room).Reachable s) :
    ∀ n ∈ s.due, isRealtimeSignal n = false → n ∈ s.q.bitmap := by
  refine hs.invariant (I := fun s : State => ∀ n ∈ s.due, isRealtimeSignal n = false →
    n ∈ s.q.bitmap) ?_ ?_
  · rintro _ rfl
    simp
  · rintro s l t hs h ⟨hl, hstep⟩
    cases hstep
    have hlisted := (sound_of_reachable_signals hs.of_restrict).listed
    cases l with
    | send p limit =>
      rw [State.next]
      obtain ⟨due, heq, hdue⟩ | ⟨due, heq, hdue, -⟩ := send_cases s p limit
      · rw [heq]
        intro n hn hlow
        rcases hdue n hn with hn | ⟨rfl, htimer, hmerge | ⟨rfl, hfull⟩⟩
        · exact h n hn hlow
        · rw [merges, htimer, hlow] at hmerge
          exact of_decide_eq_true hmerge
        · exact (hl htimer hlow).resolve_right (not_lt.mpr hfull)
      · rw [heq]
        intro n hn hlow
        rcases Finset.mem_insert.mp (hdue hn) with rfl | hn
        · exact Finset.mem_insert_self ..
        · exact Finset.mem_insert_of_mem (h n hn hlow)
    | dequeueMatching set => exact Taken.pending hlisted h
    | removeSignal signum => exact Taken.pending hlisted h
    | removeTimerEvent e =>
      intro n hn hlow
      have htaken : Taken s.q _ (s.q.removeTimerEvent e) := taken_removeFirst hlisted _
      rw [Room] at hl
      rw [State.next]
      generalize s.q.removeTimerEvent e = r at htaken hl ⊢
      obtain ⟨_ | p, q'⟩ := r
      · cases htaken
        exact h n hn hlow
      · by_cases hne : n = p.signum
        · rw [hne] at hn hlow ⊢
          exact hl p rfl hlow hn
        · exact htaken.mem_bitmap hlisted (h n hn hlow) hne
    | removeSignals set =>
      intro n hn hlow
      obtain ⟨hn, hset⟩ := Finset.mem_sdiff.mp hn
      obtain ⟨p, hp, rfl⟩ := (hlisted n).mp (h n hn hlow)
      refine mem_toFinset.mpr (mem_map_of_mem (mem_filter.mpr ⟨hp, ?_⟩))
      simpa using hset

/-- `SIGKILL` is sent twice. -/
theorem pending_killed : ∃ s, (signals.restrict Room).Reachable s ∧ 9 ∈ s.due ∧
    9 ∈ s.q.bitmap := by
  obtain ⟨s, hreach, hdue⟩ : ∃ s, (signals.restrict Room).Reachable s ∧ 9 ∈ s.due :=
    System.exists_run_restrict [.send ⟨9, 0, none⟩ none, .send ⟨9, 1, none⟩ none] rfl (by decide)
  exact ⟨s, hreach, hdue, pending_of_reachable hreach 9 hdue rfl⟩

/-- **Signals that `kill` reports as sent and that are not pending.**  A full queue loses `SIGKILL`;
and `SIGALRM` is merged into the entry of a timer, which `timer_delete` removes. -/
theorem killed_not_pending :
    (∃ s, signals.Reachable s ∧ 9 ∈ s.due ∧ 9 ∉ s.q.bitmap) ∧
      ∃ s, signals.Reachable s ∧ 14 ∈ s.due ∧ 14 ∉ s.q.bitmap :=
  ⟨System.exists_run (replicate 64 (.send ⟨34, 0, none⟩ none) ++ [.send ⟨9, 0, none⟩ none]) rfl
      (by decide +kernel),
    System.exists_run [.send ⟨14, 0, some (0, 0)⟩ none, .send ⟨14, 1, none⟩ none,
      .removeTimerEvent (0, 0)] rfl (by decide)⟩

end MangoCore.Task.Signal
