import MangoCore.Ipc.PosixMq

/-!
# Order and wake-ups of POSIX message queues

The messages of a queue are sorted by priority, and by the order of sending within one priority, so
a receiver that takes the first message takes the right one.

A task that adds a message, or takes one out, owes a wake-up to the other side until it has given
it.  Nobody sleeps while the queue is ready for them, unless a wake-up is owed to their side
(`Awake`): a waiter joins its list before its last look at the queue, and whoever makes the queue
ready after that look owes the wake-up.  This needs that a task which owes a wake-up gives it.  A
receiver whose copy to user memory fails does not (`sender_forgotten`); in runs without such a
failure the queue is sound in every state (`priorities_of_reachable`).
-/

namespace MangoCore.Ipc.Mq

open Function MqState List Mailbox Option WaitList MqQueue Phase

/-! ## The order of the messages -/

/-- Messages in the order in which they are to be received. -/
abbrev Sorted (messages : List MqMessage) : Prop :=
  messages.Pairwise fun a b => b.prio ≤ a.prio

namespace MqQueue

variable {q : MqQueue} {prio : UInt32} {m : MqMessage}

theorem position_le : q.position prio ≤ q.messages.length := by
  rw [position]
  cases h : q.messages.findIdx? fun message => decide (message.prio < prio) with
  | none => exact le_rfl
  | some i => exact le_of_lt (findIdx?_eq_some_iff_getElem.mp h).1

/-- Everything before the position has at least the priority. -/
theorem le_of_mem_take_position (hm : m ∈ q.messages.take (q.position prio)) : prio ≤ m.prio := by
  rw [position] at hm
  cases h : q.messages.findIdx? fun message => decide (message.prio < prio) with
  | none => grind
  | some i => grind [findIdx?_eq_some_iff_getElem, mem_iff_getElem]

/-- Everything from the position on has a smaller priority. -/
theorem lt_of_mem_drop_position (hsorted : Sorted q.messages)
    (hm : m ∈ q.messages.drop (q.position prio)) : m.prio < prio := by
  rw [position] at hm
  cases h : q.messages.findIdx? fun message => decide (message.prio < prio) with
  | none =>
    rw [h, getD_none, drop_length] at hm
    cases hm
  | some i =>
    rw [h, getD_some] at hm
    obtain ⟨hlt, hp, -⟩ := findIdx?_eq_some_iff_getElem.mp h
    grind [getElem_cons_drop, drop_sublist]

end MqQueue

/-- What the queue and its history have to do with each other. -/
structure Filed (q : MqQueue) (b : Mailbox MqMessage) : Prop where
  bounded : q.messages.length ≤ q.maxmsg
  contents : b.contents = q.messages
  ordered : b.Ordered MqMessage.prio
  sorted : Sorted q.messages

namespace Filed

variable {q : MqQueue} {b : Mailbox MqMessage} (h : Filed q b)
include h

theorem waiting_length : b.waiting.length = q.messages.length := by
  rw [← h.contents, Mailbox.contents, length_map]

/-- **Sending keeps the order.** -/
theorem insert (msg : MqMessage) (hroom : q.messages.length < q.maxmsg) :
    Filed (q.insert msg).1 (b.put (q.position msg.prio) msg) where
  bounded := by grind [MqQueue.insert]
  contents := by
    rw [contents_put, h.contents]
    rfl
  ordered := by
    refine h.ordered.put (h.waiting_length ▸ q.position_le) fun x hx => ?_
    have hmem : x.2 ∈ q.messages.drop (q.position msg.prio) := by
      rw [← h.contents, Mailbox.contents, ← map_drop]
      exact mem_map_of_mem hx
    exact fun heq => absurd heq (UInt32.ne_of_lt (lt_of_mem_drop_position h.sorted hmem))
  sorted := by
    show Sorted (q.messages.insertIdx (q.position msg.prio) msg)
    rw [insertIdx_eq_append _ q.position_le]
    have hold := h.sorted
    rw [← take_append_drop (q.position msg.prio) q.messages] at hold
    grind [pairwise_cons, UInt32.le_of_lt, lt_of_mem_drop_position, h.sorted,
      le_of_mem_take_position]

/-- **Receiving keeps the order.** -/
theorem pop {msg : MqMessage} {rest : List MqMessage}
    (hmsg : q.messages = msg :: rest) : Filed { q with messages := rest } (b.take 0) := by
  obtain ⟨x, l, hx⟩ : ∃ x l, b.waiting = x :: l := by
    refine exists_cons_of_ne_nil fun hnil => ?_
    grind [h.contents, Mailbox.contents]
  refine ⟨?_, ?_, ?_, ?_⟩
  · grind [h.bounded]
  · rw [contents_take, h.contents, hmsg]
    rfl
  · simp [hx, h.ordered.take]
  · grind [h.sorted]

/-- The first message in the queue is the one to be received. -/
theorem first {x : ℕ × MqMessage} {rest : List (ℕ × MqMessage)}
    (hx : b.waiting = x :: rest) {y : ℕ × MqMessage} (hy : y ∈ rest) :
    y.2.prio < x.2.prio ∨ (y.2.prio = x.2.prio ∧ x.1 < y.1) := by
  have hsorted := h.sorted
  rw [← h.contents, Mailbox.contents, hx, map_cons] at hsorted
  have hle : y.2.prio ≤ x.2.prio :=
    (pairwise_cons.mp hsorted).1 y.2 (mem_map_of_mem hy)
  rcases UInt32.lt_or_eq_of_le hle with hlt | heq
  · exact .inl hlt
  · have hbefore := (pairwise_append.mp h.ordered.before).2.1
    rw [hx] at hbefore
    exact .inr ⟨heq, (pairwise_cons.mp hbefore).1 y hy heq.symm⟩

end Filed

/-! ## What a section can do -/

/-- The call for which a task is about to sleep, or sleeps, after its last look at the queue. -/
def Phase.committed : Phase → Option Call
  | .waiting c .deciding | .waiting c .blocking | .waiting c .asleep => some c
  | _ => none

/-- Every copy to the memory of a receiver succeeds. -/
def Label.copied : Label → Bool
  | .copyOut _ error => error.isNone
  | _ => true

/-- **What one section does.** -/
inductive Move (s : MqState) (l : Label) : MqState → Prop
  /-- The task goes on by itself.  It passes its last look only if the queue is not ready. -/
  | goes {p : Phase} : (s.phase l.task).owes = none → p.owes = none →
      (∀ c, p.committed = some c →
        s.queue.ready c = false ∨ (s.phase l.task).committed = some c) →
      Move s l (s.setPhase l.task p)
  | joins {c : Call} : (s.phase l.task).owes = none →
      Move s l ((s.setWait c.side ((s.wait c.side).join l.task)).setPhase l.task
        (.waiting c .rechecking))
  | leaves {c : Call} {p : Phase} : (s.phase l.task).owes = none → p.owes = none →
      p.committed = none →
      Move s l ((s.setWait c.side ((s.wait c.side).leave l.task)).setPhase l.task p)
  | sends {msg : MqMessage} : s.phase l.task = .attempt (.send msg) →
      s.queue.messages.length < s.queue.maxmsg →
      Move s l ({ s with
        queue := (s.queue.insert msg).1
        box := s.box.put (s.queue.position msg.prio) msg }.setPhase l.task
          (.sent (s.queue.insert msg).2))
  | pops {msg : MqMessage} {rest : List MqMessage} : s.phase l.task = .attempt .receive →
      s.queue.messages = msg :: rest →
      Move s l ({ s with
        queue := { s.queue with messages := rest }
        box := s.box.take 0 }.setPhase l.task (.popped msg))
  | copies {msg : MqMessage} : s.phase l.task = .popped msg →
      Move s l (s.setPhase l.task (.copied msg))
  /-- The copy of a message failed. -/
  | drops {msg : MqMessage} : s.phase l.task = .popped msg → l.copied = false →
      Move s l (s.setPhase l.task .user)
  | wakes {d : Side} : (s.phase l.task).owes = some d →
      Move s l ((s.setWait d (s.wait d).wakeAll).setPhase l.task .user)
  | notifies {n : Option MqNotification} : s.phase l.task = .user →
      Move s l ({ s with queue := { s.queue with notification := n } }.setPhase l.task .user)

namespace MqState

variable {s : MqState} {result : MqState × Option Answer} {t : ℕ} {c : Call} {l : Label}
  {descriptor : Option Errno}

/-- A task that does not go to sleep. -/
theorem move_goes {p : Phase} (howes : (s.phase l.task).owes = none)
    (hp : p.owes = none) (hwait : p.committed = none) : Move s l (s.setPhase l.task p) := by
  refine .goes howes hp fun c hc => ?_
  rw [hwait] at hc
  cases hc

theorem move_attempt {nonblock : Bool} (hphase : s.phase t = .attempt c) :
    Move s (.attempt t nonblock) (s.attempt t nonblock c).1 := by
  have howes : (s.phase t).owes = none := by rw [hphase]; rfl
  cases c with
  | send msg =>
    rw [attempt]
    split_ifs with hfull
    any_goals exact move_goes howes rfl rfl
    · exact .sends hphase (not_le.mp hfull)
  | receive =>
    rw [attempt.eq_def]
    cases hmessages : s.queue.messages with
    | nil =>
      simp only
      split_ifs
      all_goals exact move_goes howes rfl rfl
    | cons msg rest => exact .pops hphase hmessages

theorem move_waitStep {w : WaitPoint}
    (hphase : s.phase l.task = .waiting c w) (hstep : s.waitStep l.task c w l = some result) :
    Move s l result.1 := by
  have howes : (s.phase l.task).owes = none := by rw [hphase]; rfl
  rw [waitStep.eq_def] at hstep
  split at hstep
  · -- the first look
    split at hstep
    · cases hstep
      exact move_goes howes rfl rfl
    · grind [move_goes, owes, committed]
  · split_ifs at hstep <;> cases hstep
    · exact move_goes howes rfl rfl
    · exact .joins howes
  · -- the last look
    split_ifs at hstep with hready <;> cases hstep
    · exact move_goes howes rfl rfl
    · refine .goes howes rfl ?_
      rintro _ ⟨⟩
      exact .inl (Bool.eq_false_iff.mpr hready)
  · split at hstep
    · cases hstep
      exact move_goes howes rfl rfl
    · split_ifs at hstep <;> cases hstep
      · refine .goes howes rfl ?_
        rintro _ ⟨⟩
        exact .inr (by rw [hphase]; rfl)
      · exact move_goes howes rfl rfl
  · split_ifs at hstep <;> cases hstep
    · refine .goes howes rfl ?_
      rintro _ ⟨⟩
      exact .inr (by rw [hphase]; rfl)
    · exact move_goes howes rfl rfl
  · split_ifs at hstep
    cases hstep
    exact move_goes howes rfl rfl
  · simp only at hstep
    split at hstep <;> cases hstep
    all_goals exact .leaves howes rfl rfl
  · cases hstep

/-- A call that begins, or fails its first checks. -/
theorem move_timedsend {copyIn : Option Errno} {msg : MqMessage}
    (hphase : s.phase t = .user) :
    Move s (.timedsend t descriptor copyIn msg) (s.timedsend t descriptor copyIn msg).1 := by
  have howes : (s.phase t).owes = none := by rw [hphase]; rfl
  have hgoes : ∀ p : Phase, p.owes = none → p.committed = none →
      Move s (.timedsend t descriptor copyIn msg) (s.setPhase t p) := fun p hp hc =>
    move_goes howes hp hc
  rw [timedsend.eq_def]
  cases descriptor with
  | some e => exact hgoes _ rfl rfl
  | none => grind [finish, owes, committed]

theorem move_timedreceive {msgLen : ℕ} (hphase : s.phase t = .user) :
    Move s (.timedreceive t descriptor msgLen) (s.timedreceive t descriptor msgLen).1 := by
  have howes : (s.phase t).owes = none := by rw [hphase]; rfl
  have hgoes : ∀ p : Phase, p.owes = none → p.committed = none →
      Move s (.timedreceive t descriptor msgLen) (s.setPhase t p) := fun p hp hc =>
    move_goes howes hp hc
  rw [timedreceive.eq_def]
  cases descriptor with
  | some e => exact hgoes _ rfl rfl
  | none =>
    simp only
    split_ifs
    all_goals exact hgoes _ rfl rfl

/-- **Every section is one of the moves.** -/
theorem move_of_step (hstep : s.step l = some result) : Move s l result.1 := by
  rw [step.eq_def] at hstep
  split at hstep
  · rename_i hphase
    cases hstep
    exact move_timedsend hphase
  · rename_i hphase
    cases hstep
    exact move_timedreceive hphase
  · rename_i t notification hphase
    cases hstep
    rw [mqNotify]
    split_ifs
    · exact move_goes (by rw [hphase]; rfl) rfl rfl
    · exact .notifies hphase
  · rename_i hphase
    cases hstep
    exact move_attempt hphase
  · rename_i hphase
    exact move_waitStep hphase hstep
  · rename_i hphase
    split at hstep <;> cases hstep
    · exact .drops hphase rfl
    · exact .copies hphase
  · rename_i t hphase
    cases hstep
    exact .wakes (by rw [hphase]; rfl)
  · rename_i t hphase
    cases hstep
    exact .wakes (by rw [hphase]; rfl)
  · cases hstep

end MqState

/-! ## The invariants -/

/-- **Nobody sleeps while the queue is ready, unless a wake-up is owed.** -/
def Awake (s : MqState) : Prop :=
  ∀ t c, (s.phase t).committed = some c → (s.wait c.side).token t = .waiting →
    s.queue.ready c = false ∨ ∃ u, (s.phase u).owes = some c.side

theorem Awake.change {s s' : MqState} (h : Awake s) {t : ℕ}
    (hphase : ∀ u, u ≠ t → s'.phase u = s.phase u)
    (htoken : ∀ u, u ≠ t → ∀ d, (s'.wait d).token u = .waiting → (s.wait d).token u = .waiting)
    (hready : ∀ c, s'.queue.ready c = true → s.queue.ready c = false →
      (s'.phase t).owes = some c.side) (howes : ∀ d, (s.phase t).owes = some d →
      (s'.phase t).owes = some d ∨ ∀ u, (s'.wait d).token u ≠ .waiting)
    (hself : ∀ c, (s'.phase t).committed = some c → (s'.wait c.side).token t = .waiting →
      s.queue.ready c = false ∨ ∃ u, (s.phase u).owes = some c.side) : Awake s' := by
  intro u c hu hw
  have hbefore : s.queue.ready c = false ∨ ∃ u, (s.phase u).owes = some c.side := by
    by_cases hut : u = t
    · rw [hut] at hu hw
      exact hself c hu hw
    · rw [hphase u hut] at hu
      exact h u c hu (htoken u hut c.side hw)
  rcases hbefore with hnot | ⟨v, hv⟩
  all_goals grind

/-- The invariant of all runs: the queue is in order, and the wait lists are. -/
structure Kept (s : MqState) : Prop where
  filed : Filed s.queue s.box
  listed : ∀ d, (s.wait d).Listed

theorem Filed.move {s s' : MqState} {l : Label} (h : Filed s.queue s.box) (hmove : Move s l s') :
    Filed s'.queue s'.box := by
  cases hmove with
  | sends _ hroom => exact h.insert _ hroom
  | pops _ hmsg => exact h.pop hmsg
  | notifies _ => exact ⟨h.bounded, h.contents, h.ordered, h.sorted⟩
  | _ => exact h

theorem listed_setWait {s : MqState} (h : ∀ d, (s.wait d).Listed) {d : Side} {w : WaitList}
    (hw : w.Listed) (d' : Side) : ((s.setWait d w).wait d').Listed := by
  show (update s.wait d w d').Listed
  grind

theorem Kept.move {s s' : MqState} {l : Label} (h : Kept s) (hmove : Move s l s') : Kept s' := by
  refine ⟨h.filed.move hmove, ?_⟩
  cases hmove with
  | joins _ => exact listed_setWait h.listed ((h.listed _).join)
  | leaves _ _ _ => exact listed_setWait h.listed ((h.listed _).leave _)
  | wakes _ => exact listed_setWait h.listed (h.listed _).wakeAll
  | _ => exact h.listed

namespace MqState

variable (s : MqState)

variable (t : ℕ) (p : Phase)

@[simp] theorem phase_setPhase_self : (s.setPhase t p).phase t = p :=
  update_self ..

theorem phase_setPhase_of_ne {t u : ℕ} (h : u ≠ t) {p : Phase} :
    (s.setPhase t p).phase u = s.phase u :=
  update_of_ne h ..

@[simp] theorem wait_setPhase : (s.setPhase t p).wait = s.wait := rfl

@[simp] theorem wait_setWait_self (d : Side) (w : WaitList) : (s.setWait d w).wait d = w :=
  update_self ..

theorem wait_setWait_of_ne {d d' : Side} (h : d' ≠ d) (w : WaitList) :
    (s.setWait d w).wait d' = s.wait d' :=
  update_of_ne h ..

/-- What a change of one wait list leaves waiting. -/
theorem waiting_of_setWait {d : Side} {w : WaitList} {u : ℕ}
    (hw : w.token u = .waiting → (s.wait d).token u = .waiting) {d' : Side}
    (h : ((s.setWait d w).wait d').token u = .waiting) : (s.wait d').token u = .waiting := by
  by_cases hd : d' = d
  · subst hd
    rw [wait_setWait_self] at h
    exact hw h
  · rwa [wait_setWait_of_ne _ hd] at h

end MqState

/-- A task goes on to a place at which it is not about to sleep. -/
theorem Awake.setPhase {s s₀ : MqState} (h : Awake s) {t : ℕ} {p : Phase}
    (hphase : s₀.phase = s.phase) (hp : p.committed = none)
    (htoken : ∀ u, u ≠ t → ∀ d, (s₀.wait d).token u = .waiting → (s.wait d).token u = .waiting)
    (hready : ∀ c, s₀.queue.ready c = true → s.queue.ready c = false → p.owes = some c.side)
    (howes : ∀ d, (s.phase t).owes = some d →
      p.owes = some d ∨ ∀ u, (s₀.wait d).token u ≠ .waiting) :
    Awake (s₀.setPhase t p) := by
  refine h.change (fun u hu => ?_) htoken (fun c hr hn => ?_) (fun d hd => ?_) fun c hc _ => ?_
  · rw [phase_setPhase_of_ne _ hu, hphase]
  · rw [phase_setPhase_self]
    exact hready c hr hn
  · rw [phase_setPhase_self]
    exact howes d hd
  · rw [phase_setPhase_self, hp] at hc
    cases hc

section

variable {s s' : MqState} {l : Label} {u : ℕ}

/-- **Every section but a failed copy keeps everybody awake.** -/
theorem Awake.move (h : Awake s) (hlisted : ∀ d, (s.wait d).Listed)
    (hcopied : l.copied = true) (hmove : Move s l s') : Awake s' := by
  have hsame {p : Phase} (c : Call) (hr : s.queue.ready c = true) (hn : s.queue.ready c = false) :
      p.owes = some c.side := absurd (hn.symm.trans hr) nofun
  cases hmove with
  | goes howes hp hcommitted =>
    refine h.change (fun u hu => s.phase_setPhase_of_ne hu) (fun _ _ _ hw => hw)
      hsame (fun d hd => absurd (howes.symm.trans hd) nofun) fun c hc hw => ?_
    rw [phase_setPhase_self] at hc
    rcases hcommitted c hc with hnot | hbefore
    · exact .inl hnot
    · exact h l.task c hbefore hw
  | joins howes =>
    refine h.setPhase rfl rfl (fun u hu d hw => s.waiting_of_setWait (fun hj => ?_) hw) hsame
      fun d hd => absurd (howes.symm.trans hd) nofun
    rwa [token_join_of_ne hu] at hj
  | leaves howes _ hcommitted =>
    refine h.setPhase rfl hcommitted (fun u hu d hw => s.waiting_of_setWait (fun hj => ?_) hw) hsame
      fun d hd => absurd (howes.symm.trans hd) nofun
    rwa [token_leave_of_ne hu] at hj
  | sends hphase hroom =>
    refine h.setPhase rfl rfl (fun _ _ _ hw => hw) (fun c hr hn => ?_) fun d hd => ?_
    · cases c with
      | receive => rfl
      | send msg => exact absurd hroom (of_decide_eq_false hn)
    · rw [hphase] at hd
      cases hd
  | pops hphase hmsg =>
    refine h.setPhase rfl rfl (fun _ _ _ hw => hw) (fun c hr hn => ?_) fun d hd => ?_
    · cases c with
      | send msg => rfl
      | receive =>
        rw [ready, hmsg] at hn
        cases hn
    · rw [hphase] at hd
      cases hd
  | copies hphase =>
    refine h.setPhase rfl rfl (fun _ _ _ hw => hw) hsame fun d hd => .inl ?_
    rwa [hphase] at hd
  | drops _ hfail => cases hfail.symm.trans hcopied
  | wakes howes =>
    refine h.setPhase rfl rfl (fun u hu d hw => s.waiting_of_setWait (fun hj => ?_) hw) hsame
      fun d hd => .inr fun u => ?_
    · exact absurd hj (wakeAll_ne_waiting (hlisted _))
    · cases howes.symm.trans hd
      rw [wait_setWait_self]
      exact wakeAll_ne_waiting (hlisted _)
  | notifies hphase =>
    refine h.setPhase rfl rfl (fun _ _ _ hw => hw) (fun c hr hn => ?_) fun d hd => ?_
    · cases c <;> cases hn.symm.trans hr
    · rw [hphase] at hd
      cases hd

/-! ## All runs -/

/-- **What the queue promises in a state.** -/
structure Sound (s : MqState) : Prop where
  bounded : s.queue.messages.length ≤ s.queue.maxmsg
  /-- The messages in the queue are those that were sent and not received. -/
  contents : s.box.contents = s.queue.messages
  /-- No message was received twice. -/
  once : (s.box.taken.map Prod.fst).Nodup
  /-- Messages of one priority are received in the order of sending. -/
  fifo : s.box.taken.Pairwise (Before MqMessage.prio)
  /-- The first message has the highest priority, and is the oldest of that priority. -/
  first : ∀ x rest, s.box.waiting = x :: rest → ∀ y ∈ rest,
    y.2.prio < x.2.prio ∨ (y.2.prio = x.2.prio ∧ x.1 < y.1)
  /-- Only a receiver takes a message, and it goes on with the first one. -/
  takes : ∀ l result, s.step l = some result → result.1.box.taken = s.box.taken ∨
    ∃ msg rest, s.phase l.task = .attempt .receive ∧ s.queue.messages = msg :: rest ∧
      result.1.queue.messages = rest ∧ result.1.box = s.box.take 0 ∧
      result.1.phase l.task = .popped msg
  /-- A receiver that finds messages takes one. -/
  receives : ∀ t nonblock, s.phase t = .attempt .receive → s.queue.messages ≠ [] →
    ∃ result, s.step (.attempt t nonblock) = some result ∧ result.1.box = s.box.take 0
  /-- Whoever adds a message or frees a slot owes a wake-up to those who wait for it. -/
  owes : ∀ l result, s.step l = some result →
    (s.queue.messages.length < result.1.queue.messages.length →
      (result.1.phase l.task).owes = some .readers) ∧
    (result.1.queue.messages.length < s.queue.messages.length →
      (result.1.phase l.task).owes = some .writers)
  /-- Whoever owes a wake-up owes it until they have woken everyone who waits. -/
  woken : ∀ l result, l.copied = true → s.step l = some result → ∀ u d,
    (s.phase u).owes = some d → (result.1.phase u).owes = some d ∨
      ∀ t, (s.wait d).token t = .waiting → (result.1.wait d).token t = .notified
  /-- Nobody sleeps while the queue is ready for them, unless a wake-up is owed. -/
  awake : Awake s

variable (h : Move s l s')
include h

theorem Move.phase_of_ne (hu : u ≠ l.task) : s'.phase u = s.phase u := by
  cases h <;> exact phase_setPhase_of_ne _ hu

theorem Move.takes : s'.box.taken = s.box.taken ∨ ∃ msg rest,
    s.phase l.task = .attempt .receive ∧ s.queue.messages = msg :: rest ∧
      s'.queue.messages = rest ∧ s'.box = s.box.take 0 ∧ s'.phase l.task = .popped msg := by
  cases h with
  | pops hphase hmsg => exact .inr ⟨_, _, hphase, hmsg, rfl, rfl, phase_setPhase_self ..⟩
  | _ => exact .inl rfl

theorem Move.owes :
    (s.queue.messages.length < s'.queue.messages.length → (s'.phase l.task).owes = some .readers) ∧
    (s'.queue.messages.length < s.queue.messages.length →
      (s'.phase l.task).owes = some .writers) := by
  cases h with
  | sends _ hroom =>
    grind [MqQueue.insert, setPhase, owes, phase_setPhase_self]
  | pops _ hmsg => simp [hmsg, setPhase, owes]
  | _ => exact ⟨fun hlt => absurd hlt (lt_irrefl _), fun hlt => absurd hlt (lt_irrefl _)⟩

theorem Move.woken (hlisted : ∀ d, (s.wait d).Listed) (hcopied : l.copied = true) {d : Side}
    (hu : (s.phase u).owes = some d) : (s'.phase u).owes = some d ∨
      ∀ t, (s.wait d).token t = .waiting → (s'.wait d).token t = .notified := by
  by_cases hut : u = l.task
  · subst hut
    cases h with
    | goes howes _ _ => cases howes.symm.trans hu
    | joins howes => cases howes.symm.trans hu
    | leaves howes _ _ => cases howes.symm.trans hu
    | sends hphase _ =>
      rw [hphase] at hu
      cases hu
    | pops hphase _ =>
      rw [hphase] at hu
      cases hu
    | copies hphase =>
      rw [hphase] at hu
      rw [phase_setPhase_self]
      exact .inl hu
    | drops _ hfail => cases hfail.symm.trans hcopied
    | wakes howes =>
      grind [wait_setPhase, wait_setWait_self, wakeAll_notified]
    | notifies hphase =>
      rw [hphase] at hu
      cases hu
  · rw [h.phase_of_ne hut]
    exact .inl hu

end

theorem receives_of_attempt {s : MqState} {t : ℕ} (nonblock : Bool)
    (hphase : s.phase t = .attempt .receive) (hne : s.queue.messages ≠ []) :
    ∃ result, s.step (.attempt t nonblock) = some result ∧ result.1.box = s.box.take 0 := by
  obtain ⟨msg, rest, hmsg⟩ := exists_cons_of_ne_nil hne
  refine ⟨s.attempt t nonblock .receive, ?_, ?_⟩
  · simp only [step, Label.task, hphase]
  · simp only [MqState.attempt, hmsg, setPhase]

theorem Kept.sound {s : MqState} (h : Kept s) (hawake : Awake s) : Sound s where
  bounded := h.filed.bounded
  contents := h.filed.contents
  once := by grind [h.filed.ordered.nodup]
  fifo := (pairwise_append.mp h.filed.ordered.before).1
  first _ _ hx _ hy := h.filed.first hx hy
  takes _ _ hstep := (move_of_step hstep).takes
  receives _ nonblock hphase hne := receives_of_attempt nonblock hphase hne
  owes _ _ hstep := (move_of_step hstep).owes
  woken _ _ hcopied hstep _ _ hu := (move_of_step hstep).woken h.listed hcopied hu
  awake := hawake

/-- **Message queues in every state of a run without a failed copy.** -/
theorem priorities_of_reachable (maxmsg msgsize : ℕ) {s : MqState}
    (h : ((mqueue maxmsg msgsize).restrict fun _ l => l.copied = true).Reachable s) : Sound s := by
  have hinv := h.invariant (I := fun s => Kept s ∧ Awake s) ?_ ?_
  · exact hinv.1.sound hinv.2
  · rintro _ rfl
    exact ⟨⟨⟨Nat.zero_le _, rfl, .empty, .nil⟩, fun _ => listed_empty⟩, nofun⟩
  · rintro s l _ - ⟨hkept, hawake⟩ ⟨hcopied, hstep⟩
    obtain ⟨result, hresult, rfl⟩ := map_eq_some_iff.mp hstep
    have hmove := move_of_step hresult
    exact ⟨hkept.move hmove, hawake.move hkept.listed hcopied hmove⟩

/-- A message of one byte. -/
def oneByte (prio : UInt32) : MqMessage := ⟨prio, [0]⟩

/-- Task 1 fills a queue with one slot, and task 2 goes to sleep for a free slot. -/
def fillAndSleep : List Label :=
  [.timedsend 1 none none (oneByte 0), .attempt 1 false, .wake 1,
    .timedsend 2 none none (oneByte 5), .attempt 2 false, .check 2 none, .join 2 false, .recheck 2,
    .decide 2 none, .block 2 true]

/-- Task 3 receives the message. -/
def receiveOne (copy : Option Errno) : List Label :=
  [.timedreceive 3 none 8, .attempt 3 false, .copyOut 3 copy]

/-- After a receive the sleeper's token is marked. -/
theorem priorities_fillAndSleep :
    ∃ s, ((mqueue 1 8).restrict fun _ l => l.copied = true).Reachable s ∧ Sound s ∧
      s.phase 2 = .waiting (.send (oneByte 5)) .asleep ∧
      (s.wait .writers).token 2 = .notified ∧ s.box.taken = [(0, oneByte 0)] := by
  obtain ⟨s, hreach, hgoal⟩ : ∃ s,
      ((mqueue 1 8).restrict fun _ l => l.copied = true).Reachable s ∧
        s.phase 2 = .waiting (.send (oneByte 5)) .asleep ∧
        (s.wait .writers).token 2 = .notified ∧ s.box.taken = [(0, oneByte 0)] :=
    System.exists_run_restrict (fillAndSleep ++ receiveOne none ++ [Label.wake 3]) rfl (by decide)
  exact ⟨s, hreach, priorities_of_reachable 1 8 hreach, hgoal⟩

/-- A run does not touch a task that it does not name. -/
theorem phase_of_run {labels : List Label} {s s' : MqState} {u : ℕ} (hu : ∀ l ∈ labels, u ≠ l.task)
    (hrun : labels.foldlM (fun (s : MqState) l => (s.step l).map Prod.fst) s = some s') :
    s'.phase u = s.phase u := by
  induction labels generalizing s with
  | nil =>
    rw [foldlM_nil] at hrun
    rw [some.inj hrun]
  | cons l labels ih =>
    rw [foldlM_cons] at hrun
    obtain ⟨t, hstep, hrest⟩ := bind_eq_some_iff.mp hrun
    obtain ⟨result, hresult, rfl⟩ := map_eq_some_iff.mp hstep
    rw [ih (fun l' hl' => hu l' (mem_cons_of_mem _ hl')) hrest]
    exact (move_of_step hresult).phase_of_ne (hu l mem_cons_self)

/-- **A sender that nobody wakes.**  The receiver's copy fails, and its call returns with the slot
free, the sender asleep for it, and no wake-up to come. -/
theorem sender_forgotten : ∃ s, (mqueue 1 8).Reachable s ∧ s.queue.messages = [] ∧
    s.phase 2 = .waiting (.send (oneByte 5)) .asleep ∧ (s.wait .writers).token 2 = .waiting ∧
    s.phase 3 = .user ∧ ∀ u, (s.phase u).owes = none := by
  let labels := fillAndSleep ++ receiveOne (some .EFAULT)
  have hrun : (labels.foldlM (fun (s : MqState) l => (s.step l).map Prod.fst)
      (.initial 1 8)).any (fun s => decide (s.queue.messages = [] ∧
        s.phase 2 = .waiting (.send (oneByte 5)) .asleep ∧ (s.wait .writers).token 2 = .waiting ∧
        s.phase 3 = .user ∧ s.phase 1 = .user)) = true := by
    decide
  obtain ⟨s, hs, hgoal⟩ := (any_eq_true _ _).mp hrun
  obtain ⟨hempty, hasleep, htoken, hthree, hone⟩ := of_decide_eq_true hgoal
  refine ⟨s, System.reachable_run labels (.init rfl) hs, hempty, hasleep, htoken, hthree,
    fun u => ?_⟩
  by_cases hu : u ∈ [1, 2, 3]
  · rcases mem_cons.mp hu with rfl | hu
    · rw [hone]
      rfl
    · rcases mem_cons.mp hu with rfl | hu
      · rw [hasleep]
        rfl
      · rw [mem_singleton.mp hu, hthree]
        rfl
  · have htasks : ∀ l ∈ labels, l.task ∈ [1, 2, 3] := by decide
    have hnot : ∀ l ∈ labels, u ≠ l.task := by
      rintro l hl rfl
      exact hu (htasks l hl)
    rw [phase_of_run hnot hs]
    rfl
end MangoCore.Ipc.Mq
