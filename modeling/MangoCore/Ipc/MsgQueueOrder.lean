import MangoCore.Ipc.MsgQueue

/-!
# Which message a receiver gets

`Chosen` says which message a receiver is to get for its type, and `selectMsgIndex` finds it.  It is
always the oldest message of its own type, so taking it out keeps the order within each type.  In
every state that the calls reach, the recorded number of bytes is that of the queued messages and is
within the limit, no message was taken twice, and the messages of each type were taken in the order
in which they were sent (`queues_of_reachable`).

Two things are different from what one might expect.  A receiver with `MSG_COPY` looks at a message
and leaves it in the queue, so several receivers can see the same message.  And since a message is
taken out of the queue before it is copied to the receiver's memory, it is lost if that copy fails
(`peek_and_lose`).
-/

namespace MangoCore.Ipc.Msg

open Function List MsgState Option OrdMap Mailbox

variable {b : Mailbox Message} {s s' : MsgState} {msg : Message} {msgtyp : I64}
  {best : Option (ℕ × ℤ)} {answer : Option Answer} {seen l : List Message} {queue : MsgQueue}
  {except memory : Bool} {limit : ℤ} {c : Caller} {a : RecvArgs} {msqid i t : ℕ}

/-! ## The choice of a message -/

/-- Whether a receiver that asks for `msgtyp` would take a message. -/
def Wanted (msgtyp : I64) (except : Bool) (msg : Message) : Prop :=
  if msgtyp.val = 0 then True
  else if msgtyp.val > 0 then if except then msg.mtype ≠ msgtyp else msg.mtype = msgtyp
  else msg.mtype.val ≤ -msgtyp.val

/-- **The message a receiver is to get**: the oldest it wants, or, if it asks for a negative type,
the oldest among those of the smallest type it wants. -/
structure Chosen (messages : List Message) (msgtyp : I64) (except : Bool) (i : ℕ)
    (msg : Message) : Prop where
  get : messages[i]? = some msg
  wanted : Wanted msgtyp except msg
  oldest : 0 ≤ msgtyp.val → ∀ m ∈ messages.take i, ¬ Wanted msgtyp except m
  smallest : msgtyp.val < 0 → ∀ m ∈ messages, Wanted msgtyp except m → msg.mtype.val ≤ m.mtype.val
  first : ∀ m ∈ messages.take i, m.mtype ≠ msg.mtype

/-- What the loop knows about the messages it has seen. -/
def Best (limit : ℤ) (seen : List Message) : Option (ℕ × ℤ) → Prop
  | none => ∀ m ∈ seen, limit < m.mtype.val
  | some (i, ty) => ∃ msg, seen[i]? = some msg ∧ msg.mtype.val = ty ∧ ty ≤ limit ∧
      (∀ m ∈ seen, m.mtype.val ≤ limit → ty ≤ m.mtype.val) ∧
      ∀ m ∈ seen.take i, m.mtype.val ≠ ty

theorem best_nil (limit : ℤ) : Best limit [] none :=
  fun _ hm => absurd hm not_mem_nil

theorem Best.step (h : Best limit seen best) (msg : Message) : Best limit (seen ++ [msg])
      (if msg.mtype.val ≤ limit ∧ best.all (fun b => msg.mtype.val < b.2) then
        some (seen.length, msg.mtype.val) else best) := by
  have hmem : ∀ m, m ∈ seen ++ [msg] ↔ m ∈ seen ∨ m = msg := fun m => by
    rw [mem_append, mem_singleton]
  split_ifs with hbetter
  · obtain ⟨hle, hall⟩ := hbetter
    refine ⟨msg, getElem?_concat_length, rfl, hle, fun m hm hmle => ?_, fun m hm => ?_⟩
    · rcases (hmem m).mp hm with hm | rfl
      · cases best with
        | none => exact absurd hmle (not_le.mpr (h m hm))
        | some b =>
          obtain ⟨-, -, -, -, hmin, -⟩ := h
          grind
      · exact le_rfl
    · rw [take_append_of_le_length le_rfl, take_length] at hm
      cases best with
      | none => exact (hle.trans_lt (h m hm)).ne'
      | some b =>
        obtain ⟨-, -, -, -, hmin, -⟩ := h
        grind
  · cases best with
    | none =>
      intro m hm
      rcases (hmem m).mp hm with hm | rfl
      · exact h m hm
      · exact not_le.mp fun hle => hbetter ⟨hle, rfl⟩
    | some b =>
      obtain ⟨m₀, hget, hty, hle, hmin, hfirst⟩ := h
      have hlt : b.1 < seen.length := (List.getElem?_eq_some_iff.mp hget).1
      refine ⟨m₀, ?_, hty, hle, fun m hm hmle => ?_, fun m hm => ?_⟩
      · rw [List.getElem?_append_left hlt, hget]
      all_goals grind

theorem best_bestIndex (rest : List Message) (h : Best limit seen best) :
    Best limit (seen ++ rest) (bestIndex limit rest seen.length best) := by
  induction rest generalizing seen best with
  | nil => rwa [append_nil]
  | cons msg rest ih =>
    have hnext := ih (h.step msg)
    rw [append_assoc, singleton_append, length_append, length_singleton] at hnext
    exact hnext

theorem le_saturatingAbs_iff (hneg : msgtyp.val < 0) (x : I64) :
    x.val ≤ saturatingAbs msgtyp ↔ x.val ≤ -msgtyp.val := by
  have := x.lt
  rw [saturatingAbs]
  omega

section

variable (messages : List Message)

/-- The search of a list for the first item that satisfies a test. -/
theorem findIdx?_first (p : Message → Bool) : match messages.findIdx? p with
    | some i => ∃ msg, messages[i]? = some msg ∧ p msg = true ∧
        ∀ m ∈ messages.take i, p m = false
    | none => ∀ m ∈ messages, p m = false := by
  cases hi : messages.findIdx? p with
  | none => exact findIdx?_eq_none_iff.mp hi
  | some i => grind [findIdx?_eq_some_iff_getElem, mem_iff_getElem]

/-- The choice of a receiver that asks for the first message that satisfies a test. -/
theorem findIdx?_chosen {messages : List Message}
    {p : Message → Bool} (hpos : 0 < msgtyp.val) (hwant : ∀ m, Wanted msgtyp except m ↔ p m = true)
    (hother : ∀ m m', p m = false → p m' = true → m.mtype ≠ m'.mtype) :
    match messages.findIdx? p with
    | some i => ∃ msg, Chosen messages msgtyp except i msg
    | none => ∀ m ∈ messages, ¬ Wanted msgtyp except m := by
  have hnot : ∀ m, p m = false → ¬ Wanted msgtyp except m := fun m hm hw => by
    rw [(hwant m).mp hw] at hm
    cases hm
  have hfirst := findIdx?_first messages p
  cases hi : messages.findIdx? p with
  | none =>
    rw [hi] at hfirst
    exact fun m hm => hnot m (hfirst m hm)
  | some i =>
    rw [hi] at hfirst
    obtain ⟨msg, hget, hp, hbefore⟩ := hfirst
    exact ⟨msg, hget, (hwant msg).mpr hp, fun _ m hm => hnot m (hbefore m hm),
      fun hneg => absurd hpos hneg.le.not_gt, fun m hm => hother m msg (hbefore m hm) hp⟩

/-- **`select_msg_index` chooses what it should.** -/
theorem selectMsgIndex_spec (msgtyp : I64) (flags : RecvFlags)
    (hcopy : flags.copy = false) : match selectMsgIndex messages msgtyp flags with
    | some i => ∃ msg, Chosen messages msgtyp flags.except i msg
    | none => ∀ m ∈ messages, ¬ Wanted msgtyp flags.except m := by
  rw [selectMsgIndex, hcopy, if_neg Bool.false_ne_true]
  split_ifs with hzero hempty hpos hexcept
  · intro m hm
    rw [isEmpty_iff.mp hempty] at hm
    cases hm
  · obtain ⟨msg, rest, rfl⟩ : ∃ msg rest, messages = msg :: rest :=
      exists_cons_of_ne_nil fun h => hempty (isEmpty_iff.mpr h)
    have hbefore : ∀ m, m ∉ (msg :: rest).take 0 := fun m hm => by
      rw [take_zero] at hm
      cases hm
    exact ⟨msg, rfl, by rw [Wanted, if_pos hzero]; trivial, fun _ m hm => absurd hm (hbefore m),
      fun hneg => absurd hzero hneg.ne, fun m hm => absurd hm (hbefore m)⟩
  · refine findIdx?_chosen hpos (fun m => ?_) fun m m' hm hm' => ?_
    · rw [Wanted, if_neg hzero, if_pos hpos, if_pos hexcept, bne_iff_ne]
    · rw [bne_eq_false_iff_eq.mp hm]
      exact (bne_iff_ne.mp hm').symm
  · refine findIdx?_chosen hpos (fun m => ?_) fun m m' hm hm' => ?_
    · rw [Wanted, if_neg hzero, if_pos hpos, if_neg hexcept, beq_iff_eq]
    · rw [beq_iff_eq.mp hm']
      exact beq_eq_false_iff_ne.mp hm
  · have hneg : msgtyp.val < 0 := by omega
    have hwant : ∀ m : Message, Wanted msgtyp flags.except m ↔
        m.mtype.val ≤ saturatingAbs msgtyp := fun m => by
      rw [Wanted, if_neg hzero, if_neg hpos, le_saturatingAbs_iff hneg]
    have hbest := best_bestIndex messages (best_nil (saturatingAbs msgtyp))
    rw [nil_append, length_nil] at hbest
    cases hresult : bestIndex (saturatingAbs msgtyp) messages 0 none with
    | none => grind [Best]
    | some b =>
      rw [hresult] at hbest
      obtain ⟨msg, hget, hty, hle, hmin, hfirst⟩ := hbest
      refine ⟨msg, hget, (hwant msg).mpr (hty ▸ hle), fun h => absurd h (not_le.mpr hneg),
        fun _ m hm hw => hty ▸ hmin m hm ((hwant m).mp hw), fun m hm heq => ?_⟩
      exact hfirst m hm (by rw [heq, hty])

/-- The message that a call of `msgrcv` is to get: with `MSG_COPY` the one at the index it asks
for. -/
def Due (a : RecvArgs) (i : ℕ) (msg : Message) : Prop :=
  if a.flags.copy then i = a.msgtyp.val.toNat ∧ messages[i]? = some msg
  else Chosen messages a.msgtyp a.flags.except i msg

/-- There is no message for a call of `msgrcv`. -/
def Nothing (a : RecvArgs) : Prop :=
  if a.flags.copy then messages.length ≤ a.msgtyp.val.toNat
  else ∀ m ∈ messages, ¬ Wanted a.msgtyp a.flags.except m

theorem Due.get {messages : List Message} (h : Due messages a i msg) : messages[i]? = some msg := by
  unfold Due at h
  split_ifs at h
  · exact h.2
  · exact Chosen.get h

theorem selectMsgIndex_due (a : RecvArgs) : match selectMsgIndex messages a.msgtyp a.flags with
    | some i => ∃ msg, Due messages a i msg
    | none => Nothing messages a := by
  unfold Due Nothing
  by_cases hcopy : a.flags.copy = true
  · simp only [if_pos hcopy, selectMsgIndex]
    by_cases hlt : a.msgtyp.val.toNat < messages.length
    · rw [if_pos hlt]
      exact ⟨_, rfl, getElem?_eq_getElem hlt⟩
    · rw [if_neg hlt]
      exact not_lt.mp hlt
  · simp only [if_neg hcopy]
    exact selectMsgIndex_spec messages a.msgtyp a.flags (Bool.not_eq_true _ ▸ hcopy)

/-! ## What a queue and its history have to do with each other -/

/-- The number of bytes in a list of messages. -/
def bytes : ℕ := (messages.map fun m => m.data.length).sum

end

theorem bytes_append : bytes (l ++ [msg]) = bytes l + msg.data.length := by
  rw [bytes, map_append, sum_append, bytes, map_singleton, sum_singleton]

theorem bytes_eraseIdx (h : l[i]? = some msg) :
    bytes (l.eraseIdx i) + msg.data.length = bytes l := by
  induction l generalizing i with
  | nil => cases h
  | cons m l ih =>
    cases i with
    | zero =>
      cases h
      exact add_comm ..
    | succ i => grind [bytes]

/-- A queue that agrees with its history, and counts its bytes correctly. -/
structure MsgQueue.Agrees (queue : MsgQueue) (b : Mailbox Message) : Prop where
  contents : b.contents = queue.messages
  cbytes : queue.cbytes = bytes queue.messages
  limit : queue.cbytes ≤ queue.qbytes

/-- **What holds of one identifier**: its history is in order, and agrees with its queue. -/
structure Held (queue : Option MsgQueue) (b : Mailbox Message) : Prop where
  ordered : b.Ordered Message.mtype
  agrees : ∀ q ∈ queue, q.Agrees b
  absent : queue = none → b.contents = []

/-- What holds of every identifier. -/
def Kept (s : MsgState) : Prop := ∀ id, Held (s.registry.queues.get? id) (s.boxes id)

theorem Kept.change (h : Kept s) (msqid : ℕ) (hqueues : ∀ id, id ≠ msqid →
      s'.registry.queues.get? id = s.registry.queues.get? id)
    (hboxes : ∀ id, id ≠ msqid → s'.boxes id = s.boxes id)
    (hheld : Held (s'.registry.queues.get? msqid) (s'.boxes msqid)) : Kept s' := by
  intro id
  by_cases hid : id = msqid
  · rw [hid]
    exact hheld
  · rw [hqueues id hid, hboxes id hid]
    exact h id

/-- A change that leaves the queues alone. -/
theorem Kept.of_eq (h : Kept s) (hqueues : s'.registry.queues = s.registry.queues)
    (hboxes : s'.boxes = s.boxes) : Kept s' := by
  intro id
  rw [hqueues, hboxes]
  exact h id

theorem Held.new (h : Held none b) (key : ℤ) (mode : ℕ) (c : Caller)
    (limits : MsgLimits) : Held (some (.new key mode c limits)) b where
  ordered := h.ordered
  agrees := by
    rintro _ ⟨⟩
    exact ⟨h.absent rfl, rfl, Nat.zero_le _⟩
  absent := nofun

theorem Held.discard {q : Option MsgQueue} (h : Held q b) : Held none b.discard :=
  ⟨h.ordered.discard, nofun, fun _ => rfl⟩

/-- **Sending keeps the order.** -/
theorem Held.push (h : Held (some queue) b) (c : Caller)
    (hfits : queue.cbytes + msg.data.length ≤ queue.qbytes) :
    Held (some (queue.push c msg)) (b.put b.waiting.length msg) where
  ordered := h.ordered.put (le_rfl) fun x hx => by
    rw [drop_length] at hx
    cases hx
  agrees := by
    rintro _ ⟨⟩
    obtain ⟨hcontents, hbytes, -⟩ := h.agrees queue rfl
    have hlen : b.waiting.length = b.contents.length := (length_map _).symm
    refine ⟨?_, ?_, hfits⟩
    · rw [contents_put, hlen, insertIdx_length_self, hcontents]
      rfl
    · simp [hbytes, MsgQueue.push, bytes_append]
  absent := nofun

/-- **Taking the chosen message keeps the order.** -/
theorem Held.remove (h : Held (some queue) b) (c : Caller)
    (hchosen : Chosen queue.messages msgtyp except i msg) :
    Held (some (queue.remove c i msg)) (b.take i) := by
  obtain ⟨hcontents, hbytes, hlimit⟩ := h.agrees queue rfl
  have hget := hchosen.get
  rw [← hcontents, contents, getElem?_map, map_eq_some_iff] at hget
  obtain ⟨x, hx, rfl⟩ := hget
  have hsum := bytes_eraseIdx hchosen.get
  refine ⟨h.ordered.take hx fun y hy => ?_, ?_, by simp⟩
  · refine hchosen.first y.2 ?_
    rw [← hcontents, contents, ← map_take]
    exact mem_map_of_mem hy
  · rintro _ ⟨⟩
    refine ⟨?_, ?_, le_trans (Nat.sub_le ..) hlimit⟩
    · rw [contents_take, hcontents]
      rfl
    · grind [MsgQueue.remove]

/-! ## The calls -/

namespace MsgRegistry

variable {r : MsgRegistry}

theorem isFree_of_chooseId {id : ℕ} {auto : Bool} (h : r.chooseId = .ok (id, auto)) :
    r.isFree id = true := by
  rw [chooseId.eq_def] at h
  split at h
  · rename_i id' hid
    cases h
    exact (filter_eq_some_iff.mp hid).2
  · grind

/-- A new identifier has no queue. -/
theorem allocId_spec : (r.allocId memory).2.queues = r.queues ∧
    ∀ id, (r.allocId memory).1 = .ok id → r.queues.get? id = none := by
  rw [allocId.eq_def]
  cases hchoose : r.chooseId with
  | error e => exact ⟨rfl, nofun⟩
  | ok found =>
    obtain ⟨id, auto⟩ := found
    have hfree := isFree_of_chooseId hchoose
    rw [isFree, Bool.and_eq_true, isNone_iff_eq_none] at hfree
    grind

theorem rmid_error {r' : MsgRegistry} {e : Errno}
    (h : r.rmid c msqid = (.error e, r')) : r' = r := by
  grind [rmid.eq_def]

end MsgRegistry

namespace Kept

variable {s : MsgState}

theorem createQueue (h : Kept s) {limits : MsgLimits} {a : MsggetArgs} :
    Kept { s with registry := (s.registry.createQueue c limits memory a).2 } := by
  rw [MsgRegistry.createQueue]
  split_ifs
  · exact h
  · obtain ⟨hqueues, hfree⟩ := MsgRegistry.allocId_spec
    cases halloc : s.registry.allocId memory with
    | mk answer r =>
      rw [halloc] at hqueues hfree
      cases answer with
      | error e => exact h.of_eq hqueues rfl
      | ok id =>
        have hnone : s.registry.queues.get? id = none := hfree id rfl
        have hold := h id
        rw [hnone] at hold
        refine h.change id (fun id' hid' => ?_) (fun _ _ => rfl) ?_
        · grind [get?_insert_of_ne]
        · simp [hold.new]

theorem msgget (h : Kept s) (c : Caller) (limits : MsgLimits) (memory : Bool)
    (a : MsggetArgs) : Kept { s with registry := (s.registry.msgget c limits memory a).2 } := by
  rw [MsgRegistry.msgget]
  by_cases hprivate : a.key = 0
  · rw [if_pos hprivate]
    exact h.createQueue
  · grind [Kept, createQueue]

theorem rmid (h : Kept s) (c : Caller) (msqid : ℕ) {n : ℕ} {r : MsgRegistry}
    (hrm : s.registry.rmid c msqid = (.ok n, r)) :
    Kept ({ s with registry := r }.setBox msqid (s.boxes msqid).discard) := by
  rw [MsgRegistry.rmid.eq_def] at hrm
  split at hrm
  · cases hrm
  · split_ifs at hrm
    · cases hrm
    cases hrm
    refine h.change msqid (fun id hid => get?_erase_of_ne _ hid)
      (fun id hid => update_of_ne hid ..) ?_
    show Held ((s.registry.queues.erase msqid).get? msqid) (update s.boxes msqid _ msqid)
    rw [get?_erase_self, update_self]
    exact (h msqid).discard

end Kept

section

variable (r : MsgRegistry) (c : Caller) (memory : Bool)

/-- An attempt that sends no message changes nothing. -/
theorem MsgRegistry.trySend_spec (msqid : ℕ)
    (msg : Message) :
    ((r.trySend c memory msqid msg).2 = r ∧ ∀ n, (r.trySend c memory msqid msg).1 ≠ some (.ok n)) ∨
      ∃ queue, r.queues.get? msqid = some queue ∧ queue.cbytes + msg.data.length ≤ queue.qbytes ∧
        r.trySend c memory msqid msg =
          (some (.ok 0), { r with queues := r.queues.insert msqid (queue.push c msg) }) := by
  rw [trySend.eq_def]
  cases hget : r.queues.get? msqid with
  | none => exact .inl ⟨rfl, fun n => by simp⟩
  | some queue =>
    dsimp only
    split_ifs with hperm hfull hmemory
    · exact .inl ⟨rfl, fun n => by simp⟩
    · exact .inl ⟨rfl, fun n => by simp⟩
    · exact .inl ⟨rfl, fun n => by simp⟩
    · exact .inr ⟨queue, rfl, not_lt.mp (not_or.mp hfull).1, rfl⟩

/-- **One round of a sender keeps every queue in order.** -/
theorem Kept.trySend (h : Kept s) (t : ℕ) (c : Caller) (memory signal : Bool)
    (msqid : ℕ) (nowait : Bool) :
    Kept (s.trySend t c memory signal msqid msg nowait).1 := by
  rw [trySend.eq_def]
  rcases s.registry.trySend_spec c memory msqid msg with
    ⟨hr, hnot⟩ | ⟨queue, hget, hfits, hsend⟩
  · grind [setPhase, of_eq]
  · rw [hsend]
    refine h.change msqid (fun id hid => get?_insert_of_ne _ hid)
      (fun id hid => update_of_ne hid ..) ?_
    show Held ((s.registry.queues.insert msqid _).get? msqid) (update s.boxes msqid _ msqid)
    rw [get?_insert_self, update_self]
    have hheld := h msqid
    rw [hget] at hheld
    exact hheld.push c hfits

/-! ## Receiving -/

/-- Why `receive_message` refuses a call. -/
inductive Refuses (r : MsgRegistry) (c : Caller) (a : RecvArgs) : Errno → Prop
  | missing : r.queues.get? a.msqid = none → Refuses r c a (r.missing a.msqid)
  | denied {queue : MsgQueue} : r.queues.get? a.msqid = some queue →
      hasPermission queue.perm c true false = false → Refuses r c a .EACCES
  | tooBig {queue : MsgQueue} {i : ℕ} {msg : Message} : r.queues.get? a.msqid = some queue →
      Due queue.messages a i msg → a.msgsz < msg.data.length → a.flags.noerror = false →
      Refuses r c a .E2BIG
  | noMemory : a.flags.copy = true → Refuses r c a .ENOMEM

/-- How `receive_message` ends: with a message and the number of its bytes that the receiver has
room for, or with an error. -/
inductive Received (r : MsgRegistry) (c : Caller) (a : RecvArgs) :
    Except Errno (Message × ℕ) × MsgRegistry → Prop
  | took {queue : MsgQueue} {i : ℕ} {msg : Message} :
      a.flags.copy = false → r.queues.get? a.msqid = some queue →
      selectMsgIndex queue.messages a.msgtyp a.flags = some i →
      Chosen queue.messages a.msgtyp a.flags.except i msg →
      Received r c a (.ok (msg, min msg.data.length a.msgsz),
        { r with queues := r.queues.insert a.msqid (queue.remove c i msg) })
  | looked {queue : MsgQueue} {msg : Message} : a.flags.copy = true →
      r.queues.get? a.msqid = some queue → queue.messages[a.msgtyp.val.toNat]? = some msg →
      Received r c a (.ok ({ msg with data := msg.data.take (min msg.data.length a.msgsz) },
        min msg.data.length a.msgsz), r)
  | nothing {queue : MsgQueue} : r.queues.get? a.msqid = some queue → Nothing queue.messages a →
      Received r c a (.error .EAGAIN, r)
  | failed {e : Errno} : Refuses r c a e → Received r c a (.error e, r)

theorem Refuses.ne_eagain {r : MsgRegistry} {e : Errno} (h : Refuses r c a e) : e ≠ .EAGAIN := by
  cases h with
  | missing =>
    rw [MsgRegistry.missing]
    split_ifs <;> simp
  | _ => simp

theorem MsgRegistry.receiveMessage_spec
    (a : RecvArgs) : Received r c a (r.receiveMessage c memory a) := by
  rw [receiveMessage.eq_def]
  cases hget : r.queues.get? a.msqid with
  | none => exact .failed (.missing hget)
  | some queue =>
    have hdue := selectMsgIndex_due queue.messages a
    by_cases hperm : (!hasPermission queue.perm c true false) = true
    · simp only [if_pos hperm]
      exact .failed (.denied hget (Bool.not_eq_true' _ ▸ hperm))
    simp only [if_neg hperm]
    cases hselect : selectMsgIndex queue.messages a.msgtyp a.flags with
    | none =>
      rw [hselect] at hdue
      exact .nothing hget hdue
    | some i =>
      rw [hselect] at hdue
      obtain ⟨msg, hmsg⟩ := hdue
      simp only [hmsg.get]
      split_ifs with hbig hcopy hmemory
      · exact .failed (.tooBig hget hmsg hbig.1 (Bool.not_eq_true' _ ▸ hbig.2))
      · exact .failed (.noMemory hcopy)
      · rw [Due, if_pos hcopy] at hmsg
        exact .looked hcopy hget (hmsg.1 ▸ hmsg.2)
      · rw [Due, if_neg hcopy] at hmsg
        exact .took (Bool.not_eq_true _ ▸ hcopy) hget hselect hmsg

end

/-- **What an attempt of a receiver does.** -/
inductive Attempt (s : MsgState) (t : ℕ) (c : Caller) (a : RecvArgs) (s' : MsgState) :
    Option Answer → Prop
  /-- It takes the message it is to get, and goes on to copy as much as there is room for. -/
  | took {queue : MsgQueue} {i : ℕ} {msg : Message} :
      a.flags.copy = false → s.registry.queues.get? a.msqid = some queue →
      Chosen queue.messages a.msgtyp a.flags.except i msg →
      s'.registry.queues = s.registry.queues.insert a.msqid (queue.remove c i msg) →
      s'.boxes = update s.boxes a.msqid ((s.boxes a.msqid).take i) →
      s'.phase t = .copying msg (min msg.data.length a.msgsz) → Attempt s t c a s' none
  /-- It goes on with a copy of the message at the index it asks for, and leaves the queue. -/
  | looked {queue : MsgQueue} {msg : Message} : a.flags.copy = true →
      s.registry.queues.get? a.msqid = some queue →
      queue.messages[a.msgtyp.val.toNat]? = some msg →
      s'.registry = s.registry → s'.boxes = s.boxes →
      s'.phase t = .copying { msg with data := msg.data.take (min msg.data.length a.msgsz) }
        (min msg.data.length a.msgsz) → Attempt s t c a s' none
  /-- There is no message for it, and it goes to wait. -/
  | waits {queue : MsgQueue} : s.registry.queues.get? a.msqid = some queue →
      Nothing queue.messages a → a.flags.nowait = false → s'.registry = s.registry →
      s'.boxes = s.boxes → s'.phase t = .waiting a → Attempt s t c a s' none
  /-- There is no message for it, and it does not wait. -/
  | empty {queue : MsgQueue} : s.registry.queues.get? a.msqid = some queue →
      Nothing queue.messages a → a.flags.nowait = true → s'.registry = s.registry →
      s'.boxes = s.boxes → Attempt s t c a s' (some (.error .ENOMSG))
  /-- It is refused. -/
  | failed {e : Errno} : Refuses s.registry c a e → s'.registry = s.registry → s'.boxes = s.boxes →
      Attempt s t c a s' (some (.error e))

/-- **One attempt of a receiver.** -/
theorem attempt_receive :
    Attempt s t c a (s.receive t c memory a).1 (s.receive t c memory a).2 := by
  have hspec := s.registry.receiveMessage_spec c memory a
  rw [receive.eq_def]
  generalize s.registry.receiveMessage c memory a = result at hspec
  cases hspec with
  | took hcopy hget hselect hchosen =>
    refine .took hcopy hget hchosen rfl ?_ (update_self ..)
    show update s.boxes a.msqid (s.noteReceive a) = _
    simp only [noteReceive, hget, hcopy, if_neg Bool.false_ne_true, hselect]
  | looked hcopy hget hmsg =>
    refine .looked hcopy hget hmsg rfl ?_ (update_self ..)
    have hnote : s.noteReceive a = s.boxes a.msqid := by
      simp only [noteReceive, hget, if_pos hcopy]
    show update s.boxes a.msqid (s.noteReceive a) = _
    rw [hnote, update_eq_self]
  | nothing hget hnone =>
    simp only
    split_ifs with hnowait
    · exact .empty hget hnone hnowait rfl rfl
    · exact .waits hget hnone (Bool.not_eq_true _ ▸ hnowait) rfl rfl (update_self ..)
  | failed hrefuses =>
    have hne := hrefuses.ne_eagain
    rename_i e
    cases e with
    | EAGAIN => exact absurd rfl hne
    | _ => exact .failed hrefuses rfl rfl

theorem Kept.receive (h : Kept s) (hattempt : Attempt s t c a s' answer) : Kept s' := by
  cases hattempt with
  | took _ hget hchosen hqueues hboxes _ =>
    refine h.change a.msqid (fun id hid => ?_) (fun id hid => ?_) ?_
    · rw [hqueues, get?_insert_of_ne _ hid]
    · rw [hboxes, update_of_ne hid]
    · rw [hqueues, hboxes, get?_insert_self, update_self]
      have hheld := h a.msqid
      rw [hget] at hheld
      exact hheld.remove _ hchosen
  | looked _ _ _ hregistry hboxes _ => exact h.of_eq (by rw [hregistry]) hboxes
  | waits _ _ _ hregistry hboxes _ => exact h.of_eq (by rw [hregistry]) hboxes
  | empty _ _ _ hregistry hboxes => exact h.of_eq (by rw [hregistry]) hboxes
  | failed _ hregistry hboxes => exact h.of_eq (by rw [hregistry]) hboxes

/-- **Every section keeps every queue in order.** -/
theorem Kept.step {l : Label} {result : MsgState × Option Answer} (h : Kept s)
    (hstep : s.step l = some result) : Kept result.1 := by
  cases l with
  | setNextId id =>
    cases hstep
    exact h.of_eq rfl rfl
  | msgget t c limits memory a => grind [step, h.msgget]
  | rmid t c msqid =>
    simp only [MsgState.step] at hstep
    split_ifs at hstep
    cases s.registry.rmid c msqid with
    | mk result r => grind [Kept, MsgRegistry.rmid_error, rmid]
  | trySend t c memory signal => grind [step, h.trySend]
  | receive t c memory => grind [step, h.receive, attempt_receive]
  | recheck t c signal =>
    simp only [MsgState.step] at hstep
    split at hstep
    · grind [MsgState.setPhase, of_eq]
    · cases hstep
  | copyOut t copied =>
    simp only [MsgState.step] at hstep
    split at hstep <;> cases hstep
    · exact h.of_eq rfl rfl
  | _ =>
    simp only [MsgState.step] at hstep
    split_ifs at hstep <;> cases hstep
    · exact h
    · exact h.of_eq rfl rfl

/-- What the other sections of `msgrcv` leave alone. -/
theorem registry_of_recv {l : Label}
    (hl : (∃ t limits a, l = .msgrcv t limits a) ∨ (∃ t c signal, l = .recheck t c signal) ∨
      ∃ t copied, l = .copyOut t copied)
    (hstep : s.step l = some (s', answer)) : s'.registry = s.registry ∧ s'.boxes = s.boxes := by
  rcases hl with ⟨t, limits, a, rfl⟩ | ⟨t, c, signal, rfl⟩ | ⟨t, copied, rfl⟩
  · simp only [step] at hstep
    split_ifs at hstep <;> cases hstep <;> exact ⟨rfl, rfl⟩
  · simp only [step] at hstep
    split at hstep
    · grind [setPhase]
    · cases hstep
  · simp only [step] at hstep
    split at hstep <;> cases hstep
    · exact ⟨rfl, rfl⟩

/-- **What the queues promise in a state.** -/
structure Sound (s : MsgState) : Prop where
  /-- The bytes of a queue are counted correctly and within the limit. -/
  cbytes : ∀ msqid queue, s.registry.queues.get? msqid = some queue →
    queue.cbytes = bytes queue.messages ∧ queue.cbytes ≤ queue.qbytes
  /-- The messages in a queue are those that were sent and not taken. -/
  contents : ∀ msqid queue, s.registry.queues.get? msqid = some queue →
    (s.boxes msqid).contents = queue.messages
  /-- No message was taken twice. -/
  once : ∀ msqid, ((s.boxes msqid).taken.map Prod.fst).Nodup
  /-- Messages of one type are taken in the order in which they were sent. -/
  order : ∀ msqid, (s.boxes msqid).taken.Pairwise (Before Message.mtype)
  /-- A receiver takes the message it is to get, or nothing. -/
  attempt : ∀ t c memory result, s.step (.receive t c memory) = some result →
    ∃ a, s.phase t = .receiving a ∧ Attempt s t c a result.1 result.2
  /-- No other part of `msgrcv` takes anything. -/
  others : ∀ l s' answer, ((∃ t limits a, l = .msgrcv t limits a) ∨
      (∃ t c signal, l = .recheck t c signal) ∨ ∃ t copied, l = .copyOut t copied) →
    s.step l = some (s', answer) → s'.registry = s.registry ∧ s'.boxes = s.boxes

theorem Kept.sound (h : Kept s) : Sound s where
  cbytes msqid queue hget := by
    have hagrees := (h msqid).agrees queue hget
    exact ⟨hagrees.cbytes, hagrees.limit⟩
  contents msqid queue hget := ((h msqid).agrees queue hget).contents
  once msqid := by
    have hnodup := (h msqid).ordered.nodup
    rw [map_append] at hnodup
    exact (nodup_append.mp hnodup).1
  order msqid := (pairwise_append.mp (h msqid).ordered.before).1
  attempt t c memory result hstep := by grind [MsgState.step, attempt_receive]
  others _ _ _ := registry_of_recv

/-- **Message queues in every reachable state.** -/
theorem queues_of_reachable {s : MsgState} (h : messages.Reachable s) : Sound s := by
  refine (h.invariant (I := Kept) ?_ ?_).sound
  · rintro _ rfl id
    exact ⟨.empty, nofun, fun _ => rfl⟩
  · rintro s l t - hkept hstep
    obtain ⟨result, hresult, rfl⟩ := map_eq_some_iff.mp hstep
    exact hkept.step hresult

/-- The superuser, the usual limits, and a receiver's arguments. -/
def superuser : Caller := ⟨0, 0, 1, 0⟩

def usualLimits : MsgLimits := ⟨8192, 16384, 32000⟩

def hello : Message := ⟨⟨7, by decide, by decide⟩, [104, 105]⟩

/-- A message is sent to a new queue. -/
def sendHello : List Label :=
  [.msgget 1 superuser usualLimits true ⟨0, true, false, false, false, 0o600⟩,
    .msgsnd 1 usualLimits 1 hello false, .trySend 1 superuser true false]

/-- A receiver that takes the first message, or with `MSG_COPY` looks at it. -/
def receiveFirst (t : ℕ) (copy : Bool) : List Label :=
  [.msgrcv t usualLimits ⟨1, 100, ⟨0, by decide, by decide⟩, ⟨true, false, false, copy, false⟩⟩,
    .receive t superuser true]

/-- A run from the initial state. -/
def runFrom (labels : List Label) : Option MsgState :=
  labels.foldlM (fun (s : MsgState) l => (s.step l).map Prod.fst) .initial

theorem reachable_of_runFrom {labels : List Label} (h : runFrom labels = some s) :
    messages.Reachable s :=
  System.reachable_run labels (.init rfl) h

/-- A second message, of a smaller type. -/
def bye : Message := ⟨⟨5, by decide, by decide⟩, [98, 121, 101]⟩

/-- Two messages are sent; a receiver with room for two bytes asks for types up to 6, and then one
looks at the message in front. -/
def receiveSmaller : List Label :=
  sendHello ++ [.msgsnd 1 usualLimits 1 bye false, .trySend 1 superuser true false,
    .msgrcv 2 usualLimits ⟨1, 2, ⟨-6, by decide, by decide⟩, ⟨false, true, false, false, false⟩⟩,
    .receive 2 superuser true] ++ receiveFirst 3 true

theorem queues_receiveSmaller : ∃ s, messages.Reachable s ∧
    (s.phase 2 = .copying bye 2 ∧ s.phase 3 = .copying hello 2 ∧ (s.boxes 1).taken = [(1, bye)] ∧
      (s.registry.queues.get? 1).map (fun q => (q.messages, q.cbytes)) = some ([hello], 2)) ∧
    Sound s := by
  have hrun : (runFrom receiveSmaller).any (fun s =>
      decide (s.phase 2 = .copying bye 2 ∧ s.phase 3 = .copying hello 2 ∧
        (s.boxes 1).taken = [(1, bye)] ∧
        (s.registry.queues.get? 1).map (fun q => (q.messages, q.cbytes)) = some ([hello], 2)))
      = true := by
    decide
  obtain ⟨s, hs, hgoal⟩ := (any_eq_true _ _).mp hrun
  have hreach := reachable_of_runFrom hs
  exact ⟨s, hreach, of_decide_eq_true hgoal, queues_of_reachable hreach⟩

/-- **A message that is delivered twice, and one that a failed receive removes.**  Two receivers
with `MSG_COPY` get the only message that was ever sent; and a receiver without it fails with
`EFAULT` when the message is no longer in the queue. -/
theorem peek_and_lose :
    (∃ s, messages.Reachable s ∧ (s.boxes 1).next = 1 ∧ s.phase 2 = .copying hello 2 ∧
      s.phase 3 = .copying hello 2) ∧
    ∃ s s', messages.Reachable s ∧ s.step (.copyOut 2 false) = some (s', some (.error .EFAULT)) ∧
      (s'.boxes 1).next = 1 ∧ (s'.registry.queues.get? 1).map MsgQueue.messages = some [] := by
  have hpeek : (runFrom (sendHello ++ receiveFirst 2 true ++ receiveFirst 3 true)).any (fun s =>
      decide ((s.boxes 1).next = 1 ∧ s.phase 2 = .copying hello 2 ∧
        s.phase 3 = .copying hello 2)) = true := by
    decide
  have hlose : (runFrom (sendHello ++ receiveFirst 2 false)).any (fun s =>
      (s.step (.copyOut 2 false)).any fun result => decide (result.2 = some (.error .EFAULT) ∧
        (result.1.boxes 1).next = 1 ∧
        (result.1.registry.queues.get? 1).map MsgQueue.messages = some [])) = true := by
    decide
  obtain ⟨s, hs, hgoal⟩ := (any_eq_true _ _).mp hpeek
  obtain ⟨u, hu, hstep⟩ := (any_eq_true _ _).mp hlose
  obtain ⟨⟨u', answer⟩, hu', hlost⟩ := (any_eq_true _ _).mp hstep
  obtain ⟨rfl, hlost⟩ := of_decide_eq_true hlost
  exact ⟨⟨s, reachable_of_runFrom hs, of_decide_eq_true hgoal⟩, u, u', reachable_of_runFrom hu, hu',
    hlost⟩
end MangoCore.Ipc.Msg
