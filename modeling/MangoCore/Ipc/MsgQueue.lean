import MangoCore.Ipc.Permission
import MangoCore.Lib.I64
import MangoCore.Lib.Mailbox
import MangoCore.Lib.OrdMap
import MangoCore.Lib.System

/-!
# System V message queues

A message queue is a list of messages with a type, and the number of bytes in it.  A receiver asks
for a type, and `selectMsgIndex` says which message it gets.  The message is taken out of the queue
under the lock of the registry, and copied to the receiver's memory afterwards.

A call is a sequence of sections under the lock, and the state between them is the phase of the
calling task.  A sender whose message does not fit tries again later, and a receiver that finds no
message evaluates `msg_recv_wait_condition` until it does; how long they sleep in between, signals,
and failures of memory allocation are choices of the label.  The sections that change the limits of
a queue are not modelled.

The state also has one `Mailbox` for each identifier, with the history of its queue.
-/

namespace MangoCore.Ipc.Msg

/-- The largest number of messages in one queue. -/
def msgtql : ℕ := 4096

structure Message where
  mtype : I64
  data : List UInt8
  deriving DecidableEq

structure MsgQueue where
  key : ℤ
  perm : IpcPerm
  qbytes : ℕ
  messages : List Message
  cbytes : ℕ
  lspid : ℕ
  lrpid : ℕ
  stime : ℕ
  rtime : ℕ
  ctime : ℕ
  deriving DecidableEq

structure MsgLimits where
  msgmax : ℕ
  msgmnb : ℕ
  msgmni : ℕ
  deriving DecidableEq

def MsgQueue.new (key : ℤ) (mode : ℕ) (c : Caller) (limits : MsgLimits) : MsgQueue where
  key := key
  perm := .new c mode
  qbytes := limits.msgmnb
  messages := []
  cbytes := 0
  lspid := 0
  lrpid := 0
  stime := 0
  rtime := 0
  ctime := c.now

structure MsgRegistry where
  /-- An identifier requested through `msg_next_id`, for the next queue only. -/
  nextId : Option ℕ
  nextAutoId : Option ℕ
  queues : OrdMap ℕ MsgQueue
  /-- All identifiers that were ever in use. -/
  publishedIds : List ℕ

def MsgRegistry.new : MsgRegistry := ⟨none, some 1, .empty, []⟩

/-- The answer of a call. -/
abbrev Answer := Except Errno ℕ

/-! ## Identifiers -/

namespace MsgRegistry

variable (r : MsgRegistry)

/-- An identifier that was never in use. -/
def isFree (id : ℕ) : Bool := !r.publishedIds.contains id && (r.queues.get? id).isNone

/-- The identifier that `alloc_id` chooses, and whether the cursor moves past it. -/
def chooseId : Except Errno (ℕ × Bool) :=
  match r.nextId.filter r.isFree with
  | some id => .ok (id, false)
  | none =>
    match r.nextAutoId with
    | none => .error .ENOSPC
    | some start =>
      match (List.range' start (2 ^ 31 - start)).find? r.isFree with
      | none => .error .ENOSPC
      | some id => .ok (id, true)

def allocId (memory : Bool) : Except Errno ℕ × MsgRegistry :=
  let cleared := { r with nextId := none }
  match r.chooseId with
  | .error e => (.error e, cleared)
  | .ok (id, fromAuto) =>
    if !memory then (.error .ENOMEM, cleared)
    else (.ok id, { cleared with
      nextAutoId :=
        if fromAuto then if id + 1 < 2 ^ 31 then some (id + 1) else none else r.nextAutoId
      publishedIds := r.publishedIds ++ [id] })

def findByKey (key : ℤ) : Option (ℕ × MsgQueue) := r.queues.entries.find? fun e => e.2.key == key

def wasRemoved (id : ℕ) : Bool := r.publishedIds.contains id && (r.queues.get? id).isNone

/-- What a call on a queue that is not there is told. -/
def missing (msqid : ℕ) : Errno := if r.wasRemoved msqid then .EIDRM else .EINVAL

end MsgRegistry

/-- The arguments of `msgget`; key 0 is `IPC_PRIVATE`. -/
structure MsggetArgs where
  key : ℤ
  create : Bool
  exclusive : Bool
  read : Bool
  write : Bool
  mode : ℕ
  deriving DecidableEq

section

variable (r : MsgRegistry) (c : Caller)

variable (queue : MsgQueue) (limits : MsgLimits) (memory : Bool) (a : MsggetArgs)

/-- The part of `msgget` that makes a new queue. -/
def MsgRegistry.createQueue : Answer × MsgRegistry :=
  if r.queues.size ≥ limits.msgmni then (.error .ENOSPC, r)
  else
    match r.allocId memory with
    | (.error e, r) => (.error e, r)
    | (.ok id, r) => (.ok id, { r with queues := r.queues.insert id (.new a.key a.mode c limits) })

/-- `sys_msgget`. -/
def MsgRegistry.msgget : Answer × MsgRegistry :=
  if a.key = 0 then r.createQueue c limits memory a
  else
    match r.findByKey a.key with
    | some (id, queue) =>
      if a.create && a.exclusive then (.error .EEXIST, r)
      else if !hasPermission queue.perm c a.read a.write then (.error .EACCES, r)
      else (.ok id, r)
    | none => if !a.create then (.error .ENOENT, r) else r.createQueue c limits memory a

variable (a : RecvArgs) (msqid : ℕ)

/-- `IPC_RMID`. -/
def MsgRegistry.rmid : Answer × MsgRegistry :=
  match r.queues.get? msqid with
  | none => (.error .EINVAL, r)
  | some queue =>
    if !canModify queue.perm c then (.error .EPERM, r)
    else (.ok 0, { r with queues := r.queues.erase msqid })

/-! ## Sending -/

/-- The queue with a message at its end. -/
def MsgQueue.push (c : Caller) (msg : Message) : MsgQueue :=
  { queue with
    messages := queue.messages ++ [msg]
    cbytes := queue.cbytes + msg.data.length
    lspid := c.pid
    stime := c.now }

/-- `try_msgsnd_locked`: an answer, or none if the message does not fit. -/
def MsgRegistry.trySend (msg : Message) : Option Answer × MsgRegistry :=
  match r.queues.get? msqid with
  | none => (some (.error (r.missing msqid)), r)
  | some queue =>
    if !hasPermission queue.perm c false true then (some (.error .EACCES), r)
    else if queue.cbytes + msg.data.length > queue.qbytes ∨ queue.messages.length ≥ msgtql then
      (none, r)
    else if !memory then (some (.error .ENOMEM), r)
    else (some (.ok 0), { r with queues := r.queues.insert msqid (queue.push c msg) })

/-! ## Receiving -/

/-- The flags of `msgrcv`. -/
structure RecvFlags where
  nowait : Bool
  noerror : Bool
  except : Bool
  copy : Bool
  /-- Any other bit. -/
  unknown : Bool
  deriving DecidableEq

/-- The loop of `select_msg_index` for a negative type: the best message so far and its type. -/
def bestIndex (limit : ℤ) : List Message → ℕ → Option (ℕ × ℤ) → Option (ℕ × ℤ)
  | [], _, best => best
  | msg :: msgs, i, best =>
    bestIndex limit msgs (i + 1)
      (if msg.mtype.val ≤ limit ∧ best.all (fun b => msg.mtype.val < b.2) then
        some (i, msg.mtype.val)
      else best)

def saturatingAbs (x : I64) : ℤ := min (x.val.natAbs : ℤ) (2 ^ 63 - 1)

def selectMsgIndex (messages : List Message) (msgtyp : I64) (flags : RecvFlags) : Option ℕ :=
  if flags.copy then
    if msgtyp.val.toNat < messages.length then some msgtyp.val.toNat else none
  else if msgtyp.val = 0 then if messages.isEmpty then none else some 0
  else if msgtyp.val > 0 then
    if flags.except then messages.findIdx? fun msg => msg.mtype != msgtyp
    else messages.findIdx? fun msg => msg.mtype == msgtyp
  else (bestIndex (saturatingAbs msgtyp) messages 0 none).map Prod.fst

/-- The arguments of `msgrcv`. -/
structure RecvArgs where
  msqid : ℕ
  msgsz : ℕ
  msgtyp : I64
  flags : RecvFlags
  deriving DecidableEq

/-- `msg_recv_wait_condition`. -/
def MsgRegistry.recvWaitCondition : Option Answer :=
  match r.queues.get? a.msqid with
  | none => some (.error (r.missing a.msqid))
  | some queue =>
    if !hasPermission queue.perm c true false then some (.error .EACCES)
    else if (selectMsgIndex queue.messages a.msgtyp a.flags).isSome then some (.ok 0)
    else none

/-- The queue without the message at an index. -/
def MsgQueue.remove (c : Caller) (i : ℕ) (msg : Message) : MsgQueue :=
  { queue with
    messages := queue.messages.eraseIdx i
    cbytes := queue.cbytes - msg.data.length
    lrpid := c.pid
    rtime := c.now }

/-- `receive_message`: the message, and how many of its bytes are to be copied out. -/
def MsgRegistry.receiveMessage : Except Errno (Message × ℕ) × MsgRegistry :=
  match r.queues.get? a.msqid with
  | none => (.error (r.missing a.msqid), r)
  | some queue =>
    if !hasPermission queue.perm c true false then (.error .EACCES, r)
    else
      match selectMsgIndex queue.messages a.msgtyp a.flags with
      | none => (.error .EAGAIN, r)
      | some i =>
        match queue.messages[i]? with
        | none => (.error .EAGAIN, r)
        | some msg =>
          if msg.data.length > a.msgsz ∧ !a.flags.noerror then (.error .E2BIG, r)
          else
            let copyLen := min msg.data.length a.msgsz
            if a.flags.copy then
              if !memory then (.error .ENOMEM, r)
              else (.ok ({ msg with data := msg.data.take copyLen }, copyLen), r)
            else
              (.ok (msg, copyLen),
                { r with queues := r.queues.insert a.msqid (queue.remove c i msg) })

end

/-! ## Runs -/

/-- What a task is doing between two sections. -/
inductive Phase where
  | user
  | sending (msqid : ℕ) (msg : Message) (nowait : Bool)
  | receiving (a : RecvArgs)
  | waiting (a : RecvArgs)
  /-- The message has left the queue, or was copied from it, and goes to the user. -/
  | copying (msg : Message) (copyLen : ℕ)
  deriving DecidableEq

structure MsgState where
  registry : MsgRegistry
  phase : ℕ → Phase
  boxes : ℕ → Mailbox Message

def MsgState.initial : MsgState := ⟨.new, fun _ => .user, fun _ => .empty⟩

/-- One section of one task, with what it reads from outside. -/
inductive Label where
  | setNextId (id : Option ℕ)
  | msgget (t : ℕ) (c : Caller) (limits : MsgLimits) (memory : Bool) (a : MsggetArgs)
  | rmid (t : ℕ) (c : Caller) (msqid : ℕ)
  | msgsnd (t : ℕ) (limits : MsgLimits) (msqid : ℕ) (msg : Message) (nowait : Bool)
  | trySend (t : ℕ) (c : Caller) (memory signal : Bool)
  | msgrcv (t : ℕ) (limits : MsgLimits) (a : RecvArgs)
  | receive (t : ℕ) (c : Caller) (memory : Bool)
  | recheck (t : ℕ) (c : Caller) (signal : Bool)
  | copyOut (t : ℕ) (copied : Bool)

namespace MsgState

variable (s : MsgState)

def setPhase (t : ℕ) (p : Phase) : MsgState := { s with phase := Function.update s.phase t p }

def setBox (msqid : ℕ) (b : Mailbox Message) : MsgState :=
  { s with boxes := Function.update s.boxes msqid b }

/-- One round of a sender. -/
def trySend (t : ℕ) (c : Caller) (memory signal : Bool) (msqid : ℕ) (msg : Message)
    (nowait : Bool) : MsgState × Option Answer :=
  match s.registry.trySend c memory msqid msg with
  | (some (.ok n), r) =>
    let b := s.boxes msqid
    (({ s with registry := r }.setBox msqid (b.put b.waiting.length msg)).setPhase t .user,
      some (.ok n))
  | (some (.error e), r) => ({ s with registry := r }.setPhase t .user, some (.error e))
  | (none, r) =>
    let s := { s with registry := r }
    if nowait then (s.setPhase t .user, some (.error .EAGAIN))
    else if signal then (s.setPhase t .user, some (.error .EINTR))
    else (s, none)

/-- The history of a queue when a receiver has got its message. -/
def noteReceive (a : RecvArgs) : Mailbox Message :=
  match s.registry.queues.get? a.msqid with
  | none => s.boxes a.msqid
  | some queue =>
    if a.flags.copy then s.boxes a.msqid
    else
      match selectMsgIndex queue.messages a.msgtyp a.flags with
      | none => s.boxes a.msqid
      | some i => (s.boxes a.msqid).take i

/-- One attempt of a receiver. -/
def receive (t : ℕ) (c : Caller) (memory : Bool) (a : RecvArgs) : MsgState × Option Answer :=
  match s.registry.receiveMessage c memory a with
  | (.ok (msg, copyLen), r) =>
    (({ s with registry := r }.setBox a.msqid (s.noteReceive a)).setPhase t
      (.copying msg copyLen), none)
  | (.error .EAGAIN, r) =>
    let s := { s with registry := r }
    if a.flags.nowait then (s.setPhase t .user, some (.error .ENOMSG))
    else (s.setPhase t (.waiting a), none)
  | (.error e, r) => ({ s with registry := r }.setPhase t .user, some (.error e))

/-- What `sys_msgrcv` checks. -/
def RecvArgs.invalid (limits : MsgLimits) (a : RecvArgs) : Bool :=
  decide (a.msgsz > limits.msgmax) || a.flags.unknown ||
    (a.flags.copy && (!a.flags.nowait || a.flags.except || decide (a.msgtyp.val < 0)))

/-- One section, with the answer of the call if it ends here. -/
def step : Label → Option (MsgState × Option Answer)
  | .setNextId id => some ({ s with registry := { s.registry with nextId := id } }, none)
  | .msgget t c limits memory a =>
    if s.phase t = .user then
      let (answer, r) := s.registry.msgget c limits memory a
      some ({ s with registry := r }, some answer)
    else none
  | .rmid t c msqid =>
    if s.phase t = .user then
      match s.registry.rmid c msqid with
      | (.ok n, r) =>
        some ({ s with registry := r }.setBox msqid (s.boxes msqid).discard, some (.ok n))
      | (.error e, r) => some ({ s with registry := r }, some (.error e))
    else none
  | .msgsnd t limits msqid msg nowait =>
    if s.phase t = .user then
      if msg.data.length > limits.msgmax ∨ msg.mtype.val ≤ 0 then
        some (s, some (.error .EINVAL))
      else some (s.setPhase t (.sending msqid msg nowait), none)
    else none
  | .trySend t c memory signal =>
    match s.phase t with
    | .sending msqid msg nowait => some (s.trySend t c memory signal msqid msg nowait)
    | _ => none
  | .msgrcv t limits a =>
    if s.phase t = .user then
      if RecvArgs.invalid limits a then some (s, some (.error .EINVAL))
      else some (s.setPhase t (.receiving a), none)
    else none
  | .receive t c memory =>
    match s.phase t with
    | .receiving a => some (s.receive t c memory a)
    | _ => none
  | .recheck t c signal =>
    match s.phase t with
    | .waiting a =>
      match s.registry.recvWaitCondition c a with
      | some (.ok _) => some (s.setPhase t (.receiving a), none)
      | some (.error e) => some (s.setPhase t .user, some (.error e))
      | none =>
        if signal then some (s.setPhase t .user, some (.error .EINTR)) else some (s, none)
    | _ => none
  | .copyOut t copied =>
    match s.phase t with
    | .copying _ copyLen =>
      some (s.setPhase t .user, some (if copied then .ok copyLen else .error .EFAULT))
    | _ => none

end MsgState

/-- All interleavings of the sections of any number of tasks. -/
def messages : System MsgState Label :=
  System.ofFun (fun s => s = .initial) fun s l => (s.step l).map Prod.fst
end MangoCore.Ipc.Msg
