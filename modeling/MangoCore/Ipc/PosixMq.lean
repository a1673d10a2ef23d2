import MangoCore.Errno
import MangoCore.Lib.Mailbox
import MangoCore.Lib.System
import MangoCore.Lib.WaitList

/-!
# POSIX message queues

One queue with the tasks that send to it and receive from it.  `mq_timedsend` puts a message behind
those of at least its priority and then wakes all readers; `mq_timedreceive` takes the first
message, copies it to the caller, and then wakes all writers.  A caller that finds the queue full,
or empty, goes through `wait_event_impl`: it looks at the condition, joins the wait list, looks
again, and goes to sleep unless its token is marked by then.

A call is a sequence of sections, each under the lock of the queue or of a wait list, or on the
caller's own data.  What a section reads from outside is in its label: the flags of the descriptor,
whether a copy from or to the user succeeds, and whether a timeout or a signal ends the wait.
-/

namespace MangoCore.Ipc.Mq

structure MqMessage where
  prio : UInt32
  data : List UInt8
  deriving DecidableEq

/-- What `mq_notify` registered, to be told when a message comes to an empty queue. -/
inductive MqNotification where
  | none
  | signal (ownerPid signo value : ℕ)
  | thread (netlinkFd : ℕ) (cookie : List UInt8)
  deriving DecidableEq

/-- The part of the queue under its lock. -/
structure MqQueue where
  maxmsg : ℕ
  msgsize : ℕ
  messages : List MqMessage
  notification : Option MqNotification

section

variable (q : MqQueue) (maxmsg msgsize : ℕ)

def MqQueue.new : MqQueue := ⟨maxmsg, msgsize, [], Option.none⟩

/-- Where a message goes: behind all messages of at least its priority. -/
def MqQueue.position (prio : UInt32) : ℕ :=
  (q.messages.findIdx? fun message => message.prio < prio).getD q.messages.length

/-- A message is put in, and the notification is taken if the queue was empty. -/
def MqQueue.insert (msg : MqMessage) : MqQueue × Option MqNotification :=
  ({ q with
      messages := q.messages.insertIdx (q.position msg.prio) msg
      notification := if q.messages.isEmpty then Option.none else q.notification },
    if q.messages.isEmpty then q.notification else Option.none)

/-- What a call is to do. -/
inductive Call where
  | send (msg : MqMessage)
  | receive
  deriving DecidableEq

/-- The condition that a call waits for. -/
def MqQueue.ready : Call → Bool
  | .send _ => decide (q.messages.length < q.maxmsg)
  | .receive => !q.messages.isEmpty

/-! ## Tasks -/

/-- The answer of a call; an interrupted wait is restarted after the signal. -/
inductive Answer where
  | ok (n : ℕ)
  | error (e : Errno)
  | restart
  deriving DecidableEq

/-- Why a wait may end before the condition holds. -/
inductive Cut where
  | timedOut
  | interrupted
  deriving DecidableEq

def Cut.answer : Cut → Answer
  | .timedOut => .error .ETIMEDOUT
  | .interrupted => .restart

/-- How one round of a wait ends. -/
inductive Outcome where
  | ready
  | again
  | stop (c : Cut)
  deriving DecidableEq

/-- Where a task is in `wait_event_impl`. -/
inductive WaitPoint where
  | checking
  | joining
  | rechecking
  | deciding
  | blocking
  | asleep
  | leaving (o : Outcome)
  deriving DecidableEq

/-- Where a task is in its call. -/
inductive Phase where
  | user
  | attempt (c : Call)
  | waiting (c : Call) (p : WaitPoint)
  /-- The message is in the queue, and the readers are to be woken. -/
  | sent (notification : Option MqNotification)
  /-- The message is out of the queue, and is to be copied to the caller. -/
  | popped (msg : MqMessage)
  /-- The message is copied, and the writers are to be woken. -/
  | copied (msg : MqMessage)
  deriving DecidableEq

/-- The tasks that wait for a message, and those that wait for a free slot. -/
inductive Side where
  | readers | writers
  deriving DecidableEq

/-- On which side a call waits. -/
def Call.side : Call → Side
  | .send _ => .writers
  | .receive => .readers

/-- Which side a task has still to wake. -/
def Phase.owes : Phase → Option Side
  | .sent _ => some .readers
  | .popped _ => some .writers
  | .copied _ => some .writers
  | _ => none

structure MqState where
  queue : MqQueue
  wait : Side → WaitList
  phase : ℕ → Phase
  /-- The history of the queue. -/
  box : Mailbox MqMessage

def MqState.initial : MqState :=
  ⟨.new maxmsg msgsize, fun _ => .empty, fun _ => .user, .empty⟩

end

/-! ## Sections -/

/-- One section of one task, with what it reads from outside. -/
inductive Label where
  /-- The call is made; the errors are those of the descriptor and of the copy from the user. -/
  | timedsend (t : ℕ) (descriptor copyIn : Option Errno) (msg : MqMessage)
  | timedreceive (t : ℕ) (descriptor : Option Errno) (msgLen : ℕ)
  | attempt (t : ℕ) (nonblock : Bool)
  /-- The first look at the condition; the error is that of the timeout argument. -/
  | check (t : ℕ) (error : Option Errno)
  | join (t : ℕ) (timedOut : Bool)
  | recheck (t : ℕ)
  /-- The last look at timeout, signals and the token before going to sleep. -/
  | decide (t : ℕ) (cut : Option Cut)
  /-- The checks under `block_current_and_run_next_checked`. -/
  | block (t : ℕ) (quiet : Bool)
  /-- A sleeping task runs again, through a wake-up, or a timer or signal. -/
  | awaken (t : ℕ) (other : Bool)
  | leave (t : ℕ)
  | copyOut (t : ℕ) (error : Option Errno)
  | wake (t : ℕ)
  | mqNotify (t : ℕ) (notification : Option MqNotification)

namespace MqState

variable (s : MqState)

variable (t : ℕ)

def setPhase (p : Phase) : MqState := { s with phase := Function.update s.phase t p }

def setWait (d : Side) (w : WaitList) : MqState := { s with wait := Function.update s.wait d w }

/-- The call ends. -/
def finish (a : Answer) : MqState × Option Answer := (s.setPhase t .user, some a)

/-- One round of the loop of `sys_mq_timedsend` or `sys_mq_timedreceive`. -/
def attempt (nonblock : Bool) : Call → MqState × Option Answer
  | .send msg =>
    if s.queue.messages.length ≥ s.queue.maxmsg then
      if nonblock then s.finish t (.error .EAGAIN)
      else (s.setPhase t (.waiting (.send msg) .checking), none)
    else
      let (q, notification) := s.queue.insert msg
      ({ s with queue := q, box := s.box.put (s.queue.position msg.prio) msg }.setPhase t
        (.sent notification), none)
  | .receive =>
    match s.queue.messages with
    | msg :: rest =>
      ({ s with queue := { s.queue with messages := rest }, box := s.box.take 0 }.setPhase t
        (.popped msg), none)
    | [] =>
      if nonblock then s.finish t (.error .EAGAIN)
      else (s.setPhase t (.waiting .receive .checking), none)

/-- What `wait_event_impl` does at each point. -/
def waitStep (c : Call) : WaitPoint → Label → Option (MqState × Option Answer)
  | .checking, .check _ error =>
    match error with
    | some e => some (s.finish t (.error e))
    | none =>
      if s.queue.ready c then some (s.setPhase t (.attempt c), none)
      else some (s.setPhase t (.waiting c .joining), none)
  | .joining, .join _ timedOut =>
    if timedOut then some (s.finish t Cut.timedOut.answer)
    else some ((s.setWait c.side ((s.wait c.side).join t)).setPhase t
      (.waiting c .rechecking), none)
  | .rechecking, .recheck _ =>
    if s.queue.ready c then some (s.setPhase t (.waiting c (.leaving .ready)), none)
    else some (s.setPhase t (.waiting c .deciding), none)
  | .deciding, .decide _ cut =>
    match cut with
    | some cut => some (s.setPhase t (.waiting c (.leaving (.stop cut))), none)
    | none =>
      if (s.wait c.side).token t = .waiting then
        some (s.setPhase t (.waiting c .blocking), none)
      else some (s.setPhase t (.waiting c (.leaving .again)), none)
  | .blocking, .block _ quiet =>
    if (s.wait c.side).token t = .waiting ∧ quiet then
      some (s.setPhase t (.waiting c .asleep), none)
    else some (s.setPhase t (.waiting c (.leaving .again)), none)
  | .asleep, .awaken _ other =>
    if (s.wait c.side).token t ≠ .waiting ∨ other then
      some (s.setPhase t (.waiting c (.leaving .again)), none)
    else none
  | .leaving o, .leave _ =>
    let s := s.setWait c.side ((s.wait c.side).leave t)
    match o with
    | .ready => some (s.setPhase t (.attempt c), none)
    | .again => some (s.setPhase t (.waiting c .joining), none)
    | .stop cut => some (s.finish t cut.answer)
  | _, _ => none

end MqState

/-- The task of a section. -/
def Label.task : Label → ℕ
  | .timedsend t _ _ _ | .timedreceive t _ _ | .attempt t _ | .check t _ | .join t _ | .recheck t
  | .decide t _ | .block t _ | .awaken t _ | .leave t | .copyOut t _ | .wake t
  | .mqNotify t _ => t

namespace MqState

variable (s : MqState)

variable (t : ℕ) (descriptor : Option Errno)

/-- What `sys_mq_timedsend` checks before its loop. -/
def timedsend (copyIn : Option Errno) (msg : MqMessage) : MqState × Option Answer :=
  match descriptor with
  | some e => s.finish t (.error e)
  | none =>
    if msg.data.length > s.queue.msgsize then s.finish t (.error .EMSGSIZE)
    else
      match copyIn with
      | some e => s.finish t (.error e)
      | none => (s.setPhase t (.attempt (.send msg)), none)

/-- What `sys_mq_timedreceive` checks before its loop. -/
def timedreceive (msgLen : ℕ) : MqState × Option Answer :=
  match descriptor with
  | some e => s.finish t (.error e)
  | none =>
    if msgLen < s.queue.msgsize then s.finish t (.error .EMSGSIZE)
    else (s.setPhase t (.attempt .receive), none)

/-- `sys_mq_notify` with valid arguments. -/
def mqNotify (notification : Option MqNotification) : MqState × Option Answer :=
  if notification.isSome && s.queue.notification.isSome then s.finish t (.error .EBUSY)
  else { s with queue := { s.queue with notification := notification } }.finish t (.ok 0)

/-- One section, with the answer of the call if it ends here. -/
def step (l : Label) : Option (MqState × Option Answer) :=
  match s.phase l.task, l with
  | .user, .timedsend t descriptor copyIn msg => some (s.timedsend t descriptor copyIn msg)
  | .user, .timedreceive t descriptor msgLen => some (s.timedreceive t descriptor msgLen)
  | .user, .mqNotify t notification => some (s.mqNotify t notification)
  | .attempt c, .attempt t nonblock => some (s.attempt t nonblock c)
  | .waiting c p, l => s.waitStep l.task c p l
  | .popped msg, .copyOut t error =>
    match error with
    | some e => some (s.finish t (.error e))
    | none => some (s.setPhase t (.copied msg), none)
  | .sent _, .wake t =>
    some ((s.setWait .readers (s.wait .readers).wakeAll).finish t (.ok 0))
  | .copied msg, .wake t =>
    some ((s.setWait .writers (s.wait .writers).wakeAll).finish t (.ok msg.data.length))
  | _, _ => none

end MqState

/-- All interleavings of the sections of any number of tasks. -/
def mqueue (maxmsg msgsize : ℕ) : System MqState Label :=
  System.ofFun (fun s => s = .initial maxmsg msgsize) fun s l => (s.step l).map Prod.fst
end MangoCore.Ipc.Mq
