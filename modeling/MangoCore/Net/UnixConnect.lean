import MangoCore.Net.UnixStream

/-!
# Connecting unix stream sockets

`connect` looks the listener up and makes a pair of connected ends, pushes one end to the queue of
the listener, wakes those who wait in `accept`, and makes its own socket the other end.  Each of
these four sections takes its own locks, so the sections of several calls interleave with each other
and with `accept`, `listen` and `bind`.

A failure of the first two sections changes no socket and wakes nobody.  The last section fails if
the own socket is no longer in its initial state.  By then the other end is in the queue or already
accepted, and nothing takes it back (`accepts_failed_connect`).

The state also records which pairs `accept` returned, and for which pairs `connect` failed.
-/

namespace MangoCore.Net.UnixConnect

open Function Option List

/-! ## Sockets -/

inductive UnixEndpoint where
  | path (name : List UInt8)
  | abstract (name : List UInt8)
  | unnamed
  deriving DecidableEq

inductive Endpoint where
  | unix (ep : UnixEndpoint)
  /-- An address of another family. -/
  | other
  deriving DecidableEq

/-- One end of a pair of connected ends; the pair stands for its two ring buffers. -/
structure Connected where
  addr : Option UnixEndpoint
  peerAddr : Option UnixEndpoint
  peerCreds : Option (ℕ × ℕ × ℕ)
  pair : ℕ
  side : UnixStream.End
  deriving DecidableEq

structure Listener where
  localAddr : UnixEndpoint
  backlog : ℕ
  incoming : List Connected
  deriving DecidableEq

def Listener.pushIncoming (l : Listener) (conn : Connected) : Listener :=
  if l.incoming.length < l.backlog then { l with incoming := l.incoming ++ [conn] } else l

inductive Inner where
  | init (addr : Option UnixEndpoint)
  | connected (conn : Connected)
  | listener (l : Listener)
  deriving DecidableEq

/-- The connections that wait to be accepted. -/
def Inner.incoming : Inner → List Connected
  | .listener l => l.incoming
  | _ => []

def Inner.isInit : Inner → Bool
  | .init _ => true
  | _ => false

def unixPathMax : ℕ := 108

/-- An abstract name that no socket can have. -/
def badName (name : List UInt8) : Bool := name.isEmpty || decide (name.length > unixPathMax - 1)

/-- `bind` of the socket itself; the tables of names are set apart from it. -/
def Inner.bind : Inner → Endpoint → Except Errno Inner
  | .init _, .unix .unnamed => .ok (.init (some .unnamed))
  | .init addr, .unix (.abstract name) =>
    if addr.isSome then .error .EINVAL
    else if badName name then .error .EINVAL
    else .ok (.init (some (.abstract name)))
  | .init addr, .unix (.path name) =>
    if addr.isSome then .error .EINVAL else .ok (.init (some (.path name)))
  | .connected conn, .unix .unnamed => .ok (.connected { conn with addr := some .unnamed })
  | .connected _, .unix _ => .error .EOPNOTSUPP
  | .listener _, _ => .error .EOPNOTSUPP
  | _, .other => .error .EINVAL

def Inner.listen : Inner → ℕ → Except Errno Inner
  | .init none, _ => .error .EINVAL
  | .init (some addr), backlog =>
    .ok (.listener ⟨addr, if backlog = 0 then 1 else min backlog 128, []⟩)
  | _, _ => .error .EOPNOTSUPP

variable {a b inner : Inner} {creds : Option (ℕ × ℕ × ℕ)} {ep : Endpoint} {pc : Pc}

theorem Inner.incoming_of_bind (h : a.bind ep = .ok b) : b.incoming = [] := by
  unfold Inner.bind at h
  grind [Inner.incoming]

theorem Inner.incoming_of_listen {backlog : ℕ} (h : a.listen backlog = .ok b) :
    b.incoming = [] := by
  unfold Inner.listen at h
  grind [Inner.incoming]

/-! ## Sections -/

/-- Where a `connect` of a thread is, with the ends that it made. -/
inductive Pc where
  | idle
  | found (sock server : ℕ) (client conn : Connected)
  | pushed (sock server : ℕ) (client : Connected)
  | woken (sock : ℕ) (client : Connected)
  deriving DecidableEq

/-- The pair whose end is still to be pushed. -/
def Pc.waiting : Pc → Option ℕ
  | .found _ _ _ conn => some conn.pair
  | _ => none

structure State where
  socket : ℕ → Inner
  /-- The living sockets of the tables of abstract names and of paths. -/
  names : UnixEndpoint → Option ℕ
  /-- How often those who wait in `accept` at a socket were woken. -/
  wakeups : ℕ → ℕ
  pc : ℕ → Pc
  nextPair : ℕ
  accepted : List ℕ
  failed : List ℕ

inductive Label where
  /-- A name is registered or removed. -/
  | setName (ep : UnixEndpoint) (sock : Option ℕ)
  | bind (sock : ℕ) (ep : Endpoint)
  | listen (sock backlog : ℕ)
  /-- `accept`, with the descriptor if the table has one. -/
  | accept (sock : ℕ) (fd : Option ℕ)
  | lookup (t sock : ℕ) (ep : Endpoint) (creds : Option (ℕ × ℕ × ℕ))
  | push (t : ℕ)
  | wake (t : ℕ)
  | switch (t : ℕ)
  deriving DecidableEq

/-- The answer of a call. -/
abbrev Answer := Except Errno ℕ

namespace State

variable (s : State)

section

variable (t sock : ℕ)

def setSocket (inner : Inner) : State :=
  { s with socket := update s.socket sock inner }

def setPc (pc : Pc) : State := { s with pc := update s.pc t pc }

/-- A call on a socket that succeeds with a new inner state or changes nothing. -/
def onSocket : Except Errno Inner → State × Option Answer
  | .ok inner => (s.setSocket sock inner, some (.ok 0))
  | .error e => (s, some (.error e))

/-- A failed `alloc_fd` drops the connection. -/
def accept (fd : Option ℕ) : State × Option Answer :=
  match s.socket sock with
  | .listener l =>
    match l.incoming with
    | [] => (s, some (.error .EAGAIN))
    | conn :: rest =>
      let s := s.setSocket sock (.listener { l with incoming := rest })
      match fd with
      | none => (s, some (.error .ENFILE))
      | some n => ({ s with accepted := conn.pair :: s.accepted }, some (.ok n))
  | _ => (s, some (.error .EOPNOTSUPP))

/-- The lookup in a table, and the new pair. -/
def find (ep : UnixEndpoint) (creds : Option (ℕ × ℕ × ℕ)) : State × Option Answer :=
  match s.names ep with
  | none => (s, some (.error .ECONNREFUSED))
  | some server =>
    let client : Connected := ⟨none, some ep, creds, s.nextPair, .left⟩
    let conn : Connected := ⟨none, none, creds, s.nextPair, .right⟩
    ({ s.setPc t (.found sock server client conn) with nextPair := s.nextPair + 1 }, none)

/-- The first section of `connect`. -/
def lookup (creds : Option (ℕ × ℕ × ℕ)) : Endpoint → State × Option Answer
  | .other => (s, some (.error .EAFNOSUPPORT))
  | .unix .unnamed => (s, some (.error .EOPNOTSUPP))
  | .unix (.abstract name) =>
    if badName name then (s, some (.error .EINVAL)) else s.find t sock (.abstract name) creds
  | .unix (.path name) => s.find t sock (.path name) creds

/-- A `connect` that made a pair fails. -/
def fail (pair : ℕ) (e : Errno) : State × Option Answer :=
  ({ s.setPc t .idle with failed := pair :: s.failed }, some (.error e))

/-- `push_pending_connected`; a socket of another kind answers like one that does not listen. -/
def push (server : ℕ) (client conn : Connected) : State × Option Answer :=
  match s.socket server with
  | .listener l =>
    if l.incoming.length ≥ l.backlog then s.fail t conn.pair .EAGAIN
    else ((s.setSocket server (.listener (l.pushIncoming conn))).setPc t
      (.pushed sock server client), none)
  | _ => s.fail t conn.pair .EOPNOTSUPP

/-- The last section of `connect`. -/
def switch (client : Connected) : State × Option Answer :=
  match s.socket sock with
  | .init addr =>
    ((s.setSocket sock (.connected { client with addr := addr })).setPc t .idle, some (.ok 0))
  | _ => s.fail t client.pair .EISCONN

end

/-- One section, with the answer of the call if it ends here. -/
def step : Label → Option (State × Option Answer)
  | .setName ep sock => some ({ s with names := update s.names ep sock }, none)
  | .bind sock ep => some (s.onSocket sock ((s.socket sock).bind ep))
  | .listen sock backlog => some (s.onSocket sock ((s.socket sock).listen backlog))
  | .accept sock fd => some (s.accept sock fd)
  | .lookup t sock ep creds => if s.pc t = .idle then some (s.lookup t sock creds ep) else none
  | .push t =>
    match s.pc t with
    | .found sock server client conn => some (s.push t sock server client conn)
    | _ => none
  | .wake t =>
    match s.pc t with
    | .pushed sock server client =>
      some ({ s.setPc t (.woken sock client) with
        wakeups := update s.wakeups server (s.wakeups server + 1) }, none)
    | _ => none
  | .switch t =>
    match s.pc t with
    | .woken sock client => some (s.switch t sock client)
    | _ => none

def next (l : Label) : Option State := (s.step l).map Prod.fst

/-- No `connect` is under way, and the pairs of waiting connections are not new. -/
structure Quiet : Prop where
  pc : ∀ t, s.pc t = .idle
  accepted : s.accepted = []
  failed : s.failed = []
  incoming : ∀ k, ∀ c ∈ (s.socket k).incoming, c.pair < s.nextPair

end State

/-- All interleavings of the sections, from any state of the sockets and tables. -/
def connects : System State Label := System.ofFun State.Quiet State.next

namespace State

variable {s s' : State} {l : Label} {r : Option Answer} {t : ℕ} {e : Errno} {x : Place} {p : ℕ}

/-! ## Failures -/

/-- The queues, the states of the sockets and the wake-ups are as they were. -/
def SameSockets (s s' : State) : Prop := s'.socket = s.socket ∧ s'.wakeups = s.wakeups

/-- The first section never touches a socket. -/
theorem sameSockets_lookup {sock : ℕ}
    (h : s.step (.lookup t sock ep creds) = some (s', r)) : s.SameSockets s' := by
  unfold step lookup find at h
  grind [SameSockets, setPc]

/-- The second section touches a socket only if it succeeds. -/
theorem sameSockets_push (h : s.step (.push t) = some (s', some (.error e))) :
    s.SameSockets s' := by
  unfold step push fail at h
  grind [SameSockets, setPc]

/-- The own socket is in its initial state when the last section takes its lock. -/
def ownInit (s : State) : Label → Bool
  | .switch t =>
    match s.pc t with
    | .woken sock _ => (s.socket sock).isInit
    | _ => true
  | _ => true

theorem ok_of_switch (hown : s.ownInit (.switch t) = true)
    (h : s.step (.switch t) = some (s', r)) : r = some (.ok 0) := by
  unfold ownInit at hown
  unfold step switch at h
  grind [Inner.isInit]

/-! ## Where a pair is -/

/-- The places of a pair: its end is still to be pushed, its `connect` failed, or it was handed to
the listener. -/
inductive Place where
  | waiting (t : ℕ)
  | failed
  | handed
  deriving DecidableEq

def At (s : State) : Place → ℕ → Prop
  | .waiting t, p => (s.pc t).waiting = some p
  | .failed, p => p ∈ s.failed
  | .handed, p => p ∈ s.accepted ∨ ∃ k, ∃ c ∈ (s.socket k).incoming, c.pair = p

theorem at_setSocket {sock : ℕ} (hx : (s.setSocket sock inner).At x p) :
    s.At x p ∨ (x = .handed ∧ ∃ c ∈ inner.incoming, c.pair = p) := by
  cases x with
  | handed =>
    obtain hacc | ⟨k, c, hc, hp⟩ := hx
    · exact .inl (.inl hacc)
    · by_cases hk : k = sock
      · simp only [setSocket, hk, update_self] at hc
        exact .inr ⟨rfl, c, hc, hp⟩
      · simp only [setSocket, update_of_ne hk] at hc
        exact .inl (.inr ⟨k, c, hc, hp⟩)
  | _ => exact .inl hx

theorem at_setPc (hx : (s.setPc t pc).At x p) :
    (s.At x p ∧ x ≠ .waiting t) ∨ (x = .waiting t ∧ pc.waiting = some p) := by
  cases x with
  | waiting u =>
    by_cases hu : u = t
    · simp only [At, setPc, hu, update_self] at hx
      exact .inr ⟨by rw [hu], hx⟩
    · simp only [At, setPc, update_of_ne hu] at hx
      exact .inl ⟨hx, fun heq => hu (Place.waiting.inj heq)⟩
  | _ => exact .inl ⟨hx, by simp⟩

/-- **Each pair is in one place.** -/
structure Inv (s : State) : Prop where
  bound : ∀ x p, s.At x p → p < s.nextPair
  unique : ∀ x y p, s.At x p → s.At y p → x = y

theorem Quiet.inv (h : s.Quiet) : Inv s := by
  have hat : ∀ x p, s.At x p → x = .handed ∧ p < s.nextPair := by
    intro x p hx
    cases x with
    | waiting t => simp [At, h.pc t, Pc.waiting] at hx
    | failed => simp [At, h.failed] at hx
    | handed =>
      obtain hacc | ⟨k, c, hc, rfl⟩ := hx
      · simp [h.accepted] at hacc
      · exact ⟨rfl, h.incoming k c hc⟩
  exact ⟨fun x p hx => (hat x p hx).2, fun x y p hx hy => (hat x p hx).1.trans (hat y p hy).1.symm⟩

namespace Inv

variable (h : Inv s) {sock : ℕ}
include h

theorem frame (hle : ∀ x p, s'.At x p → s.At x p) (hnext : s'.nextPair = s.nextPair) : Inv s' :=
  ⟨fun x p hx => hnext ▸ h.bound x p (hle x p hx),
    fun x y p hx hy => h.unique x y p (hle x p hx) (hle y p hy)⟩

theorem move (t : ℕ) (y : Place) (hnext : s'.nextPair = s.nextPair)
    (hle : ∀ x p, s'.At x p → (s.At x p ∧ x ≠ .waiting t) ∨ (x = y ∧ s.At (.waiting t) p)) :
    Inv s' := by
  refine ⟨fun x p hx => ?_, fun x x' p hx hx' => ?_⟩
  · rw [hnext]
    obtain ⟨hx, -⟩ | ⟨-, hx⟩ := hle x p hx
    · exact h.bound x p hx
    · exact h.bound _ p hx
  · obtain ⟨hx, hne⟩ | ⟨rfl, hx⟩ := hle x p hx <;>
      obtain ⟨hx', hne'⟩ | ⟨rfl, hx'⟩ := hle x' p hx'
    · exact h.unique x x' p hx hx'
    · exact absurd (h.unique x _ p hx hx') hne
    · exact absurd (h.unique x' _ p hx' hx) hne'
    · rfl

theorem make (t : ℕ) (hnext : s'.nextPair = s.nextPair + 1)
    (hle : ∀ x p, s'.At x p → s.At x p ∨ (x = .waiting t ∧ p = s.nextPair)) : Inv s' := by
  refine ⟨fun x p hx => ?_, fun x x' p hx hx' => ?_⟩
  · rw [hnext]
    obtain hx | ⟨-, rfl⟩ := hle x p hx
    · exact (h.bound x p hx).trans (Nat.lt_add_one _)
    · exact Nat.lt_add_one _
  · obtain hx | ⟨rfl, hp⟩ := hle x p hx <;> obtain hx' | ⟨rfl, hp'⟩ := hle x' p hx'
    · exact h.unique x x' p hx hx'
    · exact absurd (h.bound x p hx) (by omega)
    · exact absurd (h.bound x' p hx') (by omega)
    · rfl

/-- A socket gets a state without connections. -/
theorem setSocket (hnone : inner.incoming = []) : Inv (s.setSocket sock inner) := by
  refine h.frame (fun x p hx => ?_) rfl
  obtain hx | ⟨-, c, hc, -⟩ := at_setSocket hx
  · exact hx
  · rw [hnone] at hc
    exact absurd hc not_mem_nil

/-- A thread that goes on without a waiting pair. -/
theorem setPc (hpc : pc.waiting = none) : Inv (s.setPc t pc) := by
  refine h.frame (fun x p hx => ?_) rfl
  obtain ⟨hx, -⟩ | ⟨-, hp⟩ := at_setPc hx
  · exact hx
  · rw [hpc] at hp
    cases hp

/-- A `connect` fails before the push. -/
theorem fail {pair : ℕ} (hwait : (s.pc t).waiting = some pair) : Inv (s.fail t pair e).1 := by
  refine h.move t .failed rfl fun x p hx => ?_
  have hx' : (s.setPc t .idle).At x p ∨ (x = .failed ∧ p = pair) := by
    cases x with
    | failed => exact (mem_cons.mp hx).symm.imp id fun hp => ⟨rfl, hp⟩
    | _ => exact .inl hx
  obtain hx | ⟨rfl, rfl⟩ := hx'
  · exact (at_setPc hx).imp id fun hp => by simp [Pc.waiting] at hp
  · exact .inr ⟨rfl, hwait⟩

theorem push {server : ℕ} {client conn : Connected}
    (hpc : s.pc t = .found sock server client conn) : Inv (s.push t sock server client conn).1 := by
  have hwait : (s.pc t).waiting = some conn.pair := by rw [hpc, Pc.waiting]
  unfold State.push
  cases hserver : s.socket server with
  | listener l =>
    dsimp only
    split_ifs with hfull
    · exact h.fail hwait
    · refine h.move t .handed rfl fun x p hx => ?_
      obtain ⟨hx, hne⟩ | ⟨-, hp⟩ := at_setPc hx
      · obtain hx | ⟨rfl, c, hc, rfl⟩ := at_setSocket hx
        · exact .inl ⟨hx, hne⟩
        · simp only [Inner.incoming, Listener.pushIncoming, if_pos (Nat.lt_of_not_le hfull),
            mem_append, mem_singleton] at hc
          obtain hold | rfl := hc
          · exact .inl ⟨.inr ⟨server, c, by rwa [hserver], rfl⟩, hne⟩
          · exact .inr ⟨rfl, hwait⟩
      · cases hp
  | _ => exact h.fail hwait

theorem accept (sock : ℕ) (fd : Option ℕ) : Inv (s.accept sock fd).1 := by
  unfold State.accept
  cases hsock : s.socket sock with
  | listener l =>
    dsimp only
    cases hin : l.incoming with
    | nil => exact h
    | cons conn rest =>
      have hqueue : (s.socket sock).incoming = conn :: rest := by rw [hsock, Inner.incoming, hin]
      have hle : ∀ x p, (s.setSocket sock (.listener { l with incoming := rest })).At x p →
          s.At x p := by
        intro x p hx
        obtain hx | ⟨rfl, c, hc, hp⟩ := at_setSocket hx
        · exact hx
        · exact .inr ⟨sock, c, hqueue ▸ mem_cons_of_mem conn hc, hp⟩
      cases fd with
      | none => exact h.frame hle rfl
      | some n =>
        refine h.frame (fun x p hx => ?_) rfl
        cases x with
        | handed =>
          obtain hacc | hin := hx
          · obtain rfl | hacc := mem_cons.mp hacc
            · exact .inr ⟨sock, conn, hqueue ▸ mem_cons_self, rfl⟩
            · exact .inl hacc
          · exact hle .handed p (.inr hin)
        | _ => exact hx
  | _ => exact h

theorem lookup (ep : Endpoint) : Inv (s.lookup t sock creds ep).1 := by
  have hfind : ∀ name, Inv (s.find t sock name creds).1 := by
    intro name
    unfold State.find
    cases s.names name with
    | none => exact h
    | some server =>
      refine h.make t rfl fun x p hx => ?_
      exact (at_setPc hx).imp And.left fun hp => ⟨hp.1, (some.inj hp.2).symm⟩
  unfold State.lookup
  split
  any_goals exact h
  · split_ifs
    · exact h
    · exact hfind _
  · exact hfind _

theorem onSocket {result : Except Errno Inner}
    (hnew : ∀ inner, result = .ok inner → inner.incoming = []) :
    Inv (s.onSocket sock result).1 := by
  cases result with
  | error e => exact h
  | ok inner => exact h.setSocket (hnew inner rfl)

theorem step {q : State × Option Answer} (hown : s.ownInit l = true) (hstep : s.step l = some q) :
    Inv q.1 := by
  cases l with
  | setName ep sock =>
    cases hstep
    exact h.frame (fun x p hx => by cases x <;> exact hx) rfl
  | bind sock ep =>
    cases hstep
    exact h.onSocket fun inner => Inner.incoming_of_bind
  | listen sock backlog =>
    cases hstep
    exact h.onSocket fun inner => Inner.incoming_of_listen
  | accept sock fd =>
    cases hstep
    exact h.accept sock fd
  | lookup t sock ep creds =>
    simp only [State.step, ite_none_right_eq_some, some.injEq] at hstep
    obtain ⟨-, rfl⟩ := hstep
    exact h.lookup ep
  | push t =>
    cases hpc : s.pc t with
    | found sock server client conn =>
      simp only [State.step, hpc, some.injEq] at hstep
      exact hstep ▸ h.push hpc
    | _ => simp [State.step, hpc] at hstep
  | wake t =>
    cases hpc : s.pc t with
    | pushed sock server client =>
      simp only [State.step, hpc, some.injEq] at hstep
      obtain rfl := hstep
      have hwoken : Inv (s.setPc t (.woken sock client)) := h.setPc rfl
      exact hwoken.frame (fun x p hx => by cases x <;> exact hx) rfl
    | _ => simp [State.step, hpc] at hstep
  | switch t =>
    cases hpc : s.pc t with
    | woken sock client =>
      cases hsock : s.socket sock with
      | init addr =>
        simp only [State.step, hpc, some.injEq, switch, hsock] at hstep
        obtain rfl := hstep
        exact (h.setSocket rfl).setPc rfl
      | _ => simp [ownInit, hpc, hsock, Inner.isInit] at hown
    | _ => simp [State.step, hpc] at hstep

end Inv

end State

open State

/-- **A failed connect leaves no trace if the own socket stays in its initial state.**  Then it
fails in one of the first two sections.  These change no socket and wake nobody when they fail, and
`accept` never returns a connection whose connect failed. -/
theorem failed_connect_unchanged {s : State}
    (hs : (connects.restrict fun s l => s.ownInit l = true).Reachable s) :
    (∀ t sock ep creds s' r, s.step (.lookup t sock ep creds) = some (s', r) → s.SameSockets s') ∧
    (∀ t s' e, s.step (.push t) = some (s', some (.error e)) → s.SameSockets s') ∧
    (∀ t s' r, s.step (.wake t) = some (s', r) → r = none) ∧
    (∀ t s' r, s.ownInit (.switch t) = true → s.step (.switch t) = some (s', r) →
      r = some (.ok 0)) ∧
    ∀ p ∈ s.failed, p ∉ s.accepted ∧ ∀ k, ∀ c ∈ (s.socket k).incoming, c.pair ≠ p := by
  have hinv : Inv s := by
    refine System.Reachable.invariant (fun s hs => Quiet.inv hs) (fun s l s' _ h hstep => ?_) hs
    obtain ⟨q, hq, rfl⟩ := map_eq_some_iff.mp hstep.2
    exact h.step hstep.1 hq
  refine ⟨fun t sock ep creds s' r => sameSockets_lookup, fun t s' e => sameSockets_push,
    fun t s' r hwake => ?_, fun t s' r => ok_of_switch, fun p hp => ⟨fun hacc => ?_, ?_⟩⟩
  · unfold step at hwake
    grind
  · cases hinv.unique .failed .handed p hp (.inl hacc)
  · rintro k c hc rfl
    cases hinv.unique .failed .handed _ hp (.inr ⟨k, c, hc, rfl⟩)

/-- Socket 0 listens at the abstract name `a`, with room for one connection. -/
def listening : State where
  socket := update (fun _ => .init none) 0 (.listener ⟨.abstract [97], 1, []⟩)
  names := update (fun _ => none) (.abstract [97]) (some 0)
  wakeups _ := 0
  pc _ := .idle
  nextPair := 0
  accepted := []
  failed := []

theorem quiet_listening : listening.Quiet := by
  refine ⟨fun _ => rfl, rfl, rfl, fun k => ?_⟩
  by_cases hk : k = 0
  all_goals simp [listening, hk, Inner.incoming]

/-- Thread 0 connects the socket. -/
def connectRun (sock : ℕ) : List Label :=
  [.lookup 0 sock (.unix (.abstract [97])) none, .push 0, .wake 0, .switch 0]

/-- A second connect finds the queue full and fails; `accept` returns the first. -/
theorem failed_connect_full : ∃ s,
    (connects.restrict fun s l => s.ownInit l = true).Reachable s ∧ s.failed = [1] ∧
      s.accepted = [0] ∧ ∀ p ∈ s.failed, p ∉ s.accepted := by
  have hrun : ∃ s, (connects.restrict fun s l => s.ownInit l = true).Reachable s ∧
      s.failed = [1] ∧ s.accepted = [0] :=
    System.exists_run_restrict (connectRun 1 ++
      [.lookup 0 2 (.unix (.abstract [97])) none, .push 0, .accept 0 (some 3)]) quiet_listening
      (by decide)
  obtain ⟨s, hs, hfailed, hacc⟩ := hrun
  exact ⟨s, hs, hfailed, hacc, fun p hp => ((failed_connect_unchanged hs).2.2.2.2 p hp).1⟩

/-- **`accept` returns a connection whose connect failed.**  A socket connects and is accepted, and
connects once more.  The second connect answers `EISCONN`, but it has woken the listener, and its
connection is accepted too. -/
theorem accepts_failed_connect : ∃ s, connects.Reachable s ∧
    (s.step (.switch 0)).map Prod.snd = some (some (.error .EISCONN)) ∧ s.wakeups 0 = 2 ∧
    (((s.next (.switch 0)).bind fun t => t.next (.accept 0 (some 4))).any fun t =>
      decide (1 ∈ t.failed ∧ 1 ∈ t.accepted)) = true :=
  System.exists_run (connectRun 1 ++ [.accept 0 (some 3)] ++ (connectRun 1).take 3) quiet_listening
    (by decide)

end MangoCore.Net.UnixConnect
