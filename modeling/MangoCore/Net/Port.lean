import MangoCore.Errno
import MangoCore.Lib.System

/-!
# The port registry

A network namespace keeps one registry of the ports in use.  Binding a socket is a transaction in
three parts: `reserve` enters an owner for the port, the socket binds itself, and `commit` marks the
owner as bound, or `abort` removes it.  The lock of the registry is released in between, so calls
for other sockets come in between.  A reservation is the proof of ownership: it names the owner by a
token that is never used twice, and when it is dropped the owner is removed.

The buckets of the registry are kept as one list of owners, each with the key of its bucket.  An
owner refers to its socket by a weak reference, and the owner of a socket that is gone stays in its
bucket until the next `reserve`.

`snapshotBindIntent` is how a socket turns the address of a `bind` into a request.
-/

namespace MangoCore.Net.Port

/-! ## Addresses -/

inductive IpAddress where
  | ipv4 (a : BitVec 32)
  | ipv6 (a : BitVec 128)
  deriving DecidableEq

inductive AddressFamily where
  | ipv4 | ipv6
  deriving DecidableEq

namespace IpAddress

def family : IpAddress → AddressFamily
  | .ipv4 _ => .ipv4
  | .ipv6 _ => .ipv6

/-- For IPv4 every address of the network `0.0.0.0/8`. -/
def isUnspecified : IpAddress → Bool
  | .ipv4 a => a.toNat / 2 ^ 24 == 0
  | .ipv6 a => a == 0

/-- `normalize_ipv4_mapped`: `::ffff:a.b.c.d` stands for `a.b.c.d`. -/
def normalizeIpv4Mapped : IpAddress → IpAddress
  | .ipv4 a => .ipv4 a
  | .ipv6 a => if a.toNat / 2 ^ 32 = 0xffff then .ipv4 (BitVec.ofNat 32 a.toNat) else .ipv6 a

end IpAddress

inductive TransportProtocol where
  | tcp | udp
  deriving DecidableEq

/-- What a `bind` asks for. -/
structure BindIntent where
  protocol : TransportProtocol
  family : AddressFamily
  /-- No address stands for the wildcard. -/
  address : Option IpAddress
  port : ℕ
  ifindex : Option ℕ
  reuseAddr : Bool
  reusePort : Bool
  ipv6V6only : Bool
  deriving DecidableEq

/-- What the request of a socket depends on. -/
structure InetSocket where
  protocol : TransportProtocol
  ipVersion : AddressFamily
  unbound : Bool
  boundIfindex : Option ℕ
  reuseAddr : Bool
  ipv6V6only : Bool
  deriving DecidableEq

namespace InetSocket

variable (k : InetSocket) (addr : IpAddress)

def addrFamilyMatches : Bool :=
  match k.ipVersion with
  | .ipv4 => addr.family == .ipv4
  | .ipv6 => (!k.ipv6V6only && addr.family == .ipv4) || addr.family == .ipv6

/-- `snapshot_bind_intent` of a TCP or UDP socket. -/
def snapshotBindIntent (port : ℕ) : Except Errno BindIntent :=
  if !k.unbound then .error .EINVAL
  else
    let address := addr.normalizeIpv4Mapped
    if !address.isUnspecified && !k.addrFamilyMatches address then .error .EAFNOSUPPORT
    else .ok
      { protocol := k.protocol
        family := k.ipVersion
        address := if address.isUnspecified then none else some address
        port := port
        ifindex := k.boundIfindex
        reuseAddr := k.reuseAddr
        reusePort := false
        ipv6V6only := k.ipv6V6only }

end InetSocket

/-! ## The registry -/

structure PortKey where
  protocol : TransportProtocol
  family : AddressFamily
  address : Option IpAddress
  port : ℕ
  ifindex : Option ℕ
  deriving DecidableEq

section

variable (intent : BindIntent)

def BindIntent.key : PortKey where
  protocol := intent.protocol
  family := intent.family
  address := intent.address
  port := intent.port
  ifindex := intent.ifindex

inductive PortOwnerState where
  /-- Entered, but the socket is not bound yet. -/
  | reserved
  | bound
  deriving DecidableEq

structure PortOwner where
  key : PortKey
  token : ℕ
  socket : ℕ
  state : PortOwnerState
  reuseAddr : Bool
  reusePort : Bool
  ipv6V6only : Bool
  deriving DecidableEq

/-- The owner that a request enters. -/
def BindIntent.owner (token socket : ℕ) : PortOwner where
  key := intent.key
  token := token
  socket := socket
  state := .reserved
  reuseAddr := intent.reuseAddr
  reusePort := intent.reusePort
  ipv6V6only := intent.ipv6V6only

structure PortReservation where
  key : PortKey
  token : ℕ
  owner : ℕ
  deriving DecidableEq

structure PortRegistry where
  nextEphemeral : ℕ
  nextToken : ℕ
  owners : List PortOwner
  deriving DecidableEq

def ephemeralPortMin : ℕ := 49152

def ephemeralPortMax : ℕ := 65534

def addressOverlap (left right : Option IpAddress) : Bool :=
  left.isNone || right.isNone || left == right

def ifindexOverlap (left right : Option ℕ) : Bool :=
  left.isNone || right.isNone || left == right

def reuseCompatible (owner : PortOwner) : Bool :=
  (intent.reuseAddr && owner.reuseAddr) || (intent.reusePort && owner.reusePort)

/-- `keys_overlap`.  Keys of different families overlap if the IPv6 one is the wildcard and is not
restricted to IPv6. -/
def keysOverlap (owner : PortOwner) : Bool :=
  if !ifindexOverlap owner.key.ifindex intent.ifindex then false
  else if owner.key.family = intent.family then
    addressOverlap owner.key.address intent.address
  else
    let (v6Key, v6Intent) :=
      if owner.key.family = .ipv6 then (owner.key.address.isNone, owner.ipv6V6only)
      else (intent.address.isNone, intent.ipv6V6only)
    v6Key && !v6Intent

end

namespace PortRegistry

def new : PortRegistry where
  nextEphemeral := ephemeralPortMin
  nextToken := 1
  owners := []

variable (r : PortRegistry) (intent : BindIntent)

def checkConflict : Except Errno Unit :=
  if r.owners.any fun owner =>
      (owner.key.protocol == intent.protocol && owner.key.port == intent.port) &&
      ((owner.state == .reserved || owner.state == .bound) &&
        keysOverlap intent owner && !reuseCompatible intent owner) then
    .error .EADDRINUSE
  else .ok ()

/-- The ephemeral ports in the order of the search, which starts anywhere and wraps around. -/
def candidates (start : ℕ) : List ℕ :=
  List.range' start (ephemeralPortMax + 1 - start) ++
    List.range' ephemeralPortMin (start - ephemeralPortMin)

def selectEphemeral : Except Errno (ℕ × PortRegistry) :=
  let start := max ephemeralPortMin (min r.nextEphemeral ephemeralPortMax)
  match (candidates start).find? fun port =>
      (r.checkConflict { intent with port := port }).isOk with
  | some port =>
    .ok (port, { r with
      nextEphemeral := if port = ephemeralPortMax then ephemeralPortMin else port + 1 })
  | none => .error .ENOSPC

def allocateToken : Except Errno (ℕ × PortRegistry) :=
  if r.nextToken + 1 < 2 ^ 64 then .ok (r.nextToken, { r with nextToken := r.nextToken + 1 })
  else .error .ENOSPC

def pruneDeadOwners (alive : ℕ → Bool) : PortRegistry :=
  { r with owners := r.owners.filter fun owner => alive owner.socket }

variable (reservation : PortReservation)

def removeMatching : PortRegistry :=
  { r with
    owners := r.owners.filter fun owner =>
      !(owner.key == reservation.key && owner.token == reservation.token &&
        owner.socket == reservation.owner) }

/-- The port of a request, which is chosen here if it is zero. -/
def choosePort : Except Errno (BindIntent × PortRegistry) :=
  if intent.port = 0 then
    (r.selectEphemeral intent).map fun (port, r) => ({ intent with port := port }, r)
  else .ok (intent, r)

/-- The owner of a request is added to the bucket of its key. -/
def enter (token socket : ℕ) : PortRegistry :=
  { r with owners := r.owners ++ [intent.owner token socket] }

/-- `reserve`; the registry has changed also if it fails. -/
def reserve (alive : ℕ → Bool) (intent : BindIntent) (socket : ℕ) :
    Except Errno PortReservation × PortRegistry :=
  let r := r.pruneDeadOwners alive
  match r.choosePort intent with
  | .error e => (.error e, r)
  | .ok (intent, r) =>
    match r.checkConflict intent with
    | .error e => (.error e, r)
    | .ok () =>
      match r.allocateToken with
      | .error e => (.error e, r)
      | .ok (token, r) =>
        (.ok ⟨intent.key, token, socket⟩, r.enter intent token socket)

def isOwner (socket : ℕ) (owner : PortOwner) : Bool :=
  owner.key == reservation.key && owner.token == reservation.token &&
    owner.socket == reservation.owner && owner.socket == socket

/-- `commit`: the first owner that matches is bound. -/
def commit (socket : ℕ) : Except Errno Unit × PortRegistry :=
  match r.owners.findIdx? (isOwner reservation socket) with
  | none => (.error .EADDRNOTAVAIL, r)
  | some i =>
    (.ok (), { r with owners := r.owners.modify i fun owner => { owner with state := .bound } })

def abort : PortRegistry := r.removeMatching reservation

def release : PortRegistry := r.removeMatching reservation

end PortRegistry

/-! ## Runs -/

/-- A registry, the sockets that exist, and the reservations that were handed out. -/
structure Ports where
  registry : PortRegistry
  alive : ℕ → Bool
  reservations : List PortReservation

namespace Ports

def initial : Ports where
  registry := .new
  alive _ := true
  reservations := []

variable (s : Ports)

def reserve (intent : BindIntent) (socket : ℕ) : Except Errno PortReservation × Ports :=
  match s.registry.reserve s.alive intent socket with
  | (.ok res, r) => (.ok res, { s with registry := r, reservations := res :: s.reservations })
  | (.error e, r) => (.error e, { s with registry := r })

def commit (res : PortReservation) (socket : ℕ) : Except Errno Unit × Ports :=
  let (answer, r) := s.registry.commit res socket
  (answer, { s with registry := r })

def abort (res : PortReservation) : Ports := { s with registry := s.registry.abort res }

def release (res : PortReservation) : Ports := { s with registry := s.registry.release res }

/-- The last strong reference to a socket is dropped. -/
def dropSocket (socket : ℕ) : Ports := { s with alive := Function.update s.alive socket false }

/-- `bind_port` when no other call comes in between, with the answer of the socket's own `bind`. -/
def bindPort (intent : BindIntent) (socket : ℕ) (bound : Except Errno Unit) :
    Except Errno Unit × Ports :=
  match s.reserve intent socket with
  | (.error e, s) => (.error e, s)
  | (.ok res, s) =>
    match bound with
    | .ok () =>
      match s.commit res socket with
      | (.ok (), s) => (.ok (), s)
      | (.error e, s) => (.error e, s.abort res)
    | .error e => (.error e, s.abort res)

end Ports

/-- The calls, each under the lock of the registry. -/
inductive PortCall where
  | reserve (intent : BindIntent) (socket : ℕ)
  | commit (res : PortReservation) (socket : ℕ)
  | abort (res : PortReservation)
  | release (res : PortReservation)
  | dropSocket (socket : ℕ)

/-- The state after a call.  The caller of `reserve` and `commit` holds the socket, and a call for a
reservation is made with one that was handed out. -/
def Ports.call (s : Ports) : PortCall → Option Ports
  | .reserve intent socket => if s.alive socket then some (s.reserve intent socket).2 else none
  | .commit res socket =>
    if res ∈ s.reservations ∧ s.alive socket then some (s.commit res socket).2 else none
  | .abort res => if res ∈ s.reservations then some (s.abort res) else none
  | .release res => if res ∈ s.reservations then some (s.release res) else none
  | .dropSocket socket => some (s.dropSocket socket)

/-- The runs of the calls. -/
def portCalls : System Ports PortCall := System.ofFun (fun s => s = .initial) Ports.call
end MangoCore.Net.Port
