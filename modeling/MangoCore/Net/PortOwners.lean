import MangoCore.Net.Port
import Mathlib.Data.List.Basic

/-!
# Who owns a port

Two owners of one port overlap if some destination would reach both of them (`Overlap`), and this is
only allowed if both asked for reuse (`Clash`).  `keys_overlap` decides the question from the keys,
and it misses nothing as long as every request carries an address of its own family
(`keysOverlap_of_overlap`).  In every run of such requests the owners that are alive never clash, no
token is used twice, a commit changes no more than the state of an owner, and a release removes the
owner it is for and nothing else (`sound_of_reachable`).

An IPv6 socket may be bound to an IPv4 address, and its request then has the family IPv6 and an IPv4
address.  `keys_overlap` does not compare this address with those of IPv4 sockets, so both kinds of
socket can own the same port of the same address (`clash_of_ipv4_mapped`).
-/

namespace MangoCore.Net.Port

open PortOwner List Ports Option

variable {intent : BindIntent} {o : PortOwner} {ifindex : ℕ} {r : PortRegistry}

namespace PortOwner

/-- What the socket of an owner receives: packets for its address on its interface.  The wildcard
stands for all addresses of the family, and that of IPv6 for those of IPv4 as well unless it is
restricted. -/
def Accepts (o : PortOwner) (ifindex : ℕ) (dst : IpAddress) : Prop :=
  (∀ i, o.key.ifindex = some i → ifindex = i) ∧
  match o.key.address with
  | some a => dst = a
  | none => dst.family = o.key.family ∨ (o.key.family = .ipv6 ∧ o.ipv6V6only = false)

variable (a b : PortOwner)

def Overlap : Prop := ∃ ifindex dst, a.Accepts ifindex dst ∧ b.Accepts ifindex dst

def Compatible : Prop :=
  (a.reuseAddr = true ∧ b.reuseAddr = true) ∨ (a.reusePort = true ∧ b.reusePort = true)

/-- Two owners that must not exist at the same time. -/
def Clash : Prop :=
  a.key.protocol = b.key.protocol ∧ a.key.port = b.key.port ∧ a.Overlap b ∧ ¬ a.Compatible b

/-- An owner without its state. -/
def unstated (o : PortOwner) : PortOwner := { o with state := .reserved }

theorem eq_of_unstated {a b : PortOwner} (h : a.unstated = b.unstated) :
    a.key = b.key ∧ a.token = b.token ∧ a.socket = b.socket := by
  grind [unstated]

end PortOwner

namespace Ports

/-- **What holds of the owners** in every state. -/
structure Sound (s : Ports) : Prop where
  /-- Owners that are alive do not clash. -/
  compatible : s.registry.owners.Pairwise fun a b =>
    s.alive a.socket = true → s.alive b.socket = true → ¬ a.Clash b
  /-- No two owners have the same token. -/
  tokens : s.registry.owners.Pairwise fun a b => a.token ≠ b.token
  /-- A commit changes at most the state of an owner. -/
  commit : ∀ res socket,
    (s.commit res socket).2.registry.owners.map unstated =
      s.registry.owners.map unstated
  /-- A release removes the owner with the token of the reservation, and no other. -/
  release : ∀ res ∈ s.reservations,
    (s.release res).registry.owners =
      s.registry.owners.filter fun owner => owner.token ≠ res.token
  abort : ∀ res ∈ s.reservations,
    (s.abort res).registry.owners =
      s.registry.owners.filter fun owner => owner.token ≠ res.token

/-- A request carries an address of its own family. -/
def OwnFamily (_ : Ports) : PortCall → Prop
  | .reserve intent _ => ∀ a ∈ intent.address, a.family = intent.family
  | _ => True

instance (s : Ports) (c : PortCall) : Decidable (s.OwnFamily c) := by
  unfold OwnFamily
  split <;> infer_instance

end Ports

/-! ## What `keys_overlap` sees -/

theorem ifindexOverlap_of {left right : Option ℕ}
    (hl : ∀ i, left = some i → ifindex = i) (hr : ∀ i, right = some i → ifindex = i) :
    ifindexOverlap left right = true := by
  cases left with
  | none => rfl
  | some i =>
    cases right with
    | none => rfl
    | some j => grind [ifindexOverlap]

/-- An owner whose address is of its own family receives packets of the other family only through
the IPv6 wildcard. -/
theorem PortOwner.Accepts.wildcard {dst : IpAddress}
    (h : o.Accepts ifindex dst) (hown : ∀ a, o.key.address = some a → a.family = o.key.family)
    (hne : dst.family ≠ o.key.family) :
    o.key.family = .ipv6 ∧ o.key.address = none ∧ o.ipv6V6only = false := by
  obtain ⟨-, h⟩ := h
  grind

variable {token socket : ℕ}

/-- **`keys_overlap` misses nothing** among requests with an address of their own family. -/
theorem keysOverlap_of_overlap (hintent : ∀ a, intent.address = some a → a.family = intent.family)
    (hown : ∀ a, o.key.address = some a → a.family = o.key.family)
    (h : o.Overlap (intent.owner token socket)) : keysOverlap intent o = true := by
  obtain ⟨ifindex, dst, ho, hi⟩ := h
  have hif : ifindexOverlap o.key.ifindex intent.ifindex = true := ifindexOverlap_of ho.1 hi.1
  rw [keysOverlap, hif, Bool.not_true, if_neg Bool.false_ne_true]
  by_cases hfam : o.key.family = intent.family
  · -- one family: two addresses that accept one destination are equal
    rw [if_pos hfam]
    cases ha : o.key.address with
    | none => rfl
    | some a =>
      cases hb : intent.address with
      | none => simp [addressOverlap]
      | some b =>
        have hda : dst = a := by
          have := ho.2
          rwa [ha] at this
        have hdb : dst = b := by
          have := hi.2
          rwa [show (intent.owner token socket).key.address = some b from hb] at this
        simp [addressOverlap, ← hda, ← hdb]
  · -- two families: the destination is foreign to one of them, which is then the IPv6 wildcard
    rw [if_neg hfam]
    by_cases hdst : dst.family = o.key.family
    · obtain ⟨hf, hnone, hv⟩ :=
        hi.wildcard hintent fun h : dst.family = intent.family => hfam (hdst.symm.trans h)
      have hne : ¬ o.key.family = .ipv6 := fun h => hfam (h.trans hf.symm)
      rw [if_neg hne]
      simp [show intent.address = none from hnone, show intent.ipv6V6only = false from hv]
    · grind [ho.wildcard]

theorem reuseCompatible_iff :
    reuseCompatible intent o = true ↔ o.Compatible (intent.owner token socket) := by
  simp [reuseCompatible, Compatible, BindIntent.owner, and_comm]

/-- A request without a conflict does not clash with any owner. -/
theorem PortRegistry.not_clash_of_checkConflict
    (hintent : ∀ a, intent.address = some a → a.family = intent.family)
    (hcheck : r.checkConflict intent = .ok ()) (ho : o ∈ r.owners)
    (hown : ∀ a, o.key.address = some a → a.family = o.key.family) :
    ¬ o.Clash (intent.owner token socket) := by
  rintro ⟨hproto, hport, hover, hcompat⟩
  have hstate : (o.state == .reserved || o.state == .bound) = true := by cases o.state <;> rfl
  have hreuse : reuseCompatible intent o = false :=
    Bool.eq_false_iff.mpr fun h => hcompat (reuseCompatible_iff.mp h)
  have hany : (r.owners.any fun owner =>
      (owner.key.protocol == intent.protocol && owner.key.port == intent.port) &&
      ((owner.state == .reserved || owner.state == .bound) &&
        keysOverlap intent owner && !reuseCompatible intent owner)) = true := by
    refine any_eq_true.mpr ⟨o, ho, ?_⟩
    rw [hstate, keysOverlap_of_overlap hintent hown hover, hreuse,
      show o.key.protocol = intent.protocol from hproto,
      show o.key.port = intent.port from hport]
    simp
  rw [checkConflict, if_pos hany] at hcheck
  cases hcheck

/-- The port is all that is chosen. -/
theorem PortRegistry.choosePort_eq {r' : PortRegistry} {intent' : BindIntent}
    (h : r.choosePort intent = .ok (intent', r')) :
    r'.owners = r.owners ∧ r'.nextToken = r.nextToken ∧
      intent'.address = intent.address ∧ intent'.family = intent.family := by
  rw [choosePort] at h
  split_ifs at h
  · rw [selectEphemeral] at h
    split at h <;> cases h
    · exact ⟨rfl, rfl, rfl, rfl⟩
  · grind

/-! ## The invariant -/

namespace Ports

structure Inv (s : Ports) : Prop where
  compatible : s.registry.owners.Pairwise fun a b =>
    s.alive a.socket = true → s.alive b.socket = true → ¬ a.Clash b
  tokens : s.registry.owners.Pairwise fun a b => a.token ≠ b.token
  family : ∀ o ∈ s.registry.owners, ∀ a, o.key.address = some a → a.family = o.key.family
  token_lt : ∀ o ∈ s.registry.owners, o.token < s.registry.nextToken
  reservation_lt : ∀ res ∈ s.reservations, res.token < s.registry.nextToken
  /-- A reservation describes the owner with its token. -/
  granted : ∀ res ∈ s.reservations, ∀ o ∈ s.registry.owners, o.token = res.token →
    o.key = res.key ∧ o.socket = res.owner

variable {s t : Ports} {intent : BindIntent}

namespace Inv

theorem initial : Inv .initial :=
  ⟨.nil, .nil, fun _ h => absurd h not_mem_nil, fun _ h => absurd h not_mem_nil,
    fun _ h => absurd h not_mem_nil, fun _ h => absurd h not_mem_nil⟩

/-- **Fewer owners.**  The invariant is kept when owners and sockets go away and when the states of
owners change. -/
theorem shrink (h : Inv s) (howners : (t.registry.owners.map unstated).Sublist
      (s.registry.owners.map unstated)) (halive : ∀ k, t.alive k = true → s.alive k = true)
    (hnext : s.registry.nextToken ≤ t.registry.nextToken)
    (hres : t.reservations = s.reservations) : Inv t := by
  -- an owner of `t` is one of `s` in all but its state
  have hmem : ∀ o ∈ t.registry.owners, ∃ o' ∈ s.registry.owners, o'.unstated = o.unstated :=
    fun o ho => mem_map.mp (howners.subset (mem_map_of_mem ho))
  refine ⟨?_, ?_, fun o ho => ?_, fun o ho => ?_, fun res hr => ?_, fun res hr o ho htok => ?_⟩
  · have hs := (pairwise_map (f := unstated) (R := fun a b =>
      s.alive a.socket = true → s.alive b.socket = true → ¬ a.Clash b)).mpr h.compatible
    exact (pairwise_map.mp (hs.sublist howners)).imp
      fun hab ha hb => hab (halive _ ha) (halive _ hb)
  · have hs := (pairwise_map (f := unstated) (R := fun a b => a.token ≠ b.token)).mpr h.tokens
    exact (pairwise_map (f := unstated)).mp (hs.sublist howners)
  · grind [unstated, family]
  · obtain ⟨o', ho', heq⟩ := hmem o ho
    exact (eq_of_unstated heq).2.1 ▸ lt_of_lt_of_le (h.token_lt o' ho') hnext
  · exact lt_of_lt_of_le (h.reservation_lt res (hres ▸ hr)) hnext
  · grind [unstated, granted]

theorem filter (h : Inv s) {p : PortOwner → Bool}
    (howners : r.owners = s.registry.owners.filter p)
    (hnext : s.registry.nextToken ≤ r.nextToken) : Inv { s with registry := r } := by
  refine h.shrink ?_ (fun _ => id) hnext rfl
  rw [howners]
  exact filter_sublist.map _

theorem dropSocket (h : Inv s) : Inv (s.dropSocket socket) := by
  simp [Function.update_apply, h.shrink, Ports.dropSocket]

end Inv

/-- `commit` changes at most a state. -/
theorem map_unstated_commit (res : PortReservation) (socket : ℕ) :
    (s.commit res socket).2.registry.owners.map unstated =
      s.registry.owners.map unstated := by
  rw [commit, PortRegistry.commit]
  cases s.registry.owners.findIdx? _ with
  | none => rfl
  | some i =>
    refine ext_getElem? fun n => ?_
    grind [unstated]

variable (h : Inv s)
include h

/-- `remove_matching` looks at more than the token, but no owner has the token and differs in the
rest. -/
theorem Inv.owners_removeMatching {res : PortReservation}
    (hres : res ∈ s.reservations) : (s.registry.removeMatching res).owners =
      s.registry.owners.filter fun owner => owner.token ≠ res.token := by
  refine filter_congr fun o ho => ?_
  by_cases htok : o.token = res.token
  · grind [h.granted]
  · simp [htok]

theorem Inv.sound : s.Sound :=
  ⟨h.compatible, h.tokens, map_unstated_commit, fun _ => h.owners_removeMatching,
    fun _ => h.owners_removeMatching⟩

/-! ## Reservations -/

theorem Inv.enter (hintent : ∀ a, intent.address = some a → a.family = intent.family)
    (hcheck : s.registry.checkConflict intent = .ok ())
    (howners : r.owners = s.registry.owners) (hnext : r.nextToken = s.registry.nextToken + 1) :
    Inv { s with
      registry := r.enter intent s.registry.nextToken socket
      reservations := ⟨intent.key, s.registry.nextToken, socket⟩ :: s.reservations } := by
  let new := intent.owner s.registry.nextToken socket
  have henter : (r.enter intent s.registry.nextToken socket).owners =
      s.registry.owners ++ [new] := by
    rw [PortRegistry.enter, howners]
  have hmem : ∀ o, o ∈ s.registry.owners ++ [new] ↔ o ∈ s.registry.owners ∨ o = new := fun o => by
    rw [mem_append, mem_singleton]
  have hlt : ∀ n, n < s.registry.nextToken →
      n < (r.enter intent s.registry.nextToken socket).nextToken := fun n hn =>
    lt_of_lt_of_eq (Nat.lt_succ_of_lt hn) hnext.symm
  have hself : s.registry.nextToken < (r.enter intent s.registry.nextToken socket).nextToken :=
    lt_of_lt_of_eq (Nat.lt_add_one _) hnext.symm
  constructor
  · grind [h.compatible, PortRegistry.not_clash_of_checkConflict, h.family]
  · rw [henter]
    refine pairwise_append.mpr ⟨h.tokens, pairwise_singleton .., ?_⟩
    intro o ho o' ho'
    rw [mem_singleton.mp ho']
    exact ne_of_lt (h.token_lt o ho)
  · intro o ho
    rw [henter, hmem] at ho
    rcases ho with ho | rfl
    · exact h.family o ho
    · exact hintent
  · intro o ho
    rw [henter, hmem] at ho
    rcases ho with ho | rfl
    · exact hlt _ (h.token_lt o ho)
    · exact hself
  · simp_all [h.reservation_lt]
  · intro res hres o ho htok
    rw [henter, hmem] at ho
    rcases mem_cons.mp hres with rfl | hres <;> rcases ho with ho | rfl
    · exact absurd htok (ne_of_lt (h.token_lt o ho))
    · exact ⟨rfl, rfl⟩
    · exact h.granted res hres o ho htok
    · exact absurd htok.symm (ne_of_lt (h.reservation_lt res hres))

/-- **`reserve`.**  It prunes, chooses a port, and enters an owner if there is no conflict. -/
theorem Inv.reserve (socket : ℕ)
    (hintent : ∀ a, intent.address = some a → a.family = intent.family) :
    Inv (s.reserve intent socket).2 := by
  have hprune : Inv { s with registry := s.registry.pruneDeadOwners s.alive } :=
    h.filter rfl (le_rfl)
  rw [Ports.reserve, PortRegistry.reserve]
  cases hchoose : (s.registry.pruneDeadOwners s.alive).choosePort intent with
  | error e => exact hprune
  | ok chosen =>
    obtain ⟨intent', r⟩ := chosen
    obtain ⟨howners, hnext, haddr, hfam⟩ := PortRegistry.choosePort_eq hchoose
    have hr : Inv { s with registry := r } := by grind [hprune.shrink]
    grind [PortRegistry.allocateToken, hr.enter]

theorem Inv.call {c : PortCall} (hown : s.OwnFamily c) (hstep : s.call c = some t) : Inv t := by
  cases c with
  | reserve intent socket =>
    simp only [Ports.call] at hstep
    split_ifs at hstep
    exact some.inj hstep ▸ h.reserve socket hown
  | commit res socket =>
    simp only [Ports.call] at hstep
    split_ifs at hstep
    refine some.inj hstep ▸ h.shrink ?_ (fun _ => id) ?_ rfl
    · rw [map_unstated_commit]
    · grind [commit, PortRegistry.commit]
  | dropSocket socket => exact some.inj hstep ▸ h.dropSocket
  | _ =>
    simp only [Ports.call] at hstep
    split_ifs at hstep
    exact some.inj hstep ▸ h.filter rfl (le_rfl)

end Ports

/-- **The owners are sound** in every run of requests that carry an address of their own family. -/
theorem sound_of_reachable {s : Ports} (h : (portCalls.restrict OwnFamily).Reachable s) :
    s.Sound := by
  refine (h.invariant (I := Inv) ?_ ?_).sound
  · rintro _ rfl
    exact Ports.Inv.initial
  · rintro s c t - hinv ⟨hown, hstep⟩
    exact hinv.call hown hstep

/-! ## Binding a socket -/

/-- `bind_port` is a run of the calls. -/
theorem reachable_bindPort {s : Ports} (h : portCalls.Reachable s) (socket : ℕ)
    (halive : s.alive socket = true) (intent : BindIntent) (bound : Except Errno Unit) :
    portCalls.Reachable (s.bindPort intent socket bound).2 := by
  have hreserve : portCalls.Reachable (s.reserve intent socket).2 :=
    .step (a := .reserve intent socket) h (if_pos halive)
  rw [bindPort]
  cases hr : s.registry.reserve s.alive intent socket with
  | mk answer r =>
    rw [reserve, hr] at hreserve ⊢
    cases answer with
    | error e => exact hreserve
    | ok res =>
      have hres : res ∈ res :: s.reservations := mem_cons_self
      cases bound with
      | error e => exact .step (a := .abort res) hreserve (if_pos hres)
      | ok _ =>
        let mid : Ports := { s with registry := r, reservations := res :: s.reservations }
        have hcommit : portCalls.Reachable (mid.commit res socket).2 :=
          .step (a := .commit res socket) hreserve (if_pos ⟨hres, halive⟩)
        simp only [commit, mid] at hcommit ⊢
        cases hc : r.commit res socket with
        | mk answer r' =>
          rw [hc] at hcommit
          cases answer with
          | ok _ => exact hcommit
          | error e => exact .step (a := .abort res) hcommit (if_pos hres)

variable (family : AddressFamily)

/-- A TCP socket of either family, without options. -/
def plainSocket : InetSocket where
  protocol := .tcp
  ipVersion := family
  unbound := true
  boundIfindex := none
  reuseAddr := false
  ipv6V6only := false

/-- The request for port 8080 of `127.0.0.1`. -/
def loopback8080 : BindIntent where
  protocol := .tcp
  family := family
  address := some (.ipv4 0x7f000001)
  port := 8080
  ifindex := none
  reuseAddr := false
  reusePort := false
  ipv6V6only := false

/-- Sockets 0 and 1 share the port with the option for reuse and the first is bound, socket 2 asks
for it without the option, and socket 3 for the same port of `127.0.0.2`. -/
def sharedPort : List PortCall :=
  let shared := { loopback8080 .ipv4 with reuseAddr := true }
  [.reserve shared 0, .reserve shared 1, .commit ⟨shared.key, 1, 0⟩ 0,
    .reserve (loopback8080 .ipv4) 2,
    .reserve { loopback8080 .ipv4 with address := some (.ipv4 0x7f000002) } 3]

instance (s : Ports) : (c : PortCall) → Decidable (s.OwnFamily c)
  | .reserve intent _ =>
    inferInstanceAs (Decidable (∀ a ∈ intent.address, a.family = intent.family))
  | .commit .. | .abort _ | .release _ | .dropSocket _ => isTrue trivial

/-- Three sockets own port 8080, two of them that of one address, and socket 2 was refused. -/
theorem sound_sharedPort : ∃ s, (portCalls.restrict OwnFamily).Reachable s ∧
    (s.registry.owners.map (fun o => (o.token, o.socket, o.state)) =
      [(1, 0, .bound), (2, 1, .reserved), (3, 3, .reserved)] ∧
      (∀ o ∈ s.registry.owners, s.alive o.socket = true ∧ o.key.port = 8080)) ∧ s.Sound := by
  obtain ⟨s, hs, hend⟩ : ∃ s, (portCalls.restrict OwnFamily).Reachable s ∧
      (s.registry.owners.map (fun o => (o.token, o.socket, o.state)) =
        [(1, 0, .bound), (2, 1, .reserved), (3, 3, .reserved)] ∧
        (∀ o ∈ s.registry.owners, s.alive o.socket = true ∧ o.key.port = 8080)) :=
    System.exists_run_restrict sharedPort rfl (by decide)
  exact ⟨s, hs, hend, sound_of_reachable hs⟩

/-- **An IPv4 socket and an IPv6 socket own the same port of the same address.**  The first binds
to `127.0.0.1` and the second to `::ffff:127.0.0.1`, neither with an option for reuse, and both
calls succeed. -/
theorem clash_of_ipv4_mapped :
    (plainSocket .ipv4).snapshotBindIntent (.ipv4 0x7f000001) 8080 = .ok (loopback8080 .ipv4) ∧
    (plainSocket .ipv6).snapshotBindIntent (.ipv6 0xffff7f000001) 8080 = .ok (loopback8080 .ipv6) ∧
    ∃ s t, initial.bindPort (loopback8080 .ipv4) 0 (.ok ()) = (.ok (), s) ∧
      s.bindPort (loopback8080 .ipv6) 1 (.ok ()) = (.ok (), t) ∧ portCalls.Reachable t ∧
      (∃ a b, t.registry.owners = [a, b] ∧ t.alive a.socket = true ∧ t.alive b.socket = true ∧
        a.Clash b) ∧ ¬ t.Sound := by
  refine ⟨by decide, by decide +kernel, _, _, rfl, rfl, ?_, ?_⟩
  · have hfirst := reachable_bindPort (.init rfl) 0 rfl (loopback8080 .ipv4) (.ok ())
    exact reachable_bindPort hfirst 1 rfl (loopback8080 .ipv6) (.ok ())
  · have hclash : ∀ a b : PortOwner, a.key = (loopback8080 .ipv4).key →
        b.key = (loopback8080 .ipv6).key → a.reuseAddr = false → a.reusePort = false →
        a.Clash b := by
      intro a b ha hb hra hrp
      refine ⟨by rw [ha, hb]; rfl, by rw [ha, hb]; rfl, ⟨0, .ipv4 0x7f000001, ?_, ?_⟩, ?_⟩
      · exact ⟨by rw [ha]; nofun, by rw [ha]; rfl⟩
      · exact ⟨by rw [hb]; nofun, by rw [hb]; rfl⟩
      · rintro (⟨h, -⟩ | ⟨h, -⟩)
        · exact Bool.false_ne_true (hra.symm.trans h)
        · exact Bool.false_ne_true (hrp.symm.trans h)
    refine ⟨⟨_, _, rfl, rfl, rfl, hclash _ _ rfl rfl rfl rfl⟩, fun h => ?_⟩
    exact (pairwise_cons.mp h.compatible).1 _ mem_cons_self rfl rfl (hclash _ _ rfl rfl rfl rfl)
end MangoCore.Net.Port
