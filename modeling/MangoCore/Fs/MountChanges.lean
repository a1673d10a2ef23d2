import MangoCore.Fs.MountSpread
import MangoCore.Lib.System

/-!
# Changes of the propagation type

The comment at `set_propagation_type` says what a change does to the peer group and to the master of
a mount.  `Groups.change` is that rule but for a mount that is shared already: the comment gives it
a new peer group, and the body says that it keeps its own.  `changes` runs the code beside the rule.
In every run that makes no slave of a shared slave the mounts have the groups that the rule gives
them, and mount events go along these groups and nowhere else (`linked_of_reachable`).

A shared slave that is made a slave keeps its master, says the comment.  The code gives it the peer
group that it leaves for a master, as it does with a mount that is shared only (`master_replaced`).
-/

namespace MangoCore.Fs.Mount

open Function MountPropagation OrdMap

/-- The peer group and the master of every mount, and the next group. -/
structure Groups where
  peer : ℕ → Option ℕ
  master : ℕ → Option ℕ
  next : ℕ

/-- The rule for the mount `m` that is made shared, slave or private. -/
def Groups.change (G : Groups) (m : ℕ) : PropagationType → Groups
  | .shared =>
    ⟨update G.peer m (some ((G.peer m).getD G.next)), G.master,
      if (G.peer m).isSome then G.next else G.next + 1⟩
  | .slave => ⟨update G.peer m none, update G.master m ((G.master m).or (G.peer m)), G.next⟩
  | _ => ⟨update G.peer m none, update G.master m none, G.next⟩

variable (G : Groups) {m v : ℕ}

theorem Groups.change_of_ne (hv : v ≠ m) {t : PropagationType} :
    (G.change m t).peer v = G.peer v ∧ (G.change m t).master v = G.master v := by
  cases t <;> simp [change, hv]

/-- All groups are below the next one. -/
theorem Groups.lt_change (hpos : 0 < G.next)
    (hlt : ∀ {v g}, G.peer v = some g ∨ G.master v = some g → 0 < g ∧ g < G.next) (m : ℕ)
    (t : PropagationType) : 0 < (G.change m t).next ∧ ∀ {v g},
      (G.change m t).peer v = some g ∨ (G.change m t).master v = some g →
        0 < g ∧ g < (G.change m t).next := by
  refine ⟨by cases t <;> grind [change], fun {v g} => ?_⟩
  by_cases hv : v = m
  · rw [hv]
    have hm := @hlt m
    cases t <;> simp only [change, update_self] <;> rcases hp : G.peer m with _ | a <;>
      rcases hq : G.master m with _ | b <;> grind
  · rw [(G.change_of_ne hv).1, (G.change_of_ne hv).2]
    intro hg
    have := hlt hg
    cases t <;> grind [change]

namespace Mounts

/-- The mounts have these groups, and are registered with them. -/
structure Linked (s : Mounts) (G : Groups) : Prop where
  state : ∀ m, s.propagation m = .ofGroups (G.peer m) (G.master m)
  peer : ∀ {m g}, G.peer m = some g → s.InPeerGroup g m
  master : ∀ {m g}, G.master m = some g → s.IsSlaveOf g m
  next : s.nextGroupId = G.next
  lt : ∀ {m g}, G.peer m = some g ∨ G.master m = some g → 0 < g ∧ g < G.next
  pos : 0 < G.next

/-- The code beside the rule, from any mounts with their groups. -/
def changes : System (Mounts × Groups) (ℕ × PropagationType) :=
  System.ofFun (fun q => q.1.Linked q.2) fun q c =>
    some (q.1.setPropagationType c.1 c.2, q.2.change c.1 c.2)

/-- A mount is made shared, slave or private, but no shared slave is made a slave; and the counter
of groups does not wrap. -/
def Keeps (q : Mounts × Groups) (c : ℕ × PropagationType) : Prop :=
  q.1.upgrade c.1 = true ∧ c.2 ∈ [.shared, .slave, .priv] ∧ q.2.next + 1 < 2 ^ 32 ∧
    (c.2 = .slave → q.2.peer c.1 = none ∨ q.2.master c.1 = none)

instance (q : Mounts × Groups) (c : ℕ × PropagationType) : Decidable (Keeps q c) := by
  unfold Keeps
  infer_instance

variable {s s' : Mounts} {G : Groups} {m : ℕ} {x : MountFS}

theorem isShared_ofGroups (peer master : Option ℕ) :
    (ofGroups peer master).isShared = peer.isSome := by
  cases peer <;> cases master <;> rfl

theorem isSlave_ofGroups (peer master : Option ℕ) :
    (ofGroups peer master).isSlave = master.isSome := by
  cases peer <;> cases master <;> rfl

namespace Linked

theorem inPeerGroup_iff (h : s.Linked G) (m g : ℕ) : s.InPeerGroup g m ↔ G.peer m = some g := by
  refine ⟨?_, h.peer⟩
  rintro ⟨-, -, z, hz, hshared, rfl⟩
  rw [← propagation_eq hz, h.state, isShared_ofGroups] at hshared
  obtain ⟨g, hg⟩ := Option.isSome_iff_exists.mp hshared
  rw [← propagation_eq hz, h.state, hg]
  rfl

theorem isSlaveOf_iff (h : s.Linked G) (m g : ℕ) : s.IsSlaveOf g m ↔ G.master m = some g := by
  refine ⟨?_, h.master⟩
  rintro ⟨-, -, z, hz, hslave, rfl⟩
  rw [← propagation_eq hz, h.state, isSlave_ofGroups] at hslave
  obtain ⟨g, hg⟩ := Option.isSome_iff_exists.mp hslave
  rw [← propagation_eq hz, h.state, hg]
  rfl

/-- **Events go along the groups.** -/
theorem hears_iff (h : s.Linked G) (v w : ℕ) :
    (s.links.hears v .side w ↔ w ≠ v ∧ ∃ g, G.peer v = some g ∧ G.peer w = some g) ∧
    (s.links.hears v .down w ↔ ∃ g, G.peer v = some g ∧ G.master w = some g) := by
  simp only [links, h.inPeerGroup_iff, h.isSlaveOf_iff, h.state v, isShared_ofGroups]
  cases G.peer v <;> simp [ofGroups, and_comm]

end Linked

/-- A mount is registered with the groups that it is given. -/
theorem register_groups (hx : s.mounts.get? m = some x) {p : MountPropagation}
    (hs' : s' = (s.setPropagation m p).registerCurrentPropagation m) : s'.propagation m = p ∧
      (p.isShared = true → p.peerGroupId ≠ 0 → s'.InPeerGroup p.peerGroupId m) ∧
      (p.isSlave = true → p.masterGroupId ≠ 0 → s'.IsSlaveOf p.masterGroupId m) := by
  have hget : s'.mounts.get? m = some { x with propagation := p } := by
    rw [hs', (registerCurrentPropagation_frame _ m).1, get?_setPropagation_self hx]
  have hp : (s.setPropagation m p).propagation m = p :=
    propagation_eq (get?_setPropagation_self hx)
  rw [registerCurrentPropagation] at hs'
  refine ⟨propagation_eq hget, fun hshared h0 => ⟨h0, ?_, _, hget, hshared, rfl⟩,
    fun hslave h0 => ⟨h0, ?_, _, hget, hslave, rfl⟩⟩
  · show m ∈ s'.peerList p.peerGroupId
    grind [registerPeer, registerSlave, peerList, mem_relist, get?_insert_self]
  · show m ∈ s'.slaveList p.masterGroupId
    grind [registerSlave, slaveList, mem_relist, get?_insert_self, registerPeer_frame, propagation]

variable {t : PropagationType}

section

variable (h : s.Linked G) (hk : Keeps (s, G) (m, t))
include h hk

/-- What a change does: the mount leaves its groups, if it has to, and is registered with those of
the rule. -/
theorem setPropagationType_eq :
    ∃ u, s.setPropagationType m t = (u.setPropagation m (.ofGroups ((G.change m t).peer m)
        ((G.change m t).master m))).registerCurrentPropagation m ∧
      Touches m s u ∧ u.mounts = s.mounts ∧ u.nextGroupId = (G.change m t).next := by
  obtain ⟨hup, ht, hnext, hslave⟩ : s.upgrade m = true ∧ t ∈ _ ∧ G.next + 1 < 2 ^ 32 ∧
    (t = .slave → G.peer m = none ∨ G.master m = none) := hk
  have hleave : Touches m s ((s.unregisterPeerMount m).unregisterSlaveMount m) :=
    (touches_unregisterPeerMount s).trans (touches_unregisterSlaveMount _)
  have hmounts : ((s.unregisterPeerMount m).unregisterSlaveMount m).mounts = s.mounts := by simp
  have hcount : ((s.unregisterPeerMount m).unregisterSlaveMount m).nextGroupId = G.next := by
    simp [h.next]
  unfold Mounts.setPropagationType
  rw [h.state m]
  generalize (s.unregisterPeerMount m).unregisterSlaveMount m = u at hleave hmounts hcount
  cases t with
  | shared =>
    have hmaster : (if (ofGroups (G.peer m) (G.master m)).isSlave then
        some (ofGroups (G.peer m) (G.master m)).masterGroupId else none) =
        G.master m := by
      rw [isSlave_ofGroups]
      cases G.master m <;> rfl
    dsimp only
    rw [hmaster, isShared_ofGroups]
    cases hp : G.peer m with
    | some g =>
      refine ⟨s, ?_, .refl, rfl, ?_⟩
      · simp [Groups.change, hp, ofGroups, (h.peer hp).1]
      · simp [Groups.change, hp, h.next]
    | none =>
      refine ⟨u.allocateGroupId.2, ?_, hleave.trans touches_allocateGroupId, hmounts, ?_⟩
      · simp [Groups.change, hp, allocateGroupId, hcount]
      · simpa [Groups.change, hp, allocateGroupId, hcount] using hnext
  | slave =>
    refine ⟨u, ?_, hleave, hmounts, hcount⟩
    have h0 : ∀ g, G.peer m = some g ∨ G.master m = some g → g ≠ 0 := fun g hg => (h.lt hg).1.ne'
    dsimp only
    rw [isShared_ofGroups]
    cases hp : G.peer m <;> cases hq : G.master m <;>
      simp_all [Groups.change, ofGroups]
  | priv =>
    refine ⟨u, ?_, hleave, hmounts, hcount⟩
    obtain ⟨x, hx⟩ := upgrade_eq_true_iff.mp hup
    have hp : (u.setPropagation m .newPrivate).propagation m = .newPrivate :=
      propagation_eq (get?_setPropagation_self (hmounts ▸ hx))
    have hshared : newPrivate.isShared = false := rfl
    have hslave : newPrivate.isSlave = false := rfl
    have hgroups : ofGroups none none = .newPrivate := rfl
    simp [Groups.change, registerCurrentPropagation, hgroups, hp, hshared, hslave]
  | _ => simp at ht

/-- **The code follows the rule.** -/
theorem Linked.change : (s.setPropagationType m t).Linked (G.change m t) := by
  obtain ⟨u, heq, htouch, hmounts, hnext⟩ := setPropagationType_eq h hk
  obtain ⟨x, hx⟩ := upgrade_eq_true_iff.mp hk.1
  obtain ⟨hp, hpeer, hmaster⟩ := register_groups (hmounts ▸ hx) heq
  rw [isShared_ofGroups] at hpeer
  rw [isSlave_ofGroups] at hmaster
  have htouch' : Touches m s (s.setPropagationType m t) := by
    rw [heq]
    exact (htouch.trans touches_modify).trans (touches_registerCurrentPropagation _ m)
  have hlt := G.lt_change h.pos h.lt m t
  refine ⟨fun v => ?_, fun {v g} hg => ?_, fun {v g} hg => ?_, ?_, hlt.2, hlt.1⟩
  · by_cases hv : v = m
    · rw [hv, hp]
    · rw [propagation, htouch'.mounts hv, ← propagation, h.state, (G.change_of_ne hv).1,
        (G.change_of_ne hv).2]
  · by_cases hv : v = m
    · rw [hv] at hg ⊢
      rw [hg] at hpeer
      exact hpeer rfl (hlt.2 (.inl hg)).1.ne'
    · rw [(G.change_of_ne hv).1] at hg
      exact (htouch'.inGroup hv).mpr (h.peer hg)
  · by_cases hv : v = m
    · rw [hv] at hg ⊢
      rw [hg] at hmaster
      exact hmaster rfl (hlt.2 (.inr hg)).1.ne'
    · rw [(G.change_of_ne hv).2] at hg
      exact (htouch'.inGroup hv).mpr (h.master hg)
  · rw [heq, (registerCurrentPropagation_frame _ m).2, Mounts.setPropagation, modify_nextGroupId,
      hnext]

end

/-- **The mounts have the groups that the comment gives them, and mount events go along these groups
and nowhere else**, in every run that makes no slave of a shared slave. -/
theorem linked_of_reachable {q : Mounts × Groups} (hq : (changes.restrict Keeps).Reachable q) :
    q.1.Linked q.2 ∧ ∀ v w, (q.1.links.hears v .side w ↔
        w ≠ v ∧ ∃ g, q.2.peer v = some g ∧ q.2.peer w = some g) ∧
      (q.1.links.hears v .down w ↔ ∃ g, q.2.peer v = some g ∧ q.2.master w = some g) := by
  have h : q.1.Linked q.2 := by
    refine hq.invariant (I := fun q => q.1.Linked q.2) (fun _ => id) ?_
    rintro _ _ _ - h ⟨hk, ⟨⟩⟩
    exact h.change hk
  exact ⟨h, h.hears_iff⟩

theorem linked_of_private (hs : ∀ m, s.propagation m = .newPrivate) (hpos : 0 < s.nextGroupId) :
    s.Linked ⟨fun _ => none, fun _ => none, s.nextGroupId⟩ :=
  ⟨hs, by simp, by simp, rfl, by simp, hpos⟩

/-- One private mount. -/
def single : Mounts := (Mounts.init.create (.newWithRoot 0 ⟨0, false⟩ 0)).2

theorem single_linked : single.Linked ⟨fun _ => none, fun _ => none, 1⟩ := by
  refine linked_of_private (fun m => ?_) (by decide)
  by_cases hm : m = 0
  · rw [hm]
    rfl
  · change ((get? (insert _ 0 _) m).map _).getD _ = _
    rw [get?_insert_of_ne _ hm]
    rfl

/-- A mount is made shared, slave and shared again: it has the new peer group 2, and its first group
for a master. -/
theorem linked_single : ∃ q, ((changes.restrict Keeps).Reachable q ∧ q.2.peer 0 = some 2 ∧
    q.2.master 0 = some 1) ∧ q.1.Linked q.2 := by
  obtain ⟨q, hq, hpeer⟩ : ∃ q, (changes.restrict Keeps).Reachable q ∧ q.2.peer 0 = some 2 ∧
      q.2.master 0 = some 1 :=
    System.exists_run_restrict [(0, .shared), (0, .slave), (0, .shared)]
      (s := (single, ⟨fun _ => none, fun _ => none, 1⟩)) single_linked (by decide)
  exact ⟨q, ⟨hq, hpeer⟩, (linked_of_reachable hq).1⟩

/-- **The master is replaced**: the mount is made a slave again, and the comment lets it keep the
master 1.  It gets the group 2 that it leaves, in which there is no other mount, and is a slave of
the group 1 no more. -/
theorem master_replaced : ∃ q, changes.Reachable q ∧ q.2.master 0 = some 1 ∧
    q.1.propagation 0 = .ofGroups none (some 2) ∧ 0 ∉ (q.1.getSlaves 1).1 :=
  System.exists_run [(0, .shared), (0, .slave), (0, .shared), (0, .slave)]
    (s := (single, ⟨fun _ => none, fun _ => none, 1⟩)) single_linked (by decide)

end Mounts
end MangoCore.Fs.Mount
