import MangoCore.Fs.MountRegistry

/-!
# Replicas of a mount

One call of `propagateToMount` on a mount that has nothing at the mountpoint yet adds one new mount
there, and touches nothing else.  `propagateToMount_spec` says so, with what the replica looks like
and which groups it gets.
-/

namespace MangoCore.Fs.Mount.Mounts

open MountFlags MountPropagation MountFS Mounts

/-- The groups of a replica of a mount in the group `group`: a slave also gets a new group when the
mount it is on is shared. -/
def Placed (asSlave : Bool) (group next : ℕ) (p : MountPropagation) : Prop :=
  if asSlave then p.masterGroupId = group ∧ (p.peerGroupId = 0 ∨ next ≤ p.peerGroupId)
  else p.peerGroupId = group ∧ p.masterGroupId = 0

variable {s : Mounts} {mountpointId t : ℕ} {x : MountFS} {inode : Inode} {s' : Mounts} {k : ℕ}
  {asSlave : Bool} {z c : MountFS} {group : ℕ} {g : ℕ}

/-- The membership of a replica touches the replica alone. -/
theorem finishPropagatedMount_spec {n : ℕ}
    (hx : s.mounts.get? n = some x) (hnext : s.nextGroupId + 1 < 2 ^ 32) :
    let s' := s.finishPropagatedMount n t group asSlave
    Touches n s s' ∧ (∃ p, s'.mounts.get? n = some { x with propagation := p } ∧ Placed asSlave
      group s.nextGroupId p) ∧ s.nextGroupId ≤ s'.nextGroupId ∧ s'.nextGroupId ≤ s.nextGroupId + 1
      := by
  unfold finishPropagatedMount
  have h₁ : Touches n s ((s.unregisterPeerMount n).unregisterSlaveMount n) :=
    (touches_unregisterPeerMount s).trans (touches_unregisterSlaveMount _)
  have hx₁ : ((s.unregisterPeerMount n).unregisterSlaveMount n).mounts.get? n = some x := by
    simpa using hx
  have hnext₁ : ((s.unregisterPeerMount n).unregisterSlaveMount n).nextGroupId = s.nextGroupId := by
    simp
  generalize (s.unregisterPeerMount n).unregisterSlaveMount n = s₁ at h₁ hx₁ hnext₁
  cases asSlave with
  | true =>
    rw [if_pos rfl]
    -- the replica on a shared mount gets a group of its own
    have h₂ : ∃ peer s₂, (if (s₁.propagation t).isShared then
          ((some s₁.allocateGroupId.1 : Option ℕ), s₁.allocateGroupId.2)
        else (none, s₁)) = (peer, s₂) ∧ Touches n s₁ s₂ ∧ s₂.mounts = s₁.mounts ∧
        s.nextGroupId ≤ s₂.nextGroupId ∧ s₂.nextGroupId ≤ s.nextGroupId + 1 ∧
        (peer = none ∨ peer = some s.nextGroupId) := by
      split_ifs
      · grind [allocateGroupId, touches_allocateGroupId]
      · exact ⟨_, _, rfl, .refl, rfl, by omega, by omega, .inl rfl⟩
    obtain ⟨peer, s₂, heq, htouch, hmounts, hle, hge, hpeer⟩ := h₂
    rw [heq]
    refine ⟨?_, ⟨.ofGroups peer (if group ≠ 0 then some group else none), ?_, ?_⟩, ?_, ?_⟩
    · exact ((h₁.trans htouch).trans touches_modify).trans (touches_registerCurrentPropagation _ n)
    · simp [hmounts, hx₁, get?_setPropagation_self]
    · unfold Placed ofGroups
      rw [if_pos rfl]
      grind
    · simpa [setPropagation] using hle
    · simpa [setPropagation] using hge
  | false =>
    rw [if_neg (by decide)]
    split_ifs
    · refine ⟨(h₁.trans touches_modify).trans (touches_registerPeer _), ⟨setSharedWithGroup
          { s₁.propagation n with peerGroupId := 0, masterGroupId := 0 } group, ?_, ?_⟩, ?_⟩
      · rw [(registerPeer_frame ..).1]
        exact get?_setPropagation_self hx₁
      · simp [Placed, setSharedWithGroup]
      · simp [setPropagation, hnext₁]
    · refine ⟨h₁.trans touches_modify, ⟨_, get?_setPropagation_self hx₁, ?_⟩, ?_⟩
      · grind [Placed]
      · simp [setPropagation, hnext₁]

/-! ## One replica -/

/-- `z` shows on `t` what `y` shows where it is. -/
structure IsReplica (mountpointId : ℕ) (y : MountFS) (t : ℕ) (z : MountFS) : Prop where
  lifecycle : z.lifecycle = y.lifecycle
  rootInnerInode : z.rootInnerInode = y.rootInnerInode
  mountpoints : z.mountpoints = .empty
  selfMountpoint : ∃ inode, z.selfMountpoint = some (inode, t) ∧ inode.inodeId = mountpointId

/-- **One mount more.**  The new mount `z` sits at the mountpoint of `t`, and nothing else has
changed. -/
structure Adds (s : Mounts) (t mountpointId : ℕ) (z : MountFS) (s' : Mounts) :
    Prop where
  target : ∀ {x}, s.mounts.get? t = some x → s'.mounts.get? t =
    some { x with mountpoints := x.mountpoints.insert mountpointId s.nextMount }
  new : s'.mounts.get? s.nextMount = some z
  mounts : ∀ {m}, m ≠ t → m ≠ s.nextMount → s'.mounts.get? m = s.mounts.get? m
  nextMount : s'.nextMount = s.nextMount + 1
  inGroup : ∀ {hop group m}, m ≠ s.nextMount → (s'.InGroup hop group m ↔ s.InGroup hop group m)
  listsOk : s'.ListsOk

/-- A new object that is put into the table of `t`, before its groups are set. -/
def attach (s : Mounts) (t mountpointId : ℕ) (z : MountFS) : Mounts :=
  (s.create z).2.modify t fun x =>
    { x with mountpoints := x.mountpoints.insert mountpointId s.nextMount }

theorem get?_attach (t mountpointId : ℕ) (z : MountFS) (hlt : t < s.nextMount) (m : ℕ) :
    (s.attach t mountpointId z).mounts.get? m =
      if m = s.nextMount then some z
      else if m = t then (s.mounts.get? t).map fun x =>
        { x with mountpoints := x.mountpoints.insert mountpointId s.nextMount }
      else s.mounts.get? m := by
  unfold attach create
  grind [get?_modify, OrdMap.get?_insert]

theorem attach_listed {hop : Hop} : (s.attach t mountpointId z).listed hop g = s.listed hop g := by
  unfold attach
  rw [modify_listed]
  cases hop <;> rfl

theorem adds_of_touches (hs : s.ListsOk) {z' : MountFS} (hx : s.mounts.get? t = some x)
    (h : Touches s.nextMount (s.attach t mountpointId z) s')
    (hz' : s'.mounts.get? s.nextMount = some z') : Adds s t mountpointId z' s' := by
  have hlt := hs.mounts_lt hx
  have hget := get?_attach t mountpointId z hlt
  have hpropagation : ∀ m, m ≠ s.nextMount →
      ((s.attach t mountpointId z).mounts.get? m).map MountFS.propagation =
        (s.mounts.get? m).map MountFS.propagation := by
    intro m hm
    rw [hget, if_neg hm]
    by_cases hmt : m = t
    · rw [if_pos hmt, hmt, hx]; rfl
    · rw [if_neg hmt]
  refine ⟨?_, hz', ?_, ?_, ?_, ?_⟩
  · grind [h.mounts]
  · intro m hmt hm
    rw [h.mounts hm, hget, if_neg hm, if_neg hmt]
  · rw [h.nextMount]
    simp [attach, create]
  · intro hop g m hm
    exact (h.inGroup hm).trans (inGroup_congr (hpropagation m hm) (by rw [attach_listed]))
  · refine h.listsOk ⟨?_, ?_, ?_⟩ (by simp [attach, create])
    · intro m y hy
      have hnext : (s.attach t mountpointId z).nextMount = s.nextMount + 1 := by
        simp [attach, create]
      rw [hget] at hy
      rw [hnext]
      split_ifs at hy with hm
      any_goals omega
      · exact Nat.lt_succ_of_lt (hs.mounts_lt hy)
    · intro hop g; rw [attach_listed]; exact hs.nodup hop g
    · intro hop g m hm
      rw [attach_listed] at hm
      have := hs.lt hm
      simp only [attach, create, modify_nextMount]
      omega

theorem findChildMountById_eq (hx : s.mounts.get? t = some x)
    : s.findChildMountById t mountpointId = x.mountpoints.get? mountpointId := by
  simp [findChildMountById, hx]

/-- A mountpoint that is free takes the new mount. -/
theorem addMount_create (hs : s.ListsOk)
    (hx : s.mounts.get? t = some x) (hfree : x.mountpoints.get? mountpointId = none) (z : MountFS) :
    (s.create z).2.addMount t mountpointId (s.create z).1 = .ok (s.attach t mountpointId z) := by
  have hlt := hs.mounts_lt hx
  have hget : (s.create z).2.mounts.get? t = some x := by grind [create, OrdMap.get?_insert_of_ne]
  unfold addMount attach
  rw [findChildMountById_eq hget, hfree]
  rfl

/-- The object that `mount_subtree_inner` makes. -/
theorem mountSubtreeInner_spec (hs : s.ListsOk) {parent : ℕ} (hx : s.mounts.get? parent = some x)
    (hfree : x.mountpoints.get? inode.inodeId = none) (hdir : inode.isDir = true)
    (hnext : s.nextGroupId + 1 < 2 ^ 32) {lifecycle : ℕ} {root : Inode} {flags : MountFlags} :
    ∃ k z, s.nextGroupId ≤ k ∧ k ≤ s.nextGroupId + 1 ∧
      s.mountSubtreeInner inode parent lifecycle root flags =
        (.ok s.nextMount, attach { s with nextGroupId := k } parent inode.inodeId z) ∧
      (0 < k → z.propagation.peerGroupId < k) ∧ z.lifecycle = lifecycle ∧ z.rootInnerInode = root ∧
      z.mountpoints = .empty ∧ z.selfMountpoint = some (inode, parent) := by
  have hgroup : ∃ k p, s.nextGroupId ≤ k ∧ k ≤ s.nextGroupId + 1 ∧ (0 < k → p.peerGroupId < k) ∧
      (if (s.propagation parent).isShared then
        (newPrivate.setSharedWithGroup s.allocateGroupId.1, s.allocateGroupId.2)
      else (newPrivate, s)) = (p, { s with nextGroupId := k }) := by
    split_ifs
    · refine ⟨s.nextGroupId + 1, _, by omega, le_rfl, fun _ => Nat.lt_succ_self _, Prod.ext rfl ?_⟩
      unfold allocateGroupId
      rw [Nat.mod_eq_of_lt hnext]
    · exact ⟨s.nextGroupId, _, le_rfl, by omega, id, rfl⟩
  obtain ⟨k, p, hle, hge, hp, heq⟩ := hgroup
  refine ⟨k, ⟨lifecycle, root, flags, .empty, some (inode, parent), p⟩, hle, hge, ?_, hp, rfl, rfl,
    rfl, rfl⟩
  have hs' : ListsOk { s with nextGroupId := k } := ⟨hs.1, hs.2, hs.3⟩
  unfold mountSubtreeInner
  rw [hdir, if_neg (by decide)]
  rw [heq]
  dsimp only
  rw [addMount_create hs' hx hfree]
  rfl

theorem adds_nextGroupId
    (h : Adds { s with nextGroupId := k } t mountpointId z s') : Adds s t mountpointId z s' :=
  ⟨h.1, h.2, h.3, h.4, h.5, h.6⟩

theorem Placed.mono {next next' : ℕ} {p : MountPropagation}
    (h : Placed asSlave group next' p) (hle : next ≤ next') : Placed asSlave group next p := by
  grind [Placed]

variable (hs : s.ListsOk) (hx : s.mounts.get? t = some x)
include hs hx

/-- The last steps of `propagateToMount`, on either of its paths. -/
theorem attach_finishPropagatedMount (hk : k + 1 < 2 ^ 32)
    (hz : IsReplica mountpointId c t z) (group : ℕ) (asSlave : Bool) :
    ∃ z' s', (attach { s with nextGroupId := k } t mountpointId z).finishPropagatedMount
        s.nextMount t group asSlave = s' ∧ Adds s t mountpointId z' s' ∧
      IsReplica mountpointId c t z' ∧ Placed asSlave group k z'.propagation ∧
      k ≤ s'.nextGroupId ∧ s'.nextGroupId ≤ k + 1 := by
  have hs' : ListsOk { s with nextGroupId := k } := ⟨hs.1, hs.2, hs.3⟩
  have hget := get?_attach (s := { s with nextGroupId := k }) t mountpointId z (hs.mounts_lt hx)
    s.nextMount
  rw [if_pos rfl] at hget
  have hnext : (attach { s with nextGroupId := k } t mountpointId z).nextGroupId = k := by
    simp [attach, create]
  obtain ⟨htouch, ⟨p, hp, hplaced⟩, hle, hge⟩ :=
    finishPropagatedMount_spec hget (by omega)
  rw [hnext] at hplaced hle hge
  exact ⟨_, _, rfl, adds_nextGroupId (adds_of_touches hs' hx htouch hp),
    ⟨hz.1, hz.2, hz.3, hz.4⟩, hplaced, hle, hge⟩

/-- **One replica.**  On a mount with nothing at the mountpoint, `propagateToMount` adds one mount
there, which shows what the given one shows, and touches nothing else. -/
theorem propagateToMount_spec {child u : ℕ}
    (hc : s.mounts.get? child = some c) (hself : c.selfMountpoint = some (inode, u))
    (hinode : inode.inodeId = mountpointId) (hfree : x.mountpoints.get? mountpointId = none)
    (hdir : x.rootInnerInode.inodeId = mountpointId → x.rootInnerInode.isDir = true)
    (hnext : s.nextGroupId + 2 < 2 ^ 32) :
    ∃ z s', s.propagateToMount t mountpointId child group asSlave = (some s.nextMount, s') ∧
      Adds s t mountpointId z s' ∧ IsReplica mountpointId c t z ∧
      Placed asSlave group s.nextGroupId z.propagation ∧
      s.nextGroupId ≤ s'.nextGroupId ∧ s'.nextGroupId ≤ s.nextGroupId + 2 := by
  unfold propagateToMount
  rw [hx, hc]
  dsimp only
  have hlt := hs.mounts_lt hx
  by_cases hroot : x.rootInnerInode.inodeId = mountpointId
  · -- the mountpoint is the root of the target
    rw [if_pos hroot]
    obtain ⟨k, z, hle, hge, heq, -, hlifecycle, hinner, hempty, hon⟩ :=
      mountSubtreeInner_spec hs hx (hroot ▸ hfree) (hdir hroot) (by omega)
    rw [heq]
    obtain ⟨z, s', hs', hadds, hreplica, hplaced, hle', hge'⟩ :=
      attach_finishPropagatedMount hs hx (by omega : k + 1 < 2 ^ 32)
        ⟨hlifecycle, hinner, hempty, x.rootInnerInode, hon, hroot⟩ group asSlave
    grind [hplaced.mono]
  · rw [if_neg hroot, hself, Option.map_some, Option.getD_some]
    have hnew : IsReplica mountpointId c t ⟨c.lifecycle, c.rootInnerInode,
        canonicalizeState (persistent c.mountFlags), .empty, some (inode, t), newPrivate⟩ :=
      ⟨rfl, rfl, rfl, inode, rfl, hinode⟩
    obtain ⟨z, s', hs', hadds, hreplica, hplaced, hle', hge'⟩ :=
      attach_finishPropagatedMount hs hx (by omega : s.nextGroupId + 1 < 2 ^ 32) hnew group asSlave
    refine ⟨z, s', ?_, hadds, hreplica, hplaced, by omega, by omega⟩
    rw [addMount_create hs hx hfree, ← hs']
    rfl

end MangoCore.Fs.Mount.Mounts
