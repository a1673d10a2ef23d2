import MangoCore.Fs.MountUnmount

/-!
# A mount and its replicas

`propagateMount` gives one replica, at the mountpoint, to every other member of the peer group and
to every mount reachable through slave links, and changes no other mount; `umount` takes exactly
these away again.  This holds of the mounts that are `Regular`.

The limit on the mounts that pass the event on is the code's own: after 32 mounts the walk stops, so
that in a chain of slaves the event does not get to the thirty-third.
-/

namespace MangoCore.Fs.Mount.Mounts

open List OrdMap

variable {s : Mounts} {v t : ℕ} {via : List ℕ}

/-- **One replica for every mount that receives the event.**  The replica is a new object that shows
what `y` shows, sits at the mountpoint of its receiver, and is all that has changed there; nothing
else has changed, and there is no other new object. -/
structure Replicated (s₀ : Mounts) (source mountpointId : ℕ) (y : MountFS) (replica : ℕ → ℕ)
    (s : Mounts) : Prop where
  receiver : ∀ {t x}, s₀.Receives source t → s₀.mounts.get? t = some x →
    s.mounts.get? t = some { x with mountpoints := x.mountpoints.insert mountpointId (replica t) }
  isReplica : ∀ {t}, s₀.Receives source t → s₀.mounts.get? (replica t) = none ∧
    ∃ z, s.mounts.get? (replica t) = some z ∧ IsReplica mountpointId y t z
  other : ∀ {m x}, ¬ s₀.Receives source m → s₀.mounts.get? m = some x → s.mounts.get? m = some x
  new : ∀ {n z}, s.mounts.get? n = some z → s₀.mounts.get? n = none →
    ∃ t, s₀.Receives source t ∧ n = replica t
  injective : ∀ {t t'}, s₀.Receives source t → s₀.Receives source t' → replica t = replica t' →
    t = t'

/-- **Exactly the replicas are taken away.**  Every mount is as it was before the mount event, but
for the entry of the mount itself; the replicas and the mount are in no table and in no group. -/
structure Restored (s₀ : Mounts) (source mountpointId child : ℕ) (replica : ℕ → ℕ) (s : Mounts) :
    Prop where
  other : ∀ {m x}, m ≠ source → m ≠ child → s₀.mounts.get? m = some x → s.mounts.get? m = some x
  parent : ∀ {x}, s₀.mounts.get? source = some x →
    s.mounts.get? source = some { x with mountpoints := x.mountpoints.erase mountpointId }
  removed : ∃ y, s.mounts.get? child = some y ∧ y.selfMountpoint = none ∧ y.mountpoints = .empty ∧
    ∀ group, ¬ s.InPeerGroup group child ∧ ¬ s.IsSlaveOf group child
  replicas : ∀ {t}, s₀.Receives source t → ∃ z, s.mounts.get? (replica t) = some z ∧
    z.selfMountpoint = none ∧ z.mountpoints = .empty ∧
    ∀ group, ¬ s.InPeerGroup group (replica t) ∧ ¬ s.IsSlaveOf group (replica t)

section Result

variable {s₀ s : Mounts} {source mountpointId child : ℕ} {y : MountFS} {pairs : List (ℕ × ℕ)}

/-- The replica of a mount, as the walk has recorded it. -/
def replicaOf (pairs : List (ℕ × ℕ)) (t : ℕ) : ℕ :=
  ((pairs.find? fun p => p.1 = t).map Prod.snd).getD 0

theorem mem_replicaOf (h : t ∈ pairs.map Prod.fst) : (t, replicaOf pairs t) ∈ pairs := by
  unfold replicaOf
  cases hf : pairs.find? fun p => p.1 = t with
  | _ => grind

theorem Replicating.replicated (hs : s₀.ListsOk)
    (h : Replicating s₀ source mountpointId child y pairs s)
    (hmem : ∀ t, t ∈ pairs.map Prod.fst ↔ s₀.Receives source t) :
    Replicated s₀ source mountpointId y (replicaOf pairs) s where
  receiver ht hx := h.handled (mem_replicaOf ((hmem _).mpr ht)) hx
  isReplica {t} ht := by
    obtain ⟨hle, z, hz, hreplica, -⟩ := h.replica (mem_replicaOf ((hmem t).mpr ht))
    refine ⟨?_, z, hz, hreplica⟩
    cases hx : s₀.mounts.get? (replicaOf pairs t) with
    | none => rfl
    | some x =>
      have := hs.mounts_lt hx
      omega
  other hm hx := h.rest (fun hin => hm ((hmem _).mp hin)) hx
  new {n z} hz hn := by
    obtain ⟨t, ht⟩ := (h.fresh hz).resolve_left (by rw [hn]; simp)
    have hin : t ∈ pairs.map Prod.fst := mem_map.mpr ⟨_, ht, rfl⟩
    grind [inj_on_of_nodup_map, h.nodup, mem_replicaOf]
  injective {t t'} ht ht' heq := by grind [mem_replicaOf, h.injective]

variable (hnew : NewMount s₀ source mountpointId child y) (hs : s₀.ListsOk)
  (hreg : Regular s₀ source mountpointId y)
include hnew hs hreg

/-- The state in which the unmount starts its walk. -/
theorem Replicating.mounted (h : Replicating s₀ source mountpointId child y pairs s)
    (hmem : ∀ t, t ∈ pairs.map Prod.fst ↔ s₀.Receives source t) :
    Mounted s₀ source mountpointId child y pairs
      ((s.registerCurrentPropagation child).removeMount source mountpointId) := by
  obtain ⟨x₀, hx₀, htable⟩ := hnew.exists_source
  have hsource : source ∉ pairs.map Prod.fst := fun hin => (h.receives hin).1 rfl
  have hchild : child ∉ pairs.map Prod.fst := by
    intro hin
    obtain ⟨-, via, hop, v, -, hears⟩ := h.receives hin
    exact hnew.not_hears hears
  have hget : ∀ m,
      ((s.registerCurrentPropagation child).removeMount source mountpointId).mounts.get? m =
        if m = source then (s.mounts.get? source).map fun x =>
          { x with mountpoints := x.mountpoints.erase mountpointId } else s.mounts.get? m := by
    intro m
    unfold removeMount
    rw [get?_modify, (registerCurrentPropagation_frame ..).1]
  have hne : ∀ {t n}, (t, n) ∈ pairs → n ≠ source := by
    intro t n htn
    have := (h.replica htn).1
    have := hs.mounts_lt hx₀
    omega
  have hreg₁ := touches_registerCurrentPropagation s child
  have hgroups : ∀ m,
      (((s.registerCurrentPropagation child).removeMount source mountpointId).mounts.get? m).map
        MountFS.propagation =
      ((s.registerCurrentPropagation child).mounts.get? m).map MountFS.propagation := by
    intro m
    rw [hget, (registerCurrentPropagation_frame ..).1]
    split_ifs with hm
    · rw [hm, Option.map_map]; rfl
    · rfl
  refine ⟨h.nodup, hmem, ?_, ?_, ?_, ?_, h.injective, ?_, ?_, ?_⟩
  · intro x hx
    rw [hget, if_pos rfl, h.rest hsource hx]
    rfl
  · grind [h.handled]
  · intro m x hm hms hx
    rw [hget, if_neg hms, h.rest hm hx]
  · intro t n htn
    obtain ⟨hle, z, hz, hreplica, via', v', hop', d, hv', hears', hd, hplaced⟩ := h.replica htn
    refine ⟨hle, z, by rw [hget, if_neg (hne htn), hz], hreplica, ?_⟩
    intro via v hop group hv hears hgroup
    have hts : t ≠ source := (h.receives (mem_map.mpr ⟨_, htn, rfl⟩)).1
    -- the route by which the walk comes is the one by which the replica was made
    obtain ⟨rfl, rfl⟩ := hreg.routes t hts via via' hop hop'
      (by simpa using hv.reaches (Links.reaches_nil hears))
      (by simpa using hv'.reaches (Links.reaches_nil hears'))
    obtain rfl := hv.end_unique hv'
    have hdg : d.2 = group := by
      obtain ⟨w, hw, -, hwg⟩ := hd.record
      rw [← hwg]
      rcases hgroup with ⟨rfl, rfl⟩ | ⟨n', z', hn', hz', rfl⟩
      · grind [hd.find, findChildMountById_eq, h.rest, hnew.record]
      · have hvr := h.receives (mem_map.mpr ⟨_, hn', rfl⟩)
        obtain ⟨x, hx⟩ := exists_of_receives hvr
        have hfind := hd.find
        rw [findChildMountById_eq (h.handled hn' hx)] at hfind
        grind [get?_insert_self]
    cases hop with
    | side => exact .inl (hplaced.1.trans hdg)
    | down => exact .inr (hplaced.1.trans hdg)
  · grind [h.fresh]
  · intro hop group m hlt hmc
    exact ((inGroup_congr (hgroups m) (by simp [removeMount])).trans
      (hreg₁.inGroup hmc)).trans (h.inGroup hlt)
  · have hlists := hreg₁.listsOk h.listsOk (h.listsOk.mounts_lt (h.rest hchild hnew.record))
    refine touches_modify.listsOk hlists ?_
    rw [hreg₁.nextMount]
    exact h.listsOk.mounts_lt (h.rest hsource hx₀)

/-- **What `propagateUmount` has done when it returns.** -/
theorem propagateUmount_spec {s₁ : Mounts} (hm : Mounted s₀ source mountpointId child y pairs s₁)
    (hchild : s₁.mounts.get? child = some y) :
    ∃ done, Unmounting s₁ mountpointId pairs done (s₁.propagateUmount source mountpointId child) ∧
      ∀ t, t ∈ done ↔ s₀.Receives source t := by
  obtain ⟨x₀, hx₀, -⟩ := hnew.exists_source
  unfold propagateUmount
  rw [propagateUmountInner_eq]
  by_cases hshared : (s₀.propagation source).isShared = true
  · obtain ⟨done, ⟨-, h⟩, hmem⟩ := Walker.visit_source (umountWalker_follows hnew hs hreg hm)
      hreg.routes hreg.limit hshared (d := (s₁.propagation child).peerGroupId)
      ⟨fun _ hu => absurd hu not_mem_nil, .start hm.listsOk⟩
      (.inl ⟨rfl, by rw [Mounts.propagation_eq hchild]⟩)
    exact ⟨done, h, hmem⟩
  · obtain ⟨x', hx', hp⟩ := hm.exists_record hx₀
    refine ⟨[], ?_, fun t => ?_⟩
    · grind [Walker.visit, umountWalker, propagation_eq, Unmounting.start, Mounted.listsOk]
    · exact iff_of_false not_mem_nil (not_receives_of_not_shared hshared)

/-- The unmount of a mount that has been propagated. -/
theorem Replicating.restored (h : Replicating s₀ source mountpointId child y pairs s)
    (hmem : ∀ t, t ∈ pairs.map Prod.fst ↔ s₀.Receives source t) :
    ∃ s', (s.registerCurrentPropagation child).umount child = .ok s' ∧
      Restored s₀ source mountpointId child (replicaOf pairs) s' := by
  have hm := h.mounted hnew hs hreg hmem
  obtain ⟨inode, hself, hinode⟩ := hnew.selfMountpoint
  have hnr : ¬ s₀.Receives source child := by
    rintro ⟨-, via, hop, v, -, hears⟩
    exact hnew.not_hears hears
  have hcs := hnew.ne_source
  have hchild := hm.rest (fun hin => hnr ((hmem child).mp hin)) hcs hnew.record
  have hrec : (s.registerCurrentPropagation child).mounts.get? child = some y := by
    simp [hnr, hmem, h.rest, hnew.record]
  obtain ⟨done, hu, hdone⟩ := propagateUmount_spec hnew hs hreg hm hchild
  refine ⟨(((s.registerCurrentPropagation child).removeMount source mountpointId).propagateUmount
    source mountpointId child).forget child, ?_, ?_⟩
  · grind [umount, empty, NewMount.mountpoints]
  generalize (s.registerCurrentPropagation child).removeMount source mountpointId = s₁
    at hm hchild hu
  generalize s₁.propagateUmount source mountpointId child = s₂ at hu
  have htouch := touches_forget s₂ child
  have hrest : ∀ {m}, ¬ s₀.Receives source m → (∀ t, (t, m) ∉ pairs) →
      s₂.mounts.get? m = s₁.mounts.get? m := fun hr hp =>
    hu.rest (fun hin => hr ((hdone _).mp hin)) fun t _ => hp t
  refine ⟨?_, ?_, ?_, ?_⟩
  · intro m x hms hmc hx
    rw [htouch.mounts hmc]
    by_cases hr : s₀.Receives source m
    · have htn := mem_replicaOf ((hmem m).mpr hr)
      rw [hu.receiver htn ((hdone m).mpr hr) (hm.receiver htn hx)]
      rw [erase_insert_self (by rw [← findChildMountById_eq hx]; exact hreg.free m hr)]
    · grind [Mounted.not_replica, Mounted.rest]
  · intro x hx
    rw [htouch.mounts hcs.symm, hrest (fun hr => hr.1 rfl) (hm.not_replica hs hx)]
    exact hm.parent hx
  · have hy : s₂.mounts.get? child = some y := by
      rw [hrest hnr (hm.not_replica hs hnew.record)]
      exact hchild
    simp [hy, get?_forget_self, not_inGroup_forget]
  · intro t ht
    have htn := mem_replicaOf ((hmem t).mpr ht)
    obtain ⟨hle, z, hz, -⟩ := hm.replica htn
    obtain ⟨hgone, hgroups⟩ := hu.gone htn ((hdone t).mpr ht) hz
    have hne : replicaOf pairs t ≠ child := by
      have := hs.mounts_lt hnew.record
      omega
    simp [hne, hgone, hgroups, htouch.mounts, htouch.inGroup]

end Result

/-! ## The callers -/

section Callers

variable {inode : Inode} {parent : ℕ} {x : MountFS}

/-- Choosing the groups of a new mount leaves it unregistered. -/
theorem NewMount.setPropagation {source mountpointId child : ℕ} {y : MountFS} {s' : Mounts}
    {p : MountPropagation} (h : NewMount s source mountpointId child y) (hs : s.WellFormed)
    (htouch : Touches child s s') (hmounts : s'.mounts = s.mounts)
    (hgroup : s'.nextGroupId = s.nextGroupId) (hp : p.peerGroupId < s.nextGroupId)
    (hlisted : ∀ {hop g m}, m ∈ s'.listed hop g → m ∈ s.listed hop g) :
    (s'.setPropagation child p).WellFormed ∧ NewMount (s'.setPropagation child p) source
      mountpointId child { y with propagation := p } := by
  have htouch' : Touches child s (s'.setPropagation child p) := htouch.trans touches_modify
  have hrec := get?_setPropagation_self (p := p)
    (hmounts ▸ h.record : s'.mounts.get? child = some y)
  refine ⟨⟨htouch'.listsOk hs.toListsOk (hs.mounts_lt h.record), fun {m x} hm => ?_⟩,
    hrec, h.mountpoints, h.selfMountpoint, ?_, fun hop group hmem => ?_⟩
  · have hnext : (s'.setPropagation child p).nextGroupId = s.nextGroupId := by
      simp [Mounts.setPropagation, hgroup]
    rw [hnext]
    by_cases hmc : m = child
    · rw [hmc, hrec] at hm
      cases hm
      exact hp
    · rw [htouch'.mounts hmc] at hm
      exact hs.groups_lt hm
  · rw [findChildMountById, htouch'.mounts h.ne_source.symm]
    exact h.table
  · rw [Mounts.setPropagation, modify_listed] at hmem
    exact h.not_listed hop group (hlisted hmem)

section

variable (hs : s.WellFormed) (hx : s.mounts.get? parent = some x)
  (hfree : x.mountpoints.get? inode.inodeId = none) (hdir : inode.isDir = true)
  (hnext : s.nextGroupId + 1 < 2 ^ 32) (flags : MountFlags)
include hs hx hfree hdir hnext

/-- **`mount_subtree_inner` leaves a new mount that is ready to be propagated.** -/
theorem newMount_mountSubtreeInner (lifecycle : ℕ) (root : Inode) :
    ∃ s' y, s.mountSubtreeInner inode parent lifecycle root flags = (.ok s.nextMount, s') ∧
      s.nextGroupId ≤ s'.nextGroupId ∧ s'.WellFormed ∧
      NewMount s' parent inode.inodeId s.nextMount y := by
  obtain ⟨k, y, hle, -, heq, hp, -, -, hempty, hself⟩ :=
    mountSubtreeInner_spec hs.toListsOk hx hfree hdir hnext
  have hpos : 0 < k := (Nat.zero_le _).trans_lt ((hs.groups_lt hx).trans_le hle)
  have hs' : ListsOk { s with nextGroupId := k } := ⟨hs.1.1, hs.1.2, hs.1.3⟩
  have hget := get?_attach (s := { s with nextGroupId := k }) parent inode.inodeId y
    (hs.mounts_lt hx)
  have hadds := adds_of_touches hs' hx .refl ((hget _).trans (if_pos rfl))
  have hk : (attach { s with nextGroupId := k } parent inode.inodeId y).nextGroupId = k := by
    simp [attach, create]
  refine ⟨_, y, heq, hle.trans_eq hk.symm, ⟨hadds.listsOk, fun {m z} hz => ?_⟩,
    ⟨hadds.new, hempty, ⟨inode, hself, rfl⟩, ?_, fun hop group hmem => ?_⟩⟩
  · rw [hk]
    rw [hget] at hz
    split_ifs at hz
    · cases hz
      exact hp hpos
    · change (s.mounts.get? parent).map _ = _ at hz
      rw [hx] at hz
      cases hz
      exact (hs.groups_lt hx).trans_le hle
    · exact (hs.groups_lt hz).trans_le hle
  · rw [findChildMountById_eq (hadds.target hx)]
    exact get?_insert_self ..
  · rw [attach_listed] at hmem
    exact absurd (hs'.lt hmem) (lt_irrefl _)

/-- **So does a bind mount**, with the groups of its source. -/
theorem newMount_bindUnregistered {sourceMount : ℕ} {src : MountFS}
    (hsrc : s.mounts.get? sourceMount = some src)
    (hbind : src.propagation.propType ≠ .unbindable) (sourceInner : Inode) :
    ∃ s' y, s.bindUnregistered sourceMount sourceInner inode parent flags =
        (.ok s.nextMount, s') ∧ s'.WellFormed ∧ NewMount s' parent inode.inodeId s.nextMount y := by
  obtain ⟨s₁, y, heq, hle, hs₁, hnew⟩ := newMount_mountSubtreeInner hs hx hfree hdir hnext flags
    src.lifecycle sourceInner
  unfold bindUnregistered
  rw [hsrc]
  dsimp only
  rw [if_neg hbind, heq]
  refine ⟨_, _, rfl, hnew.setPropagation hs₁ (((touches_unregisterPeerMount s₁).trans
    (touches_unregisterPeerMount _)).trans (touches_unregisterSlaveMount _)) (by simp) (by simp) ?_
    fun hmem => mem_of_mem_unregisterPeerMount s₁ (mem_of_mem_unregisterPeerMount _
      (mem_of_mem_unregisterSlaveMount _ hmem))⟩
  have hsrc' := (hs.groups_lt hsrc).trans_le hle
  have hy := hs₁.groups_lt hnew.record
  have hpeer : (s₁.unregisterPeerMount s.nextMount).propagation s.nextMount = y.propagation :=
    propagation_eq (by simp [hnew.record])
  dsimp only [MountPropagation.ofGroups, bindGroups]
  rw [hpeer]
  split_ifs
  · exact hsrc'
  · exact hy
  · exact Nat.zero_lt_of_lt hsrc'

end

end Callers

/-- **A mount event reaches every other member of the peer group and every mount reachable through
slave links, once each, and no other mount; the unmount takes exactly these replicas away.** -/
theorem replicas_of_propagateMount {s : Mounts} {source mountpointId child : ℕ} {y : MountFS}
    (hs : s.WellFormed) (hnew : NewMount s source mountpointId child y)
    (hreg : Regular s source mountpointId y) : ∃ replica : ℕ → ℕ,
      Replicated s source mountpointId y replica (s.propagateMount source mountpointId child) ∧
      ∃ s', ((s.propagateMount source mountpointId child).registerCurrentPropagation child).umount
          child = .ok s' ∧ Restored s source mountpointId child replica s' := by
  obtain ⟨pairs, h, hmem⟩ := propagateMount_spec hnew hs hreg
  exact ⟨replicaOf pairs, h.replicated hs.toListsOk hmem, h.restored hnew hs.toListsOk hreg hmem⟩

/-! ## A family of mounts -/

theorem hears_side_iff :
    s.links.hears v .side t ↔ (s.propagation v).isShared = true ∧ t ∈ s.getPeers v :=
  and_congr_right fun _ => mem_getPeers.symm

theorem hears_down_iff : s.links.hears v .down t ↔ (s.propagation v).isShared = true ∧
      t ∈ (s.getSlaves (s.propagation v).peerGroupId).1 :=
  and_congr_right fun _ => mem_getSlaves.symm

/-- `WellFormed`, as a computation. -/
def isWellFormed (s : Mounts) : Bool :=
  (s.mounts.entries.all fun e =>
      e.1 < s.nextMount && e.2.propagation.peerGroupId < s.nextGroupId) &&
    (s.peerGroups.entries.all fun e => decide e.2.Nodup && e.2.all fun m => m < s.nextMount) &&
    (s.slaveGroups.entries.all fun e => decide e.2.Nodup && e.2.all fun m => m < s.nextMount)

theorem lists_of_entries {groups : OrdMap ℕ (List ℕ)} {k : ℕ}
    (h : ∀ e ∈ groups.entries, e.2.Nodup ∧ ∀ m ∈ e.2, m < k) {g : ℕ} :
    ((groups.get? g).getD []).Nodup ∧ ∀ m ∈ (groups.get? g).getD [], m < k := by
  cases hl : groups.get? g with
  | none => exact ⟨nodup_nil, fun m hm => absurd hm not_mem_nil⟩
  | some l => exact h (g, l) (mem_entries_iff.mpr hl)

theorem wellFormed_of_isWellFormed (h : s.isWellFormed = true) : s.WellFormed := by
  simp only [isWellFormed, Bool.and_eq_true, all_eq_true, decide_eq_true_eq] at h
  obtain ⟨⟨hmounts, hpeers⟩, hslaves⟩ := h
  have hlists : ∀ hop g, (s.listed hop g).Nodup ∧ ∀ m ∈ s.listed hop g, m < s.nextMount
    | .side, _ => lists_of_entries hpeers
    | .down, _ => lists_of_entries hslaves
  exact
    { mounts_lt := fun {m x} hx => (hmounts (m, x) (mem_entries_iff.mpr hx)).1
      groups_lt := fun {m x} hx => (hmounts (m, x) (mem_entries_iff.mpr hx)).2
      nodup := fun hop g => (hlists hop g).1
      lt := fun {hop g m} hm => (hlists hop g).2 m hm }

def directory (n : ℕ) : Inode := ⟨n, true⟩

/-- A private root, and a shared mount 1 on it. -/
def oneShared : Mounts :=
  ((init.create (.newWithRoot 0 (directory 2) 0)).2.mountSubtree (directory 10) 0 1 (directory 100)
    0).2.setPropagationType 1 .shared

/-- A bind of one mount at another place of the root. -/
def bindOn (s : Mounts) (source place : ℕ) : Mounts :=
  (s.doBindMount source (directory 100) (directory place) 0 0).2

/-- Mount 1 with a peer 2, a slave 3 and a shared slave 4, which has a slave 5. -/
def oldFamily : Mounts :=
  let s := oneShared.bindOn 1 11
  let s := (s.bindOn 1 12).setPropagationType 3 .slave
  let s := ((s.bindOn 1 13).setPropagationType 4 .slave).setPropagationType 4 .shared
  (s.bindOn 4 14).setPropagationType 5 .slave

/-- The same with a new mount 6 on mount 1, which has not been propagated yet. -/
def family : Mounts :=
  (oldFamily.mountSubtreeInner (directory 105) 1 2 (directory 200) 0).2

section Family

set_option maxRecDepth 2000

theorem family_shared (h : (family.propagation v).isShared = true) :
    v = 1 ∨ v = 2 ∨ v = 4 ∨ v = 6 := by
  have hmem : v ∈ family.mounts.entries.map Prod.fst := by
    cases hx : family.mounts.get? v with
    | none => simp [propagation, hx, MountPropagation.newPrivate, MountPropagation.isShared,
        PropagationType.isShared] at h
    | some x => exact mem_map.mpr ⟨(v, x), mem_entries_iff.mpr hx, rfl⟩
  rw [show family.mounts.entries.map Prod.fst = [0, 1, 2, 3, 4, 5, 6] by decide] at hmem
  revert h
  revert v
  decide

/-- The only relay under mount 1 is mount 4. -/
theorem family_chain (h : family.links.Chain 1 1 via v) :
    (via = [] ∧ v = 1) ∨ (via = [4] ∧ v = 4) := by
  have hone : ∀ x, family.links.hears 1 .down x → x = 3 ∨ x = 4 := by
    intro x hx
    have := (hears_down_iff.mp hx).2
    rw [show (family.getSlaves (family.propagation 1).peerGroupId).1 = [3, 4] by
      decide] at this
    simpa using this
  have hfour : ∀ x, family.links.hears 4 .down x → x = 5 := by
    intro x hx
    have := (hears_down_iff.mp hx).2
    rw [show (family.getSlaves (family.propagation 4).peerGroupId).1 = [5] by
      decide] at this
    simpa using this
  cases h with
  | nil => exact .inl ⟨rfl, rfl⟩
  | cons hdown hrelay hne hrest =>
    rcases hone _ hdown with rfl | rfl
    · exact absurd (family_shared hrelay) (by decide)
    · cases hrest with
      | nil => exact .inr ⟨rfl, rfl⟩
      | cons hdown' hrelay' _ _ => grind [links, family_shared]

theorem family_reaches {hop : Hop} (h : family.links.Reaches 1 1 via hop t) :
    (via = [] ∧ hop = .side ∧ t = 2) ∨ (via = [] ∧ hop = .down ∧ (t = 3 ∨ t = 4)) ∨
      (via = [4] ∧ hop = .down ∧ t = 5) := by
  obtain ⟨v, hchain, hears⟩ := h
  rcases family_chain hchain with ⟨rfl, rfl⟩ | ⟨rfl, rfl⟩
  · cases hop with
    | side =>
      have := (hears_side_iff.mp hears).2
      rw [show family.getPeers 1 = [2] by decide] at this
      simpa using this
    | down =>
      have := (hears_down_iff.mp hears).2
      rw [show (family.getSlaves (family.propagation 1).peerGroupId).1 = [3, 4] by
        decide] at this
      simpa using this
  · cases hop with
    | side =>
      have := (hears_side_iff.mp hears).2
      rw [show family.getPeers 4 = [] by decide] at this
      exact absurd this not_mem_nil
    | down =>
      have := (hears_down_iff.mp hears).2
      rw [show (family.getSlaves (family.propagation 4).peerGroupId).1 = [5] by
        decide] at this
      simpa using this

theorem family_receives (h : family.Receives 1 t) : t = 2 ∨ t = 3 ∨ t = 4 ∨ t = 5 := by
  obtain ⟨-, via, hop, hreaches⟩ := h
  rcases family_reaches hreaches with ⟨-, -, rfl⟩ | ⟨-, -, rfl | rfl⟩ | ⟨-, -, rfl⟩ <;> simp

theorem family_forwards (h : family.links.Forwards 1 v) : v = 4 := by
  obtain ⟨-, hrelay, via, hreaches⟩ := h
  rcases family_shared hrelay with rfl | rfl | rfl | rfl
  any_goals rcases family_reaches hreaches with h | h | h <;> simp at h
  · rfl

/-- The record of the new mount of the family. -/
def familyChild : MountFS := (family.mounts.get? 6).getD (.newWithRoot 0 (directory 2) 0)

theorem family_new : family.WellFormed ∧ NewMount family 1 105 6 familyChild := by
  obtain ⟨x, hx⟩ := Option.isSome_iff_exists.mp
    (by decide : (oldFamily.mounts.get? 1).isSome = true)
  have hfree : oldFamily.findChildMountById 1 105 = none := by decide
  rw [findChildMountById_eq hx] at hfree
  obtain ⟨s', y, heq, -, hs', hnew⟩ := newMount_mountSubtreeInner
    (wellFormed_of_isWellFormed (by decide)) hx hfree (rfl : (directory 105).isDir = true)
    (by decide) 0 2 (directory 200)
  obtain rfl : family = s' := by rw [family, heq]
  have hnext : oldFamily.nextMount = 6 := by decide
  rw [hnext] at hnew
  refine ⟨hs', ?_⟩
  rw [familyChild, hnew.record]
  exact hnew

theorem family_regular : Regular family 1 105 familyChild where
  routes := by
    intro t _ via via' hop hop' h h'
    grind [family_reaches]
  noReturn via h := by rcases family_reaches h with h | h | h <;> simp at h
  limit vs hnodup hvs := by
    have hsub : vs ⊆ [4] := fun v hv => mem_singleton.mpr (family_forwards (hvs v hv))
    have := (hnodup.subperm hsub).length_le
    rw [length_singleton] at this
    exact lt_of_le_of_lt this (by decide)
  free t h := by
    rcases family_receives h with rfl | rfl | rfl | rfl <;> decide
  group t h := by
    rw [family_forwards h]
    decide
  isDir t x h hx hroot := by
    have hid : ((family.mounts.get? t).map fun x => x.rootInnerInode.isDir) = some true := by
      rcases family_receives h with rfl | rfl | rfl | rfl <;> decide
    rw [hx, Option.map_some] at hid
    exact Option.some.inj hid
  counter := by decide

theorem replicas_family : family.Receives 1 5 ∧ ∃ replica : ℕ → ℕ,
      Replicated family 1 105 familyChild replica (family.propagateMount 1 105 6) ∧
      ∃ s', ((family.propagateMount 1 105 6).registerCurrentPropagation 6).umount 6 = .ok s' ∧
        Restored family 1 105 6 replica s' := by
  refine ⟨⟨by decide, [4], .down, 4, .cons ?_ ?_ (by decide) (.nil 4), ?_⟩,
    replicas_of_propagateMount family_new.1 family_new.2 family_regular⟩
  any_goals exact hears_down_iff.mpr (by decide)
  · show (family.propagation 4).isShared = true
    decide

end Family

/-! ## The limit -/

/-- Whether `via` is a chain of relays under `v`. -/
def isChain (s : Mounts) (source v : ℕ) : List ℕ → Bool
  | [] => true
  | x :: via =>
    (s.propagation v).isShared && decide (x ∈ (s.getSlaves (s.propagation v).peerGroupId).1) &&
      (s.propagation x).isShared && x != source && s.isChain source x via

theorem chain_of_isChain {source : ℕ} : ∀ {via : List ℕ} {v : ℕ}, s.isChain source v via = true →
      s.links.Chain source v via (via.getLastD v)
  | [], v, _ => .nil v
  | x :: via, v, h => by
    simp only [isChain, Bool.and_eq_true, decide_eq_true_eq, bne_iff_ne] at h
    obtain ⟨⟨⟨⟨hshared, hmem⟩, hrelay⟩, hne⟩, hrest⟩ := h
    rw [getLastD_cons]
    exact .cons (hears_down_iff.mpr ⟨hshared, hmem⟩) hrelay hne (chain_of_isChain hrest)

/-- Mount 1, and a chain of shared slaves, each of the one before. -/
def slaveChain : ℕ → Mounts
  | 0 => oneShared
  | n + 1 =>
    let s := (slaveChain n).bindOn (n + 1) (11 + n)
    (s.setPropagationType (n + 2) .slave).setPropagationType (n + 2) .shared

/-- A chain of 33 slaves, and a new mount 35 on mount 1. -/
def longChain : Mounts :=
  ((slaveChain 33).mountSubtreeInner (directory 105) 1 2 (directory 200) 0).2

/-- **The walk stops after 32 mounts**: the last slave of the chain is reachable and gets no
replica. -/
theorem last_slave_misses : longChain.Receives 1 34 ∧
    (longChain.propagateMount 1 105 35).findChildMountById 34 105 = none := by
  have hcheck : longChain.isChain 1 1 ((range 32).map (· + 2)) = true ∧
      (longChain.propagation 33).isShared = true ∧
      34 ∈ (longChain.getSlaves (longChain.propagation 33).peerGroupId).1 ∧
      (longChain.propagateMount 1 105 35).findChildMountById 34 105 = none := by
    decide +kernel
  obtain ⟨hchain, hshared, hmem, hnone⟩ := hcheck
  exact ⟨⟨by decide, _, .down, 33, chain_of_isChain hchain,
    hears_down_iff.mpr ⟨hshared, hmem⟩⟩, hnone⟩
end MangoCore.Fs.Mount.Mounts
