import MangoCore.Fs.MountReplicas

/-!
# Which mounts get a replica

A mount event is heard by the peers of a mount and by the slaves of its group, and a slave that is
shared passes it on.  `links` says so for the two registries, and `Lib.Spread` says what it means to
be below a mount.

`propagateMount` is a walk along these links.  While it goes on, the mounts that have been handled
have one new mount each, at the mountpoint, and everything else is as it was: `Replicating`.
-/

namespace MangoCore.Fs.Mount.Mounts

open List Option Mounts Walker

section

variable (s : Mounts) (mountpointId : ℕ)

/-- Who hears of a mount event from whom: peers, and the slaves of the group. -/
def links : Links ℕ where
  hears v hop t := (s.propagation v).isShared = true ∧
    match hop with
    | .side => s.InPeerGroup (s.propagation v).peerGroupId t ∧ t ≠ v
    | .down => s.IsSlaveOf (s.propagation v).peerGroupId t
  relays v := (s.propagation v).isShared = true

/-- The other members of the peer group, and every mount reachable through slave links. -/
def Receives (source t : ℕ) : Prop := s.links.Below source source t

/-- The registries are in order, and group ids come from the counter. -/
structure WellFormed (s : Mounts) : Prop extends s.ListsOk where
  groups_lt : ∀ {m x}, s.mounts.get? m = some x → x.propagation.peerGroupId < s.nextGroupId

/-- What the callers of `propagateMount` have done: the new mount is in the table of `source`, has
nothing on it, and is in no registry yet. -/
structure NewMount (s : Mounts) (source mountpointId child : ℕ) (y : MountFS) : Prop where
  record : s.mounts.get? child = some y
  mountpoints : y.mountpoints = .empty
  selfMountpoint : ∃ inode, y.selfMountpoint = some (inode, source) ∧ inode.inodeId = mountpointId
  table : s.findChildMountById source mountpointId = some child
  not_listed : ∀ hop group, child ∉ s.listed hop group

/-- The mounts for which the propagation does its work: no mount hears of the event along two
routes, and the source not as a peer of one that passes it on; few enough pass it on; the mountpoint
is free where it arrives; and the new mount is in none of the groups that it is passed on to.
Mounts of one group show one file system, so that the inode with the number of the mountpoint is a
directory on all of them. -/
structure Regular (s : Mounts) (source mountpointId : ℕ) (y : MountFS) : Prop where
  routes : s.links.UniqueRoutes source
  noReturn : ∀ via, ¬ s.links.Reaches source source via .side source
  limit : ∀ vs : List ℕ, vs.Nodup → (∀ v ∈ vs, s.links.Forwards source v) → vs.length < maxDepth
  free : ∀ t, s.Receives source t → s.findChildMountById t mountpointId = none
  group : ∀ t, s.links.Forwards source t →
    (s.propagation t).peerGroupId ≠ y.propagation.peerGroupId
  isDir : ∀ t x, s.Receives source t → s.mounts.get? t = some x →
    x.rootInnerInode.inodeId = mountpointId → x.rootInnerInode.isDir = true
  counter : s.nextGroupId + 2 * s.mounts.size < 2 ^ 32

/-! ## The walk -/

/-- The walk of `propagateMount`: the datum is the mount to repeat, and its group. -/
def mountWalker : Walker Mounts ℕ (ℕ × ℕ) where
  relays s v := (s.propagation v).isShared
  sides s v := s.getPeers v
  downs s v := s.getSlaves (s.propagation v).peerGroupId
  onSide s t d := (s.propagateToMount t mountpointId d.1 d.2 false).2
  onDown s t d :=
    match s.propagateToMount t mountpointId d.1 d.2 true with
    | (some created, s') => (some (created, (s'.propagation created).peerGroupId), s')
    | (none, s') => (none, s')

theorem propagateMountInner_eq (fuel : ℕ) : ∀ (s : Mounts) (source newChild : ℕ) (visited : List ℕ),
      propagateMountInner mountpointId fuel s source newChild visited =
        (mountWalker mountpointId).visit maxDepth fuel s source
          (newChild, (s.propagation newChild).peerGroupId) visited := by
  induction fuel with
  | zero => intro s source newChild visited; rfl
  | succ fuel ih =>
    intro s source newChild visited
    unfold propagateMountInner visit
    have hdown : ∀ (group : ℕ) (acc : Mounts × List ℕ) (slave : ℕ), (if slave ∈ acc.2 then acc
          else
            match acc.1.propagateToMount slave mountpointId newChild group true with
            | (some created, s) =>
              if (s.propagation slave).isShared then
                propagateMountInner mountpointId fuel s slave created (acc.2 ++ [slave])
              else (s, acc.2)
            | (none, s) => (s, acc.2)) =
          (mountWalker mountpointId).goDown ((mountWalker mountpointId).visit maxDepth fuel)
            (newChild, group) acc slave := by
      intro group acc slave
      unfold goDown mountWalker
      split_ifs
      · rfl
      · grind [mountWalker]
    refine ite_congr rfl (fun _ => rfl) fun _ => ite_congr rfl (fun _ => rfl) fun _ => ?_
    exact congrFun (congrFun (congrArg foldl
      (funext fun acc => funext fun slave => hdown _ acc slave)) _) _

end

/-! ## The state during the walk -/

/-- `d` is the mount at the mountpoint of `v`, which shows what `y` shows, and its group.  Under the
source this is the group of `y`; elsewhere it is a new one, or none. -/
structure Child (s₀ : Mounts) (source mountpointId child : ℕ) (y : MountFS) (v : ℕ) (d : ℕ × ℕ)
    (s : Mounts) : Prop where
  find : s.findChildMountById v mountpointId = some d.1
  isNew : d.1 = child ∨ s₀.nextMount ≤ d.1
  record : ∃ w, s.mounts.get? d.1 = some w ∧ IsReplica mountpointId y v w ∧
    w.propagation.peerGroupId = d.2
  group : (v = source ∧ d.2 = y.propagation.peerGroupId) ∨ d.2 = 0 ∨ s₀.nextGroupId ≤ d.2

/-- **The state after some mounts have been handled.**  Each pair is a mount that has got its
replica, and the replica. -/
structure Replicating (s₀ : Mounts) (source mountpointId child : ℕ) (y : MountFS)
    (pairs : List (ℕ × ℕ)) (s : Mounts) : Prop where
  nodup : (pairs.map Prod.fst).Nodup
  receives : ∀ {t}, t ∈ pairs.map Prod.fst → s₀.Receives source t
  handled : ∀ {t n x}, (t, n) ∈ pairs → s₀.mounts.get? t = some x →
    s.mounts.get? t = some { x with mountpoints := x.mountpoints.insert mountpointId n }
  rest : ∀ {m x}, m ∉ pairs.map Prod.fst → s₀.mounts.get? m = some x → s.mounts.get? m = some x
  replica : ∀ {t n}, (t, n) ∈ pairs → s₀.nextMount ≤ n ∧
    ∃ z, s.mounts.get? n = some z ∧ IsReplica mountpointId y t z ∧
      ∃ via v hop d, s₀.links.Chain source source via v ∧ s₀.links.hears v hop t ∧
        Child s₀ source mountpointId child y v d s ∧
        Placed (decide (hop = .down)) d.2 s₀.nextGroupId z.propagation
  fresh : ∀ {m z}, s.mounts.get? m = some z →
    (∃ x, s₀.mounts.get? m = some x) ∨ ∃ t, (t, m) ∈ pairs
  injective : ∀ {t t' n}, (t, n) ∈ pairs → (t', n) ∈ pairs → t = t'
  nextMount : s.nextMount = s₀.nextMount + pairs.length
  le_nextGroupId : s₀.nextGroupId ≤ s.nextGroupId
  nextGroupId_le : s.nextGroupId ≤ s₀.nextGroupId + 2 * pairs.length
  inGroup : ∀ {hop group m}, m < s₀.nextMount → (s.InGroup hop group m ↔ s₀.InGroup hop group m)
  listsOk : s.ListsOk

section Walk

variable {s₀ s s' : Mounts} {source mountpointId child v t : ℕ} {y x z : MountFS}
  {pairs : List (ℕ × ℕ)} {d : ℕ × ℕ} {via : List ℕ} {hop : Hop}

theorem InGroup.exists_record {g m : ℕ} (h : s.InGroup hop g m) :
    ∃ x, s.mounts.get? m = some x := by
  obtain ⟨-, -, x, hx, -⟩ := h
  exact ⟨x, hx⟩

/-- A mount that hears of an event is a member of the group of the one it hears of it from. -/
theorem inGroup_of_hears (h : s₀.links.hears v hop t) :
    s₀.InGroup hop (s₀.propagation v).peerGroupId t := by
  cases hop with
  | side => exact h.2.1
  | down => exact h.2

theorem exists_of_hears (h : s₀.links.hears v hop t) : ∃ x, s₀.mounts.get? t = some x :=
  (inGroup_of_hears h).exists_record

theorem exists_of_receives (h : s₀.Receives source t) : ∃ x, s₀.mounts.get? t = some x := by
  obtain ⟨-, via, hop, v, -, hears⟩ := h
  exact exists_of_hears hears

section

variable (h : NewMount s₀ source mountpointId child y)
include h

theorem NewMount.exists_source :
    ∃ x, s₀.mounts.get? source = some x ∧ x.mountpoints.get? mountpointId = some child := by
  have ht := h.table
  unfold findChildMountById at ht
  rw [bind_eq_some_iff] at ht
  exact ht

/-- The new mount is in no registry, so it does not hear of itself. -/
theorem NewMount.not_hears : ¬ s₀.links.hears v hop child := by
  intro hears
  obtain ⟨-, hmem, -⟩ := inGroup_of_hears hears
  exact h.not_listed _ _ hmem

theorem NewMount.ne_source : child ≠ source := by
  rintro rfl
  have := h.table
  rw [findChildMountById_eq h.record, h.mountpoints] at this
  exact some_ne_none _ this.symm

theorem NewMount.isReplica : IsReplica mountpointId y source y :=
  ⟨rfl, rfl, h.mountpoints, h.selfMountpoint⟩

end

/-- Nothing has been handled at the start. -/
theorem Replicating.start (hs : s₀.ListsOk) : Replicating s₀ source mountpointId child y [] s₀ where
  nodup := nodup_nil
  receives h := absurd h not_mem_nil
  handled h := absurd h not_mem_nil
  rest _ hx := hx
  replica h := absurd h not_mem_nil
  fresh hz := .inl ⟨_, hz⟩
  injective h := absurd h not_mem_nil
  nextMount := rfl
  le_nextGroupId := le_rfl
  nextGroupId_le := le_rfl
  inGroup _ := Iff.rfl
  listsOk := hs

namespace Replicating

variable (h : Replicating s₀ source mountpointId child y pairs s) {m : ℕ}
include h

/-- The propagation of an old mount has not changed. -/
theorem exists_record (hx : s₀.mounts.get? m = some x) :
    ∃ x', s.mounts.get? m = some x' ∧ x'.propagation = x.propagation := by
  by_cases hm : m ∈ pairs.map Prod.fst
  · obtain ⟨⟨t, n⟩, hmem, rfl⟩ := mem_map.mp hm
    exact ⟨_, h.handled hmem hx, rfl⟩
  · exact ⟨x, h.rest hm hx, rfl⟩

theorem propagation_eq (hx : s₀.mounts.get? m = some x) : s.propagation m = s₀.propagation m := by
  grind [h.exists_record, propagation_eq]

/-- There are no more replicas than mounts. -/
theorem length_lt_size (ht : t ∉ pairs.map Prod.fst) (hr : s₀.Receives source t) :
    pairs.length < s₀.mounts.size := by
  have hnodup : (t :: pairs.map Prod.fst).Nodup := nodup_cons.mpr ⟨ht, h.nodup⟩
  have hsub : t :: pairs.map Prod.fst ⊆ s₀.mounts.entries.map Prod.fst := by
    intro m hm
    have hrec : s₀.Receives source m := by grind [h.receives]
    obtain ⟨x, hx⟩ := exists_of_receives hrec
    exact mem_map.mpr ⟨(m, x), OrdMap.mem_entries_iff.mpr hx, rfl⟩
  have hlen := (hnodup.subperm hsub).length_le
  simp only [length_cons, length_map] at hlen
  exact hlen

end Replicating

/-- A mount event does not arrive at a replica. -/
theorem Child.ne_of_receives (h : NewMount s₀ source mountpointId child y) (hs : s₀.ListsOk)
    (hd : Child s₀ source mountpointId child y v d s) (ht : s₀.Receives source t) : d.1 ≠ t := by
  rintro rfl
  rcases hd.isNew with heq | hle
  · obtain ⟨-, via, hop, v', -, hears⟩ := ht
    exact h.not_hears (heq ▸ hears)
  · obtain ⟨x, hx⟩ := exists_of_receives ht
    have := hs.mounts_lt hx
    omega

/-- A new replica elsewhere leaves the child of `v` as it is. -/
theorem Child.adds (hs : s.ListsOk)
    (hd : Child s₀ source mountpointId child y v d s) (hadds : Adds s t mountpointId z s')
    (hfree : s.findChildMountById t mountpointId = none) (hne : d.1 ≠ t) :
    Child s₀ source mountpointId child y v d s' := by
  obtain ⟨w, hw, hreplica, hgroup⟩ := hd.record
  have hvt : v ≠ t := by
    rintro rfl
    rw [hd.find] at hfree
    exact some_ne_none _ hfree
  have hv : s'.mounts.get? v = s.mounts.get? v := by
    refine hadds.mounts hvt ?_
    obtain ⟨x, hx, -⟩ := bind_eq_some_iff.mp hd.find
    exact (hs.mounts_lt hx).ne
  refine ⟨?_, hd.isNew, ⟨w, ?_, hreplica, hgroup⟩, hd.group⟩
  · rw [← hd.find]
    unfold findChildMountById
    rw [hv]
  · rw [hadds.mounts hne (hs.mounts_lt hw).ne, hw]

theorem Replicating.add (hnew : NewMount s₀ source mountpointId child y) (hs : s₀.ListsOk)
    (h : Replicating s₀ source mountpointId child y pairs s)
    (ht : t ∉ pairs.map Prod.fst) (hr : s₀.Receives source t)
    (hfree : s₀.findChildMountById t mountpointId = none) (hadds : Adds s t mountpointId z s')
    (hz : IsReplica mountpointId y t z)
    (hv : s₀.links.Chain source source via v) (hears : s₀.links.hears v hop t)
    (hd : Child s₀ source mountpointId child y v d s)
    (hplaced : Placed (decide (hop = .down)) d.2 s.nextGroupId z.propagation)
    (hle : s.nextGroupId ≤ s'.nextGroupId) (hge : s'.nextGroupId ≤ s.nextGroupId + 2) :
    Replicating s₀ source mountpointId child y (pairs ++ [(t, s.nextMount)]) s' := by
  obtain ⟨x, hx⟩ := exists_of_receives hr
  have hxs : s.mounts.get? t = some x := h.rest ht hx
  have hfree' : s.findChildMountById t mountpointId = none := by grind [findChildMountById]
  have hnext := h.nextMount
  have hkeep : ∀ {u e}, Child s₀ source mountpointId child y u e s →
      Child s₀ source mountpointId child y u e s' := fun hc =>
    hc.adds h.listsOk hadds hfree' (hc.ne_of_receives hnew hs hr)
  have hmem : ∀ {u n}, (u, n) ∈ pairs ++ [(t, s.nextMount)] ↔
      (u, n) ∈ pairs ∨ (u = t ∧ n = s.nextMount) := by
    intro u n
    rw [mem_append, mem_singleton, Prod.mk.injEq]
  have hkeys : ∀ {u}, u ∈ (pairs ++ [(t, s.nextMount)]).map Prod.fst ↔
      u ∈ pairs.map Prod.fst ∨ u = t := by
    intro u
    rw [map_append, mem_append]
    simp
  have hold : ∀ {u n}, (u, n) ∈ pairs → u ≠ t ∧ n < s.nextMount := by
    intro u n hun
    obtain ⟨hge', z', hz', -⟩ := h.replica hun
    exact ⟨fun heq => ht (mem_map.mpr ⟨(u, n), hun, heq⟩), h.listsOk.mounts_lt hz'⟩
  refine ⟨?_, ?_, ?_, ?_, ?_, ?_, ?_, ?_, ?_, ?_, ?_, hadds.listsOk⟩
  · rw [map_append]
    simpa using h.nodup.concat ht
  · grind [h.receives]
  · grind [hadds.mounts, h.listsOk.mounts_lt, h.handled, hadds.target]
  · grind [h.rest, hadds.mounts, h.listsOk.mounts_lt]
  · intro u n hun
    rcases hmem.mp hun with hun' | ⟨rfl, rfl⟩
    · obtain ⟨hge', z', hz', hreplica, via', v', hop', d', hchain, hears', hchild, hplaced'⟩ :=
        h.replica hun'
      -- a replica is not among the mounts that an event arrives at
      have hnt : n ≠ t := by
        have := hs.mounts_lt hx
        omega
      refine ⟨hge', z', ?_, hreplica, via', v', hop', d', hchain, hears', hkeep hchild, hplaced'⟩
      rw [hadds.mounts hnt (hold hun').2.ne, hz']
    · exact ⟨by omega, z, hadds.new, hz, via, v, hop, d, hv, hears, hkeep hd,
        hplaced.mono h.le_nextGroupId⟩
  · grind [fresh, Adds.mounts]
  · grind [injective]
  · grind [Adds.nextMount]
  · exact h.le_nextGroupId.trans hle
  · have := h.nextGroupId_le
    rw [length_append, length_singleton]
    omega
  · intro hop g m hm
    exact (hadds.inGroup (by omega)).trans (h.inGroup hm)

theorem IsReplica.trans {c : MountFS} (hz : IsReplica mountpointId c t z)
    (hc : IsReplica mountpointId y v c) : IsReplica mountpointId y t z :=
  ⟨hz.1.trans hc.1, hz.2.trans hc.2, hz.3, hz.4⟩

/-- **The walk handles a mount that hears of the event.** -/
theorem Replicating.step (hnew : NewMount s₀ source mountpointId child y) (hs : s₀.WellFormed)
    (hreg : Regular s₀ source mountpointId y)
    (h : Replicating s₀ source mountpointId child y pairs s)
    (hv : s₀.links.Chain source source via v)
    (hd : Child s₀ source mountpointId child y v d s) (hears : s₀.links.hears v hop t)
    (hts : t ≠ source) (ht : t ∉ pairs.map Prod.fst) :
    ∃ z s', s.propagateToMount t mountpointId d.1 d.2 (decide (hop = .down)) =
        (some s.nextMount, s') ∧ s'.mounts.get? s.nextMount = some z ∧
      Replicating s₀ source mountpointId child y (pairs ++ [(t, s.nextMount)]) s' ∧
      (∀ u e, Child s₀ source mountpointId child y u e s →
        Child s₀ source mountpointId child y u e s') ∧
      (hop = .down → Child s₀ source mountpointId child y t
        (s.nextMount, z.propagation.peerGroupId) s') := by
  have hr : s₀.Receives source t := ⟨hts, _, _, hv.reaches (Links.reaches_nil hears)⟩
  obtain ⟨x, hx⟩ := exists_of_receives hr
  have hxs : s.mounts.get? t = some x := h.rest ht hx
  have hfree := hreg.free t hr
  have hfree' : x.mountpoints.get? mountpointId = none := by
    rw [← findChildMountById_eq hx]
    exact hfree
  obtain ⟨w, hw, hreplica, hgroup⟩ := hd.record
  obtain ⟨inode, hself, hinode⟩ := hreplica.selfMountpoint
  have hcounter : s.nextGroupId + 2 < 2 ^ 32 := by
    grind [h.nextGroupId_le, h.length_lt_size, hreg.counter]
  obtain ⟨z, s', heq, hadds, hz, hplaced, hle, hge⟩ := propagateToMount_spec h.listsOk hxs hw hself
    hinode hfree' (hreg.isDir t x hr hx) hcounter
  have hfind : s.findChildMountById t mountpointId = none := by
    rw [findChildMountById_eq hxs]
    exact hfree'
  refine ⟨z, s', heq, hadds.new,
    h.add hnew hs.toListsOk ht hr hfree hadds (hz.trans hreplica) hv hears hd hplaced hle hge,
    fun u e hc => hc.adds h.listsOk hadds hfind (hc.ne_of_receives hnew hs.toListsOk hr), ?_⟩
  rintro rfl
  have hle' := h.le_nextGroupId
  refine ⟨?_, .inr ?_, ⟨z, hadds.new, hz.trans hreplica, rfl⟩, .inr ?_⟩
  · rw [findChildMountById_eq (hadds.target hxs)]
    exact OrdMap.get?_insert_self ..
  · have := h.nextMount
    omega
  · exact hplaced.2.imp_right hle'.trans

theorem Child.getSlaves (h : Child s₀ source mountpointId child y v d s)
    (group : ℕ) : Child s₀ source mountpointId child y v d (s.getSlaves group).2 where
  find := by
    unfold findChildMountById
    rw [getSlaves_mounts]
    exact h.find
  isNew := h.isNew
  record := by
    rw [getSlaves_mounts]
    exact h.record
  group := h.group

/-- Cleaning a list of slaves does not count. -/
theorem Replicating.getSlaves (h : Replicating s₀ source mountpointId child y pairs s)
    (group : ℕ) : Replicating s₀ source mountpointId child y pairs (s.getSlaves group).2 where
  nodup := h.nodup
  receives := h.receives
  handled hun hx := by rw [getSlaves_mounts]; exact h.handled hun hx
  rest hm hx := by rw [getSlaves_mounts]; exact h.rest hm hx
  replica hun := by
    obtain ⟨hle, z, hz, hreplica, via, v, hop, d, hv, hears, hd, hplaced⟩ := h.replica hun
    refine ⟨hle, z, ?_, hreplica, via, v, hop, d, hv, hears, hd.getSlaves group, hplaced⟩
    rwa [getSlaves_mounts]
  fresh hz := by rw [getSlaves_mounts] at hz; exact h.fresh hz
  injective := h.injective
  nextMount := by rw [getSlaves_nextMount, h.nextMount]
  le_nextGroupId := by rw [getSlaves_nextGroupId]; exact h.le_nextGroupId
  nextGroupId_le := by rw [getSlaves_nextGroupId]; exact h.nextGroupId_le
  inGroup hm := inGroup_getSlaves.trans (h.inGroup hm)
  listsOk := h.listsOk.getSlaves group

/-- What is there and not old is a replica. -/
theorem Replicating.exists_pair (hs : s₀.ListsOk)
    (h : Replicating s₀ source mountpointId child y pairs s) {m : ℕ}
    (hz : ∃ z, s.mounts.get? m = some z) (hm : ¬ m < s₀.nextMount) : ∃ t, (t, m) ∈ pairs := by
  obtain ⟨z, hz⟩ := hz
  refine (h.fresh hz).resolve_left ?_
  rintro ⟨x, hx⟩
  exact hm (hs.mounts_lt hx)

variable {g m : ℕ} {u n : ℕ}

section

variable (hs : s₀.WellFormed) (hreg : Regular s₀ source mountpointId y)
include hs hreg

/-- The groups of replicas are new, or the group of the new mount under the source. -/
theorem Child.eq_source (hv : s₀.links.Chain source source via v)
    (hd : Child s₀ source mountpointId child y u d s)
    (hx : s₀.mounts.get? v = some x) (hg : (s₀.propagation v).peerGroupId = g) (hg0 : g ≠ 0)
    (hdg : d.2 = g) : v = source ∧ u = source := by
  have hlt : g < s₀.nextGroupId := by
    rw [← hg, propagation_eq hx]
    exact hs.groups_lt hx
  grind [hd.group, hv.eq_or_forwards, hreg.group]

variable (h : Replicating s₀ source mountpointId child y pairs s)
  (hv : s₀.links.Chain source source via v) (hx : s₀.mounts.get? v = some x) (hu : (u, n) ∈ pairs)
include h hv hx hu

/-- A replica in the group of a mount on the way is one of a mount that hears from the source. -/
theorem Replicating.eq_source_of_inGroup
    (hmem : s.InGroup hop (s₀.propagation v).peerGroupId n) :
    v = source ∧ s₀.links.hears source hop u := by
  obtain ⟨hg0, -, z, hz, hzg⟩ := hmem
  obtain ⟨-, z', hz', -, via', v', hop', d, hv', hears, hd, hplaced⟩ := h.replica hu
  obtain rfl : z = z' := some.inj (hz.symm.trans hz')
  have hsame : hop' = hop ∧ d.2 = (s₀.propagation v).peerGroupId := by
    cases hop <;> cases hop'
    · exact ⟨rfl, hplaced.1.symm.trans hzg.2⟩
    · have hlt := hs.groups_lt hx
      rw [Mounts.propagation_eq hx] at hg0 hzg
      rcases hplaced.2 with h0 | hle <;> omega
    · exact absurd (hzg.2.symm.trans hplaced.2) hg0
    · exact ⟨rfl, hplaced.1.symm.trans hzg.2⟩
  obtain ⟨rfl, hdg⟩ := hsame
  obtain ⟨hvs, hvs'⟩ := hd.eq_source hs hreg hv hx rfl hg0 hdg
  exact ⟨hvs, hvs' ▸ hears⟩

end

section

variable (hnew : NewMount s₀ source mountpointId child y)
include hnew

theorem exists_of_reached
    (hv : v = source ∨ s₀.Receives source v) : ∃ x, s₀.mounts.get? v = some x := by
  rcases hv with rfl | hbelow
  · obtain ⟨x, hx, -⟩ := hnew.exists_source
    exact ⟨x, hx⟩
  · exact exists_of_receives hbelow

theorem exists_of_chain
    (hv : s₀.links.Chain source source via v) : ∃ x, s₀.mounts.get? v = some x :=
  exists_of_reached hnew hv.eq_or_below

/-- **The walk of `propagateMount` follows the links.** -/
theorem mountWalker_follows (hs : s₀.WellFormed) (hreg : Regular s₀ source mountpointId y) :
    (mountWalker mountpointId).Follows s₀.links source
      (fun done s => ∃ pairs, pairs.map Prod.fst = done ∧
        Replicating s₀ source mountpointId child y pairs s)
      (Child s₀ source mountpointId child y) (fun _ => False) where
  relays_iff := by
    rintro _ s v ⟨pairs, rfl, h⟩ hv
    obtain ⟨x, hx⟩ := exists_of_reached hnew hv
    show (s.propagation v).isShared = true ↔ (s₀.propagation v).isShared = true
    rw [h.propagation_eq hx]
  sides_nodup := by
    rintro _ s v ⟨pairs, rfl, h⟩
    exact nodup_getPeers h.listsOk
  mem_sides := by
    rintro _ s v via t ⟨pairs, rfl, h⟩ hv hrelay hears
    obtain ⟨x, hx⟩ := exists_of_chain hnew hv
    obtain ⟨x', hx'⟩ := exists_of_hears hears
    refine mem_getPeers.mpr ⟨?_, hears.2.2⟩
    rw [h.propagation_eq hx]
    exact (h.inGroup (hs.mounts_lt hx')).mpr hears.2.1
  of_mem_sides := by
    rintro _ s v via t ⟨pairs, rfl, h⟩ hv hrelay hdone ht
    obtain ⟨x, hx⟩ := exists_of_chain hnew hv
    obtain ⟨hmem, hne⟩ := mem_getPeers.mp ht
    rw [h.propagation_eq hx] at hmem
    by_cases hlt : t < s₀.nextMount
    · exact .inl ⟨hrelay, (h.inGroup hlt).mp hmem, hne⟩
    · -- a replica in this group would be one of the source, which has none yet
      obtain ⟨u, hu⟩ := h.exists_pair hs.toListsOk hmem.exists_record hlt
      have hvs := (h.eq_source_of_inGroup hs hreg hv hx hu hmem).1
      have hmemu : u ∈ pairs.map Prod.fst := mem_map.mpr ⟨_, hu, rfl⟩
      exact absurd (h.receives hmemu) (hvs ▸ hdone u hmemu)
  downs_inv := by
    rintro _ s v ⟨pairs, rfl, h⟩
    exact ⟨pairs, rfl, h.getSlaves _⟩
  downs_data := by
    rintro s v x d hd
    exact hd.getSlaves _
  downs_nodup := by
    rintro _ s v ⟨pairs, rfl, h⟩
    exact nodup_getSlaves (h.listsOk.nodup .down _)
  mem_downs := by
    rintro _ s v via t ⟨pairs, rfl, h⟩ hv hrelay hears
    obtain ⟨x, hx⟩ := exists_of_chain hnew hv
    obtain ⟨x', hx'⟩ := exists_of_hears hears
    refine mem_getSlaves.mpr ?_
    rw [h.propagation_eq hx]
    exact (h.inGroup (hs.mounts_lt hx')).mpr hears.2
  of_mem_downs := by
    rintro _ s v via t ⟨pairs, rfl, h⟩ hv hrelay hdone ht
    obtain ⟨x, hx⟩ := exists_of_chain hnew hv
    have hmem := mem_getSlaves.mp ht
    rw [h.propagation_eq hx] at hmem
    by_cases hlt : t < s₀.nextMount
    · exact .inl ⟨hrelay, (h.inGroup hlt).mp hmem⟩
    · -- so would a slave, but the slaves of the source come after its peers
      obtain ⟨u, hu⟩ := h.exists_pair hs.toListsOk hmem.exists_record hlt
      obtain ⟨rfl, hears⟩ := h.eq_source_of_inGroup hs hreg hv hx hu hmem
      have hmemu : u ∈ pairs.map Prod.fst := mem_map.mpr ⟨_, hu, rfl⟩
      have hr := h.receives hmemu
      exact absurd (hdone u hmemu hr) (hreg.routes.not_side_of_down hv hr.1 hears)
  onSide_inv := by
    rintro _ s v via t d ⟨pairs, rfl, h⟩ hv hd hears hts ht
    obtain ⟨z, s', heq, -, h', -⟩ := h.step hnew hs hreg hv hd hears hts ht
    refine ⟨pairs ++ [(t, s.nextMount)], by simp, ?_⟩
    show Replicating s₀ source mountpointId child y _
      (s.propagateToMount t mountpointId d.1 d.2 false).2
    grind
  onSide_data := by
    rintro _ s v via t d u e ⟨pairs, rfl, h⟩ hv hd hears hts ht hu
    obtain ⟨z, s', heq, -, -, hkeep, -⟩ := h.step hnew hs hreg hv hd hears hts ht
    show Child s₀ source mountpointId child y u e
      (s.propagateToMount t mountpointId d.1 d.2 false).2
    grind
  onDown_spec := by
    rintro _ s v via t d ⟨pairs, rfl, h⟩ hv hd hears hts ht
    obtain ⟨z, s', heq, hz, h', hkeep, hchild⟩ := h.step hnew hs hreg hv hd hears hts ht
    refine ⟨(s.nextMount, z.propagation.peerGroupId), s', ?_, ⟨_, by simp, h'⟩, hchild rfl, hkeep⟩
    show (match s.propagateToMount t mountpointId d.1 d.2 true with
      | (some created, s') => (some (created, (s'.propagation created).peerGroupId), s')
      | (none, s') => (none, s')) = _
    grind [propagation_eq]
  onSide_idle := by
    intro _ _ _ _ _ hidle
    exact hidle.elim
  onDown_idle := by
    intro _ _ _ _ _ hidle
    exact hidle.elim
  side_ne_source := by
    rintro v via t hv hears rfl
    exact hreg.noReturn via (by simpa using hv.reaches (Links.reaches_nil hears))

end

/-- Who is not shared tells nobody. -/
theorem not_receives_of_not_shared (h : ¬ (s₀.propagation source).isShared = true) :
    ¬ s₀.Receives source t := by
  rintro ⟨-, via, hop, v, hchain, hears⟩
  cases hchain with
  | nil => exact h hears.1
  | cons hdown _ _ _ => exact h hdown.1

/-- **What `propagateMount` has done when it returns.** -/
theorem propagateMount_spec (hnew : NewMount s₀ source mountpointId child y) (hs : s₀.WellFormed)
    (hreg : Regular s₀ source mountpointId y) :
    ∃ pairs, Replicating s₀ source mountpointId child y pairs
        (s₀.propagateMount source mountpointId child) ∧
      ∀ t, t ∈ pairs.map Prod.fst ↔ s₀.Receives source t := by
  unfold propagateMount
  rw [propagateMountInner_eq]
  by_cases hshared : (s₀.propagation source).isShared = true
  · obtain ⟨x, hx, -⟩ := hnew.exists_source
    obtain ⟨done, ⟨pairs, rfl, h⟩, hmem⟩ := visit_source (mountWalker_follows hnew hs hreg)
      hreg.routes hreg.limit hshared
      (d := (child, (s₀.propagation child).peerGroupId)) ⟨[], rfl, .start hs.toListsOk⟩
      ⟨hnew.table, .inl rfl, ⟨y, hnew.record, hnew.isReplica, (by
          rw [propagation_eq hnew.record])⟩,
        .inl ⟨rfl, by rw [propagation_eq hnew.record]⟩⟩
    exact ⟨pairs, h, hmem⟩
  · refine ⟨[], ?_, fun t => ?_⟩
    · unfold visit
      rw [if_pos (by simpa [mountWalker] using hshared)]
      exact .start hs.toListsOk
    · exact iff_of_false not_mem_nil (not_receives_of_not_shared hshared)

end Walk
end MangoCore.Fs.Mount.Mounts
