import MangoCore.Fs.MountSpread

/-!
# Taking the replicas away again

`umount` takes the mount out of the table of its parent and walks along the same links as the mount
did.  At every mount it arrives at it finds the replica by the mountpoint, recognises it by its
group, and takes it away.  When the walk is over, every table is as it was before the mount was
made.

The new mount and the replicas may by now be members of the groups that the walk goes through, when
the new mount was a bind of the mount it is made on.  Nothing is mounted on them, so the walk passes
over them.
-/

namespace MangoCore.Fs.Mount.Mounts

open List

variable {s : Mounts} {z : MountFS} {n group t : ℕ} {hop : Hop}

/-! ## One replica less -/

/-- **One mount less.**  The mount `n` has left the table of `t` and its groups, and nothing else
has changed. -/
structure Takes (s : Mounts) (t n mountpointId : ℕ) (s' : Mounts) : Prop where
  target : ∀ {x}, s.mounts.get? t = some x → s'.mounts.get? t =
    some { x with mountpoints := x.mountpoints.erase mountpointId }
  taken : ∀ {z}, s.mounts.get? n = some z → s'.mounts.get? n =
    some { z with selfMountpoint := none, mountpoints := .empty }
  mounts : ∀ {m}, m ≠ t → m ≠ n → s'.mounts.get? m = s.mounts.get? m
  nextMount : s'.nextMount = s.nextMount
  not_inGroup : ∀ {hop group}, ¬ s'.InGroup hop group n
  inGroup : ∀ {hop group m}, m ≠ n → (s'.InGroup hop group m ↔ s.InGroup hop group m)
  listsOk : s'.ListsOk

theorem touches_forget (s : Mounts) (n : ℕ) : Touches n s (s.forget n) :=
  ((touches_unregisterPeerMount s).trans (touches_unregisterSlaveMount _)).trans touches_modify

theorem get?_forget_self (hz : s.mounts.get? n = some z) :
    (s.forget n).mounts.get? n = some { z with selfMountpoint := none, mountpoints := .empty } := by
  unfold forget
  simp [hz, get?_modify]

theorem not_listed_forget (hg0 : group ≠ 0)
    (hgroup : (match hop with
      | .side => (s.propagation n).peerGroupId
      | .down => (s.propagation n).masterGroupId) = group) :
    n ∉ (s.forget n).listed hop group := by
  have hp : (s.unregisterPeerMount n).propagation n = s.propagation n := by simp [propagation]
  unfold forget
  rw [modify_listed]
  intro hmem
  cases hop with
  | side =>
    rw [unregisterSlaveMount_listed, unregisterPeerMount] at hmem
    dsimp only at hmem hgroup
    rw [hgroup, if_neg hg0] at hmem
    exact (mem_unlist.mp hmem).2 ⟨rfl, rfl⟩
  | down =>
    rw [unregisterSlaveMount] at hmem
    dsimp only at hmem hgroup
    rw [hp, hgroup, if_neg hg0] at hmem
    exact (mem_unlist.mp hmem).2 ⟨rfl, rfl⟩

theorem not_inGroup_forget : ¬ (s.forget n).InGroup hop group n := by
  rintro ⟨hg0, hmem, x, hx, hgroup⟩
  obtain ⟨z, hz⟩ : ∃ z, s.mounts.get? n = some z := by
    rw [← Option.isSome_iff_exists, ← (touches_forget s n).isSome, hx]
    rfl
  rw [get?_forget_self hz] at hx
  cases hx
  refine not_listed_forget hg0 ?_ hmem
  rw [propagation_eq hz]
  cases hop <;> exact hgroup.2

/-- Cleaning up a mount with nothing on it. -/
theorem finishPropagatedCleanup_leaf {fuel : ℕ} (hz : s.mounts.get? n = some z)
    (hempty : z.mountpoints = .empty) (hfuel : 0 < fuel) :
    finishPropagatedCleanup fuel s n = s.forget n := by
  grind [finishPropagatedCleanup.eq_def, OrdMap.empty]

theorem umountAtPeer_spec (hs : s.ListsOk) {mountpointId : ℕ} {inode : Inode}
    {x : MountFS} (hx : s.mounts.get? t = some x) (hz : s.mounts.get? n = some z) (hne : n ≠ t)
    (hempty : z.mountpoints = .empty) (hself : z.selfMountpoint = some (inode, t))
    (hinode : inode.inodeId = mountpointId) : Takes s t n mountpointId (s.umountAtPeer n) := by
  have hlt := hs.mounts_lt hz
  have hz' : (s.removeMount t mountpointId).mounts.get? n = some z := by
    unfold removeMount
    rw [get?_modify, if_neg hne, hz]
  have heq : s.umountAtPeer n = (s.removeMount t mountpointId).forget n := by
    unfold umountAtPeer
    grind [finishPropagatedCleanup_leaf]
  have h₁ : Touches t s (s.removeMount t mountpointId) := touches_modify
  have h₂ := touches_forget (s.removeMount t mountpointId) n
  have hgroups : ∀ m, ((s.removeMount t mountpointId).mounts.get? m).map MountFS.propagation =
      (s.mounts.get? m).map MountFS.propagation := by
    intro m
    unfold removeMount
    rw [get?_modify]
    split_ifs with hm
    · rw [hm, hx]; rfl
    · rfl
  rw [heq]
  refine ⟨?_, fun hz'' => ?_, ?_, ?_, not_inGroup_forget, ?_, ?_⟩
  · grind [removeMount, Touches.mounts, get?_modify]
  · grind [get?_forget_self]
  · intro m hmt hmn
    rw [h₂.mounts hmn, h₁.mounts hmt]
  · rw [h₂.nextMount, h₁.nextMount]
  · intro hop g m hm
    exact (h₂.inGroup hm).trans (inGroup_congr (hgroups m) (by simp [removeMount]))
  · exact h₂.listsOk (h₁.listsOk hs (hs.mounts_lt hx)) (by rw [h₁.nextMount]; exact hlt)

/-! ## The walk -/

/-- The walk of `propagateUmount`: the datum is the group by which the replicas are recognised. -/
def umountWalker (mountpointId removed : ℕ) : Walker Mounts ℕ ℕ where
  relays s v := (s.propagation v).isShared
  sides s v := s.getPeers v
  downs s v := s.getSlaves (s.propagation v).peerGroupId
  onSide s t group :=
    match s.findChildMountById t mountpointId with
    | some child => if s.goesWith child removed group then s.umountAtPeer child else s
    | none => s
  onDown s t group :=
    match s.findChildMountById t mountpointId with
    | some child =>
      if s.goesWith child removed group then
        (some (s.propagation child).peerGroupId, s.umountAtPeer child)
      else (none, s)
    | none => (none, s)

theorem propagateUmountInner_eq (mountpointId removed fuel : ℕ) :
    ∀ (s : Mounts) (source group : ℕ) (visited : List ℕ),
      propagateUmountInner mountpointId removed fuel s source group visited =
        (umountWalker mountpointId removed).visit maxDepth fuel s source group visited := by
  induction fuel with
  | zero => intro s source group visited; rfl
  | succ fuel ih =>
    intro s source group visited
    unfold propagateUmountInner Walker.visit
    have hdown : ∀ (acc : Mounts × List ℕ) (slave : ℕ), (if slave ∈ acc.2 then acc
          else
            match acc.1.findChildMountById slave mountpointId with
            | some child =>
              if acc.1.goesWith child removed group then
                if ((acc.1.umountAtPeer child).propagation slave).isShared then
                  propagateUmountInner mountpointId removed fuel (acc.1.umountAtPeer child) slave
                    (acc.1.propagation child).peerGroupId (acc.2 ++ [slave])
                else (acc.1.umountAtPeer child, acc.2)
              else acc
            | none => acc) =
          (umountWalker mountpointId removed).goDown
            ((umountWalker mountpointId removed).visit maxDepth fuel) group acc slave := by
      intro acc slave
      unfold Walker.goDown umountWalker
      split_ifs
      · rfl
      · grind [umountWalker]
    refine ite_congr rfl (fun _ => rfl) fun _ => ite_congr rfl (fun _ => rfl) fun _ => ?_
    exact congrFun (congrFun (congrArg foldl
      (funext fun acc => funext fun slave => hdown acc slave)) _) _

/-! ## The state during the walk -/

/-- The group of the mount at the mountpoint of `v`: of the one that is unmounted, or of the
replica. -/
def GroupAt (source : ℕ) (y : MountFS) (pairs : List (ℕ × ℕ)) (s₁ : Mounts) (v group : ℕ) : Prop :=
  (v = source ∧ group = y.propagation.peerGroupId) ∨
    ∃ n z, (v, n) ∈ pairs ∧ s₁.mounts.get? n = some z ∧ z.propagation.peerGroupId = group

/-- **The state when the walk starts.**  The mount has left the table of the source, and the
replicas are where the mount event has put them. -/
structure Mounted (s₀ : Mounts) (source mountpointId child : ℕ) (y : MountFS)
    (pairs : List (ℕ × ℕ)) (s₁ : Mounts) : Prop where
  nodup : (pairs.map Prod.fst).Nodup
  receives_iff : ∀ t, t ∈ pairs.map Prod.fst ↔ s₀.Receives source t
  parent : ∀ {x}, s₀.mounts.get? source = some x →
    s₁.mounts.get? source = some { x with mountpoints := x.mountpoints.erase mountpointId }
  receiver : ∀ {t n x}, (t, n) ∈ pairs → s₀.mounts.get? t = some x →
    s₁.mounts.get? t = some { x with mountpoints := x.mountpoints.insert mountpointId n }
  rest : ∀ {m x}, m ∉ pairs.map Prod.fst → m ≠ source → s₀.mounts.get? m = some x →
    s₁.mounts.get? m = some x
  replica : ∀ {t n}, (t, n) ∈ pairs → s₀.nextMount ≤ n ∧
    ∃ z, s₁.mounts.get? n = some z ∧ IsReplica mountpointId y t z ∧
      ∀ {via v hop group}, s₀.links.Chain source source via v → s₀.links.hears v hop t →
        GroupAt source y pairs s₁ v group →
        z.propagation.peerGroupId = group ∨ z.propagation.masterGroupId = group
  injective : ∀ {t t' n}, (t, n) ∈ pairs → (t', n) ∈ pairs → t = t'
  fresh : ∀ {m z}, s₁.mounts.get? m = some z →
    (∃ x, s₀.mounts.get? m = some x) ∨ ∃ t, (t, m) ∈ pairs
  inGroup : ∀ {hop group m}, m < s₀.nextMount → m ≠ child →
    (s₁.InGroup hop group m ↔ s₀.InGroup hop group m)
  listsOk : s₁.ListsOk

/-- **The state after some mounts have been handled.** -/
structure Unmounting (s₁ : Mounts) (mountpointId : ℕ) (pairs : List (ℕ × ℕ)) (done : List ℕ)
    (s : Mounts) : Prop where
  receiver : ∀ {t n x}, (t, n) ∈ pairs → t ∈ done → s₁.mounts.get? t = some x →
    s.mounts.get? t = some { x with mountpoints := x.mountpoints.erase mountpointId }
  gone : ∀ {t n z}, (t, n) ∈ pairs → t ∈ done → s₁.mounts.get? n = some z →
    s.mounts.get? n = some { z with selfMountpoint := none, mountpoints := .empty } ∧
      ∀ hop group, ¬ s.InGroup hop group n
  rest : ∀ {m}, m ∉ done → (∀ t ∈ done, (t, m) ∉ pairs) → s.mounts.get? m = s₁.mounts.get? m
  inGroup : ∀ {hop group m}, (∀ t, (t, m) ∉ pairs) →
    (s.InGroup hop group m ↔ s₁.InGroup hop group m)
  listsOk : s.ListsOk

section Walk

variable {s₀ s₁ s s' : Mounts} {source mountpointId child : ℕ} {y : MountFS}
  {pairs : List (ℕ × ℕ)} {done : List ℕ}

theorem Unmounting.start (hs : s₁.ListsOk) : Unmounting s₁ mountpointId pairs [] s₁ where
  receiver _ h := absurd h not_mem_nil
  gone _ h := absurd h not_mem_nil
  rest _ _ := rfl
  inGroup _ := Iff.rfl
  listsOk := hs

namespace Mounted

variable (h : Mounted s₀ source mountpointId child y pairs s₁) {x : MountFS} {m : ℕ}
include h

/-- An old mount is not a replica. -/
theorem not_replica (hs : s₀.ListsOk) (hx : s₀.mounts.get? m = some x)
    (t : ℕ) : (t, m) ∉ pairs := by
  intro hmem
  have := (h.replica hmem).1
  have := hs.mounts_lt hx
  omega

theorem exists_pair (ht : s₀.Receives source t) : ∃ n, (t, n) ∈ pairs := by
  obtain ⟨⟨u, n⟩, hmem, rfl⟩ := mem_map.mp ((h.receives_iff t).mpr ht)
  exact ⟨n, hmem⟩

theorem pair_unique {n' : ℕ} (hn : (t, n) ∈ pairs) (hn' : (t, n') ∈ pairs) : n = n' := by
  have := inj_on_of_nodup_map h.nodup hn hn' rfl
  exact (Prod.ext_iff.mp this).2

theorem receives_of_mem (hn : (t, n) ∈ pairs) : s₀.Receives source t :=
  (h.receives_iff t).mp (mem_map.mpr ⟨_, hn, rfl⟩)

/-- The propagation of an old mount is what it was. -/
theorem exists_record (hx : s₀.mounts.get? m = some x) :
    ∃ x', s₁.mounts.get? m = some x' ∧ x'.propagation = x.propagation := by
  by_cases hm : m ∈ pairs.map Prod.fst
  · obtain ⟨⟨t, n⟩, hmem, rfl⟩ := mem_map.mp hm
    exact ⟨_, h.receiver hmem hx, rfl⟩
  · by_cases hms : m = source
    · rw [hms] at hx ⊢
      exact ⟨_, h.parent hx, rfl⟩
    · exact ⟨x, h.rest hm hms hx, rfl⟩

end Mounted

theorem Unmounting.take (hs : s₀.ListsOk) (hm : Mounted s₀ source mountpointId child y pairs s₁)
    (h : Unmounting s₁ mountpointId pairs done s)
    (hdone : ∀ u ∈ done, s₀.Receives source u) (htn : (t, n) ∈ pairs) (ht : t ∉ done)
    (htakes : Takes s t n mountpointId s') : Unmounting s₁ mountpointId pairs (done ++ [t]) s' := by
  have hold : ∀ {u}, s₀.Receives source u → ∀ u', (u', u) ∉ pairs := by
    grind [exists_of_receives, hm.not_replica]
  have hrt := hm.receives_of_mem htn
  have hmem : ∀ {u}, u ∈ done ++ [t] ↔ u ∈ done ∨ u = t := by simp
  have htsame : s.mounts.get? t = s₁.mounts.get? t := h.rest ht fun u _ => hold hrt u
  have hnsame : s.mounts.get? n = s₁.mounts.get? n := by grind [h.rest, hm.injective]
  refine ⟨?_, ?_, ?_, ?_, htakes.listsOk⟩
  · grind [htakes.mounts, h.receiver, htakes.target]
  · intro u k z huk hu hz
    rcases hmem.mp hu with hu | rfl
    · grind [hm.injective, h.gone, htakes.mounts, htakes.inGroup]
    · grind [hm.pair_unique, htakes.taken, htakes.not_inGroup]
  · grind [htakes.mounts, h.rest]
  · grind [htakes.inGroup, h.inGroup]

/-- Cleaning a list of slaves does not count. -/
theorem Unmounting.getSlaves (h : Unmounting s₁ mountpointId pairs done s) (group : ℕ) :
    Unmounting s₁ mountpointId pairs done (s.getSlaves group).2 where
  receiver htn ht hx := by rw [getSlaves_mounts]; exact h.receiver htn ht hx
  gone htn ht hz := by grind [getSlaves_mounts, h.gone, inGroup_getSlaves]
  rest hm hp := by rw [getSlaves_mounts]; exact h.rest hm hp
  inGroup hp := inGroup_getSlaves.trans (h.inGroup hp)
  listsOk := h.listsOk.getSlaves group

/-- The propagation of an old mount is what it was. -/
theorem Unmounting.propagation_eq (hs : s₀.ListsOk)
    (hm : Mounted s₀ source mountpointId child y pairs s₁)
    (h : Unmounting s₁ mountpointId pairs done s) {m : ℕ} {x : MountFS}
    (hx : s₀.mounts.get? m = some x) (hdone : ∀ u ∈ done, s₀.Receives source u) :
    s.propagation m = s₀.propagation m := by
  obtain ⟨x', hx', hp⟩ := hm.exists_record hx
  by_cases hmd : m ∈ done
  · obtain ⟨n, hn⟩ := hm.exists_pair (hdone m hmd)
    rw [Mounts.propagation_eq (h.receiver hn hmd hx'), Mounts.propagation_eq hx, ← hp]
  · grind [h.rest, hm.not_replica, Mounts.propagation_eq]

variable (hnew : NewMount s₀ source mountpointId child y) (hs : s₀.ListsOk)
include hnew hs

section

variable (hm : Mounted s₀ source mountpointId child y pairs s₁)
  (h : Unmounting s₁ mountpointId pairs done s) (hdone : ∀ u ∈ done, s₀.Receives source u)
include hm h hdone

/-- **The walk takes a replica away.** -/
theorem Unmounting.step {via : List ℕ} {v : ℕ} {hop : Hop} (hv : s₀.links.Chain source source via v)
    (hgroup : GroupAt source y pairs s₁ v group) (hears : s₀.links.hears v hop t)
    (hts : t ≠ source) (ht : t ∉ done) :
    ∃ n z, s.findChildMountById t mountpointId = some n ∧ s.goesWith n child group = true ∧
      (t, n) ∈ pairs ∧ s₁.mounts.get? n = some z ∧ s.propagation n = z.propagation ∧
      Unmounting s₁ mountpointId pairs (done ++ [t]) (s.umountAtPeer n) := by
  have hr : s₀.Receives source t := ⟨hts, _, _, hv.reaches (Links.reaches_nil hears)⟩
  obtain ⟨n, htn⟩ := hm.exists_pair hr
  obtain ⟨x, hx⟩ := exists_of_receives hr
  obtain ⟨hle, z, hz, hreplica, hmatch⟩ := hm.replica htn
  obtain ⟨inode, hself, hinode⟩ := hreplica.selfMountpoint
  have hxs : s.mounts.get? t = s₁.mounts.get? t := h.rest ht fun u _ => hm.not_replica hs hx u
  rw [hm.receiver htn hx] at hxs
  have hzs : s.mounts.get? n = some z := by
    rw [← hz]
    refine h.rest (fun hn => ?_) fun u hu hun => ht (hm.injective hun htn ▸ hu)
    grind [exists_of_receives, hm.not_replica]
  have hnt : n ≠ t := by
    have := hs.mounts_lt hx
    omega
  have hnc : n ≠ child := by
    have := hs.mounts_lt hnew.record
    omega
  refine ⟨n, z, ?_, ?_, htn, hz, Mounts.propagation_eq hzs, ?_⟩
  · rw [findChildMountById_eq hxs]
    exact OrdMap.get?_insert_self ..
  · unfold goesWith
    grind [Mounts.propagation_eq]
  · exact h.take hs hm hdone htn ht (umountAtPeer_spec h.listsOk hxs hzs hnt hreplica.mountpoints
      hself hinode)

/-- Nothing is mounted on the mount that goes, or on a replica. -/
theorem Unmounting.find_eq_none (ht : t = child ∨ ∃ u, (u, t) ∈ pairs) :
    s.findChildMountById t mountpointId = none := by
  rcases ht with rfl | ⟨u, hut⟩
  · have hnr : ¬ s₀.Receives source t := by
      rintro ⟨-, via, hop, v, -, hears⟩
      exact hnew.not_hears hears
    have hrec : s.mounts.get? t = some y := by
      grind [h.rest, hm.not_replica, hnew.record, hm.rest, hm.receives_iff, hnew.ne_source]
    rw [findChildMountById_eq hrec, hnew.mountpoints]
    rfl
  · obtain ⟨hle, z, hz, hreplica, -⟩ := hm.replica hut
    by_cases hu : u ∈ done
    · rw [findChildMountById_eq (h.gone hut hu hz).1]
      rfl
    · have hrec : s.mounts.get? t = some z := by
        rw [← hz]
        refine h.rest (fun hin => ?_) fun u' hu' hmem => hu (hm.injective hmem hut ▸ hu')
        obtain ⟨x, hx⟩ := exists_of_receives (hdone t hin)
        exact hm.not_replica hs hx u hut
      rw [findChildMountById_eq hrec, hreplica.mountpoints]
      rfl

end

/-- **The walk of `propagateUmount` follows the links.** -/
theorem umountWalker_follows (hreg : Regular s₀ source mountpointId y)
    (hm : Mounted s₀ source mountpointId child y pairs s₁) :
    (umountWalker mountpointId child).Follows s₀.links source
      (fun done s => (∀ u ∈ done, s₀.Receives source u) ∧ Unmounting s₁ mountpointId pairs done s)
      (fun v group _ => GroupAt source y pairs s₁ v group)
      (fun t => t = child ∨ ∃ u, (u, t) ∈ pairs) where
  relays_iff := by
    rintro done s v ⟨hdone, h⟩ hv
    obtain ⟨x, hx⟩ := exists_of_reached hnew hv
    show (s.propagation v).isShared = true ↔ (s₀.propagation v).isShared = true
    rw [h.propagation_eq hs hm hx hdone]
  sides_nodup := by
    rintro done s v ⟨hdone, h⟩
    exact nodup_getPeers h.listsOk
  mem_sides := by
    rintro done s v via t ⟨hdone, h⟩ hv hrelay hears
    obtain ⟨x, hx⟩ := exists_of_chain hnew hv
    obtain ⟨x', hx'⟩ := exists_of_hears hears
    have htc : t ≠ child := by rintro rfl; exact hnew.not_hears hears
    refine mem_getPeers.mpr ⟨?_, hears.2.2⟩
    rw [h.propagation_eq hs hm hx hdone]
    exact (h.inGroup (hm.not_replica hs hx')).mpr
      ((hm.inGroup (hs.mounts_lt hx') htc).mpr hears.2.1)
  of_mem_sides := by
    rintro done s v via t ⟨hdone, h⟩ hv hrelay - ht
    obtain ⟨x, hx⟩ := exists_of_chain hnew hv
    obtain ⟨hmem, hne⟩ := mem_getPeers.mp ht
    rw [h.propagation_eq hs hm hx hdone] at hmem
    by_cases hidle : t = child ∨ ∃ u, (u, t) ∈ pairs
    · exact .inr hidle
    · obtain ⟨htc, hnp⟩ := not_or.mp hidle
      have hmem' := (h.inGroup (not_exists.mp hnp)).mp hmem
      obtain ⟨z, hz⟩ := hmem'.exists_record
      obtain ⟨x', hx'⟩ := (hm.fresh hz).resolve_right hnp
      exact .inl ⟨hrelay, (hm.inGroup (hs.mounts_lt hx') htc).mp hmem', hne⟩
  downs_inv := by
    rintro done s v ⟨hdone, h⟩
    exact ⟨hdone, h.getSlaves _⟩
  downs_data := fun hd => hd
  downs_nodup := by
    rintro done s v ⟨hdone, h⟩
    exact nodup_getSlaves (h.listsOk.nodup .down _)
  mem_downs := by
    rintro done s v via t ⟨hdone, h⟩ hv hrelay hears
    obtain ⟨x, hx⟩ := exists_of_chain hnew hv
    obtain ⟨x', hx'⟩ := exists_of_hears hears
    have htc : t ≠ child := by rintro rfl; exact hnew.not_hears hears
    refine mem_getSlaves.mpr ?_
    rw [h.propagation_eq hs hm hx hdone]
    exact (h.inGroup (hm.not_replica hs hx')).mpr
      ((hm.inGroup (hs.mounts_lt hx') htc).mpr hears.2)
  of_mem_downs := by
    rintro done s v via t ⟨hdone, h⟩ hv hrelay - ht
    obtain ⟨x, hx⟩ := exists_of_chain hnew hv
    have hmem := mem_getSlaves.mp ht
    rw [h.propagation_eq hs hm hx hdone] at hmem
    by_cases hidle : t = child ∨ ∃ u, (u, t) ∈ pairs
    · exact .inr hidle
    · obtain ⟨htc, hnp⟩ := not_or.mp hidle
      have hmem' := (h.inGroup (not_exists.mp hnp)).mp hmem
      obtain ⟨z, hz⟩ := hmem'.exists_record
      obtain ⟨x', hx'⟩ := (hm.fresh hz).resolve_right hnp
      exact .inl ⟨hrelay, (hm.inGroup (hs.mounts_lt hx') htc).mp hmem'⟩
  onSide_inv := by
    rintro done s v via t group ⟨hdone, h⟩ hv hgroup hears hts ht
    obtain ⟨n, z, hfind, hgo, htn, -, -, h'⟩ := h.step hnew hs hm hdone hv hgroup hears hts ht
    refine ⟨?_, ?_⟩
    · grind [hm.receives_of_mem]
    · grind [umountWalker]
  onSide_data := by
    rintro done s v via t group u e - - - - - - hu
    exact hu
  onDown_spec := by
    rintro done s v via t group ⟨hdone, h⟩ hv hgroup hears hts ht
    obtain ⟨n, z, hfind, hgo, htn, hz, hp, h'⟩ := h.step hnew hs hm hdone hv hgroup hears hts ht
    refine ⟨z.propagation.peerGroupId, s.umountAtPeer n, ?_, ⟨?_, h'⟩, .inr ⟨n, z, htn, hz, rfl⟩,
      fun _ _ h => h⟩
    · simp [hfind, hgo, hp, umountWalker]
    · grind [hm.receives_of_mem]
  onSide_idle := by
    rintro done s t group ⟨hdone, h⟩ hidle
    grind [umountWalker, h.find_eq_none]
  onDown_idle := by
    rintro done s t group ⟨hdone, h⟩ hidle
    grind [umountWalker, h.find_eq_none]
  side_ne_source := by
    rintro v via t hv hears rfl
    exact hreg.noReturn via (by simpa using hv.reaches (Links.reaches_nil hears))

end Walk
end MangoCore.Fs.Mount.Mounts
