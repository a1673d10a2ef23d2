import MangoCore.Fs.MountPropagation
import MangoCore.Lib.Spread

/-!
# The registries of peer groups

A mount is a member of a group when the registry lists it, it is still there, and it still has that
group; so also for the slaves of a group.  This is what the two lookups return.

Most of what the propagation does to a new mount touches that mount alone: the records of the others
and their memberships stay as they are.  `Touches` says so, and every function on the registries is
an instance.
-/

namespace MangoCore.Fs.Mount.Mounts

open OrdMap

variable {s : Mounts} {groups : OrdMap ℕ (List ℕ)} {n m group g : ℕ} {w : ℕ} {x : MountFS}
  {hop : Hop}

/-- The registry of the peers, or of the slaves. -/
def registry (s : Mounts) : Hop → OrdMap ℕ (List ℕ)
  | .side => s.peerGroups
  | .down => s.slaveGroups

def setRegistry (s : Mounts) (groups : OrdMap ℕ (List ℕ)) : Hop → Mounts
  | .side => { s with peerGroups := groups }
  | .down => { s with slaveGroups := groups }

/-- The mounts that are listed for a group. -/
def listed (s : Mounts) (hop : Hop) (group : ℕ) : List ℕ := ((s.registry hop).get? group).getD []

/-- The mount is a member of the group: one of the peers, or one of the slaves. -/
def InGroup (s : Mounts) (hop : Hop) (group m : ℕ) : Prop :=
  group ≠ 0 ∧ m ∈ s.listed hop group ∧ ∃ x, s.mounts.get? m = some x ∧
    match hop with
    | .side => x.propagation.isShared = true ∧ x.propagation.peerGroupId = group
    | .down => x.propagation.isSlave = true ∧ x.propagation.masterGroupId = group

/-- The mount is a member of the peer group. -/
abbrev InPeerGroup (s : Mounts) : ℕ → ℕ → Prop := s.InGroup .side

/-- The mount is a slave of the group. -/
abbrev IsSlaveOf (s : Mounts) : ℕ → ℕ → Prop := s.InGroup .down

/-- The lists of the registries have no repetitions, and name mounts that have been made. -/
structure ListsOk (s : Mounts) : Prop where
  mounts_lt : ∀ {m x}, s.mounts.get? m = some x → m < s.nextMount
  nodup : ∀ hop group, (s.listed hop group).Nodup
  lt : ∀ {hop group m}, m ∈ s.listed hop group → m < s.nextMount

/-! ## Lookups -/

theorem propagation_eq (h : s.mounts.get? m = some x) : s.propagation m = x.propagation := by
  simp [propagation, h]

theorem upgrade_eq_true_iff : s.upgrade m = true ↔ ∃ x, s.mounts.get? m = some x := by
  simp [upgrade, Option.isSome_iff_exists]

theorem mem_getPeers :
    w ∈ s.getPeers m ↔ s.InPeerGroup (s.propagation m).peerGroupId w ∧ w ≠ m := by
  unfold getPeers InPeerGroup InGroup
  rw [show s.listed .side = s.peerList from rfl]
  by_cases h0 : (s.propagation m).peerGroupId = 0
  · simp [h0]
  · rw [if_neg h0, List.mem_filter]
    simp only [Bool.and_eq_true, upgrade_eq_true_iff, bne_iff_ne, ne_eq, beq_iff_eq, h0,
      not_false_eq_true, true_and]
    grind [propagation_eq]

theorem nodup_getPeers (h : s.ListsOk) : (s.getPeers m).Nodup := by
  unfold getPeers
  dsimp only
  split_ifs
  · exact List.nodup_nil
  · exact (h.nodup .side _).filter _

theorem mem_getSlaves : w ∈ (s.getSlaves group).1 ↔ s.IsSlaveOf group w := by
  unfold getSlaves IsSlaveOf InGroup
  rw [show s.listed .down = s.slaveList from rfl]
  by_cases h0 : group = 0
  · simp [h0]
  · rw [if_neg h0]
    rw [List.mem_filter]
    simp only [Bool.and_eq_true, upgrade_eq_true_iff, beq_iff_eq, h0, ne_eq, not_false_eq_true,
      true_and]
    grind [propagation_eq]

theorem nodup_getSlaves (h : (s.listed .down group).Nodup) : (s.getSlaves group).1.Nodup := by
  unfold getSlaves
  split_ifs
  · exact List.nodup_nil
  · exact h.filter _

section

variable {s s' : Mounts} {group m : ℕ}
  (hp : (s'.mounts.get? m).map MountFS.propagation = (s.mounts.get? m).map MountFS.propagation)
include hp

/-- A membership depends on the list and on the groups that the mount has itself. -/
theorem inGroup_congr (hl : m ∈ s'.listed hop group ↔ m ∈ s.listed hop group) :
    s'.InGroup hop group m ↔ s.InGroup hop group m := by
  refine and_congr_right fun _ => and_congr hl ?_
  cases h : s.mounts.get? m <;> cases h' : s'.mounts.get? m <;> rw [h, h'] at hp <;> cases hop <;>
    grind

end

/-! ## Steps that touch one mount -/

/-- **The step touches the mount `n` alone.**  The records and the memberships of the others stay,
and only `n` can appear in a list. -/
structure Touches (n : ℕ) (s s' : Mounts) : Prop where
  mounts : ∀ {m}, m ≠ n → s'.mounts.get? m = s.mounts.get? m
  nextMount : s'.nextMount = s.nextMount
  isSome : (s'.mounts.get? n).isSome = (s.mounts.get? n).isSome
  inGroup : ∀ {hop group m}, m ≠ n → (s'.InGroup hop group m ↔ s.InGroup hop group m)
  mem : ∀ {hop group m}, m ∈ s'.listed hop group → m ∈ s.listed hop group ∨ m = n
  nodup : (∀ hop group, (s.listed hop group).Nodup) → ∀ hop group, (s'.listed hop group).Nodup

namespace Touches

variable {n : ℕ} {s s' s'' : Mounts}

theorem refl : Touches n s s :=
  ⟨fun _ => rfl, rfl, rfl, fun _ => Iff.rfl, .inl, id⟩

theorem trans (h : Touches n s s') (h' : Touches n s' s'') : Touches n s s'' where
  mounts hm := (h'.mounts hm).trans (h.mounts hm)
  nextMount := h'.nextMount.trans h.nextMount
  isSome := h'.isSome.trans h.isSome
  inGroup hm := (h'.inGroup hm).trans (h.inGroup hm)
  mem hm := (h'.mem hm).elim h.mem .inr
  nodup hn := h'.nodup (h.nodup hn)

theorem listsOk (h : Touches n s s') (hs : s.ListsOk) (hn : n < s.nextMount) : s'.ListsOk where
  mounts_lt {m x} hx := by
    rw [h.nextMount]
    by_cases hm : m = n
    · rwa [hm]
    · rw [h.mounts hm] at hx
      exact hs.mounts_lt hx
  nodup := h.nodup hs.nodup
  lt {hop group m} hm := by
    rw [h.nextMount]
    rcases h.mem hm with hm | rfl
    · exact hs.lt hm
    · exact hn

end Touches

theorem get?_modify {f : MountFS → MountFS} : (s.modify n f).mounts.get? m =
      if m = n then (s.mounts.get? n).map f else s.mounts.get? m := by
  grind [modify, get?_insert]

section

variable (s : Mounts) (n : ℕ) (f : MountFS → MountFS) (g : ℕ)

@[simp] theorem modify_nextMount : (s.modify n f).nextMount = s.nextMount := by
  unfold modify; cases s.mounts.get? n <;> rfl

@[simp] theorem modify_nextGroupId : (s.modify n f).nextGroupId = s.nextGroupId := by
  unfold modify; cases s.mounts.get? n <;> rfl

@[simp] theorem modify_listed (hop : Hop) : (s.modify n f).listed hop g = s.listed hop g := by
  unfold modify; cases s.mounts.get? n <;> cases hop <;> rfl

end

theorem touches_modify {f : MountFS → MountFS} : Touches n s (s.modify n f) where
  mounts {m} hm := by rw [get?_modify, if_neg hm]
  nextMount := modify_nextMount s n f
  isSome := by rw [get?_modify, if_pos rfl, Option.isSome_map]
  inGroup {hop group m} hm := by
    unfold InGroup
    rw [modify_listed, get?_modify, if_neg hm]
  mem hm := by rw [modify_listed] at hm; exact .inl hm
  nodup h hop group := by rw [modify_listed]; exact h hop group

theorem touches_allocateGroupId : Touches n s s.allocateGroupId.2 :=
  ⟨fun _ => rfl, rfl, rfl, fun _ => Iff.rfl, .inl, id⟩

/-- The members of a list after one mount has been dropped from one of them. -/
theorem mem_unlist : m ∈ ((unlist groups group n).get? g).getD [] ↔
      m ∈ (groups.get? g).getD [] ∧ ¬ (g = group ∧ m = n) := by
  unfold unlist
  cases hl : groups.get? group with
  | none => grind
  | some l =>
    have key : m ∈ (if (l.filter fun w => w != n).isEmpty then none
        else some (l.filter fun w => w != n)).getD [] ↔ m ∈ l ∧ m ≠ n := by
      split_ifs with hempty
      · grind
      · simp [List.mem_filter]
    grind [get?_erase_self, get?_insert_self, get?_erase_of_ne, get?_insert_of_ne]

theorem nodup_unlist (h : ∀ g, ((groups.get? g).getD []).Nodup) (g : ℕ) :
    (((unlist groups group n).get? g).getD []).Nodup := by
  unfold unlist
  cases hl : groups.get? group with
  | none => exact h g
  | some l =>
    have hnodup : (l.filter fun w => w != n).Nodup := by
      have := h group
      rw [hl] at this
      exact this.filter _
    by_cases g = group
    · grind [get?_erase_self, get?_insert_self]
    · grind [get?_erase_of_ne, get?_insert_of_ne]

variable {l : List ℕ}

theorem mem_relist : m ∈ s.relist l n ↔ (m ∈ l ∧ s.upgrade m = true ∧ m ≠ n) ∨ m = n := by
  simp [relist]

theorem nodup_relist (h : l.Nodup) : (s.relist l n).Nodup := by
  unfold relist
  grind

theorem listed_setRegistry (hop' : Hop) : (s.setRegistry groups hop).listed hop' g =
      if hop' = hop then (groups.get? g).getD [] else s.listed hop' g := by
  cases hop <;> cases hop' <;> rfl

/-- A step that changes one of the registries alone, and its lists at `n` alone. -/
theorem touches_setRegistry (hop : Hop)
    (hkeep : ∀ g m, m ≠ n → s.InGroup hop g m → m ∈ (groups.get? g).getD [])
    (hmem : ∀ g m, m ∈ (groups.get? g).getD [] → m ∈ s.listed hop g ∨ m = n)
    (hnodup : (∀ g, (s.listed hop g).Nodup) → ∀ g, ((groups.get? g).getD []).Nodup) :
    Touches n s (s.setRegistry groups hop) := by
  have hmounts : (s.setRegistry groups hop).mounts = s.mounts := by cases hop <;> rfl
  refine ⟨fun _ => by rw [hmounts], by cases hop <;> rfl, by rw [hmounts], ?_, ?_, ?_⟩
  · intro hop' g m hm
    unfold InGroup
    rw [hmounts, listed_setRegistry]
    grind [InGroup]
  · grind [listed_setRegistry]
  · grind [listed_setRegistry]

section

variable (s : Mounts) (hop : Hop)

/-- A mount is put on a list. -/
theorem touches_relist : Touches n s
    (s.setRegistry ((s.registry hop).insert group (s.relist (s.listed hop group) n)) hop) := by
  refine touches_setRegistry hop ?_ ?_ ?_
  · grind [InGroup, listed, get?_insert, mem_relist, upgrade_eq_true_iff]
  · grind [listed, mem_relist, get?_insert]
  · intro hnodup g
    rw [get?_insert]
    split_ifs
    · exact nodup_relist (hnodup _)
    · exact hnodup g

/-- A mount is taken off a list. -/
theorem touches_unlist :
    Touches n s (s.setRegistry (unlist (s.registry hop) group n) hop) := by
  refine touches_setRegistry hop ?_ ?_ nodup_unlist
  · grind [InGroup, listed, mem_unlist]
  · intro g m hin
    exact .inl (mem_unlist.mp hin).1

end

section

variable (s : Mounts)

theorem touches_registerPeer : Touches n s (s.registerPeer n) := by
  unfold registerPeer
  dsimp only
  split_ifs
  · exact .refl
  · exact touches_relist s .side

theorem touches_unregisterPeerMount : Touches n s (s.unregisterPeerMount n) := by
  unfold unregisterPeerMount
  dsimp only
  split_ifs
  · exact .refl
  · exact touches_unlist s .side

theorem touches_registerSlave {master : ℕ} : Touches n s (s.registerSlave n master) := by
  unfold registerSlave
  split_ifs
  · exact .refl
  · exact touches_relist s .down

theorem touches_unregisterSlaveMount : Touches n s (s.unregisterSlaveMount n) := by
  unfold unregisterSlaveMount
  dsimp only
  split_ifs
  · exact .refl
  · exact touches_unlist s .down

theorem mem_of_mem_unlist (hop' : Hop)
    (hm : m ∈ (s.setRegistry (unlist (s.registry hop') group n) hop').listed hop g) :
    m ∈ s.listed hop g := by
  rw [listed_setRegistry] at hm
  split_ifs at hm with h
  · rw [h]
    exact (mem_unlist.mp hm).1
  · exact hm

theorem mem_of_mem_unregisterPeerMount (hm : m ∈ (s.unregisterPeerMount n).listed hop g) :
    m ∈ s.listed hop g := by
  unfold unregisterPeerMount at hm
  dsimp only at hm
  split_ifs at hm
  · exact hm
  · exact mem_of_mem_unlist s .side hm

theorem mem_of_mem_unregisterSlaveMount (hm : m ∈ (s.unregisterSlaveMount n).listed hop g) :
    m ∈ s.listed hop g := by
  unfold unregisterSlaveMount at hm
  dsimp only at hm
  split_ifs at hm
  · exact hm
  · exact mem_of_mem_unlist s .down hm

theorem touches_registerCurrentPropagation (n : ℕ) :
    Touches n s (s.registerCurrentPropagation n) := by
  unfold registerCurrentPropagation
  dsimp only
  have h₁ : Touches n s (if (s.propagation n).isShared then s.registerPeer n else s) := by
    split_ifs
    · exact touches_registerPeer s
    · exact .refl
  generalize (if (s.propagation n).isShared then s.registerPeer n else s) = s' at h₁
  refine h₁.trans ?_
  split_ifs
  · exact touches_registerSlave s'
  · exact .refl

/-- Cleaning a list of slaves changes no membership. -/
theorem touches_getSlaves (n group : ℕ) : Touches n s (s.getSlaves group).2 := by
  by_cases h0 : group = 0
  · unfold getSlaves
    rw [if_pos h0]
    exact .refl
  · have hstate : (s.getSlaves group).2 =
        s.setRegistry (s.slaveGroups.insert group (s.getSlaves group).1) .down := by
      unfold getSlaves
      rw [if_neg h0]
      rfl
    rw [hstate]
    refine touches_setRegistry .down ?_ ?_ ?_
    · grind [mem_getSlaves, get?_insert, InGroup, listed, registry]
    · grind [mem_getSlaves, get?_insert, InGroup, listed, registry]
    · intro hnodup g
      rw [get?_insert]
      split_ifs
      · exact nodup_getSlaves (hnodup group)
      · exact hnodup g

end

theorem inGroup_getSlaves : (s.getSlaves group).2.InGroup hop g m ↔ s.InGroup hop g m :=
  (touches_getSlaves s (m + 1) group).inGroup (by omega)

@[simp] theorem getSlaves_nextMount : (s.getSlaves group).2.nextMount = s.nextMount :=
  (touches_getSlaves s 0 group).nextMount

theorem ListsOk.getSlaves (h : s.ListsOk) (group : ℕ) : (s.getSlaves group).2.ListsOk where
  mounts_lt {m x} hx := by
    rw [(touches_getSlaves s (m + 1) group).mounts (by omega)] at hx
    rw [getSlaves_nextMount]
    exact h.mounts_lt hx
  nodup := (touches_getSlaves s 0 group).nodup h.nodup
  lt {hop g m} hm := by
    rw [getSlaves_nextMount]
    exact h.lt (((touches_getSlaves s (m + 1) group).mem hm).resolve_right (by omega))

/-! ## What the registries leave alone -/

section

variable (s : Mounts) (n group : ℕ)

@[simp] theorem registerPeer_frame :
    (s.registerPeer n).mounts = s.mounts ∧ (s.registerPeer n).nextGroupId = s.nextGroupId := by
  unfold registerPeer; dsimp only; split_ifs <;> exact ⟨rfl, rfl⟩

@[simp] theorem unregisterPeerMount_frame : (s.unregisterPeerMount n).mounts = s.mounts ∧
      (s.unregisterPeerMount n).nextGroupId = s.nextGroupId := by
  unfold unregisterPeerMount; dsimp only; split_ifs <;> exact ⟨rfl, rfl⟩

@[simp] theorem registerSlave_frame : (s.registerSlave n group).mounts = s.mounts ∧
      (s.registerSlave n group).nextGroupId = s.nextGroupId := by
  unfold registerSlave; split_ifs <;> exact ⟨rfl, rfl⟩

@[simp] theorem unregisterSlaveMount_frame : (s.unregisterSlaveMount n).mounts = s.mounts ∧
      (s.unregisterSlaveMount n).nextGroupId = s.nextGroupId := by
  unfold unregisterSlaveMount; dsimp only; split_ifs <;> exact ⟨rfl, rfl⟩

@[simp] theorem getSlaves_mounts : (s.getSlaves group).2.mounts = s.mounts := by
  unfold getSlaves; split_ifs <;> rfl

@[simp] theorem getSlaves_nextGroupId : (s.getSlaves group).2.nextGroupId = s.nextGroupId := by
  unfold getSlaves; split_ifs <;> rfl

@[simp] theorem registerCurrentPropagation_frame :
    (s.registerCurrentPropagation n).mounts = s.mounts ∧
      (s.registerCurrentPropagation n).nextGroupId = s.nextGroupId := by
  unfold registerCurrentPropagation
  dsimp only
  split_ifs <;> simp

end

@[simp] theorem unregisterSlaveMount_listed :
    (s.unregisterSlaveMount n).listed .side g = s.listed .side g := by
  unfold unregisterSlaveMount; dsimp only; split_ifs <;> rfl

theorem get?_setPropagation_self (h : s.mounts.get? n = some x) {p : MountPropagation} :
    (s.setPropagation n p).mounts.get? n = some { x with propagation := p } := by
  unfold setPropagation
  rw [get?_modify, if_pos rfl, h]
  rfl
end MangoCore.Fs.Mount.Mounts
