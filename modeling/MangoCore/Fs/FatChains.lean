import MangoCore.Fs.FatAlloc
import MangoCore.Lib.System

/-!
# Runs on a FAT volume

A run starts from a volume whose cluster lists are the chains of its table and allocates and frees
through any of its inodes.  In every state that it reaches the lists are still the chains: following
the links from the first cluster of a list gives the list.

The copies of the table agree on a mirrored volume.  A volume whose boot sector disables mirroring
is written in one copy only.
-/

namespace MangoCore.Fs.Fat

open Volume LinkTable List

/-- The entries at which `get_all_clus_num` stops. -/
def stopsChain (link : ℕ) : Bool :=
  link == badBlock || link == fatEntryFree || decide (fatEntryReservedToEnd ≤ link)

/-- `get_all_clus_num`, with a bound on the number of rounds of its loop. -/
def getAllClusNum (g : Geometry) (device : Device) (fuel currentClusNum : ℕ) : Option (List ℕ) :=
  follow stopsChain (g.getNextClusNum device) fuel currentClusNum

inductive FatLabel where
  | allocClus (inode allocNum : ℕ)
  | deallocClus (inode deallocNum : ℕ)

namespace Volume

/-- One call, with the clusters that it returns. -/
def step (g : Geometry) (v : Volume) : FatLabel → List ℕ × Volume
  | .allocClus i n => v.allocClus g i n
  | .deallocClus i n => ([], v.deallocClus g i n)

/-- A volume as it is mounted: nothing is cached yet. -/
def Mounted (g : Geometry) (usable : ℕ → Prop) (v : Volume) : Prop :=
  Sound g usable v [] ∧ v.fat.vacantClus = [] ∧ v.fat.hint = 2

end Volume

/-- Every sequence of allocations and frees on a mounted volume. -/
def fatVolume (g : Geometry) (usable : ℕ → Prop) : System Volume FatLabel :=
  .ofFun (Mounted g usable) fun v l => some (v.step g l).2

variable {g : Geometry} {usable : ℕ → Prop} {v : Volume}

theorem Volume.Sound.step (h : Sound g usable v []) (l : FatLabel) :
    Sound g usable (v.step g l).2 [] := by
  cases l with
  | allocClus i n => exact (h.allocClus i n).1
  | deallocClus i n => exact h.deallocClus i n

theorem sound_of_reachable_fatVolume (hv : (fatVolume g usable).Reachable v) :
    Sound g usable v [] := by
  refine hv.invariant (I := fun v => Sound g usable v []) (fun v (h : Mounted g usable v) => h.1) ?_
  rintro v l v' - h hstep
  rw [← Option.some.inj hstep]
  exact h.step l

/-- The clusters of a volume do not stop the walk. -/
theorem stopsChain_eq_false {c : ℕ} (hc₂ : 2 ≤ c) (hc : c < g.maxClusterExclusive) :
    stopsChain c = false := by
  have hnumbers := g.numbers
  have hbad : c ≠ badBlock := by omega
  have hfree : c ≠ fatEntryFree := by
    rintro rfl
    exact absurd hc₂ (by decide)
  have hreserved : ¬ fatEntryReservedToEnd ≤ c := by
    have : badBlock < fatEntryReservedToEnd := by decide
    omega
  simp [hbad, hfree, hreserved, stopsChain]

theorem stopsChain_of_endMark (c : ℕ) (hc : EndMark c) : stopsChain c = true := by
  have hreserved : fatEntryReservedToEnd ≤ c := hc
  rw [stopsChain, decide_eq_true hreserved, Bool.or_true]

/-- Following the links from the first cluster of a list gives the list. -/
theorem Volume.Sound.getAllClusNum (h : Sound g usable v []) {i c : ℕ} {l : List ℕ}
    (hlist : v.clusList i = c :: l) {fuel : ℕ} (hfuel : l.length < fuel) :
    Fat.getAllClusNum g v.fat.device fuel c = some (c :: l) := by
  refine follow_of_linked stopsChain_of_endMark (hlist ▸ h.linked i) (fun b hb => ?_) hfuel
  obtain ⟨hb₂, hb⟩ := h.range i b (hlist ▸ mem_cons_of_mem c hb)
  exact stopsChain_eq_false hb₂ hb

/-- **The chains of a FAT volume.**  In every run the lists of the inodes are disjoint, have no
repetition and are what the table links from their first cluster to an end mark; the cached clusters
are distinct and free; an allocation appends the clusters that it returns, and returns fewer than
asked for only if no cluster is left; every usable cluster is in a list or free, and only one of the
two; and the copies of the table agree if the volume is mirrored. -/
theorem chains_of_reachable (hv : (fatVolume g usable).Reachable v) :
    (∀ i j, i ≠ j → ∀ c ∈ v.clusList i, c ∉ v.clusList j) ∧ (∀ i, (v.clusList i).Nodup ∧
      Linked (fatEntryReservedToEnd ≤ ·) (g.getNextClusNum v.fat.device) (v.clusList i) ∧
      ∀ c l fuel, v.clusList i = c :: l → l.length < fuel →
        getAllClusNum g v.fat.device fuel c = some (v.clusList i)) ∧ (v.fat.vacantClus.Nodup ∧
      ∀ c ∈ v.fat.vacantClus, g.getNextClusNum v.fat.device c = fatEntryFree) ∧
    (∀ i n, (v.step g (.allocClus i n)).2.clusList =
        Function.update v.clusList i (v.clusList i ++ (v.step g (.allocClus i n)).1) ∧
      ((v.step g (.allocClus i n)).1.length = n ∨ ((v.step g (.allocClus i n)).1.length < n ∧
          ∀ c, 2 ≤ c → c < g.maxClusterExclusive →
            g.getNextClusNum (v.step g (.allocClus i n)).2.fat.device c ≠ fatEntryFree))) ∧
    (∀ c, 2 ≤ c → c < g.maxClusterExclusive →
      (usable c ↔ (∃ i, c ∈ v.clusList i) ∨ g.getNextClusNum v.fat.device c = fatEntryFree) ∧
      ∀ i, c ∈ v.clusList i → g.getNextClusNum v.fat.device c ≠ fatEntryFree) ∧
    (g.mirrorWrites = true → ∀ i < g.numFats, ∀ c < g.maxClusterExclusive,
      g.entry v.fat.device i c = g.entry v.fat.device 0 c) := by
  have h := sound_of_reachable_fatVolume hv
  refine ⟨h.disjoint, fun i => ⟨h.nodup i, h.linked i, fun c l fuel hlist hfuel => ?_⟩,
    ⟨h.vacant_nodup, fun c hc => (h.vacant c hc).2.2⟩, fun i n => ⟨rfl, (h.allocClus i n).2⟩,
    fun c hc₂ hc => ⟨?_, fun i hmem => h.next_ne_free hmem⟩, h.mirrored⟩
  · rw [hlist]
    exact h.getAllClusNum hlist hfuel
  · have hconserved := h.conserved c hc₂ hc
    simp only [not_mem_nil, or_false] at hconserved
    exact hconserved

/-! ## An empty volume -/

/-- An empty volume is mounted with every cluster free. -/
def emptyVolume : Volume := ⟨⟨fun _ _ => 0, [], 2⟩, fun _ => []⟩

theorem mounted_emptyVolume : Mounted g (fun _ => True) emptyVolume := by
  have hfree : ∀ c, emptyVolume.next g c = fatEntryFree := fun c => Nat.zero_and eoc
  refine ⟨⟨fun i c hc => ?_, fun i => nodup_nil, fun i j hij c hc => ?_,
    fun i => linked_nil, nodup_nil, fun c hc => ?_, nodup_nil, fun c hc => ?_,
    fun c _ _ => iff_of_true trivial (.inr (.inl (hfree c))), fun _ i _ c _ => rfl⟩, rfl, rfl⟩
  all_goals exact absurd hc not_mem_nil

/-- Four clusters in two copies. -/
def fourClusters (extFlags : ℕ) : Option Geometry :=
  Geometry.new 32 512 1 2 extFlags 4

/-- One inode gets three clusters and gives one back. -/
def threeAndBack (g : Geometry) : Volume :=
  ((emptyVolume.step g (.allocClus 0 3)).2.step g (.deallocClus 0 1)).2

theorem chains_threeAndBack : ∃ g, fourClusters 0 = some g ∧
    (fatVolume g fun _ => True).Reachable (threeAndBack g) ∧
    (threeAndBack g).clusList 0 = [2, 3] ∧ (threeAndBack g).fat.vacantClus = [4] ∧
    getAllClusNum g (threeAndBack g).fat.device 4 2 = some [2, 3] ∧
    g.entry (threeAndBack g).fat.device 1 2 = g.entry (threeAndBack g).fat.device 0 2 := by
  have hsome : (fourClusters 0).isSome = true := by decide
  obtain ⟨g, hg⟩ := Option.isSome_iff_exists.mp hsome
  have hcheck : (fourClusters 0).all (fun g => decide (g.mirrorWrites = true ∧ g.numFats = 2 ∧
      2 < g.maxClusterExclusive ∧ (threeAndBack g).clusList 0 = [2, 3] ∧
      (threeAndBack g).fat.vacantClus = [4])) = true := by
    decide
  rw [hg] at hcheck
  obtain ⟨hmirror, hcopies, hmax, hlist, hvacant⟩ := of_decide_eq_true hcheck
  have hreach : (fatVolume g fun _ => True).Reachable (threeAndBack g) :=
    .step (a := .deallocClus 0 1) (.step (a := .allocClus 0 3) (.init mounted_emptyVolume) rfl) rfl
  have hall := chains_of_reachable hreach
  refine ⟨g, hg, hreach, hlist, hvacant, ?_, ?_⟩
  · rw [(hall.2.1 0).2.2 2 [3] 4 hlist (by decide), hlist]
  · exact hall.2.2.2.2.2 hmirror 1 (by rw [hcopies]; decide) 2 hmax

/-- **Without mirroring the copies disagree** after the first allocation: the boot sector can ask
for updates of the active copy only. -/
theorem copies_differ_unmirrored : ∃ g v, fourClusters 0x80 = some g ∧
    (fatVolume g fun _ => True).Reachable v ∧ 1 < g.numFats ∧
    g.entry v.fat.device 0 2 = eoc ∧ g.entry v.fat.device 1 2 = fatEntryFree := by
  have hsome : (fourClusters 0x80).isSome = true := by decide
  obtain ⟨g, hg⟩ := Option.isSome_iff_exists.mp hsome
  have hcheck : (fourClusters 0x80).all (fun g => decide (1 < g.numFats ∧
      g.entry (emptyVolume.step g (.allocClus 0 1)).2.fat.device 0 2 = eoc ∧
      g.entry (emptyVolume.step g (.allocClus 0 1)).2.fat.device 1 2 = fatEntryFree)) = true := by
    decide
  rw [hg] at hcheck
  obtain ⟨hcopies, hfirst, hsecond⟩ := of_decide_eq_true hcheck
  exact ⟨g, _, hg, .step (a := .allocClus 0 1) (.init mounted_emptyVolume) rfl, hcopies,
    hfirst, hsecond⟩
end MangoCore.Fs.Fat
