import MangoCore.Fs.FatTable
import MangoCore.Lib.LinkTable

/-!
# Cluster chains

All changes of the table are made under one lock, which also guards a cache of up to 64 clusters
that were freed and a hint where the next scan starts.  An allocation takes clusters from the cache
and then scans the table; each cluster gets an end mark before the cluster in front of it names it.
Freeing a suffix writes the end mark into the last cluster that stays, then frees the suffix from
its end.

The state of the volume also has the cluster lists that the inodes keep in memory.  `Sound` relates
them to the table; while a suffix is being freed, the clusters that are cut off and not yet free
are in `limbo`.
-/

namespace MangoCore.Fs.Fat

open Function List

def vacantClusCacheSize : ℕ := 64

/-- The device and what the lock guards; the back of the cache is the head of the list. -/
structure FatState where
  device : Device
  vacantClus : List ℕ
  hint : ℕ

variable (g : Geometry)

namespace FatState

section

variable (s : FatState) (last : Option ℕ)

/-- `get_next_free_clus`: from the hint to the end, then from the first cluster to the hint. -/
def getNextFreeClus (start : ℕ) : Option ℕ :=
  let start := min (max start 2) g.maxClusterExclusive
  let isFree := fun c => decide (g.getNextClusNum s.device c = fatEntryFree)
  ((range' start (g.maxClusterExclusive - start)).find? isFree).or
    ((range' 2 (start - 2)).find? isFree)

/-- The cluster is marked as an end, then the one in front of it names it. -/
def link (c : ℕ) : Device :=
  g.setNextClus (g.setNextClus s.device (some c) eoc) last c

def allocOne : Option ℕ × FatState :=
  match s.vacantClus with
  | c :: rest => (some c, { s with device := s.link g last c, vacantClus := rest })
  | [] =>
    match s.getNextFreeClus g s.hint with
    | none => (none, s)
    | some c =>
      (some c, { s with
        device := s.link g last c
        hint := if c + 1 < g.maxClusterExclusive then c + 1 else 2 })

end

/-- The loop of `alloc`: the last cluster, the clusters so far and the state. -/
def allocLoop : ℕ → FatState → Option ℕ → List ℕ → Option ℕ × List ℕ × FatState
  | 0, s, last, allocated => (last, allocated, s)
  | n + 1, s, last, allocated =>
    match s.allocOne g last with
    | (none, s) => (none, allocated, s)
    | (some c, s) => allocLoop n s (some c) (allocated ++ [c])

variable (s : FatState)

def alloc (allocNum : ℕ) (last : Option ℕ) : List ℕ × FatState :=
  let result := allocLoop g allocNum s last []
  (result.2.1, { result.2.2 with device := g.setNextClus result.2.2.device result.1 eoc })

/-- One round of the loop of `free`. -/
def freeOne (c : ℕ) : FatState :=
  { s with
    device := g.setNextClus s.device (some c) fatEntryFree
    vacantClus :=
      if s.vacantClus.length < vacantClusCacheSize then c :: s.vacantClus else s.vacantClus }

def free (clusterList : List ℕ) (last : Option ℕ) : FatState :=
  clusterList.foldl (freeOne g) { s with device := g.setNextClus s.device last eoc }

end FatState

/-- The volume and the cluster lists of the inodes. -/
structure Volume where
  fat : FatState
  clusList : ℕ → List ℕ

namespace Volume

/-- `alloc_clus` of an inode; an empty list starts a new chain. -/
def allocClus (v : Volume) (i allocNum : ℕ) : List ℕ × Volume :=
  let result := v.fat.alloc g allocNum (v.clusList i).getLast?
  (result.1, ⟨result.2, update v.clusList i (v.clusList i ++ result.1)⟩)

/-- `dealloc_clus` of an inode: the clusters are popped from the end of its list. -/
def deallocClus (v : Volume) (i deallocNum : ℕ) : Volume :=
  let list := v.clusList i
  let kept := list.length - min deallocNum list.length
  ⟨v.fat.free g (list.drop kept).reverse (list.take kept).getLast?,
    update v.clusList i (list.take kept)⟩

/-- A link that ends a chain. -/
def EndMark (link : ℕ) : Prop :=
  fatEntryReservedToEnd ≤ link

instance (link : ℕ) : Decidable (EndMark link) :=
  inferInstanceAs (Decidable (_ ≤ _))

/-- The link of a cluster. -/
def next (v : Volume) : ℕ → ℕ :=
  g.getNextClusNum v.fat.device

/-- The cluster lists are the chains of the table, and every usable cluster is in a chain, free or
in limbo. -/
structure Sound (usable : ℕ → Prop) (v : Volume) (limbo : List ℕ) : Prop where
  range : ∀ i, ∀ c ∈ v.clusList i, 2 ≤ c ∧ c < g.maxClusterExclusive
  nodup : ∀ i, (v.clusList i).Nodup
  disjoint : ∀ i j, i ≠ j → ∀ c ∈ v.clusList i, c ∉ v.clusList j
  linked : ∀ i, LinkTable.Linked EndMark (v.next g) (v.clusList i)
  vacant_nodup : v.fat.vacantClus.Nodup
  vacant : ∀ c ∈ v.fat.vacantClus,
    2 ≤ c ∧ c < g.maxClusterExclusive ∧ v.next g c = fatEntryFree
  limbo_nodup : limbo.Nodup
  inLimbo : ∀ c ∈ limbo, 2 ≤ c ∧ c < g.maxClusterExclusive ∧ v.next g c ≠ fatEntryFree ∧
    ∀ i, c ∉ v.clusList i
  conserved : ∀ c, 2 ≤ c → c < g.maxClusterExclusive →
    (usable c ↔ (∃ i, c ∈ v.clusList i) ∨ v.next g c = fatEntryFree ∨ c ∈ limbo)
  mirrored : g.mirrorWrites = true → g.Mirrored v.fat.device

variable {g} {usable : ℕ → Prop} {v : Volume} {limbo : List ℕ} {i c val d : ℕ} {last : Option ℕ}
  {device : Device} {fat : FatState}

/-- No cluster of a chain is free. -/
theorem Sound.next_ne_free (h : Sound g usable v limbo) (hc : c ∈ v.clusList i) :
    v.next g c ≠ fatEntryFree := by
  obtain hend | hmem := (h.linked i).isEnd_or_mem hc <;> intro hfree
  · rw [hfree] at hend
    exact absurd hend (by decide)
  · have := (h.range i _ hmem).1
    rw [hfree] at this
    exact absurd this (by decide)

theorem Sound.last_lt (h : Sound g usable v limbo) {t : ℕ} (ht : t ∈ (v.clusList i).getLast?) :
    t < g.maxClusterExclusive :=
  (h.range i t (mem_of_getLast? ht)).2

theorem eoc_lt : eoc < 2 ^ 28 := by decide

theorem endMark_eoc : EndMark eoc := by decide

/-- A cluster number of the volume is a link that fits an entry. -/
theorem lt_link (hc : c < g.maxClusterExclusive) : c < 2 ^ 28 := by
  have hnumbers := g.numbers
  have : badBlock < 2 ^ 28 := by decide
  omega

/-! ## The last cluster -/

section

variable (hlast : ∀ t ∈ last, t < g.maxClusterExclusive)
include hlast

/-- The links after a write to the last cluster of a list, if there is one. -/
theorem getNextClusNum_setLast (hd : d < g.maxClusterExclusive)
    (hval : val < 2 ^ 28) : g.getNextClusNum (g.setNextClus device last val) d =
      if d ∈ last then val else g.getNextClusNum device d := by
  cases last with
  | none => rw [if_neg (fun h => nomatch h)]; rfl
  | some t => grind [Geometry.getNextClusNum_setNextClus]

theorem mirrored_setLast (hmirror : g.mirrorWrites = true)
    (h : g.Mirrored device) : g.Mirrored (g.setNextClus device last val) := by
  cases last with
  | none => exact h
  | some t => exact h.setNextClus hmirror (hlast t rfl) val

end

/-! ## One cluster more -/

/-- The links after a cluster was appended. -/
theorem next_link {clusList : ℕ → List ℕ} (hfat : fat.device = v.fat.link g last c)
    (hlast : ∀ t ∈ last, t < g.maxClusterExclusive) (hc : c < g.maxClusterExclusive)
    (hd : d < g.maxClusterExclusive) :
    next g ⟨fat, clusList⟩ d = if d ∈ last then c else if d = c then eoc else v.next g d := by
  rw [next, hfat, FatState.link, getNextClusNum_setLast hlast hd (lt_link hc),
    Geometry.getNextClusNum_setNextClus hc hd eoc_lt]
  rfl

/-- A free cluster is appended to a list, and the cache loses it if it had it. -/
theorem Sound.extend (h : Sound g usable v []) (hc₂ : 2 ≤ c) (hc : c < g.maxClusterExclusive)
    (hfree : v.next g c = fatEntryFree) (hfat : fat.device = v.fat.link g (v.clusList i).getLast? c)
    (hvacant : fat.vacantClus.Sublist v.fat.vacantClus) (hnot : c ∉ fat.vacantClus) :
    Sound g usable ⟨fat, update v.clusList i (v.clusList i ++ [c])⟩ [] := by
  have hnew : ∀ j, c ∉ v.clusList j := fun j hmem => h.next_ne_free hmem hfree
  have hlast : ∀ t ∈ (v.clusList i).getLast?, t < g.maxClusterExclusive := fun t => h.last_lt
  have hnext : ∀ d < g.maxClusterExclusive,
      next g ⟨fat, update v.clusList i (v.clusList i ++ [c])⟩ d =
        if d ∈ (v.clusList i).getLast? then c else if d = c then eoc else v.next g d :=
    fun d hd => next_link hfat hlast hc hd
  have hclast : c ∉ (v.clusList i).getLast? := fun hmem => hnew i (mem_of_getLast? hmem)
  have hlist : ∀ j d, d ∈ update v.clusList i (v.clusList i ++ [c]) j ↔
      d ∈ v.clusList j ∨ (j = i ∧ d = c) := by
    intro j d
    by_cases hj : j = i
    · subst hj
      simp [update_self]
    · rw [update_of_ne hj]
      simp [hj]
  refine ⟨fun j d hd => ?_, fun j => ?_, fun j k hjk d hdj hdk => ?_, fun j => ?_,
    h.vacant_nodup.sublist hvacant, fun d hd => ?_, nodup_nil, (fun d hd => nomatch hd),
    fun d hd₂ hd => ?_, fun hmirror => ?_⟩
  · obtain hd | ⟨-, rfl⟩ := (hlist j d).mp hd
    · exact h.range j d hd
    · exact ⟨hc₂, hc⟩
  · dsimp only
    by_cases hj : j = i
    · grind [h.nodup]
    · rw [update_of_ne hj]
      exact h.nodup j
  · obtain hj | ⟨hji, rfl⟩ := (hlist j d).mp hdj
    · grind [disjoint]
    · grind
  · dsimp only
    by_cases hj : j = i
    · subst hj
      rw [update_self]
      refine (h.linked j).append_one (h.nodup j) ?_ (fun t ht => ?_) (fun a ha hne => ?_)
      · rw [hnext c hc, if_neg hclast, if_pos rfl]
        exact endMark_eoc
      · rw [hnext t (hlast t ht), if_pos ht]
      · rw [hnext a (h.range j a ha).2, if_neg hne, if_neg (by rintro rfl; exact hnew j ha)]
    · rw [update_of_ne hj]
      refine (h.linked j).congr fun a ha => ?_
      rw [hnext a (h.range j a ha).2, if_neg, if_neg (by rintro rfl; exact hnew j ha)]
      exact fun hmem => h.disjoint j i hj a ha (mem_of_getLast? hmem)
  · obtain ⟨h₁, h₂, hfreed⟩ := h.vacant d (hvacant.subset hd)
    refine ⟨h₁, h₂, ?_⟩
    rw [hnext d h₂, if_neg, if_neg (by rintro rfl; exact hnot hd)]
    · exact hfreed
    · exact fun hmem => h.next_ne_free (mem_of_getLast? hmem) hfreed
  · rw [h.conserved d hd₂ hd, hnext d hd]
    simp only [hlist, not_mem_nil, or_false]
    by_cases hdc : d = c
    · subst hdc
      exact iff_of_true (.inr hfree) (.inl ⟨i, .inr ⟨rfl, rfl⟩⟩)
    · simp only [hdc, and_false, or_false, if_false]
      by_cases hdl : d ∈ (v.clusList i).getLast?
      · exact iff_of_true (.inl ⟨i, mem_of_getLast? hdl⟩) (.inl ⟨i, mem_of_getLast? hdl⟩)
      · rw [if_neg hdl]
  · rw [hfat]
    exact mirrored_setLast hlast hmirror ((h.mirrored hmirror).setNextClus hmirror hc eoc)

/-! ## A cut and the clusters behind it -/

/-- The end mark in front of a suffix cuts it off. -/
theorem Sound.detach (h : Sound g usable v []) {l m : List ℕ} (hlist : v.clusList i = l ++ m) :
    Sound g usable ⟨{ v.fat with device := g.setNextClus v.fat.device l.getLast? eoc },
      update v.clusList i l⟩ m.reverse := by
  have hmeml : ∀ d ∈ l, d ∈ v.clusList i := fun d hd => hlist ▸ mem_append_left m hd
  have hmemm : ∀ d ∈ m, d ∈ v.clusList i := fun d hd => hlist ▸ mem_append_right l hd
  have hnodup := nodup_append.mp (hlist ▸ h.nodup i)
  have hlast : ∀ t ∈ l.getLast?, t < g.maxClusterExclusive := fun t ht =>
    (h.range i t (hmeml t (mem_of_getLast? ht))).2
  have hnext : ∀ d < g.maxClusterExclusive,
      next g ⟨{ v.fat with device := g.setNextClus v.fat.device l.getLast? eoc },
        update v.clusList i l⟩ d = if d ∈ l.getLast? then eoc else v.next g d :=
    fun d hd => getNextClusNum_setLast hlast hd eoc_lt
  have hsub : ∀ j d, d ∈ update v.clusList i l j → d ∈ v.clusList j := by grind
  have hfree : ∀ d < g.maxClusterExclusive,
      next g ⟨{ v.fat with device := g.setNextClus v.fat.device l.getLast? eoc },
        update v.clusList i l⟩ d = fatEntryFree ↔ v.next g d = fatEntryFree := by
    intro d hd
    rw [hnext d hd]
    by_cases hdl : d ∈ l.getLast?
    · grind [eoc, fatEntryFree, next_ne_free]
    · rw [if_neg hdl]
  refine ⟨fun j d hd => h.range j d (hsub j d hd), fun j => ?_,
    fun j k hjk d hdj hdk => h.disjoint j k hjk d (hsub j d hdj) (hsub k d hdk), fun j => ?_,
    h.vacant_nodup, fun d hd => ?_, nodup_reverse.mpr hnodup.2.1, fun d hd => ?_,
    fun d hd₂ hd => ?_, fun hmirror => mirrored_setLast hlast hmirror (h.mirrored hmirror)⟩
  · grind [h.nodup]
  · dsimp only
    by_cases hj : j = i
    · subst hj
      rw [update_self]
      refine LinkTable.Linked.cut (hlist ▸ h.linked j) hnodup.1 (fun t ht => ?_)
        (fun a ha hne => ?_)
      · rw [hnext t (hlast t ht), if_pos ht]
        exact endMark_eoc
      · rw [hnext a (h.range j a (hmeml a ha)).2, if_neg hne]
    · rw [update_of_ne hj]
      refine (h.linked j).congr fun a ha => ?_
      rw [hnext a (h.range j a ha).2, if_neg]
      exact fun hmem => h.disjoint j i hj a ha (hmeml a (mem_of_getLast? hmem))
  · simp [hd, hfree, h.vacant]
  · have hdm := mem_reverse.mp hd
    obtain ⟨h₁, h₂⟩ := h.range i d (hmemm d hdm)
    refine ⟨h₁, h₂, fun heq => h.next_ne_free (hmemm d hdm) ((hfree d h₂).mp heq), fun j hj => ?_⟩
    change d ∈ update v.clusList i l j at hj
    by_cases j = i
    · grind
    · grind [disjoint]
  · rw [h.conserved d hd₂ hd, hfree d hd, mem_reverse]
    -- a cluster of the list is in the part that stays or in the suffix
    have hsplit : (∃ j, d ∈ v.clusList j) ↔
        (∃ j, d ∈ update v.clusList i l j) ∨ d ∈ m := by
      constructor
      all_goals grind
    rw [hsplit]
    simp only [not_mem_nil, or_false]
    tauto

/-- A cluster in limbo becomes free. -/
theorem Sound.freeOne (h : Sound g usable v (c :: limbo)) :
    Sound g usable ⟨v.fat.freeOne g c, v.clusList⟩ limbo := by
  obtain ⟨hc₂, hc, hne, hnot⟩ := h.inLimbo c mem_cons_self
  obtain ⟨hcl, hnodup⟩ := nodup_cons.mp h.limbo_nodup
  have hnext : ∀ d < g.maxClusterExclusive, next g ⟨v.fat.freeOne g c, v.clusList⟩ d =
      if d = c then fatEntryFree else v.next g d := fun d hd =>
    Geometry.getNextClusNum_setNextClus hc hd (by decide)
  have hvacant : ∀ d ∈ (v.fat.freeOne g c).vacantClus, d = c ∨ d ∈ v.fat.vacantClus := by
    grind [FatState.freeOne]
  refine ⟨h.range, h.nodup, h.disjoint, fun j => ?_, ?_, fun d hd => ?_, hnodup, fun d hd => ?_,
    fun d hd₂ hd => ?_, fun hmirror => (h.mirrored hmirror).setNextClus hmirror hc _⟩
  · refine (h.linked j).congr fun a ha => ?_
    rw [hnext a (h.range j a ha).2, if_neg (by rintro rfl; exact hnot j ha)]
  · change (v.fat.freeOne g c).vacantClus.Nodup
    rw [FatState.freeOne]
    split_ifs
    · -- a cached cluster is free, and the cluster was not
      exact nodup_cons.mpr ⟨fun hmem => hne (h.vacant c hmem).2.2, h.vacant_nodup⟩
    · exact h.vacant_nodup
  · obtain rfl | hd := hvacant d hd
    · exact ⟨hc₂, hc, by rw [hnext d hc, if_pos rfl]⟩
    · simp [hd, hnext, h.vacant]
  · obtain ⟨h₁, h₂, h₃, h₄⟩ := h.inLimbo d (mem_cons_of_mem _ hd)
    grind
  · grind [h.conserved]

theorem Sound.foldl_freeOne (h : Sound g usable v limbo) :
    Sound g usable ⟨limbo.foldl (FatState.freeOne g) v.fat, v.clusList⟩ [] := by
  induction limbo generalizing v with
  | nil => exact h
  | cons c limbo ih => exact ih h.freeOne

/-- **Freeing a suffix keeps the chains sound.** -/
theorem Sound.deallocClus (h : Sound g usable v []) (i deallocNum : ℕ) :
    Sound g usable (v.deallocClus g i deallocNum) [] := by
  have hlist := take_append_drop
    ((v.clusList i).length - min deallocNum (v.clusList i).length) (v.clusList i)
  exact (h.detach hlist.symm).foldl_freeOne

/-! ## Allocations -/

theorem getNextFreeClus_spec {start : ℕ} :
    (∃ c, fat.getNextFreeClus g start = some c ∧ 2 ≤ c ∧ c < g.maxClusterExclusive ∧
      g.getNextClusNum fat.device c = fatEntryFree) ∨
    (fat.getNextFreeClus g start = none ∧ ∀ c, 2 ≤ c → c < g.maxClusterExclusive →
      g.getNextClusNum fat.device c ≠ fatEntryFree) := by
  rw [FatState.getNextFreeClus]
  generalize hs : min (max start 2) g.maxClusterExclusive = s
  cases hfirst : (range' s (g.maxClusterExclusive - s)).find?
      (fun c => decide (g.getNextClusNum fat.device c = fatEntryFree)) with
  | some c => grind
  | none =>
    have hnone₁ := find?_eq_none.mp hfirst
    cases hsecond : (range' 2 (s - 2)).find?
        (fun c => decide (g.getNextClusNum fat.device c = fatEntryFree)) with
    | some c => grind
    | none => grind

/-- No cluster of the table is free. -/
def Full (g : Geometry) (fat : FatState) : Prop :=
  ∀ c, 2 ≤ c → c < g.maxClusterExclusive → g.getNextClusNum fat.device c ≠ fatEntryFree

variable (h : Sound g usable v [])
include h

/-- One cluster is appended, or the table has no free cluster and nothing changes. -/
theorem Sound.allocOne (i : ℕ) :
    (∃ c fat, v.fat.allocOne g (v.clusList i).getLast? = (some c, fat) ∧
      Sound g usable ⟨fat, update v.clusList i (v.clusList i ++ [c])⟩ []) ∨
    (v.fat.allocOne g (v.clusList i).getLast? = (none, v.fat) ∧ Full g v.fat) := by
  rw [FatState.allocOne]
  cases hvacant : v.fat.vacantClus with
  | cons c rest => grind [h.vacant, h.vacant_nodup, h.extend]
  | nil =>
    obtain ⟨c, hfound, hc₂, hc, hfree⟩ | ⟨hnone, hfull⟩ :=
        getNextFreeClus_spec
    · rw [hfound]
      exact .inl ⟨c, _, rfl, h.extend hc₂ hc hfree rfl (nil_sublist _) not_mem_nil⟩
    · rw [hnone]
      exact .inr ⟨rfl, hfull⟩

/-- The loop appends `new`; it stops early only when the table is full. -/
theorem Sound.allocLoop (i n : ℕ) (allocated : List ℕ) :
    ∃ last new fat, FatState.allocLoop g n v.fat (v.clusList i).getLast? allocated =
        (last, allocated ++ new, fat) ∧
      Sound g usable ⟨fat, update v.clusList i (v.clusList i ++ new)⟩ [] ∧
      ((last = (v.clusList i ++ new).getLast? ∧ new.length = n) ∨
        (last = none ∧ new.length < n ∧ Full g fat)) := by
  induction n generalizing v allocated with
  | zero => simp [h, FatState.allocLoop]
  | succ n ih =>
    obtain ⟨c, fat, hone, hsound⟩ | ⟨hone, hfull⟩ := h.allocOne i
    · obtain ⟨last, new, fat', hloop, hsound', hend⟩ := ih hsound (allocated ++ [c])
      have hlist : update v.clusList i (v.clusList i ++ [c]) i = v.clusList i ++ [c] :=
        update_self ..
      dsimp only at hloop hsound' hend
      rw [hlist] at hloop hsound' hend
      rw [getLast?_append, getLast?_singleton, Option.some_or] at hloop
      rw [update_idem, append_assoc] at hsound'
      rw [append_assoc] at hend
      refine ⟨last, c :: new, fat', ?_, hsound', ?_⟩
      · grind [FatState.allocLoop.eq_2]
      · exact hend.imp (fun ⟨hl, hn⟩ => ⟨hl, congrArg Nat.succ hn⟩)
          (fun ⟨hl, hn, hf⟩ => ⟨hl, Nat.succ_lt_succ hn, hf⟩)
    · refine ⟨none, [], v.fat, ?_, ?_, .inr ⟨rfl, Nat.succ_pos n, hfull⟩⟩
      · rw [FatState.allocLoop, hone, append_nil]
      · rw [append_nil, update_eq_self]
        exact h

/-- The end mark that `alloc` writes at the end changes no chain. -/
theorem Sound.mark_last (i : ℕ) : Sound g usable ⟨{ v.fat with
      device := g.setNextClus v.fat.device (v.clusList i).getLast? eoc }, v.clusList⟩ [] := by
  have hdetach := h.detach (append_nil (v.clusList i)).symm
  rwa [update_eq_self] at hdetach

/-- **An allocation extends the chain by the clusters that it returns**, and it returns fewer than
it was asked for only when no cluster is free any more. -/
theorem Sound.allocClus (i allocNum : ℕ) :
    let result := v.allocClus g i allocNum
    Sound g usable result.2 [] ∧ (result.1.length = allocNum ∨ (result.1.length < allocNum ∧ Full g
      result.2.fat)) := by
  obtain ⟨last, new, fat, hloop, hsound, hend⟩ := h.allocLoop i allocNum []
  have halloc : v.allocClus g i allocNum =
      (new, ⟨{ fat with device := g.setNextClus fat.device last eoc },
        update v.clusList i (v.clusList i ++ new)⟩) := by
    rw [Volume.allocClus, FatState.alloc, hloop]
    rfl
  rw [halloc]
  obtain ⟨rfl, hlength⟩ | ⟨rfl, hlt, hfull⟩ := hend
  · have hmark := hsound.mark_last i
    grind
  · exact ⟨hsound, .inr ⟨hlt, hfull⟩⟩

end Volume
end MangoCore.Fs.Fat
