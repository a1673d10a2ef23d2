import MangoCore.Lib.System
import MangoCore.Mm.FrameReclaim

/-!
# The accounts of a page store

A page store counts its compressed and its swapped pages and queues the pages that may be reclaimed
next.  Both are kept incrementally by a dozen operations.  `Accounted` says that they are exact.

Three of the operations do not always keep them so.

* `remove_in_memory` takes an entry out to look at it and puts it back if the page is not resident,
  and putting an entry back counts it a second time.
* A page is brought back into memory before it is mapped, queued and taken off its counter.  When
  mapping or queueing it fails, the counter keeps counting it.
* `record_active` and `insert_existing_frame` do what they are told: they do not look whether the
  page is queued already, has an entry at all, or has one that is counted.

`Op.meets` excludes exactly these calls, and `accounted_of_reachable` proves the accounts of every
run without them.
-/

namespace MangoCore.Mm

open VmPageStore OrdMap Mm.Frame Option

namespace Frame

def isCompressed : Frame → Bool
  | .compressed _ => true
  | _ => false

def isSwappedOut : Frame → Bool
  | .swappedOut _ => true
  | _ => false

/-- The page is counted by one of the two counters. -/
def isMovedOut (f : Frame) : Bool := f.isCompressed || f.isSwappedOut

end Frame

namespace VmPageStore

/-- The counters are exact, every entry and every candidate is a page of the store, and the
candidates are distinct pages with an entry. -/
structure Accounted (s : VmPageStore) : Prop where
  compressed_eq : s.compressed = s.frames.entries.countP fun e => e.2.isCompressed
  swapped_eq : s.swapped = s.frames.entries.countP fun e => e.2.isSwappedOut
  key_mem : ∀ vpn frame, s.frames.get? vpn = some frame → s.containsVpn vpn = true
  active_mem : ∀ vpn ∈ s.active, s.containsVpn vpn = true
  active_entry : ∀ vpn ∈ s.active, (s.frames.get? vpn).isSome = true
  active_nodup : s.active.Nodup

/-! ## The calls -/

/-- One call on a store.  A split is followed into its first or its second part. -/
inductive Op where
  | allocInMemory (key ppn : ℕ) (reserve : Bool)
  | insertExistingFrame (key : ℕ) (frame : Frame)
  | removeInMemory (key : ℕ)
  | doOom (env : ℕ → ReclaimEnv)
  | finishDecompressPage (vpn : ℕ) (env : RestoreEnv)
  | finishSwapInPage (vpn : ℕ) (env : RestoreEnv)
  | cowSourceFrame (vpn : ℕ) (env : RestoreEnv)
  | setStart (newStart : ℕ)
  | setEnd (newEnd : ℕ)
  | intoTwoFirst (cut : ℕ)
  | intoTwoSecond (cut : ℕ)
  | pruneOutOfRange
  | tryClone
  | recordActive (vpn : ℕ) (reserve : Bool)

section

variable (s : VmPageStore)

/-- The store that a call leaves. -/
def Op.apply : Op → VmPageStore
  | .allocInMemory key ppn reserve => (s.allocInMemory key ppn reserve).2
  | .insertExistingFrame key frame => s.insertExistingFrame key frame
  | .removeInMemory key => (s.removeInMemory key).2
  | .doOom env => s.doOom env
  | .finishDecompressPage vpn env => (s.finishDecompressPage vpn env).2
  | .finishSwapInPage vpn env => (s.finishSwapInPage vpn env).2
  | .cowSourceFrame vpn env => (s.cowSourceFrame vpn env).2
  | .setStart newStart =>
    match s.setStart newStart with
    | .ok s => s
    | .error () => s
  | .setEnd newEnd =>
    match s.setEnd newEnd with
    | .ok s => s
    | .error () => s
  | .intoTwoFirst cut =>
    match s.intoTwo cut with
    | some (first, _) => first
    | none => s
  | .intoTwoSecond cut =>
    match s.intoTwo cut with
    | some (_, second) => second
    | none => s
  | .pruneOutOfRange => s.pruneOutOfRange
  | .tryClone => s.tryClone
  | .recordActive vpn reserve => (s.recordActive vpn reserve).2

/-- The entry of a page satisfies a test. -/
def entryIs (vpn : ℕ) (p : Frame → Bool) : Bool :=
  match s.frames.get? vpn with
  | some frame => p frame
  | none => false

/-- A restored page finds a place in the queue, once. -/
def canRecord (vpn : ℕ) (reserve : Bool) : Bool :=
  reserve && !s.active.contains vpn

/-- The calls that keep the accounts. -/
def Op.meets : Op → Bool
  | .insertExistingFrame key frame =>
    frame = .unallocated || !s.entryIs key isMovedOut
  | .removeInMemory key => !s.entryIs key isMovedOut
  | .finishDecompressPage vpn env =>
    !(s.entryIs vpn isCompressed && env.frameAlloc.isSome && env.zramRead)
      || (env.pageTable.isOk && s.canRecord vpn env.reserve)
  | .finishSwapInPage vpn env =>
    !(s.entryIs vpn isSwappedOut && env.frameAlloc.isSome && env.swapRead.isOk)
      || (env.pageTable.isOk && s.canRecord vpn env.reserve)
  | .cowSourceFrame vpn env =>
    !(s.entryIs vpn isCompressed && env.frameAlloc.isSome && env.zramRead
      || s.entryIs vpn isSwappedOut && env.frameAlloc.isSome && env.swapRead.isOk)
      || s.canRecord vpn env.reserve
  | .recordActive vpn reserve =>
    !(reserve && s.containsVpn vpn)
      || (s.entryIs vpn (fun _ => true) && !s.active.contains vpn)
  | _ => true

end

/-- Any calls, from a new store of any range. -/
def storeCalls : System VmPageStore Op :=
  System.ofFun (fun s => ∃ vpnRange, s = tryNew vpnRange) fun s op => some (op.apply s)

/-- What a split keeps for both of its parts. -/
theorem apply_intoTwo {I : VmPageStore → Prop} {s : VmPageStore} {cut : ℕ} (h : I s)
    (hcut : ∀ first second, s.intoTwo cut = some (first, second) → I first ∧ I second) :
    I (Op.apply s (.intoTwoFirst cut)) ∧ I (Op.apply s (.intoTwoSecond cut)) := by
  unfold Op.apply
  dsimp only
  cases hparts : s.intoTwo cut with
  | none => exact ⟨h, h⟩
  | some parts => exact hcut _ _ hparts

/-! ## The invariant -/

/-- What an entry, if any, adds to the counter of compressed pages. -/
def compressedIn (f : Frame) : ℕ := if f.isCompressed then 1 else 0

/-- What an entry, if any, adds to the counter of swapped pages. -/
def swappedIn (f : Frame) : ℕ := if f.isSwappedOut then 1 else 0

/-- The accounts, with the counters as weights; and no entry says that there is no page. -/
structure Inv (s : VmPageStore) : Prop where
  compressed : s.compressed = s.frames.sum compressedIn
  swapped : s.swapped = s.frames.sum swappedIn
  key_mem : ∀ vpn frame, s.frames.get? vpn = some frame → s.containsVpn vpn = true
  active_entry : ∀ vpn ∈ s.active, ∃ frame, s.frames.get? vpn = some frame
  active_nodup : s.active.Nodup
  allocated : ∀ vpn, s.frames.get? vpn ≠ some .unallocated

variable {s second first : VmPageStore} {vpn ppn cut : ℕ} {frame : Frame} {active : List ℕ}
  {restored : Except MemoryError ℕ × VmPageStore} {dec : VmPageStore → VmPageStore}
  {frameAlloc : Option ℕ} {reserve : Bool} {vpnRange : VPNRange} {p : ℕ → Bool}

theorem Inv.accounted (h : Inv s) : Accounted s where
  compressed_eq := by rw [h.compressed]; exact sum_ite
  swapped_eq := by rw [h.swapped]; exact sum_ite
  key_mem := h.key_mem
  active_mem vpn hmem := by grind [h.active_entry, h.key_mem]
  active_entry vpn hmem := isSome_iff_exists.mpr (h.active_entry vpn hmem)
  active_nodup := h.active_nodup

theorem inv_tryNew : Inv (tryNew vpnRange) where
  compressed := rfl
  swapped := rfl
  key_mem _ _ hframe := absurd hframe (by simp [tryNew, get?, empty])
  active_entry _ hmem := absurd hmem (by simp [tryNew])
  active_nodup := List.nodup_nil
  allocated _ := by simp [tryNew, get?, empty]

/-- The counters recomputed from the entries are exact. -/
theorem recountOomCounters_eq :
    s.recountOomCounters =
      { s with compressed := s.frames.sum compressedIn, swapped := s.frames.sum swappedIn } := by
  unfold recountOomCounters
  congr 1
  all_goals exact congrArg s.frames.sum (funext fun f => by cases f <;> rfl)

/-- Every entry is a page of the store. -/
def Keyed (s : VmPageStore) : Prop :=
  ∀ vpn frame, s.frames.get? vpn = some frame → s.containsVpn vpn = true

section

variable (h : Keyed s) {t : VmPageStore}
include h

theorem Keyed.insert (hvpn : s.containsVpn vpn = true) (frame : Frame) :
    Keyed { s with frames := s.frames.insert vpn frame } := by
  intro v f hv
  by_cases heq : v = vpn
  · rw [heq]
    exact hvpn
  · exact h v f ((get?_insert_of_ne _ heq).symm.trans hv)

theorem Keyed.erase (vpn : ℕ) : Keyed { s with frames := s.frames.erase vpn } := by
  intro v f hv
  by_cases heq : v = vpn
  · grind [get?_erase_self]
  · exact h v f ((get?_erase_of_ne _ heq).symm.trans hv)

/-- Only the entries of some pages are kept. -/
theorem Keyed.retain (hframes : t.frames = s.frames.retain fun v _ => p v)
    (hp : ∀ v, p v = true → s.containsVpn v = true → t.containsVpn v = true) : Keyed t := by
  intro v f hv
  rw [hframes, get?_retain] at hv
  obtain ⟨hget, hpv⟩ := filter_eq_some_iff.mp hv
  exact hp v hpv (h v f hget)

end

variable {compressed swapped : ℕ}

/-- A new value for an entry that is there already. -/
theorem Inv.setFrame (h : Inv s) {old : Frame} (hold : s.frames.get? vpn = some old)
    (hframe : frame ≠ .unallocated)
    (hc : compressed + compressedIn old = s.compressed + compressedIn frame)
    (hs : swapped + swappedIn old = s.swapped + swappedIn frame)
    (hactive : ∀ v ∈ active, v ∈ s.active ∨ v = vpn) (hnodup : active.Nodup) :
    Inv ⟨s.vpnRange, s.frames.insert vpn frame, active, compressed, swapped⟩ := by
  have hcsum := sum_insert_of_get? frame compressedIn hold
  have hssum := sum_insert_of_get? frame swappedIn hold
  rw [← h.compressed] at hcsum
  rw [← h.swapped] at hssum
  refine ⟨?_, ?_, Keyed.insert h.key_mem (h.key_mem vpn old hold) frame, fun v hv => ?_, hnodup,
    fun k => ?_⟩
  · dsimp only
    omega
  · dsimp only
    omega
  · grind [get?_insert, h.active_entry]
  · grind [get?_insert, h.allocated]

theorem Inv.insertFrame (h : Inv s) (hnone : s.frames.get? vpn = none)
    (hvpn : s.containsVpn vpn = true) (hframe : frame ≠ .unallocated)
    (hactive : ∀ v ∈ active, v ∈ s.active ∨ v = vpn) (hnodup : active.Nodup) :
    Inv ⟨s.vpnRange, s.frames.insert vpn frame, active, s.compressed + compressedIn frame,
      s.swapped + swappedIn frame⟩ := by
  refine ⟨?_, ?_, Keyed.insert h.key_mem hvpn frame, fun v hv => ?_, hnodup, fun k => ?_⟩
  · grind [sum_insert, h.compressed]
  · grind [sum_insert, h.swapped]
  · dsimp only
    rw [get?_insert]
    by_cases heq : v = vpn
    · exact ⟨frame, by rw [if_pos heq]⟩
    · grind [h.active_entry]
  · grind [get?_insert, h.allocated]

/-- Fewer candidates, or others that have an entry. -/
theorem Inv.setActive (h : Inv s)
    (hactive : ∀ v ∈ active, ∃ frame, s.frames.get? v = some frame) (hnodup : active.Nodup) :
    Inv { s with active := active } :=
  { h with active_entry := hactive, active_nodup := hnodup }

/-- Only the entries of some pages are kept, and the counters recomputed. -/
theorem Inv.recount (h : Inv s) (hp : ∀ v, p v = true → s.containsVpn v = true →
      (vpnRange.getStart ≤ v && v < vpnRange.getEnd) = true) :
    Inv (recountOomCounters ⟨vpnRange, s.frames.retain fun v _ => p v, s.active.filter p,
      compressed, swapped⟩) := by
  rw [recountOomCounters_eq]
  refine ⟨rfl, rfl, Keyed.retain h.key_mem rfl hp, fun v hv => ?_, h.active_nodup.filter _,
    fun k hk => ?_⟩
  · grind [h.active_entry, get?_retain]
  · grind [get?_retain, h.allocated, filter_eq_some_iff]

/-! ## Single entries -/

theorem nodup_append_singleton {l : List ℕ} (h : l.Nodup) (hfresh : vpn ∉ l) : (l ++ [vpn]).Nodup :=
  List.nodup_append.mpr ⟨h, List.nodup_singleton _,
    fun _ ha _ hb heq => hfresh (List.mem_singleton.mp hb ▸ heq ▸ ha)⟩

section

variable (h : Inv s)
include h

theorem Inv.recordActive (hmeets : (Op.recordActive vpn reserve).meets s = true) :
    Inv (s.recordActive vpn reserve).2 := by
  unfold VmPageStore.recordActive
  by_cases hvpn : s.containsVpn vpn = true
  · rw [if_pos hvpn]
    cases reserve with
    | false => exact h
    | true =>
      obtain ⟨hentry, hfresh⟩ : s.entryIs vpn (fun _ => true) = true ∧ vpn ∉ s.active := by
        simpa [Op.meets, hvpn] using hmeets
      have hsome : ∃ frame, s.frames.get? vpn = some frame := by grind [entryIs]
      refine h.setActive (fun v hv => ?_) ?_
      · grind [h.active_entry]
      · exact nodup_append_singleton h.active_nodup hfresh
  · rw [if_neg hvpn]
    exact h

theorem Inv.not_mem_active (hnone : s.frames.get? vpn = none) : vpn ∉ s.active := by
  intro hmem
  obtain ⟨frame, hget⟩ := h.active_entry vpn hmem
  exact absurd (hnone.symm.trans hget) nofun

theorem Inv.allocInMemory (key ppn : ℕ) (reserve : Bool) :
    Inv (s.allocInMemory key ppn reserve).2 := by
  unfold VmPageStore.allocInMemory
  split_ifs with hkey
  · cases hget : s.frames.get? key with
    | some frame => grind [h.allocated]
    | none =>
      have hfresh := h.not_mem_active hget
      cases reserve with
      | false => simpa [hget, VmPageStore.recordActive, hkey] using h
      | true =>
        simp only [hget, VmPageStore.recordActive, hkey, if_true, isSome_none,
          Bool.false_eq_true, if_false]
        have hmem : inMemory ppn ≠ .unallocated := by simp
        exact h.insertFrame hget hkey hmem (fun v hv => by simpa using hv)
          (nodup_append_singleton h.active_nodup hfresh)
  · exact h

/-- An entry that is not counted leaves, and is no candidate any more. -/
theorem Inv.eraseFrame (hold : s.frames.get? vpn = some (.inMemory ppn)) :
    Inv ⟨s.vpnRange, s.frames.erase vpn, s.active.filter fun elem => elem ≠ vpn, s.compressed,
      s.swapped⟩ := by
  have hcsum := sum_erase compressedIn hold
  have hssum := sum_erase swappedIn hold
  rw [← h.compressed] at hcsum
  rw [← h.swapped] at hssum
  refine ⟨hcsum.trans (zero_add _), hssum.trans (zero_add _), Keyed.erase h.key_mem vpn,
    fun v hv => ?_, h.active_nodup.filter _, fun k => ?_⟩
  · grind [get?_erase, h.active_entry]
  · grind [get?_erase, h.allocated]

/-- An entry that passes no test of being moved out is a resident page. -/
theorem Inv.inMemory_of_not_movedOut (hframe : s.frames.get? vpn = some frame)
    (hmoved : s.entryIs vpn isMovedOut = false) : ∃ ppn, frame = .inMemory ppn := by
  unfold entryIs at hmoved
  rw [hframe] at hmoved
  cases frame with
  | inMemory ppn => exact ⟨ppn, rfl⟩
  | compressed slot => exact absurd hmoved (by simp [isMovedOut, isCompressed])
  | swappedOut slot => exact absurd hmoved (by simp [isMovedOut, isSwappedOut])
  | unallocated => exact absurd hframe (h.allocated vpn)

theorem Inv.insertExistingFrame (hmeets : (Op.insertExistingFrame vpn frame).meets s = true) :
    Inv (s.insertExistingFrame vpn frame) := by
  unfold VmPageStore.insertExistingFrame
  split_ifs with hvpn
  · by_cases hnew : frame = .unallocated
    · rw [hnew]
      exact h
    · have hmoved : s.entryIs vpn isMovedOut = false := by
        simpa [Op.meets, hnew] using hmeets
      have hsame : ∀ v ∈ s.active, v ∈ s.active ∨ v = vpn := fun v hv => .inl hv
      -- with no entry before, the counters follow; a resident page before adds nothing to them
      cases hget : s.frames.get? vpn with
      | none =>
        cases frame with
        | unallocated => exact absurd rfl hnew
        | _ => exact h.insertFrame hget hvpn hnew hsame h.active_nodup
      | some old =>
        obtain ⟨ppn, rfl⟩ := h.inMemory_of_not_movedOut hget hmoved
        cases frame with
        | unallocated => exact absurd rfl hnew
        | _ => exact h.setFrame hget hnew rfl rfl hsame h.active_nodup
  · exact h

theorem Inv.removeInMemory (hmeets : (Op.removeInMemory vpn).meets s = true) :
    Inv (s.removeInMemory vpn).2 := by
  have hmoved : s.entryIs vpn isMovedOut = false := by simpa [Op.meets] using hmeets
  unfold VmPageStore.removeInMemory
  by_cases hvpn : s.containsVpn vpn = true
  · grind [h.setActive, h.active_entry, h.active_nodup.filter, h.inMemory_of_not_movedOut,
      h.eraseFrame]
  · rw [if_neg hvpn]
    exact h

end

/-! ## Reclaiming -/

theorem frameMutIfPresent_eq_ok (hframe : s.frameMutIfPresent vpn = .ok frame) :
    s.containsVpn vpn = true ∧ s.frames.get? vpn = some frame := by
  unfold frameMutIfPresent at hframe
  grind

/-- The first candidate is taken from the queue. -/
theorem Inv.popActive (h : Inv s) (hactive : s.active = vpn :: active) :
    Inv { s with active := active } ∧ vpn ∉ active := by
  obtain ⟨hvpn, hnodup⟩ := List.nodup_cons.mp (hactive ▸ h.active_nodup)
  refine ⟨h.setActive (fun v hv => h.active_entry v ?_) hnodup, hvpn⟩
  rw [hactive]
  exact List.mem_cons_of_mem _ hv

theorem Inv.requeueActive (h : Inv s) (hframe : s.frames.get? vpn = some frame)
    (hfresh : vpn ∉ s.active) : Inv (s.requeueActive vpn) := by
  refine h.setActive (fun v hv => ?_) (nodup_append_singleton h.active_nodup hfresh)
  grind [h.active_entry]

theorem Inv.reclaimToSwap (h : Inv s) (hget : s.frames.get? vpn = some (.inMemory ppn))
    (hfresh : vpn ∉ s.active) {env : ReclaimEnv} :
    Inv (s.reclaimToSwap vpn (.inMemory ppn) env).2 := by
  unfold VmPageStore.reclaimToSwap
  cases hswap : (inMemory ppn).swapOut env.strongCount env.swapWrite with
  | mk result frame =>
    cases result with
    | ok old =>
      have hframe : ∃ slot, frame = .swappedOut slot := by
        unfold swapOut at hswap
        split_ifs at hswap
        · grind
        · cases hswap
      obtain ⟨slot, rfl⟩ := hframe
      have hnew : swappedOut slot ≠ .unallocated := by simp
      exact h.setFrame hget hnew rfl rfl (fun v hv => .inl hv) h.active_nodup
    | error e => grind [h.requeueActive]

theorem Inv.reclaimOne (h : Inv s) (env : ReclaimEnv) : Inv (s.reclaimOne env).2 := by
  unfold VmPageStore.reclaimOne
  cases hactive : s.active with
  | nil => exact h
  | cons vpn active =>
    obtain ⟨hpop, hfresh⟩ := h.popActive hactive
    dsimp only
    cases hframe : { s with active := active }.frameMutIfPresent vpn with
    | error e => exact hpop
    | ok frame =>
      have hget := (frameMutIfPresent_eq_ok hframe).2
      dsimp only
      cases frame with
      | inMemory ppn =>
        rw [if_pos (show (inMemory ppn).isInMemory = true from rfl)]
        unfold zip
        split_ifs
        · cases env.zramWrite with
          | none => exact hpop.reclaimToSwap hget hfresh
          | some slot =>
            have hnew : Frame.compressed slot ≠ .unallocated := by simp
            exact hpop.setFrame hget hnew rfl rfl (fun v hv => .inl hv) hpop.active_nodup
        · exact hpop.requeueActive hget hfresh
      | _ => exact hpop

theorem Inv.doOomLoop (envs : List ReclaimEnv) (h : Inv s) : Inv (doOomLoop envs s) := by
  induction envs generalizing s with
  | nil => exact h
  | cons env envs ih => grind [h.reclaimOne, doOomLoop]

/-! ## Restoring -/

/-- A page is restored where it is stored, or nothing happens. -/
theorem restoreFrame_cases {restore : Frame → Except MemoryError ℕ × Frame} :
    (∃ e, s.restoreFrame vpn restore = (.error e, s)) ∨
    ∃ old ppn frame, s.containsVpn vpn = true ∧ s.frames.get? vpn = some old ∧
      restore old = (.ok ppn, frame) ∧
      s.restoreFrame vpn restore = (.ok ppn, s.setFrame vpn frame) := by
  unfold restoreFrame
  cases hframe : s.frameMutIfPresent vpn with
  | error e => exact .inl ⟨e, rfl⟩
  | ok old =>
    obtain ⟨hvpn, hget⟩ := frameMutIfPresent_eq_ok hframe
    rcases hrestore : restore old with ⟨e | ppn, frame⟩
    · exact .inl ⟨e, by dsimp only; rw [hrestore]⟩
    · exact .inr ⟨old, ppn, frame, hvpn, hget, hrestore, by dsimp only; rw [hrestore]⟩

theorem unzip_eq_ok {f f' : Frame} {readOk : Bool} (h : f.unzip frameAlloc readOk = (.ok ppn, f')) :
    (∃ slot, f = .compressed slot) ∧ frameAlloc.isSome = true ∧ readOk = true ∧
      f' = .inMemory ppn := by
  cases f with
  | compressed slot =>
    cases frameAlloc with
    | none => exact absurd (congrArg Prod.fst h) (by simp [unzip])
    | some frame => grind [unzip]
  | _ => exact absurd (congrArg Prod.fst h) (by simp [unzip])

theorem swapIn_eq_ok {f f' : Frame} {read : Except MemoryError Unit}
    (h : f.swapIn frameAlloc read = (.ok ppn, f')) :
    (∃ slot, f = .swappedOut slot) ∧ frameAlloc.isSome = true ∧ read.isOk = true ∧
      f' = .inMemory ppn := by
  cases f with
  | swappedOut slot =>
    cases frameAlloc with
    | none => exact absurd (congrArg Prod.fst h) (by simp [swapIn])
    | some frame =>
      cases read with
      | error e => exact absurd (congrArg Prod.fst h) (by simp [swapIn])
      | ok _ =>
        obtain ⟨hppn, hframe⟩ := Prod.mk.inj h
        exact ⟨⟨slot, rfl⟩, rfl, rfl, by rw [← hframe, Except.ok.inj hppn]⟩
  | _ => exact absurd (congrArg Prod.fst h) (by simp [swapIn])

/-- An entry of a class is counted. -/
theorem sum_pos_of_get? {m : OrdMap ℕ Frame} {w : Frame → ℕ} (hget : m.get? vpn = some frame)
    (hw : w frame = 1) : 0 < m.sum w := by
  have hsum := sum_erase w hget
  omega

theorem entryIs_of_get? {p : Frame → Bool} (hget : s.frames.get? vpn = some frame)
    (hp : p frame = true) : s.entryIs vpn p = true := by
  unfold entryIs
  rw [hget]
  exact hp

theorem recordActive_setFrame (hvpn : s.containsVpn vpn = true) :
    (s.setFrame vpn frame).recordActive vpn true =
      (.ok (), { s.setFrame vpn frame with active := s.active ++ [vpn] }) := by
  grind [recordActive, setFrame, containsVpn]

theorem canRecord_eq_true (h : s.canRecord vpn reserve = true) :
    reserve = true ∧ vpn ∉ s.active := by
  simpa [canRecord] using h

section

variable {env : RestoreEnv} (h : Inv s) {old : Frame}
include h

/-- A compressed page that is resident again, queued and off its counter. -/
theorem Inv.decompressed (hget : s.frames.get? vpn = some old)
    (hunzip : old.unzip env.frameAlloc env.zramRead = (.ok ppn, frame)) (hfresh : vpn ∉ s.active) :
    Inv (decCompressed { s.setFrame vpn frame with active := s.active ++ [vpn] }) := by
  obtain ⟨⟨slot, rfl⟩, -, -, rfl⟩ := unzip_eq_ok hunzip
  have hpos : 0 < s.compressed := h.compressed ▸ sum_pos_of_get? hget rfl
  exact h.setFrame hget (by simp) (Nat.sub_add_cancel hpos) rfl (fun v hv => by simpa using hv)
    (nodup_append_singleton h.active_nodup hfresh)

/-- A swapped page that is resident again, queued and off its counter. -/
theorem Inv.swappedIn (hget : s.frames.get? vpn = some old)
    (hswap : old.swapIn env.frameAlloc env.swapRead = (.ok ppn, frame)) (hfresh : vpn ∉ s.active) :
    Inv (decSwapped { s.setFrame vpn frame with active := s.active ++ [vpn] }) := by
  obtain ⟨⟨slot, rfl⟩, -, -, rfl⟩ := swapIn_eq_ok hswap
  have hpos : 0 < s.swapped := h.swapped ▸ sum_pos_of_get? hget rfl
  exact h.setFrame hget (by simp) rfl (Nat.sub_add_cancel hpos) (fun v hv => by simpa using hv)
    (nodup_append_singleton h.active_nodup hfresh)

/-- A fault keeps the accounts if its success does, and if it queues what it restores; a fault that
is no copy-on-write has to map it as well. -/
theorem Inv.restore (env : RestoreEnv)
    (restore : Frame → Except MemoryError ℕ × Frame) (dec : VmPageStore → VmPageStore)
    (hok : ∀ old ppn frame, s.frames.get? vpn = some old → restore old = (.ok ppn, frame) →
      env.reserve = true ∧ Inv (dec { s.setFrame vpn frame with active := s.active ++ [vpn] })) :
    Inv (cowRestore (s.restoreFrame vpn restore) vpn env dec).2 ∧
      ((∀ old ppn frame, s.frames.get? vpn = some old → restore old = (.ok ppn, frame) →
          env.pageTable.isOk = true) →
        Inv (finishRestore (s.restoreFrame vpn restore) vpn env dec).2) := by
  unfold cowRestore finishRestore
  rcases restoreFrame_cases with
    ⟨e, hres⟩ | ⟨old, ppn, frame, hvpn, hget, hrestore, hres⟩
  · rw [hres]
    exact ⟨h, fun _ => h⟩
  · obtain ⟨hreserve, hinv⟩ := hok old ppn frame hget hrestore
    grind [Except.toBool, recordActive_setFrame]

theorem Inv.finishDecompressPage (hmeets : (Op.finishDecompressPage vpn env).meets s = true) :
    Inv (s.finishDecompressPage vpn env).2 := by
  refine (h.restore env _ decCompressed fun old ppn frame hget hunzip => ?_).2
    fun old ppn frame hget hunzip => ?_
  all_goals
    obtain ⟨⟨slot, hold⟩, halloc, hread, -⟩ := unzip_eq_ok hunzip
    grind [isCompressed, entryIs_of_get?, Op.meets, canRecord_eq_true, h.decompressed]

theorem Inv.finishSwapInPage (hmeets : (Op.finishSwapInPage vpn env).meets s = true) :
    Inv (s.finishSwapInPage vpn env).2 := by
  refine (h.restore env _ decSwapped fun old ppn frame hget hswap => ?_).2
    fun old ppn frame hget hswap => ?_
  all_goals
    obtain ⟨⟨slot, hold⟩, halloc, hread, -⟩ := swapIn_eq_ok hswap
    grind [isSwappedOut, entryIs_of_get?, Op.meets, canRecord_eq_true, h.swappedIn]

theorem Inv.cowSourceFrame (hmeets : (Op.cowSourceFrame vpn env).meets s = true) :
    Inv (s.cowSourceFrame vpn env).2 := by
  unfold VmPageStore.cowSourceFrame
  cases s.frameMutIfPresent vpn with
  | error e => exact h
  | ok frame =>
    cases frame with
    | compressed slot =>
      refine (h.restore env _ decCompressed fun old ppn frame hget hunzip => ?_).1
      obtain ⟨⟨slot, hold⟩, halloc, hread, -⟩ := unzip_eq_ok hunzip
      grind [isCompressed, entryIs_of_get?, Op.meets, canRecord_eq_true, h.decompressed]
    | swappedOut slot =>
      refine (h.restore env _ decSwapped fun old ppn frame hget hswap => ?_).1
      obtain ⟨⟨slot, hold⟩, halloc, hread, -⟩ := swapIn_eq_ok hswap
      grind [isSwappedOut, entryIs_of_get?, Op.meets, canRecord_eq_true, h.swappedIn]
    | _ => exact h

/-! ## Moving the ends -/

theorem Inv.pruneTo :
    Inv { s with vpnRange := vpnRange }.pruneOutOfRange :=
  h.recount (fun _ hin _ => hin)

theorem Inv.intoTwo (hcut : s.intoTwo cut = some (first, second)) : Inv first ∧ Inv second := by
  unfold VmPageStore.intoTwo at hcut
  split_ifs at hcut with hin
  obtain ⟨hfirst, hsecond⟩ := Prod.mk.inj (some.inj hcut)
  rw [← hfirst, ← hsecond]
  have hsame : (fun v => decide ¬ v < cut) = fun v => decide (cut ≤ v) :=
    funext fun v => by simp
  refine ⟨h.recount (fun v hv hin => ?_), ?_⟩
  · grind [containsVpn.eq_1]
  · rw [hsame]
    refine h.recount (fun v hv hin => ?_)
    rw [containsVpn, Bool.and_eq_true, decide_eq_true_eq] at hin
    grind

/-! ## Every call -/

theorem Inv.apply {op : Op} (hmeets : op.meets s = true) : Inv (op.apply s) := by
  cases op with
  | allocInMemory key ppn reserve => exact h.allocInMemory key ppn reserve
  | insertExistingFrame key frame => exact h.insertExistingFrame hmeets
  | removeInMemory key => exact h.removeInMemory hmeets
  | doOom env => exact h.doOomLoop _
  | finishDecompressPage vpn env => exact h.finishDecompressPage hmeets
  | finishSwapInPage vpn env => exact h.finishSwapInPage hmeets
  | cowSourceFrame vpn env => exact h.cowSourceFrame hmeets
  | setStart newStart => grind [Op.apply, setStart, h.pruneTo]
  | setEnd newEnd => grind [Op.apply, setEnd, h.pruneTo]
  | intoTwoFirst cut => exact (apply_intoTwo h fun _ _ => h.intoTwo).1
  | intoTwoSecond cut => exact (apply_intoTwo h fun _ _ => h.intoTwo).2
  | pruneOutOfRange => exact h.pruneTo
  | tryClone => exact h.setActive (fun v hv => absurd hv (by simp)) List.nodup_nil
  | recordActive vpn reserve => exact h.recordActive hmeets

end

/-- **The accounts of a page store are exact in every run** that neither removes a page that was
moved out, nor fails to map or queue a page it has restored, nor queues or stores a page without
looking. -/
theorem accounted_of_reachable {s : VmPageStore}
    (h : (storeCalls.restrict fun s op => op.meets s = true).Reachable s) : Accounted s := by
  refine Inv.accounted (System.Reachable.invariant (fun s hs => ?_)
    (fun s op t _ hinv hstep => ?_) h)
  · obtain ⟨vpnRange, rfl⟩ := hs
    exact inv_tryNew
  · obtain ⟨hmeets, hnext⟩ := hstep
    rw [← some.inj hnext]
    exact hinv.apply hmeets

/-! ## Two runs -/

/-- Every frame has one owner and the compressed store has room. -/
def roomyEnv : ReclaimEnv := ⟨1, some 7, .error .swapIsFull⟩

/-- Everything succeeds on the way back. -/
def kindEnv : RestoreEnv := ⟨some 9, true, .ok (), .ok (), true⟩

/-- A store after some calls. -/
def after (ops : List Op) : VmPageStore :=
  ops.foldl (fun s op => op.apply s) (tryNew ⟨0, 8, by omega⟩)

/-- Two pages are allocated and compressed, and one of them is restored. -/
def restoreOne : List Op :=
  [.allocInMemory 2 40 true, .allocInMemory 5 41 true, .doOom fun _ => roomyEnv,
    .finishDecompressPage 5 kindEnv]

theorem accounted_restoreOne : (after restoreOne).compressed = 1 ∧ (after restoreOne).active = [5] ∧
      Accounted (after restoreOne) :=
  ⟨by decide, by decide +kernel, accounted_of_reachable
    (System.reachable_foldl_restrict (.init ⟨_, rfl⟩) (by decide))⟩

/-- A page is allocated, compressed, and asked for by `remove_in_memory`. -/
def removeCompressed : List Op :=
  [.allocInMemory 5 41 true, .doOom fun _ => roomyEnv, .removeInMemory 5]

/-- **A compressed page that is not removed is counted twice.** -/
theorem compressed_counted_twice : storeCalls.Reachable (after removeCompressed) ∧
    (after removeCompressed).frames.entries = [(5, .compressed 7)] ∧
    (after removeCompressed).compressed = 2 ∧ ¬ Accounted (after removeCompressed) :=
  ⟨(System.Reachable.init (S := storeCalls) ⟨_, rfl⟩).foldl _ fun _ a => ⟨a, rfl⟩, by decide,
    by decide +kernel, fun h => absurd h.compressed_eq (by decide)⟩

end VmPageStore
end MangoCore.Mm
