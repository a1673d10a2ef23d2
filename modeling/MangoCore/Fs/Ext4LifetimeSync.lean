import MangoCore.Fs.Ext4Lifetime

/-!
# What a sync of an ext4 inode leaves marked

The marks of a lifetime record are right (`Marked`) if whatever is ahead of the device is marked, or
is going to be marked by a thread that is on its way: dirty pages by the reference to their cache,
the size by its generation, the times by their flags.

The operations other than a sync only ever add to the marks, and say so by raising a generation
(`Follows`).  So a sync that finds the generation it has read unchanged knows that what it read and
committed is still what the record says, up to threads that are yet to raise it (`Phase.Sound`).

That argument needs three things of a run, which the code does not enforce (`Guarded`): that one
sync of an inode does not overlap another, for both reset the generations to zero, where they can
reach the old value again; that no write runs from its copy to its increment between the last check
for dirty pages and the load of the generation; and that no timestamp update raises its generation
while a sync is between its loads of the times and of that generation, or between its
compare-and-exchange and its stores to the flags.
-/

namespace MangoCore.Fs.Ext4

open Function Option State Pc Phase

/-! ## Threads on their way -/

namespace Pc

/-- A write that has made a page dirty and has not raised the size generation. -/
def beforeRaise : Pc → Bool
  | .copying true | .copied _ | .advanced => true
  | _ => false

/-- A write that has made a page dirty and has not retained the cache. -/
def beforeRetain : Pc → Bool
  | .copying true | .copied _ | .advanced | .raised => true
  | _ => false

/-- A write or a resize between its change of a size and the increment of the generation. -/
def changingSize : Pc → Bool
  | .advanced | .truncated _ | .resized => true
  | _ => false

/-- A timestamp update between its first store and the increment of the generation. -/
def storing : Pc → Bool
  | .ctimeStored _ | .mtimeStored => true
  | _ => false

/-- A timestamp update between its first store and the first flag. -/
def touching : Pc → Bool
  | .ctimeStored _ | .mtimeStored | .touchRaised => true
  | _ => false

/-- A sync whose view of the times a raised generation would not show. -/
def blind : Pc → Bool
  | .sync _ _ (.mtimeLoaded _ _) | .sync _ _ (.ctimeLoaded _ _ _) | .sync _ _ .stampReset
  | .sync _ _ .stampChecked | .sync _ _ .mtimeCleared => true
  | _ => false

/-- The phase of a sync. -/
def phase : Pc → Option Phase
  | .sync _ _ phase => some phase
  | _ => none

end Pc

variable {n size k : ℕ} {s s' : State n} {t : Fin n} {f : Pc → Bool} {x p : Pc} {pc : Fin n → Pc}
  {phase : Phase}

/-- Some thread is at such a place. -/
def Someone (f : Pc → Bool) (pc : Fin n → Pc) : Prop := ∃ t, f (pc t) = true

instance (f : Pc → Bool) (pc : Fin n → Pc) : Decidable (Someone f pc) :=
  inferInstanceAs (Decidable (∃ t, f (pc t) = true))

namespace Someone

theorem self (h : f x = true) : Someone f (update pc t x) :=
  ⟨t, by rw [update_self]; exact h⟩

/-- A thread that moves stays at such a place, or was not at one. -/
theorem update (h : Someone f pc) (hx : f (pc t) = true → f x = true) :
    Someone f (update pc t x) := by
  obtain ⟨u, hu⟩ := h
  by_cases hut : u = t
  · exact self (hx (hut ▸ hu))
  · exact ⟨u, by rw [update_of_ne hut]; exact hu⟩

/-- A thread that moves to another place was not the one. -/
theorem of_update (h : Someone f (Function.update pc t x)) (hx : f x = false) : Someone f pc := by
  grind [Someone]

/-- One kind of place is among the others. -/
theorem mono {g : Pc → Bool} (h : Someone f pc) (hfg : ∀ p, f p = true → g p = true) :
    Someone g pc :=
  h.imp fun u hu => hfg (pc u) hu

end Someone

theorem Pc.beforeRetain_of_beforeRaise (p : Pc) (h : p.beforeRaise = true) :
    p.beforeRetain = true := by
  cases p with
  | copying wrote => cases wrote <;> [cases h; rfl]
  | _ => first | rfl | cases h

theorem Pc.touching_of_storing (p : Pc) (h : p.storing = true) : p.touching = true := by
  cases p <;> first | rfl | cases h

/-! ## The condition -/

section

variable (s : State n)

/-- The condition on the next step of a thread, by its place. -/
def GuardedRun : Pc → Prop
  -- The sync is about to load the size generation: if a page is dirty, then a write is between its
  -- copy and its increment.
  | .sync _ _ .entered => s.sizeGeneration ≠ 0 → s.dirty ≠ [] → Someone beforeRaise s.pc
  -- A timestamp update is about to raise the generation.
  | .mtimeStored => ∀ u, (s.pc u).blind = false
  | _ => True

/-- A condition on the state before a step. -/
def Guarded : Event n → Prop
  -- Only one sync of the inode runs at a time.
  | .beginSync _ _ _ => ∀ u, (s.pc u).phase = none
  | .run t => GuardedRun s (s.pc t)
  | _ => True

/-- No operation is in progress. -/
def Quiet : Prop := ∀ t, s.pc t = .idle

instance (s : State n) : Decidable (Quiet s) := inferInstanceAs (Decidable (∀ t, s.pc t = .idle))

/-! ## The marks -/

/-- The times on the device are those of the record. -/
def Settled : Prop :=
  s.backend.mtime = s.cachedMtime.tvSec ∧ s.backend.ctime = s.cachedCtime.tvSec

instance (s : State n) : Decidable (Settled s) := inferInstanceAs (Decidable (_ ∧ _))

/-- A timestamp flag is set. -/
def Flagged : Prop := s.mtimeDirty = true ∨ s.ctimeDirty = true

end

instance (s : State n) : Decidable (Flagged s) := inferInstanceAs (Decidable (_ ∨ _))

/-- Whatever is ahead of the device is marked, or is about to be. -/
structure Marked (s : State n) : Prop where
  pages : s.dirty ≠ [] → s.dirtyPageCache = true ∨ Someone beforeRetain s.pc
  size : s.logicalSize ≠ s.backend.size → s.sizeGeneration ≠ 0 ∨ Someone changingSize s.pc
  times : ¬ Settled s → Flagged s ∨ Someone touching s.pc

/-- What a step of an operation other than a sync may do, where `before` and `after` say which kinds
of places threads are at. -/
structure Changes (s s' : State n) (before after : (Pc → Bool) → Prop) : Prop where
  sizeGeneration_le : s.sizeGeneration ≤ s'.sizeGeneration
  timestampGeneration_le : s.timestampGeneration ≤ s'.timestampGeneration
  retained : s.dirtyPageCache = true → s'.dirtyPageCache = true
  flags : Flagged s → Flagged s'
  dirty : s'.dirty ≠ [] → s.dirty ≠ [] ∨ after Pc.beforeRaise
  sizes : (s'.logicalSize = s.logicalSize ∧ s'.backend.size = s.backend.size) ∨
    after Pc.changingSize
  stamps : (s'.cachedMtime = s.cachedMtime ∧ s'.cachedCtime = s.cachedCtime) ∨ after Pc.storing
  backend : s'.backend.mtime = s.backend.mtime ∧ s'.backend.ctime = s.backend.ctime
  -- A thread that has not raised a generation is on its way until it does.
  beforeRaise : s'.sizeGeneration = s.sizeGeneration → before Pc.beforeRaise → after Pc.beforeRaise
  changingSize : s'.sizeGeneration = s.sizeGeneration → before Pc.changingSize →
    after Pc.changingSize
  storing : s'.timestampGeneration = s.timestampGeneration → before Pc.storing → after Pc.storing
  -- A thread that has not left its mark is on its way until it has.
  beforeRetain : before Pc.beforeRetain → s'.dirtyPageCache = true ∨ after Pc.beforeRetain
  touching : before Pc.touching → Flagged s' ∨ after Pc.touching

/-- A step, as the sync sees it. -/
abbrev Follows (s s' : State n) : Prop := Changes s s' (Someone · s.pc) (Someone · s'.pc)

/-- **The marks stay right** in every step of an operation other than a sync. -/
theorem Marked.follow (h : Marked s) (hf : Follows s s') : Marked s' where
  pages hdirty := by
    rcases hf.dirty hdirty with hold | hraise
    · grind [h.pages, hf.retained, hf.beforeRetain]
    · exact .inr (hraise.mono beforeRetain_of_beforeRaise)
  size hne := by grind [hf.sizeGeneration_le, hf.sizes, h.size, hf.changingSize]
  times hsettled := by
    rcases hf.stamps with ⟨hmtime, hctime⟩ | hstoring
    · have hold : ¬ Settled s := by
        intro hs
        refine hsettled ⟨?_, ?_⟩
        · rw [hf.backend.1, hmtime]
          exact hs.1
        · rw [hf.backend.2, hctime]
          exact hs.2
      grind [h.times, hf.flags, hf.touching]
    · exact .inr (hstoring.mono touching_of_storing)

/-! ## What a sync knows -/

section

variable (s : State n)

/-- The size generation `gen` was loaded: as long as it stands, a dirty page is that of a write that
is going to raise it. -/
def SizeOpen (gen : ℕ) : Prop :=
  gen ≠ 0 → gen ≤ s.sizeGeneration ∧
    (s.sizeGeneration = gen → s.dirty ≠ [] → Someone beforeRaise s.pc)

/-- The size was loaded after that: as long as the generation stands, it is current. -/
def SizeRead (gen size : ℕ) : Prop :=
  gen ≠ 0 → s.sizeGeneration = gen → s.logicalSize = size ∨ Someone changingSize s.pc

/-- The times that were loaded are current. -/
def Current (mtime ctime : TimeSpec) : Prop :=
  (s.cachedMtime = mtime ∧ s.cachedCtime = ctime) ∨ Someone storing s.pc

/-- The times on the device are current. -/
def Synced : Prop := Settled s ∨ Someone storing s.pc

/-- They are current as long as the timestamp generation stands. -/
def StampsDone (generation : ℕ) : Prop :=
  generation ≤ s.timestampGeneration ∧ (s.timestampGeneration = generation → Synced s)

/-- What a sync knows in each of its phases. -/
def Phase.Sound : Phase → Prop
  | .writeback | .checked | .entered | .finished => True
  | .loaded gen | .testMtime gen | .tested gen _ => SizeOpen s gen
  | .sizeLoaded gen size _ => gen ≠ 0 ∧ SizeOpen s gen ∧ SizeRead s gen size
  | .sizeDone gen _ | .retestMtime gen => SizeOpen s gen ∧ SizeRead s gen s.backend.size
  | .flagged gen => SizeOpen s gen ∧ SizeRead s gen s.backend.size ∧ Flagged s
  | .mtimeLoaded gen mtime =>
    SizeOpen s gen ∧ SizeRead s gen s.backend.size ∧ Flagged s ∧
      (s.cachedMtime = mtime ∨ Someone storing s.pc)
  | .ctimeLoaded gen mtime ctime =>
    SizeOpen s gen ∧ SizeRead s gen s.backend.size ∧ Flagged s ∧ Current s mtime ctime
  | .snapshot gen stamps =>
    SizeOpen s gen ∧ SizeRead s gen s.backend.size ∧ Flagged s ∧
      stamps.generation ≤ s.timestampGeneration ∧
      (s.timestampGeneration = stamps.generation → Current s stamps.mtime stamps.ctime)
  | .committed gen stamps | .flushed gen stamps =>
    SizeOpen s gen ∧ SizeRead s gen s.backend.size ∧ ∀ k ∈ stamps, StampsDone s k
  | .sizeReset stamps =>
    (s.sizeGeneration = 0 → s.dirty ≠ [] → Someone beforeRaise s.pc) ∧
      ∀ k ∈ stamps, StampsDone s k
  | .sizeFinished stamps => ∀ k ∈ stamps, StampsDone s k
  | .stampReset | .stampChecked | .mtimeCleared => Synced s

end

namespace Follows

/-- A generation that still stands stood before. -/
theorem stood {a b : ℕ} (hle : a ≤ b) (hk : k ≤ a) (h : b = k) : b = a ∧ a = k := by omega

variable (hf : Follows s s') {gen : ℕ}
include hf

theorem sizeOpen (h : SizeOpen s gen) : SizeOpen s' gen := by
  intro hne
  obtain ⟨hle, hdirty⟩ := h hne
  grind [hf.sizeGeneration_le, hf.dirty, hf.beforeRaise]

theorem sizeRead (hopen : SizeOpen s gen)
    (h : SizeRead s gen size) : SizeRead s' gen size := by
  intro hne hgen
  obtain ⟨hsame, hold⟩ := stood hf.sizeGeneration_le (hopen hne).1 hgen
  rcases hf.sizes with ⟨hlogical, -⟩ | hchanging
  · rw [hlogical]
    exact (h hne hold).imp_right (hf.changingSize hsame)
  · exact .inr hchanging

theorem sizeCommitted (hopen : SizeOpen s gen)
    (h : SizeRead s gen s.backend.size) : SizeRead s' gen s'.backend.size := by
  rcases hf.sizes with ⟨-, hsize⟩ | hx
  · rw [hsize]
    exact sizeRead hf hopen h
  · exact fun _ _ => .inr hx

section

variable (hsame : s'.timestampGeneration = s.timestampGeneration)
include hsame

theorem current {mtime ctime : TimeSpec} (h : Current s mtime ctime) : Current s' mtime ctime := by
  rcases hf.stamps with ⟨hmtime, hctime⟩ | hx
  · rw [Current, hmtime, hctime]
    exact h.imp_right (hf.storing hsame)
  · exact .inr hx

theorem synced (h : Synced s) : Synced s' := by
  rcases hf.stamps with ⟨hmtime, hctime⟩ | hx
  · rw [Synced, Settled, hmtime, hctime, hf.backend.1, hf.backend.2]
    exact h.imp_right (hf.storing hsame)
  · exact .inr hx

end

theorem stampsDone (h : StampsDone s k) : StampsDone s' k := by
  refine ⟨le_trans h.1 hf.timestampGeneration_le, fun hgen => ?_⟩
  obtain ⟨hsame, hold⟩ := stood hf.timestampGeneration_le h.1 hgen
  exact hf.synced hsame (h.2 hold)

/-- **What a sync knows stays true** while other operations go on, unless a timestamp generation is
raised in a phase that would not see it. -/
theorem sound {wide gate : Bool} (h : phase.Sound s)
    (hblind : (sync wide gate phase).blind = true →
      s'.timestampGeneration = s.timestampGeneration) : phase.Sound s' := by
  cases phase with
  | writeback | checked | entered | finished => trivial
  | loaded gen | testMtime gen | tested gen stamps => exact hf.sizeOpen h
  | sizeLoaded gen size stamps => exact ⟨h.1, hf.sizeOpen h.2.1, hf.sizeRead h.2.1 h.2.2⟩
  | sizeDone gen stamps | retestMtime gen => exact ⟨hf.sizeOpen h.1, hf.sizeCommitted h.1 h.2⟩
  | flagged gen => exact ⟨hf.sizeOpen h.1, hf.sizeCommitted h.1 h.2.1, hf.flags h.2.2⟩
  | mtimeLoaded gen mtime =>
    obtain ⟨hopen, hread, hflag, hmtime⟩ := h
    refine ⟨hf.sizeOpen hopen, hf.sizeCommitted hopen hread, hf.flags hflag, ?_⟩
    rcases hf.stamps with ⟨hsame, -⟩ | hstoring
    · rw [hsame]
      exact hmtime.imp_right (hf.storing (hblind rfl))
    · exact .inr hstoring
  | ctimeLoaded gen mtime ctime =>
    obtain ⟨hopen, hread, hflag, htimes⟩ := h
    exact ⟨hf.sizeOpen hopen, hf.sizeCommitted hopen hread, hf.flags hflag,
      hf.current (hblind rfl) htimes⟩
  | snapshot gen stamps =>
    obtain ⟨hopen, hread, hflag, hle, htimes⟩ := h
    refine ⟨hf.sizeOpen hopen, hf.sizeCommitted hopen hread, hf.flags hflag,
      le_trans hle hf.timestampGeneration_le, fun hgen => ?_⟩
    grind [hf.timestampGeneration_le, hf.current]
  | committed gen stamps | flushed gen stamps =>
    exact ⟨hf.sizeOpen h.1, hf.sizeCommitted h.1 h.2.1, fun k hk => hf.stampsDone (h.2.2 k hk)⟩
  | sizeReset stamps =>
    refine ⟨fun hgen hd => ?_, fun k hk => hf.stampsDone (h.2 k hk)⟩
    obtain ⟨hsame, hold⟩ := stood hf.sizeGeneration_le (Nat.zero_le _) hgen
    rcases hf.dirty hd with hbefore | hraise
    · exact hf.beforeRaise hsame (h.1 hold hbefore)
    · exact hraise
  | sizeFinished stamps => exact fun k hk => hf.stampsDone (h k hk)
  | stampReset | stampChecked | mtimeCleared => exact hf.synced (hblind rfl) h

end Follows

/-! ## The operations other than a sync -/

/-- A step with which a thread goes from the place `p` to the place `x`. -/
abbrev Move (s s' : State n) (p x : Pc) : Prop := Changes s s' (· p = true) (· x = true)

theorem Move.follows (h : Move s s' (s.pc t) x) (hpc : s'.pc = update s.pc t x) :
    Follows s s' where
  sizeGeneration_le := h.sizeGeneration_le
  timestampGeneration_le := h.timestampGeneration_le
  retained := h.retained
  flags := h.flags
  dirty hd := (h.dirty hd).imp_right fun hx => hpc ▸ .self hx
  sizes := h.sizes.imp_right fun hx => hpc ▸ .self hx
  stamps := h.stamps.imp_right fun hx => hpc ▸ .self hx
  backend := h.backend
  beforeRaise hgen hold := hpc ▸ hold.update (h.beforeRaise hgen)
  changingSize hgen hold := hpc ▸ hold.update (h.changingSize hgen)
  storing hgen hold := hpc ▸ hold.update (h.storing hgen)
  beforeRetain hold := by grind [hold.update, h.beforeRetain]
  touching hold := by grind [hold.update, h.touching]

/-- A step that changes nothing but the place and the gate. -/
theorem Move.quiet {readers : ℕ} {writer : Bool}
    (hraise : p.beforeRaise = true → x.beforeRaise = true)
    (hchange : p.changingSize = true → x.changingSize = true)
    (hstore : p.storing = true → x.storing = true)
    (hretain : p.beforeRetain = true → x.beforeRetain = true)
    (htouch : p.touching = true → x.touching = true) :
    Move s { s with readers, writer, pc } p x where
  sizeGeneration_le := le_rfl
  timestampGeneration_le := le_rfl
  retained h := h
  flags h := h
  dirty h := .inl h
  sizes := .inl ⟨rfl, rfl⟩
  stamps := .inl ⟨rfl, rfl⟩
  backend := ⟨rfl, rfl⟩
  beforeRaise _ := hraise
  changingSize _ := hchange
  storing _ := hstore
  beforeRetain h := .inr (hretain h)
  touching h := .inr (htouch h)

/-- **One step of a write, a resize or a timestamp update.**  Only a timestamp update raises the
timestamp generation. -/
theorem move_of_run (hrun : s.run t p = some s') (hp : p.phase = none) :
    ∃ x, x.phase = none ∧ s'.pc = update s.pc t x ∧ Move s s' p x ∧
      (s'.timestampGeneration = s.timestampGeneration ∨ p = .mtimeStored) := by
  cases p with
  | idle | copying _ => cases hrun
  | sync _ _ _ => cases hp
  | copied writtenEnd =>
    cases hrun
    exact ⟨_, rfl, rfl, ⟨le_rfl, le_rfl, id, id, .inl, .inr rfl, .inl ⟨rfl, rfl⟩,
      ⟨rfl, rfl⟩, fun _ _ => rfl, nofun, nofun, fun _ => .inr rfl, nofun⟩, .inl rfl⟩
  | advanced =>
    cases hrun
    exact ⟨_, rfl, rfl, ⟨Nat.le_succ _, le_rfl, id, id, .inl, .inl ⟨rfl, rfl⟩,
      .inl ⟨rfl, rfl⟩, ⟨rfl, rfl⟩, fun h => absurd h (Nat.succ_ne_self _),
      fun h => absurd h (Nat.succ_ne_self _), nofun, fun _ => .inr rfl, nofun⟩, .inl rfl⟩
  | raised =>
    cases hrun
    exact ⟨_, rfl, rfl, ⟨le_rfl, le_rfl, fun _ => rfl, id, .inl, .inl ⟨rfl, rfl⟩,
      .inl ⟨rfl, rfl⟩, ⟨rfl, rfl⟩, nofun, nofun, nofun, fun _ => .inl rfl, nofun⟩, .inl rfl⟩
  | resizeChecked len oldSize cached =>
    rw [run] at hrun
    split_ifs at hrun
    all_goals
      cases hrun
      refine ⟨_, rfl, rfl, ⟨le_rfl, le_rfl, id, id,
        fun hd => .inl fun hnil => hd ?_, .inr rfl, .inl ⟨rfl, rfl⟩, ⟨rfl, rfl⟩, nofun, nofun,
        nofun, nofun, nofun⟩, .inl rfl⟩
      simp [truncate, goto, hnil]
  | truncated len =>
    cases hrun
    exact ⟨_, rfl, rfl, ⟨le_rfl, le_rfl, id, id, .inl, .inr rfl, .inl ⟨rfl, rfl⟩,
      ⟨rfl, rfl⟩, nofun, fun _ _ => rfl, nofun, nofun, nofun⟩, .inl rfl⟩
  | resized =>
    cases hrun
    exact ⟨_, rfl, rfl, ⟨Nat.le_succ _, le_rfl, id, id, .inl, .inl ⟨rfl, rfl⟩,
      .inl ⟨rfl, rfl⟩, ⟨rfl, rfl⟩, nofun, fun h => absurd h (Nat.succ_ne_self _), nofun, nofun,
      nofun⟩, .inl rfl⟩
  | touch now =>
    cases hrun
    exact ⟨_, rfl, rfl, ⟨le_rfl, le_rfl, id, id, .inl, .inl ⟨rfl, rfl⟩, .inr rfl,
      ⟨rfl, rfl⟩, nofun, nofun, nofun, nofun, nofun⟩, .inl rfl⟩
  | ctimeStored now =>
    cases hrun
    exact ⟨_, rfl, rfl, ⟨le_rfl, le_rfl, id, id, .inl, .inl ⟨rfl, rfl⟩, .inr rfl,
      ⟨rfl, rfl⟩, nofun, nofun, fun _ _ => rfl, nofun, fun _ => .inr rfl⟩, .inl rfl⟩
  | mtimeStored =>
    cases hrun
    exact ⟨_, rfl, rfl, ⟨le_rfl, Nat.le_succ _, id, id, .inl, .inl ⟨rfl, rfl⟩,
      .inl ⟨rfl, rfl⟩, ⟨rfl, rfl⟩, nofun, nofun, fun h => absurd h (Nat.succ_ne_self _), nofun,
      fun _ => .inr rfl⟩, .inr rfl⟩
  | touchRaised =>
    cases hrun
    exact ⟨_, rfl, rfl, ⟨le_rfl, le_rfl, id, fun _ => .inl rfl, .inl,
      .inl ⟨rfl, rfl⟩, .inl ⟨rfl, rfl⟩, ⟨rfl, rfl⟩, nofun, nofun, nofun, nofun,
      fun _ => .inl (.inl rfl)⟩, .inl rfl⟩
  | mtimeFlagged =>
    cases hrun
    exact ⟨_, rfl, rfl, ⟨le_rfl, le_rfl, id, fun _ => .inr rfl, .inl,
      .inl ⟨rfl, rfl⟩, .inl ⟨rfl, rfl⟩, ⟨rfl, rfl⟩, nofun, nofun, nofun, nofun, nofun⟩, .inl rfl⟩
  | _ =>
    rw [run] at hrun
    split_ifs at hrun
    cases hrun
    exact ⟨_, rfl, rfl, .quiet nofun nofun nofun nofun nofun, .inl rfl⟩

/-! ## The steps of a sync -/

/-- The marks are right, one sync runs at most, and what it knows is true. -/
structure Tracked (s : State n) : Prop where
  marked : Marked s
  single : ∀ u v, (s.pc u).phase ≠ none → (s.pc v).phase ≠ none → u = v
  sound : ∀ u phase, (s.pc u).phase = some phase → phase.Sound s

/-- A step of an operation other than a sync, or the start of one. -/
theorem Tracked.move (h : Tracked s) (hpc : s'.pc = update s.pc t x)
    (hmove : Move s s' (s.pc t) x)
    (hstamp : s'.timestampGeneration = s.timestampGeneration ∨ ∀ u, (s.pc u).blind = false)
    (hnew : x.phase = none ∨
      (∀ u, (s.pc u).phase = none) ∧ ∀ phase, x.phase = some phase → phase.Sound s') :
    Tracked s' := by
  have hf := hmove.follows hpc
  have hother : ∀ u, u ≠ t → s'.pc u = s.pc u := fun u hu => by
    rw [hpc, update_of_ne hu]
  have hself : s'.pc t = x := by rw [hpc, update_self]
  refine ⟨h.marked.follow hf, fun u v hu hv => ?_, fun u phase hu => ?_⟩
  · by_cases hut : u = t
    · grind
    · grind [h.single]
  · by_cases hut : u = t
    · grind
    · rw [hother u hut] at hu
      cases hp : s.pc u with
      | sync wide gate ph => grind [phase, Follows.sound, sound]
      | _ => rw [hp] at hu; cases hu

/-- A place of a sync, or of no operation: none of the threads that are on their way. -/
def Pc.Neutral (p : Pc) : Prop := p = .idle ∨ p.phase ≠ none

theorem Pc.Neutral.all_false (h : p.Neutral) :
    p.beforeRaise = false ∧ p.beforeRetain = false ∧ p.changingSize = false ∧
      p.storing = false ∧ p.touching = false := by
  rcases h with rfl | h
  · exact ⟨rfl, rfl, rfl, rfl, rfl⟩
  · cases p <;> first | exact ⟨rfl, rfl, rfl, rfl, rfl⟩ | exact absurd rfl h

theorem someone_goto (hx : f x = false) (ht : f (pc t) = false) :
    Someone f (update pc t x) ↔ Someone f pc :=
  ⟨fun h => h.of_update hx, fun h => h.update fun htrue => Bool.noConfusion (ht.symm.trans htrue)⟩

/-- The move of a sync changes nothing for the threads on their way. -/
theorem Marked.goto (h : Marked s) (ht : (s.pc t).Neutral) (hx : x.Neutral) :
    Marked (s.goto t x) := by
  obtain ⟨-, hretain, hchange, -, htouch⟩ := ht.all_false
  obtain ⟨-, hretain', hchange', -, htouch'⟩ := hx.all_false
  exact ⟨fun hd => (h.pages hd).imp_right (someone_goto hretain' hretain).mpr,
    fun hne => (h.size hne).imp_right (someone_goto hchange' hchange).mpr,
    fun hs => (h.times hs).imp_right (someone_goto htouch' htouch).mpr⟩

theorem Phase.Sound.goto (h : phase.Sound s) (ht : (s.pc t).Neutral)
    (hx : x.Neutral) : phase.Sound (s.goto t x) := by
  obtain ⟨hraise, -, hchange, hstore, -⟩ := ht.all_false
  obtain ⟨hraise', -, hchange', hstore', -⟩ := hx.all_false
  have hR := someone_goto hraise' hraise
  have hC := someone_goto hchange' hchange
  have hS := someone_goto hstore' hstore
  cases phase with
  | writeback | checked | entered | finished => trivial
  | _ =>
    simpa only [Sound, SizeOpen, SizeRead, Current, Synced, StampsDone, Settled, Flagged,
      goto, hR, hC, hS] using h

variable {wide gate : Bool}

section

variable (h : Tracked s) (ht : s.pc t = .sync wide gate phase)
include h ht

/-- The step of the only sync: a change of the record under which the marks stay right, after which
the sync is over or knows what its next phase says. -/
theorem Tracked.syncMove {s₁ : State n} (hpc : s₁.pc = s.pc) (hmarked : Marked s₁)
    (hx : x = .idle ∨ ∃ wide gate phase, x = .sync wide gate phase ∧ phase.Sound s₁) :
    Tracked (s₁.goto t x) := by
  have hneutral : (s₁.pc t).Neutral := .inr (by rw [hpc, ht]; nofun)
  have hneutral' : x.Neutral := by grind [Neutral, phase]
  -- No other thread is in a sync.
  have hother : ∀ u, u ≠ t → ((s₁.goto t x).pc u).phase = none := by
    intro u hut
    rw [goto_pc, update_of_ne hut, hpc]
    by_contra hne
    exact hut (h.single u t hne (by rw [ht]; nofun))
  refine ⟨hmarked.goto hneutral hneutral', fun u v hu hv => ?_, fun u ph hu => ?_⟩
  · grind
  · have hut : u = t := by_contra fun hne => nomatch (hother u hne).symm.trans hu
    rw [hut, goto_pc, update_self] at hu
    rcases hx with rfl | ⟨_, _, ph', rfl, hsound⟩
    · cases hu
    · grind [phase, Phase.Sound.goto]

theorem Tracked.stepSync (hguard : GuardedRun s (.sync wide gate phase))
    (hstep : s.stepSync t wide gate phase = some s') : Tracked s' := by
  have hsound : phase.Sound s := h.sound t phase (by rw [ht]; rfl)
  have hmarked := h.marked
  cases phase with
  | writeback => grind [syncMove, Sound, stepSync.eq_1]
  | checked =>
    rw [stepSync] at hstep
    split_ifs at hstep
    cases hstep
    exact h.syncMove ht rfl ⟨hmarked.pages, hmarked.size, hmarked.times⟩
      (.inr ⟨_, _, _, rfl, trivial⟩)
  | entered =>
    cases hstep
    refine h.syncMove ht rfl hmarked (.inr ⟨_, _, _, rfl, fun hne => ?_⟩)
    exact ⟨le_refl _, fun _ hd => hguard hne hd⟩
  | loaded gen => grind [stepSync, syncMove, Sound]
  | testMtime gen => grind [stepSync, syncMove, Sound]
  | tested gen stamps => grind [stepSync, syncMove, Sound, SizeRead]
  | sizeLoaded gen size stamps =>
    cases hstep
    obtain ⟨hne, hopen, hread⟩ := hsound
    -- The generation is not zero yet, so the size counts as marked whatever is committed.
    have hgen : s.sizeGeneration ≠ 0 := fun h0 => hne (Nat.le_zero.mp (h0 ▸ (hopen hne).1))
    exact h.syncMove ht rfl { hmarked with size := fun _ => .inl hgen }
      (.inr ⟨_, _, _, rfl, hopen, hread⟩)
  | sizeDone gen stamps => grind [stepSync, syncMove, Sound, Flagged]
  | retestMtime gen => grind [stepSync, syncMove, Sound, Flagged]
  | flagged gen => grind [stepSync, syncMove, Sound]
  | mtimeLoaded gen mtime => grind [stepSync, Sound, syncMove, Current]
  | ctimeLoaded gen mtime ctime => grind [stepSync, Sound, syncMove]
  | snapshot gen stamps =>
    rw [stepSync] at hstep
    split_ifs at hstep
    cases hstep
    obtain ⟨hopen, hread, hflag, hle, htimes⟩ := hsound
    -- The flags stay set until this sync clears them.
    refine h.syncMove ht rfl { hmarked with times := fun _ => .inl hflag }
      (.inr ⟨_, _, _, rfl, hopen, hread, fun k hk => ?_⟩)
    cases hk
    refine ⟨hle, fun hgen => (htimes hgen).imp_left ?_⟩
    rintro ⟨hmtime, hctime⟩
    exact ⟨congrArg TimeSpec.tvSec hmtime.symm, congrArg TimeSpec.tvSec hctime.symm⟩
  | committed gen stamps =>
    rw [stepSync] at hstep
    split_ifs at hstep
    · cases hstep
      exact h.syncMove ht rfl ⟨hmarked.pages, hmarked.size, hmarked.times⟩
        (.inr ⟨_, _, _, rfl, hsound⟩)
    · grind [syncMove, Sound]
  | flushed gen stamps =>
    obtain ⟨hopen, hread, hstamps⟩ := hsound
    rw [stepSync] at hstep
    split_ifs at hstep with hcas
    · cases hstep
      -- The generation stands: what is committed is current.
      refine h.syncMove ht rfl { hmarked with size := fun hne => .inr ?_ }
        (.inr ⟨_, _, _, rfl, fun _ => (hopen hcas.1).2 hcas.2, hstamps⟩)
      exact (hread hcas.1 hcas.2).resolve_left hne
    · grind [syncMove, Sound]
  | sizeReset stamps =>
    obtain ⟨hdirty, hstamps⟩ := hsound
    cases hstep
    rw [releaseDirtyPageCache]
    split_ifs with hrelease
    · refine h.syncMove ht rfl { hmarked with pages := fun hd => .inr ?_ }
        (.inr ⟨_, _, _, rfl, hstamps⟩)
      exact (hdirty hrelease.2 hd).mono beforeRetain_of_beforeRaise
    · exact h.syncMove ht rfl hmarked (.inr ⟨_, _, _, rfl, hstamps⟩)
  | sizeFinished stamps =>
    cases stamps with
    | none => grind [stepSync, syncMove, Sound]
    | some k =>
      rw [stepSync] at hstep
      split_ifs at hstep with hcas
      · cases hstep
        exact h.syncMove ht rfl ⟨hmarked.pages, hmarked.size, hmarked.times⟩
          (.inr ⟨_, _, _, rfl, (hsound k rfl).2 hcas⟩)
      · grind [syncMove, Sound]
  | stampReset => grind [stepSync, syncMove, Sound]
  | stampChecked =>
    cases hstep
    refine h.syncMove ht rfl { hmarked with times := fun hs => .inr ?_ }
      (.inr ⟨_, _, _, rfl, hsound⟩)
    exact (Or.resolve_left hsound hs).mono touching_of_storing
  | mtimeCleared =>
    cases hstep
    refine h.syncMove ht rfl { hmarked with times := fun hs => .inr ?_ }
      (.inr ⟨_, _, _, rfl, trivial⟩)
    exact (Or.resolve_left hsound hs).mono touching_of_storing
  | finished =>
    cases hstep
    exact h.syncMove ht rfl ⟨hmarked.pages, hmarked.size, hmarked.times⟩ (.inl rfl)

end

/-! ## Every run -/

theorem tracked_initial {mtime ctime : TimeSpec} :
    Tracked (initial size mtime ctime : State n) where
  marked := ⟨fun h => absurd rfl h, fun h => absurd rfl h, fun h => absurd ⟨rfl, rfl⟩ h⟩
  single _ _ h := absurd rfl h
  sound _ _ h := nomatch h

theorem Tracked.step (h : Tracked s) {e : Event n} (hguard : Guarded s e)
    (hstep : s.step e = some s') : Tracked s' := by
  cases e with
  | copyPage t page =>
    rw [State.step] at hstep
    split at hstep
    case h_1 wrote hp =>
      cases hstep
      refine h.move rfl ?_ (.inl rfl) (.inl rfl)
      rw [hp]
      exact ⟨le_rfl, le_rfl, id, id, fun _ => .inr rfl, .inl ⟨rfl, rfl⟩,
        .inl ⟨rfl, rfl⟩, ⟨rfl, rfl⟩, fun _ _ => rfl, nofun, nofun, fun _ => .inr rfl, nofun⟩
    case h_2 => cases hstep
  | copyEnd t writtenEnd =>
    rw [State.step] at hstep
    split at hstep
    case h_1 wrote hp =>
      cases hstep
      refine h.move rfl ?_ (.inl rfl) (.inl rfl)
      rw [hp]
      exact .quiet (fun _ => rfl) nofun nofun (fun _ => rfl) nofun
    case h_2 => cases hstep
  | beginResize t len cached =>
    rw [State.step] at hstep
    split_ifs at hstep with hidle hcached
    all_goals
      cases hstep
      refine h.move rfl ?_ (.inl rfl) (.inl rfl)
      rw [hidle.1]
      exact .quiet nofun nofun nofun nofun nofun
  | beginSync t wide cached =>
    rw [State.step] at hstep
    split_ifs at hstep with hidle
    all_goals
      cases hstep
      refine h.move rfl ?_ (.inl rfl) (.inr ⟨hguard, fun phase hphase => ?_⟩)
      · rw [hidle.1]
        exact .quiet nofun nofun nofun nofun nofun
      · cases hphase
        trivial
  | writeback page =>
    cases hstep
    have hf : Follows s { s with dirty := s.dirty.filter fun p => p ≠ page } :=
      ⟨le_rfl, le_rfl, id, id, fun hd => .inl fun hnil => hd (by rw [hnil]; rfl),
        .inl ⟨rfl, rfl⟩, .inl ⟨rfl, rfl⟩, ⟨rfl, rfl⟩, fun _ => id, fun _ => id, fun _ => id,
        .inr, .inr⟩
    exact ⟨h.marked.follow hf, h.single, fun u phase hu =>
      hf.sound (h.sound u phase hu) (fun _ => rfl : (sync true true phase).blind = true → _)⟩
  | run t =>
    rw [State.step] at hstep
    cases hphase : (s.pc t).phase with
    | none =>
      obtain ⟨x, hx, hpc, hmove, hstamp⟩ := move_of_run hstep hphase
      refine h.move hpc hmove (hstamp.imp_right fun hp => ?_) (.inl hx)
      have hguard' : GuardedRun s (s.pc t) := hguard
      rw [hp] at hguard'
      exact hguard'
    | some phase =>
      cases hp : s.pc t with
      | sync wide gate ph =>
        rw [hp] at hstep
        exact h.stepSync hp (hp ▸ hguard) hstep
      | _ => rw [hp] at hphase; cases hphase
  | fail t =>
    rw [State.step] at hstep
    cases hp : s.pc t with
    | write | resize _ _ | resizeChecked _ _ _ =>
      rw [hp] at hstep
      cases hstep
      refine h.move rfl ?_ (.inl rfl) (.inl rfl)
      rw [hp]
      exact .quiet nofun nofun nofun nofun nofun
    | copying wrote =>
      rw [hp] at hstep
      cases wrote with
      | true => cases hstep
      | false =>
        cases hstep
        refine h.move rfl ?_ (.inl rfl) (.inl rfl)
        rw [hp]
        exact .quiet nofun nofun nofun nofun nofun
    | sync wide gate phase =>
      rw [hp] at hstep
      obtain ⟨writer, rfl⟩ : ∃ writer, { s with writer }.goto t .idle = s' := by
        cases phase <;> first | exact ⟨_, some.inj hstep⟩ | cases hstep
      exact h.syncMove hp rfl ⟨h.marked.pages, h.marked.size, h.marked.times⟩ (.inl rfl)
    | _ => rw [hp] at hstep; cases hstep
  | _ =>
    rw [State.step] at hstep
    split_ifs at hstep with hidle
    cases hstep
    refine h.move rfl ?_ (.inl rfl) (.inl rfl)
    rw [hidle]
    exact .quiet nofun nofun nofun nofun nofun

/-- **Nothing is forgotten.**  In every run that meets the condition, whenever no operation is in
progress: the record retains the page cache if that has a dirty page, the size generation is not
zero if the size is not that of the device, and a timestamp flag is set if the times are not. -/
theorem marks_of_reachable (hs : ((system n).restrict Guarded).Reachable s) (hquiet : Quiet s) :
    (s.dirty ≠ [] → s.dirtyPageCache = true) ∧
      (s.logicalSize ≠ s.backend.size → s.sizeGeneration ≠ 0) ∧ (¬ Settled s → Flagged s) := by
  have htracked : Tracked s := by
    refine System.Reachable.invariant (fun u hu => ?_) (fun u e u' _ h hstep => ?_) hs
    · obtain ⟨size, mtime, ctime, rfl⟩ := hu
      exact tracked_initial
    · exact h.step hstep.1 hstep.2
  have hnobody : ∀ f : Pc → Bool, f .idle = false → ¬ Someone f s.pc := by
    rintro f hidle ⟨t, ht⟩
    rw [hquiet t, hidle] at ht
    cases ht
  exact ⟨fun hd => (htracked.marked.pages hd).resolve_right (hnobody _ rfl),
    fun hne => (htracked.marked.size hne).resolve_right (hnobody _ rfl),
    fun hns => (htracked.marked.times hns).resolve_right (hnobody _ rfl)⟩

theorem guardedRun_iff : GuardedRun s p ↔
    (p.phase = some .entered → s.sizeGeneration ≠ 0 → s.dirty ≠ [] → Someone beforeRaise s.pc) ∧
      (p = .mtimeStored → ∀ u, (s.pc u).blind = false) := by
  cases p with
  | sync wide gate phase => cases phase <;> simp [GuardedRun, phase]
  | _ => simp [GuardedRun, phase]

instance (s : State n) (p : Pc) : Decidable (GuardedRun s p) := decidable_of_iff' _ guardedRun_iff

instance (s : State n) : (e : Event n) → Decidable (Guarded s e)
  | .beginSync _ _ _ => inferInstanceAs (Decidable (∀ u, (s.pc u).phase = none))
  | .run t => inferInstanceAs (Decidable (GuardedRun s (s.pc t)))
  | .beginWrite _ | .copyPage _ _ | .copyEnd _ _ | .beginResize _ _ _ | .beginTouch _ _
  | .writeback _ | .fail _ => isTrue trivial

/-- A file is written and touched while a sync of the earlier write runs. -/
theorem marks_writeDuringSync : ∃ s : State 2, ((system 2).restrict Guarded).Reachable s ∧
    Quiet s ∧ s.dirty ≠ [] ∧ s.dirtyPageCache = true ∧ ¬ Settled s ∧ Flagged s := by
  let events : List (Event 2) :=
    [.beginWrite 0, .run 0, .copyPage 0 0, .copyEnd 0 5, .run 0, .run 0, .run 0,
      .beginSync 1 false true, .writeback 0, .run 1, .run 1, .run 1, .run 1, .run 1, .run 1, .run 1,
      -- A timestamp update, and the sync goes on to its end.
      .beginTouch 0 ⟨7, 0⟩, .run 0, .run 0, .run 0, .run 0, .run 0,
      .run 1, .run 1, .run 1, .run 1, .run 1, .run 1,
      .beginWrite 0, .run 0, .copyPage 0 1, .copyEnd 0 5000, .run 0, .run 0, .run 0]
  obtain ⟨s, hreach, hquiet, hdirty, hsettled⟩ : ∃ s, ((system 2).restrict Guarded).Reachable s ∧
      Quiet s ∧ s.dirty ≠ [] ∧ ¬ Settled s :=
    System.exists_run_restrict events ⟨0, ⟨3, 0⟩, ⟨3, 0⟩, rfl⟩ (by decide)
  obtain ⟨hpages, -, htimes⟩ := marks_of_reachable hreach hquiet
  exact ⟨s, hreach, hquiet, hdirty, hpages hdirty, hsettled, htimes hsettled⟩

/-- A write runs completely between the check for dirty pages of a sync and its I/O gate: the sync
commits the size and lets go of the cache, whose page is still dirty. -/
theorem dirty_page_not_retained : ∃ s : State 2, (system 2).Reachable s ∧ Quiet s ∧
    s.dirty ≠ [] ∧ s.dirtyPageCache = false := by
  let events : List (Event 2) :=
    [.beginSync 1 false true, .run 1,
      .beginWrite 0, .run 0, .copyPage 0 0, .copyEnd 0 5, .run 0, .run 0, .run 0,
      .run 1, .run 1, .run 1, .run 1, .run 1, .run 1, .run 1, .run 1, .run 1, .run 1, .run 1,
      .run 1]
  exact System.exists_run events ⟨0, ⟨3, 0⟩, ⟨3, 0⟩, rfl⟩ (by decide)
end MangoCore.Fs.Ext4
