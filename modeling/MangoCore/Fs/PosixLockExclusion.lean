import MangoCore.Fs.PosixLockManager

/-!
# Mutual exclusion of record locks

Within one entry the locks exclude each other (`Exclusive.applyLock`).  What can go wrong is that
one file has two entries.  A release drops an empty entry from its shard while another call, which
looked the entry up before, is still about to use it.  The lock that call is then granted lies in an
entry that no later request looks at (`not_exclusive_of_calls`).

The invariant says that this is the only way.  As long as every lock request is applied to the entry
its file still has, and that no release is about to remove, every record lies in the current entry
of its file, and the locks of a file are those of one entry (`exclusive_of_reachable`).
-/

namespace MangoCore.Fs.PosixLock.Manager

open Function Option Manager

/-- An owner holds a lock of a type on a byte of a file. -/
def Holds (m : Manager) (key : LockKey) (o : LockOwner) (ty : LockType) (p : ℤ) : Prop :=
  ∃ e, m.entryKey e = key ∧ PosixLock.Holds (m.entries e).records o ty p

/-- No two different owners hold overlapping ranges of one file with one of them for writing. -/
def Exclusive (m : Manager) : Prop :=
  ∀ key o o' ty ty' p, m.Holds key o ty p → m.Holds key o' ty' p → sameOwner o o' = false →
    ty = .read ∧ ty' = .read

/-- The entry and the request that a step applies to it. -/
def request? (m : Manager) : ℕ × Act → Option (ℕ × Call)
  | (t, .next) =>
    match m.pc t with
    | .start e c => if c.blocking then none else some (e, c)
    | .tryLock e c => some (e, c)
    | .waiting e c => some (e, c)
    | _ => none
  | _ => none

/-- A lock request is applied to the entry that its file has in the shard, and no release has found
that entry empty and is about to remove it. -/
def Current (m : Manager) (a : ℕ × Act) : Prop :=
  ∀ e c, m.request? a = some (e, c) → c.ltype = F_RDLCK ∨ c.ltype = F_WRLCK →
    m.lookup c.key = some e ∧ ∀ u, m.pc u ≠ .remove c.key

/-- Every record lies in the current entry of its file. -/
structure Inv (m : Manager) : Prop where
  mapped : ∀ key e, m.lookup key = some e → e < m.nextEntry ∧ m.entryKey e = key
  exclusive : ∀ e, PosixLock.Exclusive (m.entries e).records
  live : ∀ e, (m.entries e).records ≠ [] →
    m.lookup (m.entryKey e) = some e ∧ ∀ u, m.pc u ≠ .remove (m.entryKey e)
  locked : ∀ t i, (m.pc t).shard? = some i → m.held i = some t
  releasing : ∀ t e key who, m.pc t = .release e key who → m.lookup key = some e

variable {m m' : Manager} {t e u i : ℕ} {state : EntryState} {a : ℕ × Act} {c : Call}

section

variable (m : Manager) {pc : Pc}

theorem lookup_setLookup (key key' : LockKey) {e : Option ℕ} :
    (m.setLookup key e).lookup key' = if key' = key then e else m.lookup key' := by
  unfold lookup setLookup
  dsimp only
  by_cases hkey : key' = key
  · rw [if_pos hkey, hkey, update_self, update_self]
  · rw [if_neg hkey]
    by_cases hshard : key'.shard = key.shard
    · rw [hshard, update_self, update_of_ne hkey]
    · rw [update_of_ne hshard]

theorem setPc_pc_self : (m.setPc t pc).pc t = pc :=
  update_self ..

theorem setPc_pc_of_ne (h : u ≠ t) : (m.setPc t pc).pc u = m.pc u := update_of_ne h ..

theorem setEntry_entries_self : (m.setEntry e state).entries e = state := update_self ..

theorem setEntry_entries_of_ne {e' : ℕ} (h : e' ≠ e) :
    (m.setEntry e state).entries e' = m.entries e' := update_of_ne h ..

end

/-! ## What a step can do -/

/-- What holds at the points of the calls: the entry has been made, and no unlock request waits. -/
def PcOk (nextEntry : ℕ) : Pc → Prop
  | .start e _ | .tryLock e _ | .release e _ _ => e < nextEntry
  | .waiting e c | .graph e c _ => e < nextEntry ∧ c.ltype ≠ F_UNLCK
  | _ => True

structure Numbered (m : Manager) : Prop where
  lookup_lt : ∀ {key e}, m.lookup key = some e → e < m.nextEntry
  pcs : ∀ t, PcOk m.nextEntry (m.pc t)

/-- **What a step can do.** -/
inductive Section (m : Manager) (a : ℕ × Act) : Manager → Prop
  | stay : Section m a m
  | move (wg : EdgeMap) {pc : Pc} (hnew : pc.shard? = none)
    (hok : Numbered m → PcOk m.nextEntry pc) :
    Section m a (({ m with waitGraph := wg } : Manager).setPc a.1 pc)
  | grant (pc : Pc) {e : ℕ} {c : Call} (hreq : m.request? a = some (e, c))
    (hc : (c.apply (m.entries e)).1 = true) (hnew : pc.shard? = none) (hok : ∀ n, PcOk n pc) :
    Section m a ((m.setEntry e (c.apply (m.entries e)).2).setPc a.1 pc)
  | create {c : Call} (hnone : m.lookup c.key = none) :
    Section m a ((m.newEntry c.key).setPc a.1 (.start m.nextEntry c))
  | startRelease {e : ℕ} {key : LockKey} {who : Releaser} (hfree : m.held key.shard = none)
    (hlook : m.lookup key = some e) :
    Section m a ((m.setHeld key.shard (some a.1)).setPc a.1 (.release e key who))
  | drop {e : ℕ} {key : LockKey} {who : Releaser} {m' : Manager} (ha : a.2 = .next)
    (hpc : m.pc a.1 = .release e key who)
    (heq : m' =
      let kept := m.setEntry e ⟨(m.entries e).records.filter who.keeps⟩
      if (kept.entries e).records.isEmpty then kept.setPc a.1 (.remove key)
      else (kept.setHeld key.shard none).setPc a.1 (.idle none)) : Section m a m'
  | remove {key : LockKey} (hpc : m.pc a.1 = .remove key) :
    Section m a (((m.setLookup key none).setHeld key.shard none).setPc a.1 (.idle none))

theorem section_tryApply {refused : Pc}
    (hreq : m.request? a = some (e, c)) (hnew : refused.shard? = none)
    (hok : c.ltype ≠ F_UNLCK → Numbered m → PcOk m.nextEntry refused) :
    Section m a (m.tryApply a.1 e c refused) := by
  unfold tryApply
  have hgrant := fun pc => Section.grant pc hreq
  rcases hr : c.apply (m.entries e) with ⟨_ | _, state⟩ <;> rw [hr] at hgrant
  · refine .move m.waitGraph hnew (hok fun hun => ?_)
    rw [Call.apply, applyLock, if_neg (by rw [hun]; decide)] at hr
    cases hr
  · refine hgrant _ rfl ?_ fun n => ?_ <;> split_ifs <;> trivial

theorem next_cases (hstep : m.next t = some m') : Section m (t, .next) m' := by
  have hok := fun h : Numbered m => h.pcs t
  unfold next at hstep
  cases hpc : m.pc t with
  | idle last => simp [hpc] at hstep
  | start e c =>
    rw [hpc] at hstep hok
    dsimp only at hstep
    split_ifs at hstep with hb <;> rw [← some.inj hstep]
    · exact .move _ rfl hok
    · exact section_tryApply (by simp [request?, hpc, hb]) rfl fun _ _ => trivial
  | tryLock e c =>
    rw [hpc] at hstep hok
    rw [← some.inj hstep]
    exact section_tryApply (by simp [request?, hpc]) rfl fun hne h => ⟨hok h, hne⟩
  | waiting e c =>
    rw [hpc] at hstep hok
    have hreq : m.request? (t, .next) = some (e, c) := by simp [request?, hpc]
    have hgrant := fun pc => Section.grant pc hreq
    dsimp only at hstep
    split at hstep <;> rw [← some.inj hstep]
    · rename_i state hr
      rw [hr] at hgrant
      exact hgrant _ rfl rfl fun _ => trivial
    · exact .move m.waitGraph rfl hok
  | graph e c blocker =>
    rw [hpc] at hstep hok
    cases blocker with
    | none =>
      rw [← some.inj hstep]
      exact .move m.waitGraph rfl hok
    | some blocker =>
      dsimp only at hstep
      split_ifs at hstep <;> rw [← some.inj hstep]
      · exact .move _ rfl fun _ => trivial
      · exact .move _ rfl hok
  | wakeAll | granted c =>
    rw [hpc] at hstep
    rw [← some.inj hstep]
    exact .move _ rfl fun _ => trivial
  | release e key who =>
    rw [hpc] at hstep
    refine .drop rfl hpc (some.inj (hstep.symm.trans ?_))
    exact (apply_ite some ..).symm
  | remove key =>
    rw [hpc] at hstep
    rw [← some.inj hstep]
    exact .remove hpc

theorem step_cases (hstep : m.step a = some m') : Section m a m' := by
  obtain ⟨t, act⟩ := a
  unfold step at hstep
  cases act with
  | next => exact next_cases hstep
  | set file owner flock blocking =>
    dsimp only at hstep
    split at hstep <;> [skip; cases hstep]
    split at hstep
    · rw [← some.inj hstep]
      exact .move m.waitGraph rfl fun _ => trivial
    · split_ifs at hstep
      split at hstep <;> rw [← some.inj hstep]
      · rename_i e he
        exact .move m.waitGraph rfl fun h => h.lookup_lt he
      · exact .create ‹_›
  | release key who =>
    dsimp only at hstep
    split at hstep <;> [skip; cases hstep]
    split_ifs at hstep with hheld
    split at hstep <;> rw [← some.inj hstep]
    · rename_i e he
      exact .startRelease (by simpa using hheld) he
    · exact .stay
  | interrupt =>
    dsimp only at hstep
    split at hstep <;> [skip; cases hstep]
    rw [← some.inj hstep]
    exact .move _ rfl fun _ => trivial
  | retry =>
    dsimp only at hstep
    split at hstep <;> [skip; cases hstep]
    rename_i e c hpc
    rw [← some.inj hstep]
    refine .move m.waitGraph rfl fun h => ?_
    have hok := h.pcs t
    rw [hpc] at hok
    exact hok.1

/-! ## Parts of a step -/

theorem Inv.initial : Inv initial where
  mapped _ _ h := absurd h (by simp [lookup, Manager.initial])
  exclusive _ := exclusive_nil
  live _ h := absurd rfl h
  locked _ _ h := absurd h (by simp [Manager.initial, Pc.shard?])
  releasing _ _ _ _ h := absurd h (by simp [Manager.initial])

/-- A thread moves, and may take the lock of a shard or give it up. -/
theorem Inv.move (h : Inv m) {pc : Pc} {held : ℕ → Option ℕ}
    (hheld : ∀ u i, u ≠ t → (m.pc u).shard? = some i → held i = some u)
    (hlocked : ∀ i, pc.shard? = some i → held i = some t)
    (hremove : ∀ e, (m.entries e).records ≠ [] → pc ≠ .remove (m.entryKey e))
    (hrelease : ∀ e key who, pc = .release e key who → m.lookup key = some e) :
    Inv (({ m with held := held } : Manager).setPc t pc) where
  mapped := h.mapped
  exclusive := h.exclusive
  live e hne := by
    refine ⟨(h.live e hne).1, fun u hu => ?_⟩
    simp only [setPc, update_apply] at hu
    split_ifs at hu
    · exact hremove e hne hu
    · exact (h.live e hne).2 u hu
  locked u i hi := by
    simp only [setPc, update_apply] at hi
    split_ifs at hi with hut
    · exact hut ▸ hlocked i hi
    · exact hheld u i hut hi
  releasing u e key who hu := by
    simp only [setPc, update_apply] at hu
    split_ifs at hu
    · exact hrelease e key who hu
    · exact h.releasing u e key who hu

/-- It moves to a point at which it holds no lock of a shard. -/
theorem Inv.setPc (h : Inv m) {pc : Pc} (hnew : pc.shard? = none) : Inv (m.setPc t pc) := by
  refine h.move (fun u i _ => h.locked u i) (by simp [hnew]) (fun e _ hpc => ?_)
    fun e key who hpc => ?_
  all_goals simp [hpc, Pc.shard?] at hnew

theorem Inv.setGraph (h : Inv m) {wg : EdgeMap} : Inv { m with waitGraph := wg } :=
  ⟨h.mapped, h.exclusive, h.live, h.locked, h.releasing⟩

/-- The records of an entry change; if some are left, the entry is current. -/
theorem Inv.setEntry (h : Inv m) (hex : PosixLock.Exclusive state.records)
    (hlive : state.records ≠ [] →
      m.lookup (m.entryKey e) = some e ∧ ∀ u, m.pc u ≠ .remove (m.entryKey e)) :
    Inv (m.setEntry e state) where
  mapped := h.mapped
  exclusive e' := by grind [setEntry_entries_self, setEntry_entries_of_ne, h.exclusive]
  live e' hne := by
    by_cases he : e' = e
    · rw [he, setEntry_entries_self] at hne
      rw [he]
      exact hlive hne
    · rw [setEntry_entries_of_ne m he] at hne
      exact h.live e' hne
  locked := h.locked
  releasing := h.releasing

/-- Taking a range from an empty list leaves it empty. -/
theorem records_ne_nil_of_removeRange {owner : LockOwner}
    {start endIncl : I64} (h : (removeRange state owner start endIncl).records ≠ []) :
    state.records ≠ [] := by
  intro hnil
  apply h
  rw [removeRange, hnil]
  rfl

section

variable {key : LockKey} {who : Releaser} (h : Inv m)
include h

/-- **A request applied to an entry.**  A lock request needs the entry to be current; an unlock
request leaves records only where there were some. -/
theorem Inv.apply (hcur : c.ltype = F_RDLCK ∨ c.ltype = F_WRLCK →
      m.lookup c.key = some e ∧ ∀ u, m.pc u ≠ .remove c.key) :
    Inv (m.setEntry e (c.apply (m.entries e)).2) := by
  refine h.setEntry ((h.exclusive e).applyLock) fun hne => ?_
  by_cases hlock : c.ltype = F_RDLCK ∨ c.ltype = F_WRLCK
  · obtain ⟨hlook, hrem⟩ := hcur hlock
    rw [(h.mapped _ _ hlook).2]
    exact ⟨hlook, hrem⟩
  · rw [Call.apply, applyLock_unlock _ _ hlock] at hne
    exact h.live e (records_ne_nil_of_removeRange hne)

/-- A new entry goes where the file had none. -/
theorem Inv.newEntry (hnone : m.lookup key = none) : Inv (m.newEntry key) := by
  have hlook : ∀ key', (m.newEntry key).lookup key' =
      if key' = key then some m.nextEntry else m.lookup key' := fun key' => by
    rw [← lookup_setLookup m key key']
    unfold lookup Manager.newEntry
    dsimp only
  have hkey : ∀ e, e ≠ m.nextEntry → (m.newEntry key).entryKey e = m.entryKey e :=
    fun e he => update_of_ne he ..
  have hentry : ∀ e, e ≠ m.nextEntry → (m.newEntry key).entries e = m.entries e :=
    fun e he => update_of_ne he ..
  have hself : (m.newEntry key).entries m.nextEntry = ⟨[]⟩ := update_self ..
  refine ⟨fun key' e he => ?_, fun e => ?_, fun e hne => ?_, h.locked, fun t e key' who ht => ?_⟩
  · rw [hlook] at he
    show e < m.nextEntry + 1 ∧ _
    split_ifs at he with hk
    · rw [← some.inj he, hk]
      exact ⟨Nat.lt_add_one _, update_self ..⟩
    · obtain ⟨hlt, hek⟩ := h.mapped key' e he
      exact ⟨by omega, by rw [hkey e (by omega), hek]⟩
  · grind [exclusive_nil, h.exclusive]
  · by_cases he : e = m.nextEntry
    · rw [he, hself] at hne
      exact absurd rfl hne
    · rw [hentry e he] at hne
      rw [hkey e he, hlook, if_neg]
      · exact h.live e hne
      · -- an entry of this file with records would be in the shard
        grind [h.live]
  · have := h.releasing t e key' who ht
    grind

/-- A thread that holds the lock of a shard is the only one at a point that needs it. -/
theorem Inv.shard_ne (ht : (m.pc t).shard? = some i) (hut : u ≠ t) : (m.pc u).shard? ≠ some i := by
  intro hu
  have h₁ := h.locked t i ht
  rw [h.locked u i hu] at h₁
  exact hut (some.inj h₁)

/-- The lock of a shard is given up by the thread that has it, which moves on. -/
theorem Inv.unlock {pc : Pc} (ht : (m.pc t).shard? = some i)
    (hnew : pc.shard? = none) : Inv ((m.setHeld i none).setPc t pc) := by
  refine h.move (fun u j hut hj => ?_) (by simp [hnew]) (fun e _ hpc => ?_) fun e key who hpc => ?_
  · have hji : j ≠ i := fun hji => h.shard_ne ht hut (hji ▸ hj)
    exact (update_of_ne hji ..).trans (h.locked u j hj)
  all_goals simp [hpc, Pc.shard?] at hnew

/-- A release finds its entry and keeps the lock of the shard. -/
theorem Inv.startRelease (hfree : m.held key.shard = none) (hlook : m.lookup key = some e) :
    Inv ((m.setHeld key.shard (some t)).setPc t (.release e key who)) := by
  refine h.move (fun u i _ hi => ?_) (fun i hi => ?_) (by simp) fun e' key' who' hpc => ?_
  · have hheld := h.locked u i hi
    grind
  · exact some.inj hi ▸ update_self ..
  · cases hpc
    exact hlook

/-- Dropping records keeps every entry current that still has some. -/
theorem Inv.retain (e : ℕ) (f : LockRecord → Bool) :
    Inv (m.setEntry e ⟨(m.entries e).records.filter f⟩) := by
  grind [setEntry, Exclusive.filter, exclusive, live]

/-- A release that left its entry empty is about to remove it. -/
theorem Inv.toRemove (ht : m.pc t = .release e key who) (hempty : (m.entries e).records = []) :
    Inv (m.setPc t (.remove key)) := by
  refine h.move (fun u i _ => h.locked u i) (fun i hi => h.locked t i (by rw [ht]; exact hi))
    (fun e' hne hpc => ?_) (by simp)
  -- the entry of this file is the empty one
  have hlook := h.releasing t e key who ht
  rw [Pc.remove.inj hpc, (h.live e' hne).1] at hlook
  exact hne (some.inj hlook ▸ hempty)

/-- The removal of an entry: nothing is in it, and no other release is at this file. -/
theorem Inv.removeEntry (ht : m.pc t = .remove key) :
    Inv (((m.setLookup key none).setHeld key.shard none).setPc t (.idle none)) := by
  have hshard : (m.pc t).shard? = some key.shard := by
    rw [ht]
    rfl
  have hidle : (Pc.idle none).shard? = none := rfl
  obtain ⟨hmapped, hex, hlive, hlocked, hrel⟩ := h.unlock hshard hidle
  refine ⟨fun key' e he => ?_, hex, fun e hne => ⟨?_, (hlive e hne).2⟩, hlocked,
    fun u e key' who hu => ?_⟩
  · have he' := (lookup_setLookup m key key').symm.trans he
    split_ifs at he' with hk
    exact h.mapped key' e he'
  · have hk : m.entryKey e ≠ key := by
      intro hk
      exact (h.live e hne).2 t (by rw [ht, hk])
    refine (lookup_setLookup m key (m.entryKey e)).trans ?_
    rw [if_neg hk]
    exact (h.live e hne).1
  · have hut : u ≠ t := by
      rintro rfl
      rw [setPc_pc_self] at hu
      cases hu
    have hu' : m.pc u = .release e key' who := by
      rw [setPc_pc_of_ne _ hut] at hu
      exact hu
    have hk : key' ≠ key := by
      rintro rfl
      exact h.shard_ne hshard hut (by rw [hu']; rfl)
    refine (lookup_setLookup m key key').trans ?_
    rw [if_neg hk]
    exact h.releasing u e key' who hu'

/-- **Every step that meets the condition keeps the invariant.** -/
theorem Inv.step (hcur : m.Current a)
    (hstep : m.step a = some m') : Inv m' := by
  cases step_cases hstep with
  | stay => exact h
  | move wg hnew _ => exact h.setGraph.setPc hnew
  | grant pc hreq _ hnew _ => exact (h.apply (hcur _ _ hreq)).setPc hnew
  | create hnone => exact (h.newEntry hnone).setPc rfl
  | startRelease hfree hlook => exact h.startRelease hfree hlook
  | @drop e key who _ _ hpc heq =>
    have hret := h.retain e who.keeps
    rw [heq]
    dsimp only
    split_ifs with hempty
    · exact hret.toRemove hpc (List.isEmpty_iff.mp hempty)
    · exact hret.unlock (congrArg Pc.shard? hpc) rfl
  | remove hpc => exact h.removeEntry hpc

/-- The locks of a file are those of one entry. -/
theorem Inv.manager_exclusive : m.Exclusive := by
  rintro key o o' ty ty' p ⟨e, he, hold⟩ ⟨e', he', hold'⟩ hne
  have hrec : ∀ {e : ℕ} {o ty}, PosixLock.Holds (m.entries e).records o ty p →
      m.lookup (m.entryKey e) = some e := fun {e o ty} hold =>
    (h.live e fun hnil => by rw [hnil] at hold; exact holds_nil hold).1
  have h₁ := hrec hold
  have h₂ := hrec hold'
  rw [he] at h₁
  rw [he', h₁] at h₂
  rw [← some.inj h₂] at hold'
  exact h.exclusive e o o' ty ty' p hold hold' hne

end

/-- **Record locks exclude each other** in every state of every run whose lock requests are all
applied to the entry that their file has, and keeps, in its shard. -/
theorem exclusive_of_reachable (h : (calls.restrict Current).Reachable m) : m.Exclusive := by
  refine (h.invariant (I := Inv) (fun m hm => ?_) fun m a m' _ hinv hstep => ?_).manager_exclusive
  · rw [show m = initial from hm]
    exact Inv.initial
  · exact hinv.step hstep.1 hstep.2

/-! ## The race -/

/-- A file open for writing. -/
def someFile : File where
  posixLockKey := ⟨1, 7⟩
  openFileId := 3
  readable := .ok ()
  writable := .ok ()
  offset := 0
  size := some 0

/-- A request for a write lock on the whole file. -/
def wholeFile : PosixFlock := ⟨F_WRLCK, 0, I64.ofInt 0, I64.ofInt 0⟩

/-- Thread 0 looks up the entry for process 10, thread 1 closes a descriptor of the file for process
11 and drops the empty entry, thread 0 locks the file, and then thread 2 locks it for process 12. -/
def race : List (ℕ × Act) :=
  [(0, .set someFile (.posix 10 100) wholeFile false),
   (1, .release ⟨1, 7⟩ (.posix 11)), (1, .next), (1, .next),
   (0, .next),
   (2, .set someFile (.posix 12 120) wholeFile false), (2, .next)]

/-- The thread's last `posix_lock_set` returned success. -/
def returnedOk (m : Manager) (t : ℕ) : Bool :=
  match m.pc t with
  | .idle (some (.ok ())) => true
  | _ => false

/-- The write lock on the whole file, for a process. -/
def wholeLock (ownerId : ℕ) (ownerPid : ℤ) : LockRecord :=
  ⟨.posix ownerId ownerPid, ownerPid, .write, I64.ofInt 0, .maxValue⟩

/-- The two requests of the race end in two entries of the one file. -/
theorem race_end : ((race.foldlM step initial).any fun m =>
    returnedOk m 0 && returnedOk m 2 &&
      m.entryKey 0 = ⟨1, 7⟩ && m.entryKey 1 = ⟨1, 7⟩ &&
      (m.entries 0).records = [wholeLock 10 100] &&
      (m.entries 1).records = [wholeLock 12 120]) = true := by
  decide +kernel

/-- **Two processes hold a write lock on the same file.**  Both calls returned success and nothing
was released in between. -/
theorem not_exclusive_of_calls :
    ∃ m, race.foldlM step initial = some m ∧ calls.Reachable m ∧ returnedOk m 0 = true ∧
      returnedOk m 2 = true ∧ ¬ m.Exclusive := by
  obtain ⟨m, hrun, hend⟩ := (any_eq_true _ _).mp race_end
  simp only [Bool.and_eq_true, decide_eq_true_eq] at hend
  obtain ⟨⟨⟨⟨⟨hok, hok'⟩, hkey⟩, hkey'⟩, hrec⟩, hrec'⟩ := hend
  refine ⟨m, hrun, System.reachable_run race (.init rfl) hrun, hok, hok', fun hex => ?_⟩
  -- byte 0 is locked for writing by both
  have hcov : ∀ ownerId ownerPid, (wholeLock ownerId ownerPid).Covers 0 := fun _ _ =>
    ⟨show (I64.ofInt 0).val ≤ 0 by decide, show 0 ≤ I64.maxValue.val by decide⟩
  have h₁ : m.Holds ⟨1, 7⟩ (.posix 10 100) .write 0 :=
    ⟨0, hkey, by rw [hrec]; exact ⟨_, List.mem_singleton_self _, rfl, rfl, hcov 10 100⟩⟩
  have h₂ : m.Holds ⟨1, 7⟩ (.posix 12 120) .write 0 :=
    ⟨1, hkey', by rw [hrec']; exact ⟨_, List.mem_singleton_self _, rfl, rfl, hcov 12 120⟩⟩
  exact absurd (hex _ _ _ _ _ _ h₁ h₂ (by decide)).1 (by decide)

/-! ## A run without it -/

/-- A step moves no other thread. -/
theorem pc_of_step (hstep : m.step a = some m') (hu : u ≠ a.1) : m'.pc u = m.pc u := by
  cases step_cases hstep with
  | stay => rfl
  | drop _ _ heq =>
    rw [heq]
    dsimp only
    split_ifs <;> exact setPc_pc_of_ne _ hu
  | _ => exact setPc_pc_of_ne _ hu

/-- Threads 0, 1 and 2 are the only ones inside a call. -/
def Three (m : Manager) : Prop := ∀ u, 3 ≤ u → (m.pc u).shard? = none

/-- One of the three makes a step, and a request finds the entry of its file with none of them about
to remove it. -/
def threeTest (m : Manager) (a : ℕ × Act) : Bool :=
  decide (a.1 < 3) && (m.request? a).all fun r =>
    decide (m.lookup r.2.key = some r.1) &&
      (List.range 3).all fun u => decide ((m.pc u).shard? ≠ some r.2.key.shard)

theorem Three.step (h : Three m) (htest : m.threeTest a = true) (hstep : m.step a = some m') :
    m.Current a ∧ Three m' := by
  obtain ⟨hlt, hreq⟩ := Bool.and_eq_true_iff.mp htest
  have hlt : a.1 < 3 := of_decide_eq_true hlt
  refine ⟨fun e c he _ => ?_, fun u hu => ?_⟩
  · rw [he, all_some, Bool.and_eq_true_iff, List.all_eq_true] at hreq
    refine ⟨of_decide_eq_true hreq.1, fun u hu => ?_⟩
    have hshard : (m.pc u).shard? = some c.key.shard := by
      rw [hu]
      rfl
    rcases Nat.lt_or_ge u 3 with hlt' | hge
    · exact of_decide_eq_true (hreq.2 u (List.mem_range.mpr hlt')) hshard
    · rw [h u hge] at hshard
      cases hshard
  · rw [pc_of_step hstep (by omega)]
    exact h u hu

/-- Processes 10 and 12 lock the whole file for reading, then process 13 asks for a write lock. -/
def readersFirst : List (ℕ × Act) :=
  let readers := ⟨F_RDLCK, 0, I64.ofInt 0, I64.ofInt 0⟩
  [(0, .set someFile (.posix 10 100) readers false), (0, .next),
   (1, .set someFile (.posix 12 120) readers false), (1, .next),
   (2, .set someFile (.posix 13 130) wholeFile false), (2, .next)]

/-- Both readers have their lock and the writer was refused. -/
def Shared (m : Manager) : Prop :=
  (m.entries 0).records = [{ wholeLock 10 100 with lockType := .read },
    { wholeLock 12 120 with lockType := .read }] ∧
  returnedOk m 0 = true ∧ returnedOk m 1 = true ∧ returnedOk m 2 = false

instance : DecidablePred Shared := fun _ => inferInstanceAs (Decidable (_ ∧ _))

theorem exclusive_readersFirst :
    ∃ m, (calls.restrict Current).Reachable m ∧ Shared m ∧ m.Exclusive := by
  obtain ⟨m, hm, hend⟩ : ∃ m, (calls.restrict Current).Reachable m ∧ Shared m :=
    System.exists_run_of_test (J := Three) (T := threeTest) readersFirst
      (fun _ _ _ h htest hstep => h.step htest hstep) (rfl : initial = initial) (fun _ _ => rfl)
      (by decide +kernel)
  exact ⟨m, hm, hend, exclusive_of_reachable hm⟩

end MangoCore.Fs.PosixLock.Manager
