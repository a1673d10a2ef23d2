import MangoCore.Fs.DentryLookup

/-!
# No lookup yields an inode that the name has lost

An inode gets out of a lookup from the filesystem, or from a cache, and into a cache only by a
call that is about to insert it.  So a name is safe for a version of the filesystem when every
inode that a cache holds for it, and every inode that a call is about to insert for it, was there in
this version or later (`Purged`).

A mutation makes a version, and it purges its names for this version before it returns: by the
invalidation of its own mount's cache.  Nothing purges the caches of the other mounts, and nothing
stops a call that read the old inode under the raised generation.  That there are none when the
filesystem does the operation is the condition (`Guarded`) under which the lookups are right.
-/

namespace MangoCore.Fs.Dentry

open Function State DentryCache Pc Op

/-- The thread is about to put the inode into a cache. -/
def Pc.Inserts (gens : ℕ → ℕ) (k : DentryKey) (x : Inode) : Pc → Prop
  | .found mount key _ gen node => key = k ∧ node = x ∧ gen = gens mount
  | .inserting _ key _ node => key = k ∧ node = x
  | .mutated _ _ _ actions => .insert k x ∈ actions ∨ .findLinked k x ∈ actions
  | _ => False

namespace State

/-- What the caches hold for a name, and what the threads are about to insert, was there in the
version or later; some caches may be spared. -/
def Purged (s : State) (version : ℕ) (k : DentryKey) (spared : ℕ → Prop) : Prop :=
  (∀ mount x, (s.caches mount).node? k = some x → s.HeldSince version k x ∨ spared mount) ∧
    ∀ thread x, (s.pc thread).Inserts s.gens k x → s.HeldSince version k x

end State

/-- What holds of a thread: its inode is recent enough, and a mutation has purged its names up to
the invalidations that are still to come. -/
def Pc.Sound (s : State) : Pc → Prop
  | .missed _ key since => since ≤ s.settled key
  | .direct key since => since ≤ s.settled key
  | .loaded mount key since gen => gen ≤ s.gens mount ∧ since ≤ s.settled key
  | .found mount key since gen node =>
    gen ≤ s.gens mount ∧ since ≤ s.settled key ∧ s.HeldSince since key node
  | .inserting _ key since node => since ≤ s.settled key ∧ s.HeldSince since key node
  | .returned key since node => s.HeldSince since key node
  | .mutated mount keys version actions =>
    version ≤ s.version ∧ ∀ k ∈ keys, s.Purged version k fun m =>
      m = mount ∧ .invalidate k ∈ actions
  | _ => True

structure Fresh (s : State) : Prop where
  settled_le : ∀ k, s.settled k ≤ s.version
  purged : ∀ k, s.Purged (s.settled k) k fun _ => False
  sound : ∀ thread, (s.pc thread).Sound s

variable {s s' : State} {thread v : ℕ} {k : DentryKey} {x : Inode}

theorem State.HeldSince.mono {w : ℕ} (h : s.HeldSince w k x) (hle : v ≤ w) : s.HeldSince v k x := by
  obtain ⟨u, hu, hrest⟩ := h
  exact ⟨u, hle.trans hu, hrest⟩

theorem State.heldSince_of_names (h : s.names k = some x)
    (hle : v ≤ s.version) : s.HeldSince v k x :=
  ⟨s.version, hle, le_rfl, h⟩

@[simp] theorem State.pc_goto {p : Pc} : (s.goto thread p).pc thread = p :=
  update_self ..

/-! ## What a step changes -/

/-- A step of one thread: the versions so far stay, a cache gets what some thread was about to
insert, and a thread is about to insert what it was before or what the name has now. -/
structure Follows (s s' : State) (thread : ℕ) : Prop where
  version : s.version ≤ s'.version
  log : ∀ v, v ≤ s.version → s'.log v = s.log v
  settled : ∀ k, s.settled k ≤ s'.settled k
  gens : ∀ m, s.gens m ≤ s'.gens m
  cached : ∀ m k x, (s'.caches m).node? k = some x →
    (s.caches m).node? k = some x ∨ ∃ t, (s.pc t).Inserts s.gens k x
  inserts : ∀ t k x, (s'.pc t).Inserts s'.gens k x →
    (s.pc t).Inserts s.gens k x ∨ s'.names k = some x
  others : ∀ t, t ≠ thread → s'.pc t = s.pc t

section

variable (h : Follows s s' thread)
include h

theorem Follows.heldSince (hheld : s.HeldSince v k x) : s'.HeldSince v k x := by
  obtain ⟨u, hvu, hu, hlog⟩ := hheld
  refine ⟨u, hvu, hu.trans h.version, ?_⟩
  rwa [h.log u hu]

theorem Follows.purged {spared : ℕ → Prop}
    (hv : v ≤ s.version) (hpurged : s.Purged v k spared) : s'.Purged v k spared := by
  constructor
  · intro m x hx
    rcases h.cached m k x hx with hcached | ⟨t, hinserts⟩
    · exact (hpurged.1 m x hcached).imp_left h.heldSince
    · exact .inl (h.heldSince (hpurged.2 t x hinserts))
  · intro t x hx
    rcases h.inserts t k x hx with hinserts | hnames
    · exact h.heldSince (hpurged.2 t x hinserts)
    · exact heldSince_of_names hnames (hv.trans h.version)

theorem Follows.sound {p : Pc} (hp : p.Sound s) : p.Sound s' := by
  cases p with
  | missed mount key since => exact le_trans hp (h.settled key)
  | direct key since => exact le_trans hp (h.settled key)
  | loaded mount key since gen => exact ⟨hp.1.trans (h.gens mount), hp.2.trans (h.settled key)⟩
  | found mount key since gen node =>
    exact ⟨hp.1.trans (h.gens mount), hp.2.1.trans (h.settled key), h.heldSince hp.2.2⟩
  | inserting mount key since node => exact ⟨hp.1.trans (h.settled key), h.heldSince hp.2⟩
  | returned key since node => exact h.heldSince hp
  | mutated mount keys version actions =>
    exact ⟨hp.1.trans h.version, fun k hk => h.purged hp.1 (hp.2 k hk)⟩
  | _ => trivial

/-- Of the threads, only the one that moved has to be looked at. -/
theorem Follows.sound_all (hs : Fresh s)
    (hown : (s'.pc thread).Sound s') (t : ℕ) : (s'.pc t).Sound s' := by
  rcases eq_or_ne t thread with rfl | ht
  · exact hown
  · rw [h.others t ht]
    exact h.sound (hs.sound t)

end

/-- As long as no mutation returns, the invariant is kept when the new place of the thread is
sound. -/
theorem Fresh.of_follows (h : Fresh s) (hf : Follows s s' thread)
    (hsettled : s'.settled = s.settled) (hown : (s'.pc thread).Sound s') : Fresh s' where
  settled_le k := by
    rw [hsettled]
    exact (h.settled_le k).trans hf.version
  purged k := by
    rw [hsettled]
    exact hf.purged (h.settled_le k) (h.purged k)
  sound := hf.sound_all h hown

variable {p : Pc}

/-- A thread moves and the cache of a mount changes. -/
theorem follows_setCache_goto {mount : ℕ} (cache : DentryCache)
    (hcache : ∀ k x, cache.node? k = some x →
      (s.caches mount).node? k = some x ∨ ∃ t, (s.pc t).Inserts s.gens k x)
    (hp : ∀ k x, p.Inserts s.gens k x → (s.pc thread).Inserts s.gens k x ∨ s.names k = some x) :
    Follows s ((s.setCache mount cache).goto thread p) thread where
  version := le_rfl
  log _ _ := rfl
  settled _ := le_rfl
  gens _ := le_rfl
  cached m k x hx := by
    change (update s.caches mount cache m).node? k = some x at hx
    grind
  inserts t k x hx := by
    change (update s.pc thread p t).Inserts s.gens k x at hx
    by_cases ht : t = thread
    · subst ht
      rw [update_self] at hx
      exact hp k x hx
    · rw [update_of_ne ht] at hx
      exact .inl hx
  others t ht := update_of_ne ht ..

theorem follows_goto (hp : ∀ k x, p.Inserts s.gens k x →
      (s.pc thread).Inserts s.gens k x ∨ s.names k = some x) :
    Follows s (s.goto thread p) thread := by
  have hsame := follows_setCache_goto (s.caches 0) (fun _ _ hx => .inl hx) hp
  rwa [setCache, update_eq_self] at hsame

/-- A thread moves to a place where it inserts nothing. -/
theorem Fresh.goto (h : Fresh s) (hp : ∀ k x, ¬ p.Inserts s.gens k x)
    (hown : p.Sound (s.goto thread p)) : Fresh (s.goto thread p) := by
  grind [of_follows, goto, follows_goto, pc_goto]

/-! ## Lookups -/

variable {noDentryCache : ℕ → Bool} {mount version : ℕ} {key : DentryKey} {keys : List DentryKey}

theorem Fresh.lookup (h : Fresh s) : Fresh (lookup noDentryCache s thread mount key) := by
  rw [Dentry.lookup]
  split_ifs
  · exact h.goto (fun _ _ hx => hx) le_rfl
  · cases hget : (s.caches mount).get key with
    | none => exact h.goto (fun _ _ hx => hx) le_rfl
    | some hit =>
      obtain ⟨node, cache⟩ := hit
      obtain ⟨hnode, hsame⟩ := get_spec hget
      have hf : Follows s ((s.setCache mount cache).goto thread
          (.returned key (s.settled key) node)) thread :=
        follows_setCache_goto cache (fun k x hx => .inl (hsame k ▸ hx)) fun _ _ hx => hx.elim
      refine h.of_follows hf rfl ?_
      rw [pc_goto]
      exact hf.heldSince (((h.purged key).1 mount node hnode).resolve_right id)

theorem Fresh.find (h : Fresh s) (hstep : find s thread = some s') : Fresh s' := by
  have hsound := h.sound thread
  rw [Dentry.find] at hstep
  split at hstep
  · -- The lookup that is going to insert takes the inode that the name has now.
    rename_i mount key since gen hpc
    rw [hpc] at hsound
    cases hnames : s.names key with
    | none =>
      rw [hnames] at hstep
      cases hstep
      exact h.goto (fun _ _ hx => hx) trivial
    | some node =>
      rw [hnames] at hstep
      cases hstep
      have hf : Follows s (s.goto thread (.found mount key since gen node)) thread := by
        grind [follows_goto, Inserts]
      refine h.of_follows hf rfl ?_
      rw [pc_goto]
      exact ⟨hsound.1, hsound.2, hf.heldSince
        (heldSince_of_names hnames (hsound.2.trans (h.settled_le key)))⟩
  · rename_i key since hpc
    rw [hpc] at hsound
    cases hnames : s.names key with
    | none =>
      rw [hnames] at hstep
      cases hstep
      exact h.goto (fun _ _ hx => hx) trivial
    | some node =>
      rw [hnames] at hstep
      cases hstep
      exact h.goto (fun _ _ hx => hx)
        (heldSince_of_names hnames (le_trans hsound (h.settled_le key)))
  · cases hstep

theorem Fresh.testGen (h : Fresh s) (hstep : testGen s thread = some s') : Fresh s' := by
  have hsound := h.sound thread
  rw [Dentry.testGen] at hstep
  split at hstep
  · rename_i mount key since gen node hpc
    rw [hpc] at hsound
    obtain ⟨-, hsince, hheld⟩ := hsound
    split_ifs at hstep
    · cases hstep
      have hf : Follows s (s.goto thread (.inserting mount key since node)) thread := by
        grind [follows_goto, Inserts]
      refine h.of_follows hf rfl ?_
      rw [pc_goto]
      exact ⟨hsince, hf.heldSince hheld⟩
    · cases hstep
      exact h.goto (fun _ _ hx => hx) hheld
  · cases hstep

/-- Inserting what a thread was about to insert. -/
theorem insertOrGet_cached {node : Inode} (hinserts : (s.pc thread).Inserts s.gens key node)
    (k : DentryKey) (x : Inode) (hx : ((s.caches mount).insertOrGet key node).2.node? k = some x) :
    (s.caches mount).node? k = some x ∨ ∃ t, (s.pc t).Inserts s.gens k x := by
  rcases ((s.caches mount).insertOrGet_spec).2 k x hx with hcached | ⟨rfl, rfl⟩
  · exact .inl hcached
  · exact .inr ⟨thread, hinserts⟩

theorem Fresh.insert (h : Fresh s) (hstep : insert s thread = some s') : Fresh s' := by
  have hsound := h.sound thread
  rw [Dentry.insert] at hstep
  split at hstep
  · rename_i mount key since node hpc
    rw [hpc] at hsound
    cases hstep
    have hinserts : (s.pc thread).Inserts s.gens key node := by
      rw [hpc]
      exact ⟨rfl, rfl⟩
    have hf : Follows s ((s.setCache mount ((s.caches mount).insertOrGet key node).2).goto thread
        (.returned key since ((s.caches mount).insertOrGet key node).1)) thread :=
      follows_setCache_goto _ (insertOrGet_cached hinserts) fun _ _ hx => hx.elim
    refine h.of_follows hf rfl ?_
    rw [pc_goto]
    refine hf.heldSince ?_
    -- The cache may hold another inode than the one that was found.
    rcases ((s.caches mount).insertOrGet_spec).1 with hcached | hnew
    · exact (((h.purged key).1 mount _ hcached).resolve_right id).mono hsound.1
    · rw [hnew]
      exact hsound.2
  · cases hstep

/-! ## Mutations -/

/-- A raised generation stops the lookups that read an earlier one. -/
theorem Fresh.mutate (h : Fresh s) (op : Op) :
    Fresh ((s.raiseGen mount).goto thread (.mutating mount op none)) := by
  have hf : Follows s ((s.raiseGen mount).goto thread (.mutating mount op none)) thread :=
    { version := le_rfl
      log := fun _ _ => rfl
      settled := fun _ => le_rfl
      gens := fun m => by
        change s.gens m ≤ update s.gens mount (s.gens mount + 1) m
        by_cases hm : m = mount
        · simp [hm]
        · rw [update_of_ne hm]
      cached := fun _ _ _ hx => .inl hx
      inserts := fun t k x hx => by
        change (update s.pc thread _ t).Inserts (update s.gens mount (s.gens mount + 1)) k x at hx
        by_cases ht : t = thread
        · rw [ht, update_self] at hx
          exact hx.elim
        rw [update_of_ne ht] at hx
        have hsound := h.sound t
        cases hpc : s.pc t with
        | found m key since gen node => grind [Inserts, Sound]
        | _ =>
          rw [hpc] at hx
          exact .inl hx
      others := fun t ht => update_of_ne ht _ _ }
  refine h.of_follows hf rfl ?_
  rw [pc_goto]
  trivial

/-- What a call inserts is the inode that it has put under the name. -/
theorem names_of_mem_cacheActions {op : Op} {names names' : Names}
    (happly : op.apply names = some names') {noCache parentOk newParentOk : Bool} {child : Option ℕ}
    (hmem : .insert k x ∈ op.cacheActions noCache parentOk newParentOk child ∨
      .findLinked k x ∈ op.cacheActions noCache parentOk newParentOk child) :
    names' k = some x := by
  have added : ∀ key node, addName names key node = some names' →
      names' key = some node := by
    intro key node hadd
    rw [addName] at hadd
    split at hadd <;> cases hadd
    · exact update_self ..
  cases op with
  | create key node => grind [cacheActions.eq_1, apply]
  | link key other => grind [cacheActions.eq_2, apply]
  | rmdir key => simp_all [cacheActions]
  | _ =>
    rw [cacheActions] at hmem
    split_ifs at hmem <;> simp at hmem

/-- The condition.  When the filesystem changes names, no cache holds another inode for them,
except the cache of the call's own mount when the call is going to invalidate the name, and no
other call is about to insert another inode. -/
def Guarded (noDentryCache : ℕ → Bool) (s : State) : Event → Prop
  | .backend thread parentOk newParentOk =>
    match s.pc thread with
    | .mutating mount op child =>
      ∀ names, op.apply s.names = some names → ∀ k ∈ op.keys,
        (∀ m x, (s.caches m).node? k = some x → names k = some x ∨ m = mount ∧
          .invalidate k ∈
            op.cacheActions (noDentryCache mount) parentOk newParentOk child) ∧
        ∀ t x, (s.pc t).Inserts s.gens k x → names k = some x
    | _ => True
  | _ => True

theorem Fresh.backend (h : Fresh s) {parentOk newParentOk : Bool}
    (hguard : Guarded noDentryCache s (.backend thread parentOk newParentOk))
    (hstep : backend noDentryCache s thread parentOk newParentOk = some s') : Fresh s' := by
  rw [Dentry.backend] at hstep
  split at hstep
  · rename_i mount op child hpc
    rw [Guarded, hpc] at hguard
    cases happly : op.apply s.names with
    | none =>
      rw [happly] at hstep
      cases hstep
      exact h.goto (fun _ _ hx => hx) trivial
    | some names =>
      rw [happly] at hstep
      cases hstep
      have hnow : ((s.advance names).goto thread (.mutated mount op.keys (s.version + 1)
          (op.cacheActions (noDentryCache mount) parentOk newParentOk child))).names = names :=
        update_self _ _ _
      have hinserts : ∀ t k x, (update s.pc thread (.mutated mount op.keys (s.version + 1)
            (op.cacheActions (noDentryCache mount) parentOk newParentOk child)) t).Inserts
              s.gens k x →
          (s.pc t).Inserts s.gens k x ∨ names k = some x := by
        intro t k x hx
        by_cases ht : t = thread
        · grind [Inserts, names_of_mem_cacheActions]
        · rw [update_of_ne ht] at hx
          exact .inl hx
      have hf : Follows s ((s.advance names).goto thread (.mutated mount op.keys (s.version + 1)
          (op.cacheActions (noDentryCache mount) parentOk newParentOk child))) thread :=
        { version := Nat.le_succ _
          log := fun v hv => update_of_ne (by omega) _ _
          settled := fun _ => le_rfl
          gens := fun _ => le_rfl
          cached := fun _ _ _ hx => .inl hx
          inserts := fun t k x hx => hnow.symm ▸ hinserts t k x hx
          others := fun t ht => update_of_ne ht _ _ }
      refine h.of_follows hf rfl ?_
      rw [pc_goto]
      refine ⟨le_rfl, fun k hk => ?_⟩
      obtain ⟨hcached, hothers⟩ := hguard names happly k hk
      have held : ∀ x, names k = some x → HeldSince _ (s.version + 1) k x :=
        fun x hx => heldSince_of_names (hnow.symm ▸ hx) le_rfl
      constructor
      · intro m x hx
        exact (hcached m x hx).imp_left (held x)
      · intro t x hx
        exact held x ((hinserts t k x hx).elim (hothers t x) id)
  · cases hstep

/-- A section that inserts nothing new and only the head of the list is done.  The names stay
purged if an invalidation of the head has happened. -/
theorem Follows.sound_rest (hf : Follows s s' thread)
    {action : CacheAction} {rest : List CacheAction}
    (hsound : (mutated mount keys version (action :: rest)).Sound s)
    (hdone : ∀ k, action = .invalidate k → (s'.caches mount).node? k = none) :
    (mutated mount keys version rest).Sound s' := by
  refine ⟨hsound.1.trans hf.version, fun k hk => ?_⟩
  obtain ⟨hcached, hinserts⟩ := hf.purged hsound.1 (hsound.2 k hk)
  refine ⟨fun m x hx => ?_, hinserts⟩
  grind

theorem Fresh.act (h : Fresh s) {findOk : Bool} (hstep : act s thread findOk = some s') :
    Fresh s' := by
  have hsound := h.sound thread
  rw [Dentry.act] at hstep
  split at hstep
  · rename_i mount keys version action rest hpc
    rw [hpc] at hsound
    -- The rest of the list inserts nothing that the whole list did not.
    have hrest : ∀ k x, (mutated mount keys version rest).Inserts s.gens k x →
        (s.pc thread).Inserts s.gens k x ∨ s.names k = some x := by
      intro k x hx
      rw [hpc]
      exact .inl (hx.imp (List.mem_cons_of_mem _) (List.mem_cons_of_mem _))
    cases action with
    | invalidate key =>
      cases hstep
      have hf := follows_setCache_goto ((s.caches mount).invalidate key)
        (fun k x hx => by
          rw [node?_invalidate] at hx
          split_ifs at hx
          exact .inl hx) hrest
      refine h.of_follows hf rfl ?_
      rw [pc_goto]
      refine hf.sound_rest hsound fun k hk => ?_
      cases hk
      change (update s.caches mount _ mount).node? key = none
      rw [update_self, node?_invalidate, if_pos rfl]
    | clearParent ino =>
      cases hstep
      have hf := follows_setCache_goto ((s.caches mount).clearParent ino)
        (fun k x hx => .inl (node?_of_clearParent hx)) hrest
      refine h.of_follows hf rfl ?_
      rw [pc_goto]
      exact hf.sound_rest hsound fun k hk => by cases hk
    | insert key node =>
      cases hstep
      have hinserts : (s.pc thread).Inserts s.gens key node := by
        rw [hpc]
        exact .inl List.mem_cons_self
      have hf := follows_setCache_goto ((s.caches mount).insertOrGet key node).2
        (insertOrGet_cached hinserts) hrest
      refine h.of_follows hf rfl ?_
      rw [pc_goto]
      exact hf.sound_rest hsound fun k hk => by cases hk
    | findLinked key other =>
      cases hstep
      have hnode : ∀ x, x = (if findOk then (s.names key).getD other else other) →
          x = other ∨ s.names key = some x := by
        rintro x rfl
        split_ifs
        · cases s.names key with
          | none => exact .inl rfl
          | some y => exact .inr rfl
        · exact .inl rfl
      have hf : Follows s (s.goto thread (.mutated mount keys version (.insert key
          (if findOk then (s.names key).getD other else other) :: rest))) thread := by
        refine follows_goto fun k x hx => ?_
        rcases hx with hx | hx
        · grind [Inserts]
        · exact hrest k x (.inr ((List.mem_cons.mp hx).resolve_left (by simp)))
      refine h.of_follows hf rfl ?_
      rw [pc_goto]
      obtain ⟨hversion, hpurged⟩ := hf.sound_rest hsound fun k hk => by cases hk
      refine ⟨hversion, fun k hk => ⟨fun m x hx => ?_, (hpurged k hk).2⟩⟩
      exact ((hpurged k hk).1 m x hx).imp_right fun hm => ⟨hm.1, List.mem_cons_of_mem _ hm.2⟩
  · cases hstep

/-- The mutation returns: its names are purged for its version. -/
theorem Fresh.settle (h : Fresh s) (hpc : s.pc thread = .mutated mount keys version []) :
    Fresh ((s.settle keys version).goto thread .idle) := by
  have hsound := h.sound thread
  rw [hpc] at hsound
  obtain ⟨hversion, hpurged⟩ := hsound
  have hf : Follows s ((s.settle keys version).goto thread .idle) thread :=
    { version := le_rfl
      log := fun _ _ => rfl
      settled := fun k => by
        change s.settled k ≤ if k ∈ keys then max (s.settled k) version else s.settled k
        split_ifs
        · exact le_max_left ..
        · exact le_rfl
      gens := fun _ => le_rfl
      cached := fun _ _ _ hx => .inl hx
      inserts := fun t k x hx => by
        change (update s.pc thread .idle t).Inserts s.gens k x at hx
        by_cases ht : t = thread
        · rw [ht, update_self] at hx
          exact hx.elim
        · rw [update_of_ne ht] at hx
          exact .inl hx
      others := fun t ht => update_of_ne ht _ _ }
  refine ⟨fun k => ?_, fun k => ?_, hf.sound_all h ?_⟩
  · grind [State.goto, State.settle, settled_le]
  · change State.Purged _ (if k ∈ keys then max (s.settled k) version else s.settled k) k _
    have hbefore := hf.purged (h.settled_le k) (h.purged k)
    grind [hf.purged]
  · rw [pc_goto]
    trivial

/-! ## Runs -/

theorem Fresh.step (h : Fresh s) {e : Event} (hguard : Guarded noDentryCache s e)
    (hstep : step noDentryCache s e = some s') : Fresh s' := by
  cases e with
  | lookup thread mount key => grind [Dentry.step, h.lookup]
  | loadGen thread =>
    rw [Dentry.step] at hstep
    split at hstep
    · rename_i mount key since hpc
      cases hstep
      have hsound := h.sound thread
      rw [hpc] at hsound
      exact h.goto (fun _ _ hx => hx) ⟨le_rfl, hsound⟩
    · cases hstep
  | find thread => exact h.find hstep
  | testGen thread => exact h.testGen hstep
  | insert thread => exact h.insert hstep
  | mutate thread mount op => grind [Dentry.step, h.mutate]
  | inspect thread =>
    rw [Dentry.step, Dentry.inspect] at hstep
    split at hstep
    · cases hstep
      exact h.goto (fun _ _ hx => hx) trivial
    · cases hstep
  | backend thread parentOk newParentOk => exact h.backend hguard hstep
  | act thread findOk => exact h.act hstep
  | finish thread =>
    rw [Dentry.step, Dentry.finish] at hstep
    split at hstep
    · cases hstep
      exact h.goto (fun _ _ hx => hx) trivial
    · grind [h.settle]
    · cases hstep
  | abort thread =>
    rw [Dentry.step, Dentry.abort] at hstep
    split at hstep
    · cases hstep
      exact h.goto (fun _ _ hx => hx) trivial
    · cases hstep
      exact h.goto (fun _ _ hx => hx) trivial
    · cases hstep
      exact h.goto (fun _ _ hx => hx) trivial
    · cases hstep

theorem Start.fresh (h : Start s) : Fresh s := by
  obtain ⟨hversion, hcaches, hsettled, hpc⟩ := h
  refine ⟨fun k => by rw [hsettled k]; exact Nat.zero_le _, fun k => ⟨fun m x hx => ?_,
    fun t x hx => ?_⟩, fun t => ?_⟩
  · rw [hcaches m] at hx
    cases hx
  · rw [hpc t] at hx
    exact hx.elim
  · rw [hpc t]
    trivial

/-- **Lookups yield no lost inode.**  In every run in which the filesystem changes a name only while
no other cache holds it and no call is about to cache it, every lookup yields an inode that the name
had after the last mutation of it that had returned when the lookup started. -/
theorem lookups_of_reachable
    (hs : ((system noDentryCache).restrict (Guarded noDentryCache)).Reachable s) (thread : ℕ)
    (key : DentryKey) (since : ℕ) (node : Inode)
    (hpc : s.pc thread = .returned key since node) : s.HeldSince since key node := by
  have hfresh : Fresh s := by
    refine System.Reachable.invariant (fun u hstart => ?_) (fun u e u' _ h hstep => ?_) hs
    · exact Start.fresh hstart
    · exact h.step hstep.1 hstep.2
  have hsound := hfresh.sound thread
  rwa [hpc] at hsound

/-- A filesystem with one mounted directory and the given inode under its only name. -/
def oneName (key : DentryKey) (node : Option Inode) : State where
  version := 0
  log _ := update (fun _ => none) key node
  caches _ := new
  gens _ := 0
  settled _ := 0
  pc _ := .idle

theorem start_oneName {node : Option Inode} : Start (oneName key node) :=
  ⟨rfl, fun _ => rfl, fun _ => rfl, fun _ => rfl⟩

/-- The condition is met by a creation while nothing is cached; the lookup then yields the new
inode. -/
theorem lookups_createFirst :
    ∃ s, ((system fun _ => false).restrict (Guarded fun _ => false)).Reachable s ∧
      s.pc 0 = .returned ⟨2, "f"⟩ 1 ⟨7, 0⟩ ∧ s.HeldSince 1 ⟨2, "f"⟩ ⟨7, 0⟩ := by
  let before : State := ((oneName ⟨2, "f"⟩ none).raiseGen 1).goto 0
    (.mutating 1 (.create ⟨2, "f"⟩ ⟨7, 0⟩) none)
  have hbefore : ((system fun _ => false).restrict (Guarded fun _ => false)).Reachable before :=
    .step (a := .mutate 0 1 (.create ⟨2, "f"⟩ ⟨7, 0⟩)) (.init start_oneName) ⟨trivial, rfl⟩
  have hguard : Guarded (fun _ => false) before (.backend 0 true true) := by
    intro names _ k _
    refine ⟨fun m x hx => (nomatch (hx : none = some x)), fun t x hx => ?_⟩
    change (Function.update (fun _ => idle) 0 _ t).Inserts before.gens k x at hx
    by_cases ht : t = 0
    · rw [ht, Function.update_self] at hx
      exact hx.elim
    · rw [Function.update_of_ne ht] at hx
      exact hx.elim
  have hrun : ∃ s, ((system fun _ => false).restrict (Guarded fun _ => false)).Reachable s ∧
      s.pc 0 = .returned ⟨2, "f"⟩ 1 ⟨7, 0⟩ :=
    ⟨_, System.reachable_run_of_forall [.act 0 true, .finish 0, .lookup 0 1 ⟨2, "f"⟩]
      (by simp [Guarded]) (.step hbefore ⟨hguard, rfl⟩) rfl, rfl⟩
  obtain ⟨s, hs, hpc⟩ := hrun
  exact ⟨s, hs, hpc, lookups_of_reachable hs 0 _ _ _ hpc⟩

instance (s : State) (v : ℕ) (k : DentryKey) (x : Inode) : Decidable (s.HeldSince v k x) :=
  decidable_of_iff (∃ u, u < s.version + 1 ∧ v ≤ u ∧ s.log u k = some x) <| by
    constructor
    · rintro ⟨u, hu, hv, hlog⟩
      exact ⟨u, hv, Nat.le_of_lt_succ hu, hlog⟩
    · rintro ⟨u, hv, hu, hlog⟩
      exact ⟨u, Nat.lt_succ_of_le hu, hv, hlog⟩

/-- The lookup of the thread yields an inode that the name has lost. -/
def Pc.yieldsLost (s : State) : Pc → Bool
  | .returned key since node => !decide (s.HeldSince since key node)
  | _ => false

/-- Two mounts of one filesystem: a lookup through the first caches the inode, `unlink` through the
second returns, and the next lookup through the first still yields the inode. -/
theorem bind_mount_yields_unlinked :
    ∃ s, (system fun _ => false).Reachable s ∧ ∃ thread key since node,
      s.pc thread = .returned key since node ∧ ¬ s.HeldSince since key node := by
  let key : DentryKey := ⟨2, "f"⟩
  let events : List Event :=
    [.lookup 0 1 key, .loadGen 0, .find 0, .testGen 0, .insert 0, .finish 0,
      .mutate 0 2 (.unlink key), .backend 0 true true, .act 0 true, .finish 0, .lookup 0 1 key]
  have hrun : ((events.foldlM (step fun _ => false) (oneName key (some ⟨7, 0⟩))).any
      fun s => (s.pc 0).yieldsLost s) = true := by
    decide
  obtain ⟨s, hs, hlost⟩ := (Option.any_eq_true _ _).mp hrun
  refine ⟨s, System.reachable_run events (.init start_oneName) hs, 0, ?_⟩
  cases hpc : s.pc 0 with
  | returned key since node =>
      rw [hpc] at hlost
      exact ⟨key, since, node, rfl, by simpa [yieldsLost] using hlost⟩
  | _ =>
      rw [hpc] at hlost
      cases hlost

-- One mount is enough when the lookup reads the generation after the call has raised it and finds
-- the name before the filesystem has removed it.
example :
    (([.mutate 0 1 (.unlink ⟨2, "f"⟩), .lookup 1 1 ⟨2, "f"⟩, .loadGen 1, .find 1, .testGen 1,
        .backend 0 true true, .act 0 true, .finish 0, .insert 1, .finish 1,
        .lookup 1 1 ⟨2, "f"⟩] : List Event).foldlM (step fun _ => false)
          (oneName ⟨2, "f"⟩ (some ⟨7, 0⟩))).any (fun s => (s.pc 1).yieldsLost s) = true := by
  decide
end MangoCore.Fs.Dentry
