import MangoCore.Task.ReapingLists

/-!
# Every process has a living parent

A process that is not reaped is in the list of the process that it records as its parent, and this
one is not a zombie, or has not taken its children yet.  A child that is handed over records the
reaper before it is appended to the reaper's list.

Two sections put a child into a list without looking whether its owner is a zombie: the append of
the handed over children, and the publication of a clone with `CLONE_PARENT`.  And `detach_child`
removes every child with the pid.  The condition (`Guarded`) is about these three.
-/

namespace MangoCore.Task.Reaping

open Function State List Exit Option

/-- The exiting process has not taken its children yet. -/
def Exit.keepsChildren : Exit → Bool
  | .marked => true
  | .snapshot _ _ => true
  | _ => false

/-- The children that have their new parent. -/
def Exit.moved : Exit → List ℕ
  | .adopting _ _ _ moved _ _ => moved
  | .marking _ _ _ moved c _ => moved ++ [c]
  | _ => []

/-- The new parent. -/
def Exit.reaper : Exit → Option ℕ
  | .adopting _ _ reaper _ _ _ | .marking _ _ reaper _ _ _ => some reaper
  | _ => none

/-- The parent that is to be told, and whether it asked for auto-reap. -/
def Exit.notified : Exit → Option (ℕ × Bool)
  | .notifying (some g) autoReap => some (g, autoReap)
  | _ => none

/-- The invariant of the parents. -/
structure Rooted (s : State) : Prop where
  located : ∀ c, s.published c = true → s.reaped c = false → c ≠ initProc →
    (∃ pl, c ∈ s.contents pl) ∨ s.exit c = .detached
  listed : ∀ q c, c ∈ s.children q → s.reaped c = false →
    s.parent c = some q ∧ (s.zombie q = true → (s.exit q).keepsChildren = true)
  moved : ∀ g c, c ∈ (s.exit g).moved → s.reaped c = false → s.parent c = (s.exit g).reaper
  clone : ∀ c k, s.clone c = some k → k.cloneParent = false → s.parent c = some k.caller
  unborn : ∀ c, s.published c = false → s.zombie c = false
  alive : ∀ c, s.zombie c = false → s.exit c = .running

/-- The condition: a clone is published to a process that is not a zombie, children are appended to
a reaper that is not a zombie, and a process that removes itself from the list of its parent has
there no sibling with its pid. -/
def Guarded (s : State) : Event → Prop
  | .publish child => ∀ k ∈ s.clone child, ∃ q ∈ s.publishTarget child k, s.zombie q = false
  | .append p => ∀ r ∈ (s.exit p).reaper, s.zombie r = false
  | .notify p ignoresSigchld => ∀ x ∈ (s.exit p).notified,
      s.autoReaps p x.2 ignoresSigchld = true → ∀ c ∈ s.children x.1, s.pid c = s.pid p → c = p
  | _ => True

variable {s s' : State} {p : ℕ} {c : ℕ} {l : List ℕ} {q child : ℕ} {e e' : Exit}

theorem Exit.moved_subset_transit (e : Exit) : e.moved ⊆ e.transit := by
  cases e with
  | adopting parent autoReap reaper moved tested rest => exact subset_append_left ..
  | marking parent autoReap reaper moved c rest =>
    exact (((nil_sublist rest).cons_cons c).append_left moved).subset
  | _ => exact nil_subset _

/-! ## One exiting process -/

section

variable (h : Rooted s)
include h

/-- **The frame rule of `finish_exit`.**  The zombie `p` goes on to `e`, and the list of `q` becomes
`l`: who was in a list or in transit is still there, unless it is reaped. -/
theorem Rooted.advance (hpub : s.published p = true)
    (hlocated : ∀ pl c, c ∈ s.contents pl → s.reaped c = false →
      ∃ pl', c ∈ ((s.setChildren q l).setExit p e).contents pl')
    (hdetached : s.exit p = .detached → s.reaped p = true)
    (hlisted : ∀ r c, c ∈ update s.children q l r → s.reaped c = false → s.parent c = some r ∧
      (s.zombie r = true ∨ r = p → (update s.exit p e r).keepsChildren = true))
    (hmoved : ∀ c ∈ e.moved, s.reaped c = false → s.parent c = e.reaper) :
    Rooted (({ s with zombie := update s.zombie p true }.setChildren q l).setExit p e) where
  located c hc hreaped hne := by
    rcases h.located c hc hreaped hne with ⟨pl, hpl⟩ | hgone
    · exact .inl (hlocated pl c hpl hreaped)
    · refine .inr ((update_of_ne ?_ ..).trans hgone)
      rintro rfl
      exact Bool.noConfusion (hreaped.symm.trans (hdetached hgone))
  listed r c hc hreaped := by
    obtain ⟨hparent, hkeeps⟩ := hlisted r c hc hreaped
    refine ⟨hparent, fun hz => hkeeps ?_⟩
    change update s.zombie p true r = true at hz
    grind
  moved g c hc hreaped := by
    change c ∈ (update s.exit p e g).moved at hc
    change s.parent c = (update s.exit p e g).reaper
    by_cases hg : g = p
    · rw [hg, update_self] at hc ⊢
      exact hmoved c hc hreaped
    · rw [update_of_ne hg] at hc ⊢
      exact h.moved g c hc hreaped
  clone := h.clone
  unborn c hc := by
    refine (update_of_ne ?_ ..).trans (h.unborn c hc)
    rintro rfl
    exact Bool.noConfusion (hc.symm.trans hpub)
  alive c hc := by
    change update s.zombie p true c = false at hc
    change update s.exit p e c = .running
    grind [h.alive]

/-- The exiting process is a zombie. -/
theorem Rooted.zombie_of_exit (hrun : s.exit p ≠ .running) :
    s.published p = true ∧ s.zombie p = true := by
  have hzombie : s.zombie p = true := by grind [h.alive]
  exact ⟨by grind [h.unborn], hzombie⟩

/-- What changes when a process goes on in `finish_exit`. -/
theorem Rooted.setExit (hexit : s.exit p = e) (hrun : e ≠ .running)
    (hdetached : e = .detached → s.reaped p = true)
    (htransit : e.transit = [] ∨ ∀ c ∈ e.transit, s.reaped c = false → c ∈ e'.transit)
    (hkeeps : e.keepsChildren = false ∨ e'.keepsChildren = true)
    (hmoved : e'.moved = [] ∨ ∀ c ∈ e'.moved, s.reaped c = false → s.parent c = e'.reaper) :
    Rooted (s.setExit p e') := by
  subst hexit
  obtain ⟨hpub, hzombie⟩ := h.zombie_of_exit hrun
  have hself : s.setChildren p (s.children p) = s := by
    rw [setChildren, update_eq_self]
  have hgo := h.advance (q := p) (l := s.children p) (e := e') hpub (fun pl c hc hreaped => ?_)
    hdetached (fun r c hc hreaped => ?_) (by grind)
  · rw [← hzombie, update_eq_self, hself] at hgo
    exact hgo
  · rw [hself, contents_setExit]
    refine ⟨pl, ?_⟩
    by_cases hpl : pl = .transit p
    · subst hpl
      rw [update_self]
      change c ∈ (s.exit p).transit at hc
      grind
    · rwa [update_of_ne hpl]
  · rw [update_eq_self] at hc
    grind [h.listed]

/-- A process that is in no list of living children gets another parent, or is reaped.  Its entry
may stay in a list. -/
theorem Rooted.reparent {parent : Option ℕ} {reaped : ℕ → Bool}
    (hreaped : ∀ d, reaped d = false → s.reaped d = false) (hclone : s.clone c = none)
    (hc : reaped c = false → ∀ q, c ∉ s.children q ∧ c ∉ (s.exit q).moved) :
    Rooted { s.setParent c parent with reaped := reaped } where
  located d hd hr hne := h.located d hd (hreaped d hr) hne
  listed q d hd hr := by
    refine ⟨(update_of_ne ?_ ..).trans (h.listed q d hd (hreaped d hr)).1,
      (h.listed q d hd (hreaped d hr)).2⟩
    rintro rfl
    exact (hc hr q).1 hd
  moved g d hd hr := by
    refine (update_of_ne ?_ ..).trans (h.moved g d hd (hreaped d hr))
    rintro rfl
    exact (hc hr g).2 hd
  clone d k hk hk' := by
    refine (update_of_ne ?_ ..).trans (h.clone d k hk hk')
    rintro rfl
    cases hclone.symm.trans hk
  unborn := h.unborn
  alive := h.alive

end

/-- A published process is no clone any more. -/
theorem Tidy.clone_eq_none (ht : Tidy s) (hpub : s.published c = true) : s.clone c = none := by
  by_contra hne
  obtain ⟨k, hk⟩ := ne_none_iff_exists'.mp hne
  exact Bool.noConfusion (hpub.symm.trans (ht.clone c k hk).1)

theorem Rooted.reap (h : Rooted s) (hpub : s.published c = true) (ht : Tidy s) :
    Rooted (s.reap c) :=
  h.reparent (by grind) (ht.clone_eq_none hpub) (by simp)

/-- A child in transit gets a new parent. -/
theorem Rooted.setParent (h : Rooted s) (ht : Tidy s) {g : ℕ} {parent : Option ℕ}
    (hc : c ∈ (s.exit g).transit) (hout : c ∉ (s.exit g).moved) :
    Rooted (s.setParent c parent) := by
  refine h.reparent (fun _ => id) (ht.clone_eq_none (ht.known (.transit g) c hc)) fun _ q => ?_
  refine ⟨fun hq => Place.noConfusion (ht.placed.2 (.list q) (.transit g) c hq hc), fun hq => ?_⟩
  cases ht.placed.2 (.transit q) (.transit g) c ((s.exit q).moved_subset_transit hq) hc
  exact hout hq

/-- Children that are reaped, or that have detached themselves, leave a list. -/
theorem Rooted.setChildren (h : Rooted s) (hsub : l ⊆ s.children p)
    (hkeep : ∀ c ∈ s.children p, c ∈ l ∨ s.reaped c = true ∨ s.exit c = .detached) :
    Rooted (s.setChildren p l) where
  located c hpub hreaped hne := by
    rcases h.located c hpub hreaped hne with ⟨pl, hc⟩ | hexit
    · by_cases hpl : pl = .list p
      · subst hpl
        rcases hkeep c hc with hin | hdone | hexit
        · refine .inl ⟨.list p, ?_⟩
          rw [contents_setChildren, update_self]
          exact hin
        · grind [setChildren]
        · exact .inr hexit
      · refine .inl ⟨pl, ?_⟩
        rwa [contents_setChildren, update_of_ne hpl]
    · exact .inr hexit
  listed q c hc hreaped := by
    change c ∈ update s.children p l q at hc
    by_cases hq : q = p
    · subst hq
      rw [update_self] at hc
      exact h.listed q c (hsub hc) hreaped
    · rw [update_of_ne hq] at hc
      exact h.listed q c hc hreaped
  moved := h.moved
  clone := h.clone
  unborn := h.unborn
  alive := h.alive

/-- The children of one place move to another. -/
theorem mem_transfer {c : Place → List ℕ} {i j : Place} {a : ℕ} {pl : Place} (ha : a ∈ c pl) :
    ∃ pl', a ∈ update (update c i []) j (c j ++ c i) pl' := by
  by_cases hj : pl = j
  · refine ⟨j, ?_⟩
    rw [update_self]
    exact mem_append_left _ (hj ▸ ha)
  · by_cases hi : pl = i
    · refine ⟨j, ?_⟩
      rw [update_self]
      exact mem_append_right _ (hi ▸ ha)
    · refine ⟨pl, ?_⟩
      rwa [update_of_ne hj, update_of_ne hi]

/-! ## The steps -/

theorem Rooted.fork (h : Rooted s) (ht : Tidy s) (pid : ℕ) (cloneParent : Bool) :
    Rooted (s.fork p pid cloneParent) := by
  -- The new process is in no place, so nobody's parent that matters changes.
  have hne : ∀ c, s.published c = true → c ≠ s.nextRef := by grind [ht.fresh]
  refine ⟨h.located, fun q c hc hreaped => ?_, fun g c hc hreaped => ?_, fun c k hk hclone => ?_,
    h.unborn, h.alive⟩
  · change update s.parent s.nextRef _ c = some q ∧ _
    rw [update_of_ne (hne c (ht.known (.list q) c hc))]
    exact h.listed q c hc hreaped
  · change update s.parent s.nextRef _ c = (s.exit g).reaper
    rw [update_of_ne (hne c (ht.known (.transit g) c ((s.exit g).moved_subset_transit hc)))]
    exact h.moved g c hc hreaped
  · change update s.clone s.nextRef _ c = some k at hk
    change update s.parent s.nextRef _ c = some k.caller
    by_cases hc : c = s.nextRef
    · grind
    · rw [update_of_ne hc] at hk ⊢
      exact h.clone c k hk hclone

theorem upgrade_eq_some {r : Option ℕ} (hr : s.upgrade r = some q) : r = some q := by
  rw [upgrade, filter_eq_some_iff] at hr
  exact hr.1

section

variable {parent : Option ℕ} {autoReap reserveOk : Bool} (h : Rooted s) {reaper : ℕ} {k : Clone}
include h

/-- The published child records the process whose list it is in. -/
theorem Rooted.parent_of_publishTarget
    (hk : s.clone child = some k) (htarget : s.publishTarget child k = some q) :
    s.parent child = some q := by
  grind [publishTarget, upgrade_eq_some, h.clone]

theorem Rooted.publish (hk : s.clone child = some k) (hguard : Guarded s (.publish child)) :
    Rooted (s.publish child k) := by
  obtain ⟨q, htarget, hliving⟩ := hguard k hk
  have hparent := h.parent_of_publishTarget hk htarget
  rw [State.publish, htarget]
  refine ⟨fun c hpub hreaped hne => ?_, fun r c hc hreaped => ?_, h.moved, fun c k' hk' => ?_,
    fun c hc => ?_, h.alive⟩
  · rw [contents_setChildren]
    by_cases hc : c = child
    · refine .inl ⟨.list q, ?_⟩
      simp [hc]
    · change update s.published child true c = true at hpub
      rw [update_of_ne hc] at hpub
      refine (h.located c hpub hreaped hne).imp_left ?_
      rintro ⟨pl, hpl⟩
      refine ⟨pl, ?_⟩
      by_cases hq : pl = .list q
      · grind [contents]
      · rwa [update_of_ne hq]
  · change c ∈ update s.children q (s.children q ++ [child]) r at hc
    by_cases hr : r = q
    · subst hr
      rw [update_self, mem_append, mem_singleton] at hc
      rcases hc with hc | rfl
      · exact h.listed r c hc hreaped
      · simp [hparent, hliving, State.setChildren]
    · rw [update_of_ne hr] at hc
      exact h.listed r c hc hreaped
  · change update s.clone child none c = some k' at hk'
    by_cases hc : c = child
    · rw [hc, update_self] at hk'
      cases hk'
    · rw [update_of_ne hc] at hk'
      exact h.clone c k' hk'
  · change update s.published child true c = false at hc
    by_cases hcc : c = child
    · rw [hcc, update_self] at hc
      cases hc
    · rw [update_of_ne hcc] at hc
      exact h.unborn c hc

theorem Rooted.wait (ht : Tidy s)
    {index : ℕ} (hchild : (s.children p)[index]? = some child) : Rooted (s.wait p index child) := by
  obtain ⟨hlt, hget⟩ := List.getElem?_eq_some_iff.mp hchild
  have hperm := swapRemove_perm hlt
  have hreap := h.reap (ht.known (.list p) child (List.mem_of_getElem? hchild)) ht
  have hset : Rooted ((s.reap child).setChildren p (swapRemove (s.children p) index)) := by
    refine hreap.setChildren (fun c hc => ?_) fun c hc => ?_
    · exact (eraseIdx_sublist ..).subset (hperm.subset hc)
    · by_cases hcc : c = child
      · simp [hcc, State.reap]
      · obtain ⟨j, hj⟩ := mem_iff_getElem?.mp hc
        refine .inl (hperm.symm.subset (mem_eraseIdx_iff_getElem?.mpr ⟨j, ?_, hj⟩))
        rintro rfl
        exact hcc (some.inj (hj.symm.trans hchild))
  exact ⟨hset.located, hset.listed, hset.moved, hset.clone, hset.unborn, hset.alive⟩

theorem Rooted.markZombie (hrun : s.canRun p = true) :
    Rooted ({ s with zombie := update s.zombie p true }.setExit p .marked) := by
  rw [canRun, Bool.and_eq_true, Bool.not_eq_true'] at hrun
  have hexit : s.exit p = .running := h.alive p hrun.2
  have hself : ∀ u : State, u.setChildren p (u.children p) = u := fun u => by
    rw [State.setChildren, update_eq_self]
  have hgo := h.advance (q := p) (l := s.children p) (e := .marked) hrun.1
    (fun pl c hc hreaped => ⟨pl, ?_⟩) (by simp [hexit]) (fun r c hc hreaped => ?_)
    (by rintro _ ⟨⟩)
  · exact hself { s with zombie := update s.zombie p true } ▸ hgo
  · rw [hself, contents_setExit, update_of_ne]
    · exact hc
    · grind [contents, transit]
  · rw [update_eq_self] at hc
    grind [h.listed, keepsChildren]

/-- One process moves all the children of one place to another. -/
theorem Rooted.transfer (src dst : Place)
    (hexit : s.exit p = e) (hrun : e ≠ .running) (hdetached : e ≠ .detached)
    (hcontents : ((s.setChildren q l).setExit p e').contents =
      update (update s.contents src []) dst (s.contents dst ++ s.contents src))
    (hmoved : e'.moved = [])
    (hlisted : ∀ r c, c ∈ update s.children q l r → s.reaped c = false → s.parent c = some r ∧
      (s.zombie r = true → (update s.exit p e' r).keepsChildren = true)) :
    Rooted ((s.setChildren q l).setExit p e') := by
  subst hexit
  obtain ⟨hpub, hzombie⟩ := h.zombie_of_exit hrun
  have hgo := h.advance (q := q) (l := l) (e := e') hpub (fun pl c hc _ => ?_)
    (fun hd => absurd hd hdetached) (fun r c hc hreaped => ?_) (by simp [hmoved])
  · rw [← hzombie, update_eq_self] at hgo
    exact hgo
  · rw [hcontents]
    exact mem_transfer hc
  · grind

theorem Rooted.takeChildren (hexit : s.exit p = .snapshot parent autoReap) :
    Rooted ((s.setChildren p []).setExit p (.seeking parent autoReap (s.children p) parent)) := by
  have htransit : s.contents (.transit p) = [] := by
    change (s.exit p).transit = []
    rw [hexit]
    rfl
  refine h.transfer (.list p) (.transit p) hexit (by simp) (by simp) ?_ rfl fun q c hc hreaped => ?_
  · rw [contents_setExit, contents_setChildren, htransit, nil_append]
    rfl
  · by_cases hq : q = p
    · rw [hq, update_self] at hc
      cases hc
    · rw [update_of_ne hq] at hc ⊢
      exact h.listed q c hc hreaped

/-- **The append.**  The children record the reaper, which is not a zombie. -/
theorem Rooted.append (hguard : Guarded s (.append p))
    (hstep : s.append p = some s') : Rooted s' := by
  rw [State.append] at hstep
  split at hstep
  · rename_i parent autoReap reaper moved hexit
    cases hstep
    have hliving : s.zombie reaper = false := by
      refine hguard reaper ?_
      rw [hexit]
      rfl
    have hmoved : ∀ c ∈ moved, s.reaped c = false → s.parent c = some reaper := by
      grind [Exit.moved, Exit.reaper, moved]
    have htransit : s.contents (.transit p) = moved := by
      simp [hexit, contents, Exit.transit]
    refine h.transfer (.transit p) (.list reaper) hexit (by simp) (by simp) ?_ rfl
      fun q c hc hreaped => ?_
    · rw [contents_setExit, contents_setChildren, htransit, update_comm Place.noConfusion]
      rfl
    · have hold : c ∈ s.children q → s.parent c = some q ∧ (s.zombie q = true →
          (update s.exit p (.notifying parent autoReap) q).keepsChildren = true) := by
        intro hin
        obtain ⟨hparent, hzombie⟩ := h.listed q c hin hreaped
        refine ⟨hparent, fun hz => ?_⟩
        rw [update_of_ne]
        · exact hzombie hz
        · grind [keepsChildren]
      by_cases hq : q = reaper
      · grind
      · rw [update_of_ne hq] at hc
        exact hold hc
  · cases hstep

theorem Rooted.startAdoption {cursor : Option ℕ} {taken : List ℕ}
    (hexit : s.exit p = .seeking parent autoReap taken cursor) :
    Rooted (s.startAdoption p parent autoReap taken reaper reserveOk) := by
  rw [State.startAdoption]
  split_ifs with htaken
  · exact h.setExit hexit (by simp) (by simp) (.inl htaken) (.inl rfl) (.inl rfl)
  all_goals exact h.setExit hexit (by simp) (by simp) (.inr fun c hc _ => hc) (.inl rfl) (.inl rfl)

theorem Rooted.seek (hstep : s.seek p reserveOk = some s') : Rooted s' := by
  rw [State.seek] at hstep
  split at hstep
  · rename_i parent autoReap taken q hexit
    split_ifs at hstep <;> cases hstep
    · exact h.startAdoption hexit
    · exact h.setExit hexit (by simp) (by simp) (.inr fun c hc _ => hc) (.inl rfl) (.inl rfl)
  · grind [h.startAdoption]
  · cases hstep

/-- What is known of the children that have their new parent. -/
theorem Rooted.moved_of_exit {r : Option ℕ} (hexit : s.exit p = e) (hc : c ∈ e.moved)
    (hreaped : s.reaped c = false) (hreaper : e.reaper = r) : s.parent c = r := by
  subst hexit
  rw [← hreaper, h.moved p c hc hreaped]

theorem Rooted.adoptTest (ht : Tidy s) (hstep : s.adoptTest p = some s') : Rooted s' := by
  rw [State.adoptTest] at hstep
  split at hstep
  · rename_i parent autoReap reaper moved c rest hexit
    split_ifs at hstep <;> cases hstep
    · have hmem : c ∈ s.contents (.transit p) := by simp [hexit, contents, transit]
      have hreap := h.reap (ht.known _ c hmem) ht
      -- The reaped child leaves the transit, and nothing else does.
      refine hreap.setExit hexit (by simp) (by simp) (.inr fun d hd hreaped => ?_) (.inl rfl)
        (.inr fun d hd hr => hreap.moved_of_exit hexit hd hr rfl)
      have hdc : d ≠ c := fun hdc => by simp [hdc, State.reap] at hreaped
      simpa [transit, hdc] using hd
    · exact h.setExit hexit (by simp) (by simp) (.inr fun d hd _ => hd) (.inl rfl)
        (.inr fun d hd hr => h.moved_of_exit hexit hd hr rfl)
  · cases hstep

theorem Rooted.adoptSet (ht : Tidy s) (hstep : s.adoptSet p = some s') : Rooted s' := by
  rw [State.adoptSet] at hstep
  split at hstep
  · rename_i parent autoReap reaper moved c rest hexit
    cases hstep
    have htransit : (s.exit p).transit = moved ++ (c :: rest) := by
      rw [hexit]
      rfl
    have hmem : c ∈ (s.exit p).transit := by
      rw [htransit]
      exact mem_append_right _ mem_cons_self
    have hout : c ∉ moved := by
      have hnodup : (s.exit p).transit.Nodup := ht.placed.1 (.transit p)
      grind
    have hset : Rooted (s.setParent c (some reaper)) := by
      refine h.setParent ht hmem ?_
      rw [hexit]
      exact hout
    refine hset.setExit hexit (by simp) (by simp) (.inr fun d hd _ => hd) (.inl rfl)
      (.inr fun d hd hreaped => ?_)
    rcases mem_append.mp hd with hin | hin
    · exact hset.moved_of_exit hexit hin hreaped rfl
    · rw [mem_singleton.mp hin]
      exact update_self ..
  · cases hstep

theorem Rooted.adoptMark (hstep : s.adoptMark p = some s') : Rooted s' := by
  rw [State.adoptMark] at hstep
  split at hstep
  · rename_i parent autoReap reaper moved c rest hexit
    cases hstep
    have hgo :
        Rooted (s.setExit p (.adopting parent autoReap reaper (moved ++ [c]) none rest)) := by
      refine h.setExit hexit (by simp) (by simp) (.inr fun d hd _ => ?_) (.inl rfl)
        (.inr fun d hd hr => h.moved_of_exit hexit hd hr rfl)
      change d ∈ (moved ++ [c]) ++ ([] ++ rest)
      rwa [append_assoc]
    exact ⟨hgo.located, hgo.listed, hgo.moved, hgo.clone, hgo.unborn, hgo.alive⟩
  · cases hstep

/-- A process that removes itself removes nobody else. -/
theorem Rooted.notify {ignoresSigchld : Bool} (hguard : Guarded s (.notify p ignoresSigchld))
    (hstep : s.notify p ignoresSigchld = some s') : Rooted s' := by
  rw [State.notify] at hstep
  split at hstep
  · rename_i g autoReap hexit
    split_ifs at hstep with hauto <;> cases hstep
    · have hgo : Rooted (s.setExit p .detached) :=
        h.setExit hexit (by simp) (by simp) (.inl rfl) (.inl rfl) (.inl rfl)
      refine hgo.setChildren (fun c hc => (mem_filter.mp hc).1) fun c hc => ?_
      by_cases hpid : s.pid c = s.pid p
      · refine .inr (.inr ?_)
        have hnotified : (g, autoReap) ∈ (s.exit p).notified := by
          rw [hexit]
          rfl
        rw [hguard (g, autoReap) hnotified hauto c hc hpid]
        exact update_self ..
      · exact .inl (mem_filter.mpr ⟨hc, decide_eq_true hpid⟩)
    · exact h.setExit hexit (by simp) (by simp) (.inl rfl) (.inl rfl) (.inl rfl)
  · rename_i hexit
    cases hstep
    exact h.setExit hexit (by simp) (by simp) (.inl rfl) (.inl rfl) (.inl rfl)
  · cases hstep

theorem Rooted.reapSelf (ht : Tidy s) (hexit : s.exit p = .detached) :
    Rooted ((s.reap p).setExit p .finished) := by
  have hreap := h.reap (h.zombie_of_exit (p := p) (by simp [hexit])).1 ht
  exact hreap.setExit hexit (by simp) (fun _ => update_self ..) (.inl rfl) (.inl rfl) (.inl rfl)

/-! ## Runs -/

theorem Rooted.step (ht : Tidy s) {e : Event} (hguard : Guarded s e)
    (hstep : s.step e = some s') : Rooted s' := by
  cases e with
  | fork p pid cloneParent => grind [step, h.fork]
  | publish child =>
    obtain ⟨k, hk, rfl⟩ := map_eq_some_iff.mp hstep
    exact h.publish hk hguard
  | cancel child =>
    obtain ⟨k, hk, rfl⟩ := map_eq_some_iff.mp hstep
    refine { h with clone := fun c k' hk' => ?_ }
    grind [h.clone]
  | wait p index => grind [step, h.wait]
  | markZombie p => grind [step, h.markZombie]
  | readParent p ignoresSigchld =>
    rw [State.step] at hstep
    split_ifs at hstep with hexit
    cases hstep
    exact h.setExit hexit (by simp) (by simp) (.inl rfl) (.inr rfl) (.inl rfl)
  | takeChildren p => grind [step, h.takeChildren]
  | seek p reserveOk => exact h.seek hstep
  | climb p =>
    rw [State.step] at hstep
    split at hstep
    · rename_i hexit
      cases hstep
      exact h.setExit hexit (by simp) (by simp) (.inr fun c hc _ => hc) (.inl rfl) (.inl rfl)
    · cases hstep
  | adoptTest p => exact h.adoptTest ht hstep
  | adoptSet p => exact h.adoptSet ht hstep
  | adoptMark p => exact h.adoptMark hstep
  | append p => exact h.append hguard hstep
  | notify p ignoresSigchld => exact h.notify hguard hstep
  | reapSelf p => grind [step, h.reapSelf]
  | _ =>
    rw [State.step] at hstep
    split_ifs at hstep
    cases hstep
    exact ⟨h.located, h.listed, h.moved, h.clone, h.unborn, h.alive⟩

end

theorem rooted_initial : Rooted .initial := by
  refine ⟨fun c hpub _ hne => ?_, fun q c hc => ?_, fun g c hc => ?_, fun c k hk => ?_,
    fun _ _ => rfl, fun _ _ => rfl⟩
  any_goals cases hc
  · exact absurd (of_decide_eq_true hpub) hne
  · cases hk

/-- No process is in `finish_exit`.  (A wait is one step.) -/
def Quiet (s : State) : Prop := ∀ p, p < s.nextRef → s.exit p = .running ∨ s.exit p = .finished

/-- **Each status once, and a living parent.**  In every run a wait returns the exit status of a
process at most once.  In every run that meets the condition, whenever no exit is in progress, every
published process other than `init` that is not reaped is in the list of exactly one process, once;
this process is not a zombie, and it is the recorded parent. -/
theorem parents_of_reachable (s : State) : (system.Reachable s → ∀ c, s.collected c ≤ 1) ∧
    ((system.restrict Guarded).Reachable s → Quiet s → ∀ c, s.published c = true →
      s.reaped c = false → c ≠ initProc →
      ∃ q, s.parent c = some q ∧ s.zombie q = false ∧ (s.children q).count c = 1 ∧
        ∀ q', c ∈ s.children q' → q' = q) := by
  refine ⟨fun hs c => (tidy_of_reachable hs).once c, fun hs hquiet c hpub hreaped hne => ?_⟩
  have hboth : Tidy s ∧ Rooted s := by
    refine System.Reachable.invariant (I := fun u => Tidy u ∧ Rooted u) (fun u hu => ?_)
      (fun u e u' _ h hstep => ?_) hs
    · obtain rfl : u = .initial := hu
      exact ⟨tidy_initial, rooted_initial⟩
    · exact ⟨h.1.step hstep.2, h.2.step h.1 hstep.1 hstep.2⟩
  obtain ⟨htidy, hrooted⟩ := hboth
  have hexit : ∀ p, s.exit p = .running ∨ s.exit p = .finished := by
    intro p
    rcases lt_or_ge p s.nextRef with hlt | hge
    · exact hquiet p hlt
    · exact .inl (hrooted.alive p (hrooted.unborn p (htidy.fresh p hge)))
  have hidle : ∀ p, (s.exit p).transit = [] ∧ (s.exit p).keepsChildren = false := by
    intro p
    rcases hexit p with hp | hp <;> rw [hp] <;> exact ⟨rfl, rfl⟩
  obtain ⟨pl, hc⟩ : ∃ pl, c ∈ s.contents pl := by
    refine (hrooted.located c hpub hreaped hne).resolve_right fun hdetached => ?_
    rcases hexit c with hp | hp <;> rw [hdetached] at hp <;> cases hp
  cases pl with
  | transit g =>
      change c ∈ (s.exit g).transit at hc
      rw [(hidle g).1] at hc
      cases hc
  | list q =>
      obtain ⟨hparent, hkeeps⟩ := hrooted.listed q c hc hreaped
      refine ⟨q, hparent, ?_, count_eq_one_of_mem (htidy.placed.1 (.list q)) hc,
        fun q' hc' => Place.list.inj (htidy.placed.2 (.list q') (.list q) c hc' hc)⟩
      cases hz : s.zombie q with
      | false => rfl
      | true => exact Bool.noConfusion ((hidle q).2.symm.trans (hkeeps hz))

instance (s : State) : (e : Event) → Decidable (Guarded s e)
  | .publish child => inferInstanceAs (Decidable (∀ k ∈ s.clone child, _))
  | .append p => inferInstanceAs (Decidable (∀ r ∈ (s.exit p).reaper, _))
  | .notify p _ => inferInstanceAs (Decidable (∀ x ∈ (s.exit p).notified, _))
  | .fork _ _ _ | .cancel _ | .setChildSubreaper _ _ | .wait _ _ | .markZombie _ | .readParent _ _
  | .takeChildren _ | .seek _ _ | .climb _ | .adoptTest _ | .adoptSet _ | .adoptMark _
  | .reapSelf _ | .drop _ => isTrue trivial

instance (s : State) : Decidable (Quiet s) :=
  inferInstanceAs (Decidable (∀ p, p < s.nextRef → _))

/-- A process dies and its child goes to `init`. -/
theorem parents_orphanToInit : ∃ s, (system.restrict Guarded).Reachable s ∧ Quiet s ∧
    s.collected 2 ≤ 1 ∧ ∃ q, s.parent 2 = some q ∧ s.zombie q = false ∧
      (s.children q).count 2 = 1 ∧ ∀ q', 2 ∈ s.children q' → q' = q := by
  let events : List Event := [.fork 0 10 false, .publish 1, .fork 1 11 false, .publish 2,
    .markZombie 1, .readParent 1 false, .takeChildren 1, .seek 1 true, .climb 1, .seek 1 true,
    .adoptTest 1, .adoptSet 1, .adoptMark 1, .append 1, .notify 1 false]
  obtain ⟨s, hreach, hquiet, hpub, hreaped⟩ : ∃ s, (system.restrict Guarded).Reachable s ∧
      Quiet s ∧ s.published 2 = true ∧ s.reaped 2 = false :=
    System.exists_run_restrict events rfl (by decide)
  exact ⟨s, hreach, hquiet, (parents_of_reachable s).1 hreach.of_restrict 2,
    (parents_of_reachable s).2 hreach hquiet 2 hpub hreaped (by decide)⟩

/-- A subreaper exits between the choice and the append: its grandchild ends up in the list of a
zombie, and nobody will take it from there. -/
theorem orphan_in_list_of_zombie : ∃ s, system.Reachable s ∧ Quiet s ∧ ∃ c q,
    s.published c = true ∧ s.reaped c = false ∧ c ≠ initProc ∧ s.parent c = some q ∧
      c ∈ s.children q ∧ s.zombie q = true := by
  let events : List Event := [.fork 0 10 false, .publish 1, .setChildSubreaper 1 true,
    .fork 1 11 false, .publish 2, .fork 2 12 false, .publish 3,
    -- The process 2 exits and chooses the process 1, its parent.
    .markZombie 2, .readParent 2 false, .takeChildren 2, .seek 2 true, .adoptTest 2, .adoptSet 2,
    -- The process 1 exits completely.
    .markZombie 1, .readParent 1 false, .takeChildren 1, .seek 1 true, .climb 1, .seek 1 true,
    .adoptTest 1, .append 1, .notify 1 false,
    -- The process 2 goes on.
    .adoptMark 2, .append 2, .notify 2 false]
  obtain ⟨s, hreach, hquiet, horphan⟩ : ∃ s, system.Reachable s ∧ Quiet s ∧
      s.published 3 = true ∧ s.reaped 3 = false ∧ 3 ≠ initProc ∧ s.parent 3 = some 1 ∧
        3 ∈ s.children 1 ∧ s.zombie 1 = true :=
    System.exists_run events rfl (by decide)
  exact ⟨s, hreach, hquiet, 3, 1, horphan⟩
end MangoCore.Task.Reaping
