import MangoCore.Task.Reaping

/-!
# Every child is in one place

A process that is published is in the list of one other process, or it is among the children that
one exiting process has taken and not yet handed over.  It gets there once, when its clone is
published, and `wait_child` takes it out for good.  So its exit status is returned at most once, in
every run.
-/

namespace MangoCore.Task.Reaping

open Function List.Subperm State List

/-- Where a child can be. -/
inductive Place
  | list (p : ℕ)
  | transit (p : ℕ)
  deriving DecidableEq

/-- The children that an exiting process has taken and not yet handed over. -/
def Exit.transit : Exit → List ℕ
  | .seeking _ _ taken _ => taken
  | .climbing _ _ taken _ => taken
  | .adopting _ _ _ moved tested rest => moved ++ (tested.toList ++ rest)
  | .marking _ _ _ moved c rest => moved ++ c :: rest
  | _ => []

/-- The children in a place. -/
def State.contents (s : State) : Place → List ℕ
  | .list p => s.children p
  | .transit p => (s.exit p).transit

/-- The invariant of the lists. -/
structure Tidy (s : State) : Prop where
  placed : Placed s.contents
  known : ∀ pl c, c ∈ s.contents pl → s.published c = true
  clone : ∀ c k, s.clone c = some k → s.published c = false ∧ c < s.nextRef
  fresh : ∀ c, s.nextRef ≤ c → s.published c = false
  once : ∀ c, s.collected c ≤ 1
  gone : ∀ c, s.collected c ≠ 0 → s.published c = true ∧ ∀ pl, c ∉ s.contents pl

variable {s s' : State} {p child : ℕ} {l : List ℕ} {e : Exit} {reserveOk : Bool}

/-! ## The places after an update -/

theorem contents_setExit :
    (s.setExit p e).contents = update s.contents (.transit p) e.transit := by
  funext pl
  cases pl with
  | list q => rfl
  | transit q =>
    change (update s.exit p e q).transit = _
    by_cases hq : q = p
    · subst hq
      rw [update_self, update_self]
    · simp [hq, contents]

theorem contents_setChildren (s : State) (p : ℕ) (l : List ℕ) :
    (s.setChildren p l).contents = update s.contents (.list p) l := by
  funext pl
  cases pl with
  | list q => simp [contents, setChildren, update_apply]
  | transit q => rfl

theorem subperm_update {c : Place → List ℕ} {i : Place} (hl : l.Subperm (c i))
    {j : Place} : (update c i l j).Subperm (c j) := by
  grind [List.Subperm.refl]

/-! ## What keeps the invariant -/

section

variable (h : Tidy s)
include h

/-- Children leave their places, and nothing else that matters changes. -/
theorem Tidy.of_subperm (hsub : ∀ pl, (s'.contents pl).Subperm (s.contents pl))
    (hpublished : s'.published = s.published)
    (hclone : ∀ c k, s'.clone c = some k → s.clone c = some k)
    (hnext : s'.nextRef = s.nextRef) (hcollected : s'.collected = s.collected) : Tidy s' where
  placed := h.placed.mono hsub
  known pl c hc := by
    rw [hpublished]
    exact h.known pl c ((hsub pl).subset hc)
  clone c k hk := by
    rw [hpublished, hnext]
    exact h.clone c k (hclone c k hk)
  fresh c hc := by
    rw [hpublished]
    exact h.fresh c (hnext ▸ hc)
  once c := by
    rw [hcollected]
    exact h.once c
  gone c hc := by
    rw [hcollected] at hc
    obtain ⟨hpub, hnone⟩ := h.gone c hc
    exact ⟨hpublished ▸ hpub, fun pl hmem => hnone pl ((hsub pl).subset hmem)⟩

/-- All children of one place move to another. -/
theorem Tidy.of_transfer {i j : Place} (hij : i ≠ j) (hcontents : s'.contents =
      update (update s.contents i []) j (s.contents j ++ s.contents i))
    (hpublished : s'.published = s.published) (hclone : s'.clone = s.clone)
    (hnext : s'.nextRef = s.nextRef) (hcollected : s'.collected = s.collected) : Tidy s' := by
  have hback : ∀ pl c, c ∈ s'.contents pl → ∃ pl', c ∈ s.contents pl' := by
    intro pl c hc
    rw [hcontents] at hc
    by_cases pl = j
    all_goals grind
  refine ⟨hcontents ▸ h.placed.transfer hij, fun pl c hc => ?_, ?_, ?_, ?_, fun c hc => ?_⟩
  · obtain ⟨pl', hc'⟩ := hback pl c hc
    rw [hpublished]
    exact h.known pl' c hc'
  · rw [hclone, hpublished, hnext]
    exact h.clone
  · rw [hpublished, hnext]
    exact h.fresh
  · rw [hcollected]
    exact h.once
  · rw [hcollected] at hc
    obtain ⟨hpub, hnone⟩ := h.gone c hc
    grind

/-- The process goes on in `finish_exit`. -/
theorem Tidy.setExit (he : e.transit.Subperm (s.exit p).transit) : Tidy (s.setExit p e) := by
  refine h.of_subperm (fun pl => ?_) rfl (fun _ _ hk => hk) rfl rfl
  rw [contents_setExit]
  exact subperm_update he

theorem Tidy.setParent (c : ℕ) (parent : Option ℕ) : Tidy (s.setParent c parent) :=
  h.of_subperm (fun _ => refl _) rfl (fun _ _ hk => hk) rfl rfl

theorem Tidy.reap (c : ℕ) : Tidy (s.reap c) :=
  h.of_subperm (fun _ => refl _) rfl (fun _ _ hk => hk) rfl rfl

theorem Tidy.setChildren (hl : l.Subperm (s.children p)) : Tidy (s.setChildren p l) := by
  refine h.of_subperm (fun pl => ?_) rfl (fun _ _ hk => hk) rfl rfl
  rw [contents_setChildren]
  exact subperm_update hl

/-! ## The steps -/

theorem Tidy.fork {pid : ℕ} {cloneParent : Bool} : Tidy (s.fork p pid cloneParent) where
  placed := h.placed
  known := h.known
  clone c k hk := by
    change update s.clone s.nextRef _ c = some k at hk
    change s.published c = false ∧ c < s.nextRef + 1
    by_cases hc : c = s.nextRef
    · simp [hc, h.fresh]
    · grind [h.clone]
  fresh c hc := h.fresh c (Nat.le_of_succ_le hc)
  once := h.once
  gone := h.gone

/-- The clone is in no place before it is published. -/
theorem Tidy.publish {k : Clone} (hk : s.clone child = some k) :
    Tidy (s.publish child k) := by
  obtain ⟨hunpublished, hlt⟩ := h.clone child k hk
  have hnowhere : ∀ pl, child ∉ s.contents pl := by grind [h.known]
  -- The places are the same up to the new child.
  have hrest : ∀ s' : State, s'.published = update s.published child true →
      s'.clone = update s.clone child none → s'.nextRef = s.nextRef →
      s'.collected = s.collected → Placed s'.contents →
      (∀ pl c, c ∈ s'.contents pl → c ∈ s.contents pl ∨ c = child) → Tidy s' := by
    intro s' hpublished hclone hnext hcollected hplaced hmem
    have hpub : ∀ c, s.published c = true → s'.published c = true := by
      simp_all [Function.update_apply]
    refine ⟨hplaced, fun pl c hc => ?_, fun c k' hk' => ?_, fun c hc => ?_, ?_, fun c hc => ?_⟩
    · rcases hmem pl c hc with hc | rfl
      · exact hpub c (h.known pl c hc)
      · rw [hpublished, update_self]
    · simp_all [Function.update_apply, h.clone]
    · rw [hnext] at hc
      rw [hpublished, update_of_ne (by omega)]
      exact h.fresh c hc
    · rw [hcollected]
      exact h.once
    · grind [h.gone]
  rw [State.publish]
  cases s.publishTarget child k with
  | none => exact hrest _ rfl rfl rfl rfl h.placed fun pl c hc => .inl hc
  | some q =>
    have hcontents := contents_setChildren { s with
      clone := update s.clone child none
      published := update s.published child true } q (s.children q ++ [child])
    refine hrest _ rfl rfl rfl rfl ?_ fun pl c hc => ?_
    · rw [hcontents]
      exact h.placed.push hnowhere
    · rw [hcontents] at hc
      by_cases hpl : pl = .list q
      · grind [contents]
      · rw [update_of_ne hpl] at hc
        exact .inl hc

/-- The child that is waited for is taken out for good. -/
theorem Tidy.wait {index : ℕ} (hchild : (s.children p)[index]? = some child) :
    Tidy (s.wait p index child) := by
  obtain ⟨hlt, hget⟩ := List.getElem?_eq_some_iff.mp hchild
  have hperm := swapRemove_perm hlt
  have hsub : (swapRemove (s.children p) index).Subperm (s.children p) :=
    hperm.subperm.trans (eraseIdx_sublist ..).subperm
  have hmem : child ∈ s.contents (.list p) := mem_of_getElem? hchild
  have hout : child ∉ swapRemove (s.children p) index := by
    intro hin
    obtain ⟨j, hne, hj⟩ := mem_eraseIdx_iff_getElem?.mp (hperm.subset hin)
    obtain ⟨hjlt, hjget⟩ := List.getElem?_eq_some_iff.mp hj
    exact hne ((h.placed.1 (.list p)).getElem_inj_iff.mp (hjget.trans hget.symm))
  have hzero : s.collected child = 0 := by
    by_contra hne
    exact (h.gone child hne).2 _ hmem
  have hlist := (h.setChildren hsub).reap child
  have hcontents : (s.wait p index child).contents =
      update s.contents (.list p) (swapRemove (s.children p) index) :=
    contents_setChildren s p _
  refine { hlist with once := fun c => ?_, gone := fun c hc => ?_ }
  · change update s.collected child (s.collected child + 1) c ≤ 1
    by_cases hcc : c = child
    · grind
    · rw [update_of_ne hcc]
      exact h.once c
  · change update s.collected child (s.collected child + 1) c ≠ 0 at hc
    by_cases hcc : c = child
    · subst hcc
      refine ⟨h.known _ c hmem, fun pl hin => ?_⟩
      rw [hcontents] at hin
      by_cases hpl : pl = .list p
      · rw [hpl, update_self] at hin
        exact hout hin
      · rw [update_of_ne hpl] at hin
        exact hpl (h.placed.2 _ _ c hin hmem)
    · rw [update_of_ne hcc] at hc
      exact hlist.gone c hc

theorem Tidy.startAdoption {parent : Option ℕ}
    {autoReap : Bool} {taken : List ℕ} {reaper : ℕ} (htaken : (s.exit p).transit = taken) :
    Tidy (s.startAdoption p parent autoReap taken reaper reserveOk) := by
  grind [startAdoption.eq_1, setExit, Exit.transit, List.Subperm.refl]

theorem Tidy.seek (hstep : s.seek p reserveOk = some s') : Tidy s' := by
  rw [State.seek] at hstep
  split at hstep
  · rename_i parent autoReap taken q hexit
    have htaken : (s.exit p).transit = taken := by
      rw [hexit]
      rfl
    split_ifs at hstep <;> cases hstep
    · exact h.startAdoption htaken
    · refine h.setExit ?_
      rw [htaken]
      exact refl _
  · grind [startAdoption, Exit.transit]
  · cases hstep

theorem Tidy.adoptTest (hstep : s.adoptTest p = some s') : Tidy s' := by
  rw [State.adoptTest] at hstep
  split at hstep
  · rename_i parent autoReap reaper moved c rest hexit
    split_ifs at hstep <;> cases hstep
    · refine (h.reap c).setExit ?_
      change (moved ++ ([] ++ rest)).Subperm (s.exit p).transit
      rw [hexit]
      exact ((sublist_cons_self c rest).append_left moved).subperm
    · refine h.setExit ?_
      rw [hexit]
      exact refl _
  · cases hstep

theorem Tidy.adoptSet (hstep : s.adoptSet p = some s') : Tidy s' := by
  rw [State.adoptSet] at hstep
  split at hstep
  · rename_i parent autoReap reaper moved c rest hexit
    cases hstep
    refine (h.setParent c (some reaper)).setExit ?_
    change (moved ++ c :: rest).Subperm (s.exit p).transit
    rw [hexit]
    exact refl _
  · cases hstep

theorem Tidy.adoptMark (hstep : s.adoptMark p = some s') : Tidy s' := by
  rw [State.adoptMark] at hstep
  split at hstep
  · rename_i parent autoReap reaper moved c rest hexit
    cases hstep
    have hgo : Tidy (s.setExit p (.adopting parent autoReap reaper (moved ++ [c]) none rest)) := by
      refine h.setExit ?_
      change ((moved ++ [c]) ++ ([] ++ rest)).Subperm (s.exit p).transit
      rw [hexit, append_assoc]
      exact refl _
    exact hgo.of_subperm (fun _ => refl _) rfl (fun _ _ hk => hk) rfl rfl
  · cases hstep

theorem Tidy.append (hstep : s.append p = some s') : Tidy s' := by
  rw [State.append] at hstep
  split at hstep
  · rename_i parent autoReap reaper moved hexit
    cases hstep
    refine h.of_transfer (i := .transit p) (j := .list reaper) Place.noConfusion ?_ rfl rfl rfl rfl
    have htransit : s.contents (.transit p) = moved := by simp [hexit, contents, Exit.transit]
    rw [contents_setExit, contents_setChildren, htransit, update_comm Place.noConfusion]
    rfl
  · cases hstep

theorem Tidy.notify {ignoresSigchld : Bool}
    (hstep : s.notify p ignoresSigchld = some s') : Tidy s' := by
  rw [State.notify] at hstep
  split at hstep
  · grind [setExit, setChildren, List.Sublist.subperm, filter_sublist, Exit.transit]
  · cases hstep
    exact h.setExit nil_subperm
  · cases hstep

theorem Tidy.step {e : Event} (hstep : s.step e = some s') : Tidy s' := by
  cases e with
  | fork p => grind [step, h.fork]
  | publish child =>
    obtain ⟨k, hk, rfl⟩ := Option.map_eq_some_iff.mp hstep
    exact h.publish hk
  | cancel child =>
    obtain ⟨k, hk, rfl⟩ := Option.map_eq_some_iff.mp hstep
    refine h.of_subperm (fun _ => refl _) rfl (fun c k' hk' => ?_) rfl rfl
    grind
  | wait p index => grind [step, h.wait]
  | markZombie p =>
    rw [State.step] at hstep
    split_ifs at hstep
    cases hstep
    have hmarked : Tidy { s with zombie := update s.zombie p true } :=
      h.of_subperm (fun _ => refl _) rfl (fun _ _ hk => hk) rfl rfl
    exact hmarked.setExit nil_subperm
  | readParent p ignoresSigchld =>
    rw [State.step] at hstep
    split_ifs at hstep
    cases hstep
    exact h.setExit nil_subperm
  | takeChildren p =>
    rw [State.step] at hstep
    split at hstep
    · rename_i parent autoReap hexit
      cases hstep
      refine h.of_transfer (i := .list p) (j := .transit p) Place.noConfusion ?_ rfl rfl rfl rfl
      have htransit : s.contents (.transit p) = [] := by
        change (s.exit p).transit = []
        rw [hexit]
        rfl
      rw [contents_setExit, contents_setChildren, htransit, nil_append]
      rfl
    · cases hstep
  | seek p reserveOk => exact h.seek hstep
  | climb p => grind [setExit, Exit.transit, List.Subperm.refl, step.eq_10]
  | adoptTest p => exact h.adoptTest hstep
  | adoptSet p => exact h.adoptSet hstep
  | adoptMark p => exact h.adoptMark hstep
  | append p => exact h.append hstep
  | notify p ignoresSigchld => exact h.notify hstep
  | reapSelf p =>
    rw [State.step] at hstep
    split_ifs at hstep
    cases hstep
    exact (h.reap p).setExit nil_subperm
  | _ =>
    rw [State.step] at hstep
    split_ifs at hstep
    cases hstep
    exact h.of_subperm (fun _ => refl _) rfl (fun _ _ hk => hk) rfl rfl

end

theorem tidy_initial : Tidy .initial := by
  have hempty : ∀ pl, initial.contents pl = [] := by
    intro pl
    cases pl <;> rfl
  refine ⟨⟨fun pl => ?_, fun i j c hc => ?_⟩, fun pl c hc => ?_, fun c k hk => ?_, fun c hc => ?_,
    fun c => Nat.zero_le 1, fun c hc => absurd rfl hc⟩
  · rw [hempty]
    exact nodup_nil
  · rw [hempty] at hc
    cases hc
  · rw [hempty] at hc
    cases hc
  · cases hk
  · exact decide_eq_false (ne_of_gt hc)

theorem tidy_of_reachable (hs : system.Reachable s) : Tidy s := by
  refine System.Reachable.invariant (fun u hu => ?_) (fun u e u' _ h hstep => h.step hstep) hs
  obtain rfl : u = .initial := hu
  exact tidy_initial
end MangoCore.Task.Reaping
