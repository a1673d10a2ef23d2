import MangoCore.Mm.VmaPages
import Mathlib.Order.Interval.Finset.Nat

/-!
# Every operation keeps the set of mappings consistent

Each operation of `VmaSet` is followed along its source text, with one lemma for what it does to
`Inv`, and from these a run of any length is proved to stay consistent.

Two requirements on the arguments are the callers' part of the contract: a mapping that is inserted
fits its file (`do_mmap` rejects larger offsets), and the permissions given to `mprotect` keep the
user bit (`sys_mprotect` always sets it).  Reserving and releasing ranges of the arena are steps of
the operations and not operations by themselves: done alone they change the holes and not the
mappings, and nothing can be consistent afterwards.
-/

namespace MangoCore.Mm.VmaSet

open IntervalMap VirtAddr Vma Option

variable {arch : Arch} {s : VmaSet} {maxMapCount k fuel p : ℕ}

/-! ## Inserting, splitting and removing -/

theorem Inv.splitForRange (h : Inv arch s) (maxMapCount k startVpn endVpn : ℕ) :
    Inv arch (s.splitForRange maxMapCount k startVpn endVpn).2 := by
  rcases splitForRange_cases h.map maxMapCount k startVpn endVpn with ⟨e, hsplit, -⟩ |
    ⟨area, target, left, right, s', hs, -, hsplit⟩
  · rw [hsplit]
    exact h
  · rw [hsplit]
    exact hs.inv h

theorem Inv.insertVma (h : Inv arch s) {a : Vma} (hfits : a.Fits) :
    Inv arch (s.insertVma arch maxMapCount a).2 := by
  unfold VmaSet.insertVma
  split_ifs with hempty hover huser
  any_goals exact h
  · cases s.ensureCanAdd maxMapCount 1 with
    | error e => exact h
    | ok _ =>
      have hfree := hasOverlap_eq_false h.map (by omega) (Bool.not_eq_true _ ▸ hover)
      have hpay := ((h.reserve hfree).putVma rfl (by omega) le_rfl hfits).addCounts 1
        a.areaPageCount
      have hareas : userAreas a = 1 := if_pos huser
      have hpages : userPages a = a.areaPageCount := if_pos huser
      simp [hareas, hpages, hpay.settle]
  · cases s.ensureCanAdd maxMapCount 1 with
    | error e => exact h
    | ok _ =>
      have hfree := hasOverlap_eq_false h.map (by omega) (Bool.not_eq_true _ ▸ hover)
      have hpay := (h.reserve hfree).putVma rfl (by omega) le_rfl hfits
      have hareas : userAreas a = 0 := if_neg huser
      have hpages : userPages a = 0 := if_neg huser
      simp [hareas, hpages, hpay.settle]

section Mapped

variable {M : Type} [UserMapper M] {prot : MapPermission} {k endVpn startVpn : ℕ}
  {allowEmpty : Bool} {mapper : M}

theorem Inv.removeAreaWithStart (h : Inv arch s) :
    Inv arch (s.removeAreaWithStart arch mapper startVpn).2.1 := by
  unfold VmaSet.removeAreaWithStart
  cases hk : s.vmas.get? startVpn with
  | none =>
    rw [takeVma, hk]
    exact h
  | some a =>
    obtain rfl := h.map.key _ _ hk
    rw [takeVma_of_get? hk]
    exact h.drop hk

theorem Inv.unmapStep (h : Inv arch s) (mapper : M) (maxMapCount k startVpn endVpn : ℕ) :
    Inv arch (s.unmapStep arch maxMapCount mapper k startVpn endVpn).2.1 := by
  rcases unmapStep_cases h mapper maxMapCount k startVpn endVpn with
    ⟨e, hstep, -⟩ | ⟨a, s', mapper', -, -, hstep, -, hinv, -⟩
  · rw [hstep]
    exact h
  · rw [hstep]
    exact hinv

/-- **The rule for the loop of `unmap_range`.**  What its rounds keep holds at the end.  When it
succeeds nothing meets the range any more, and when it fails one of the rounds has failed. -/
theorem unmapRangeLoop_rule {I : VmaSet → Prop}
    (hI : ∀ s (mapper : M) k, I s → s.firstOverlapKey startVpn endVpn = some k →
      I (s.unmapStep arch maxMapCount mapper k startVpn endVpn).2.1) :
    ∀ (fuel : ℕ) (found : Bool) (s : VmaSet) (mapper : M) (r : Except Errno Bool × VmaSet × M),
      I s →
      unmapRangeLoop arch maxMapCount startVpn endVpn allowEmpty fuel found s mapper = some r →
      I r.2.1 ∧ ((∃ b, r.1 = .ok b) → r.2.1.firstOverlapKey startVpn endVpn = none) ∧
        ∀ e, r.1 = .error e → allowEmpty = true → ∃ s mapper k, I s ∧
          s.firstOverlapKey startVpn endVpn = some k ∧
          (s.unmapStep arch maxMapCount (mapper : M) k startVpn endVpn).1 = .error e := by
  intro fuel
  induction fuel with
  | zero =>
    intro found s mapper r _ hr
    exact absurd hr (by simp [unmapRangeLoop])
  | succ fuel ih =>
    intro found s mapper r h hr
    rw [unmapRangeLoop] at hr
    cases hkey : s.firstOverlapKey startVpn endVpn with
    | none =>
      rw [hkey] at hr
      rw [← some.inj hr]
      exact ⟨h, fun _ => hkey, fun e he hallow => by simp [hallow] at he⟩
    | some k =>
      rw [hkey] at hr
      dsimp only at hr
      have hnext := hI s mapper k h hkey
      rcases hstep : s.unmapStep arch maxMapCount mapper k startVpn endVpn with ⟨e | _, s', m'⟩
      · rw [hstep] at hr hnext
        rw [← some.inj hr]
        refine ⟨hnext, by simp, fun e' he _ => ⟨s, mapper, k, h, hkey, ?_⟩⟩
        rw [hstep]
        exact congrArg _ (Except.error.inj he)
      · rw [hstep] at hr hnext
        exact ih true s' m' r hnext hr

/-- **The loop of `unmap_range`** keeps the invariant, whatever number of rounds it makes. -/
theorem unmapRangeLoop_inv {found : Bool} {r : Except Errno Bool × VmaSet × M} (h : Inv arch s)
    (hr : unmapRangeLoop arch maxMapCount startVpn endVpn allowEmpty fuel found s mapper = some r) :
    Inv arch r.2.1 :=
  (unmapRangeLoop_rule (fun _ mapper k h _ => h.unmapStep mapper _ k ..) _ _ _ _ r h hr).1

open Classical in
/-- The mapped pages of a range: the measure of the loop. -/
noncomputable def mappedIn (s : VmaSet) (startVpn endVpn : ℕ) : Finset ℕ :=
  (Finset.Ico startVpn endVpn).filter fun p => Mapped s.vmas p

open Classical in
theorem mem_mappedIn :
    p ∈ mappedIn s startVpn endVpn ↔ (startVpn ≤ p ∧ p < endVpn) ∧ Mapped s.vmas p := by
  rw [mappedIn, Finset.mem_filter, Finset.mem_Ico]

open Classical in
theorem card_mappedIn_le (s : VmaSet) (startVpn endVpn : ℕ) :
    (mappedIn s startVpn endVpn).card ≤ endVpn - startVpn := by
  rw [← Nat.card_Ico]
  exact Finset.card_filter_le _ _

/-- **`unmap_range` returns.**  Every successful round unmaps a page of the range. -/
theorem unmapRangeLoop_isSome : ∀ (fuel : ℕ) (found : Bool) (s : VmaSet) (mapper : M), Inv arch s →
      (mappedIn s startVpn endVpn).card < fuel →
      (unmapRangeLoop arch maxMapCount startVpn endVpn allowEmpty fuel found s mapper).isSome := by
  intro fuel
  induction fuel with
  | zero =>
    intro found s mapper _ hcard
    exact absurd hcard (by omega)
  | succ fuel ih =>
    intro found s mapper h hcard
    rw [unmapRangeLoop]
    cases s.firstOverlapKey startVpn endVpn with
    | none => rfl
    | some k =>
      dsimp only
      rcases unmapStep_cases h mapper maxMapCount k startVpn endVpn with
        ⟨e, hstep, -⟩ | ⟨a, s', mapper', hk, -, hstep, hlt, hinv, -, hpages⟩
      · rw [hstep]
        rfl
      · rw [hstep]
        refine ih true s' mapper' hinv (lt_of_lt_of_le ?_ (Nat.le_of_lt_succ hcard))
        have hmapped : ∀ p, Mapped s'.vmas p ↔
            Mapped s.vmas p ∧ ¬ (overlapStart a startVpn ≤ p ∧ p < overlapEnd a endVpn) := by
          intro p
          rw [← not_iff_not, ← pageAt_eq_none_iff hinv.map, hpages p]
          grind [pageAt_eq_none_iff, h.map]
        refine Finset.card_lt_card ⟨fun p hp => ?_, fun hsub => ?_⟩
        · grind [mem_mappedIn]
        · have hmem : overlapStart a startVpn ∈ mappedIn s' startVpn endVpn := by
            refine hsub (mem_mappedIn.mpr ⟨?_, k, a, hk, ?_⟩)
            · grind [overlapStart, overlapEnd]
            · grind [overlapStart, overlapEnd, h.map.key]
          exact ((hmapped _).mp (mem_mappedIn.mp hmem).2).2 ⟨le_rfl, hlt⟩

section

variable (h : Inv arch s) {a b : Vma}
include h

theorem exists_unmapRange (mapper : M) (startVpn endVpn : ℕ) (allowEmpty : Bool) :
    ∃ r, s.unmapRange arch maxMapCount mapper startVpn endVpn allowEmpty = some r := by
  refine isSome_iff_exists.mp (unmapRangeLoop_isSome _ _ _ _ h ?_)
  have hle := card_mappedIn_le s startVpn endVpn
  omega

/-! ## Changing mappings in place -/

/-- A mapping may be replaced by one of the same pages that counts the same. -/
theorem Inv.updateVma (hk : s.vmas.get? k = some a)
    (hstart : b.vmStart = a.vmStart) (hend : b.vmEnd = a.vmEnd) (huser : b.vmIsUser = a.vmIsUser)
    (hfits : b.Fits) : Inv arch (s.updateVma k b) := by
  have hpay := h.owing.updateVma hk rfl hstart hend.ge hend.le hfits
  have hareas : userAreas b = userAreas a := by
    unfold userAreas
    rw [huser]
  have hpages : userPages b = userPages a := by
    unfold userPages areaPageCount
    rw [huser, hstart, hend]
  exact (hpay.settle hend.ge (by omega) (by omega)).1

/-- Pages may come and go inside a mapping. -/
theorem Inv.updateVma_of_sameShape
    (hk : s.vmas.get? k = some a) (hshape : a.SameShape b) : Inv arch (s.updateVma k b) :=
  h.updateVma hk hshape.vmStart hshape.vmEnd
    (by unfold vmIsUser; rw [hshape.mapPerm]) (Fits_of_sameShape hshape (h.map.fits k a hk))

/-- **`protect_area`** on a user mapping, with permissions that keep the user bit. -/
theorem Inv.protectArea (mapper : M) (hk : s.vmas.get? k = some a) (huser : a.vmIsUser = true)
    (hprot : prot.contains .U = true) : Inv arch (s.protectArea mapper k prot).2.1 := by
  unfold VmaSet.protectArea
  rw [hk]
  have hfits := h.map.fits k a hk
  exact h.updateVma hk rfl rfl (hprot.trans huser.symm) ⟨hfits.vmEnd_le, hfits.offset_le⟩

end

/-- The view of a page with other permissions. -/
def withPerm (prot : MapPermission) (v : PageView) : PageView := { v with mapPerm := prot }

theorem protectArea_view (h : MapInv s.vmas) (hk : s.vmas.get? k = some a) (mapper : M) :
    let result := s.protectArea mapper k prot
    result.1 = .ok () ∧ MapInv result.2.1.vmas ∧ ∀ p, pageAt result.2.1.vmas p = if a.vmStart ≤ p ∧
      p < a.vmEnd then (pageAt s.vmas p).map (withPerm prot) else pageAt s.vmas p := by
  have hfits := h.fits k a hk
  have hupdate : MapInv (s.updateVma k { a with mapPerm := prot }).vmas ∧
      ∀ p, pageAt (s.updateVma k { a with mapPerm := prot }).vmas p =
        if a.vmStart ≤ p ∧ p < a.vmEnd then some ({ a with mapPerm := prot }.pageView p)
        else pageAt s.vmas p :=
    h.updateVma hk rfl rfl ⟨hfits.vmEnd_le, hfits.offset_le⟩
  unfold protectArea
  rw [hk]
  refine ⟨rfl, hupdate.1, fun p => (hupdate.2 p).trans ?_⟩
  split_ifs with hp
  · rw [pageAt_of_get? h hk hp]
    rfl
  · rfl

/-- No mapping goes across the beginning of a page. -/
def Begins (s : VmaSet) (p : ℕ) : Prop :=
  ∀ k a, s.vmas.get? k = some a → a.vmStart < p → a.vmEnd ≤ p

/-- The limit has room for the cuts of a range that begins at a page. -/
def Room (maxMapCount : ℕ) (s : VmaSet) (p : ℕ) : Prop :=
  s.userAreaCount < maxMapCount ∨ s.userAreaCount ≤ maxMapCount ∧ Begins s p

section

variable {cursor stop : ℕ} {area : Vma}

/-- With room a cut is not refused. -/
theorem Room.split (hroom : Room maxMapCount s cursor) (hk : s.vmas.get? k = some area)
    (hin : area.vmStart ≤ cursor ∧ cursor < area.vmEnd) :
    s.userAreaCount + splitAdditional area cursor stop ≤ maxMapCount + 1 := by
  unfold splitAdditional
  rcases hroom with hlt | ⟨hle, hbegins⟩
  · split_ifs <;> omega
  · have hstart : cursor = area.vmStart := by
      by_contra hne
      have hend := hbegins k area hk (by omega)
      omega
    split_ifs <;> omega

/-- A mapping that ends at a page leaves nothing that goes across its beginning. -/
theorem begins_of_get? {a : Vma} (h : MapInv s.vmas) (hk : s.vmas.get? k = some a)
    (hend : a.vmEnd = stop) : Begins s stop := by
  intro j b hj hlt
  by_contra hcross
  have hne := h.nonempty hk
  have hkey := h.key k a hk
  have hkey' := h.key j b hj
  have hjk := h.spaced.eq_of_common (p := stop - 1) hj hk ⟨by omega, by omega⟩ ⟨by omega, by omega⟩
  rw [hjk, hk] at hj
  rw [← some.inj hj] at hcross
  omega

end

/-- **A round of the second pass of `protect_range`.**  It fails and nothing has changed, because
there is no page of the user or no room, or the pages up to the next stop have the new
permissions. -/
theorem protectLoop_cases (h : MapInv s.vmas) {cursor : ℕ} (hlt : cursor < endVpn) (mapper : M) :
    (∃ e, protectLoop maxMapCount endVpn prot (fuel + 1) cursor s mapper = (.error e, s, mapper) ∧
      (e = .EINVAL ∨ e = .ENOMEM) ∧ ((∃ v, pageAt s.vmas cursor = some v ∧
        v.mapPerm.contains .U = true) → ¬ Room maxMapCount s cursor)) ∨
    ∃ stop s' mapper', cursor < stop ∧ stop ≤ endVpn ∧
      protectLoop maxMapCount endVpn prot (fuel + 1) cursor s mapper =
        protectLoop maxMapCount endVpn prot fuel stop s' mapper' ∧ MapInv s'.vmas ∧
      (∀ arch, Inv arch s → prot.contains .U = true → Inv arch s') ∧
      (Room maxMapCount s cursor → stop < endVpn → Room maxMapCount s' stop) ∧
      ∀ p, pageAt s'.vmas p = if cursor ≤ p ∧ p < stop then (pageAt s.vmas p).map (withPerm prot)
        else pageAt s.vmas p := by
  rw [protectLoop, if_pos hlt]
  cases hkey : s.findUserVmaKey cursor with
  | none =>
    refine .inl ⟨_, rfl, .inr rfl, fun ⟨v, hv, huser⟩ => ?_⟩
    obtain ⟨k, -, -, -, -, hfind⟩ := exists_of_pageAt h hv
    cases hkey.symm.trans (hfind huser)
  | some k =>
    obtain ⟨area, hk, huser, hstart, hend⟩ := findUserVmaKey_eq_some hkey
    dsimp only
    rw [hk]
    dsimp only
    generalize hstop : (if area.vmEnd < endVpn then area.vmEnd else endVpn) = stop
    have hbounds : cursor < stop ∧ stop ≤ endVpn ∧ stop ≤ area.vmEnd ∧
        (stop < endVpn → stop = area.vmEnd) := by
      split_ifs at hstop <;> omega
    rcases splitForRange_cases h maxMapCount k cursor stop with ⟨e, hsplit, hreason⟩ |
      ⟨area', target, left, right, s', hs, -, hsplit⟩
    · rw [hsplit]
      refine .inl ⟨e, rfl, hreason.imp And.left And.left, fun _ hroom => ?_⟩
      rcases hreason with ⟨-, hbad⟩ | ⟨-, hfull⟩
      · exact hbad area hk ⟨hstart, hbounds.2.2.1, hbounds.1⟩
      · exact absurd (hfull area hk) (not_lt.mpr (hroom.split hk ⟨hstart, hend⟩))
    · cases hk.symm.trans hs.get
      obtain ⟨stored, hget, hshape⟩ := hs.stored
      obtain ⟨hmap, hpages⟩ := hs.pages h
      obtain ⟨hok, hmap', hview⟩ := protectArea_view hmap hget mapper
      have hupdate : (s'.protectArea mapper target.vmStart prot).2.1 =
          s'.updateVma target.vmStart { stored with mapPerm := prot } := by
        rw [protectArea, hget]
      rw [hsplit]
      dsimp only
      rcases hp : s'.protectArea mapper target.vmStart prot with ⟨e | _, s'', m''⟩
      · rw [hp] at hok
        cases hok
      · rw [hp] at hmap' hview hupdate
        refine .inr ⟨stop, s'', m'', hbounds.1, hbounds.2.1, rfl, hmap', fun arch hinv hprot => ?_,
          fun hroom hmore => .inr ⟨?_, ?_⟩, fun p => ?_⟩
        · have huser' : stored.vmIsUser = true := by
            rw [vmIsUser, hshape.mapPerm, hs.parts.split.1.mapPerm]
            exact huser
          have hprotect := (hs.inv hinv).protectArea mapper hget huser' hprot
          rw [hp] at hprotect
          exact hprotect
        · -- the cut at the left end is the only one before the last round
          have hcount : s''.userAreaCount = s.userAreaCount + splitAdditional area cursor stop := by
            rw [show s'' = _ from hupdate]
            exact hs.count.trans (by rw [if_pos huser])
          rw [hcount, splitAdditional, hbounds.2.2.2 hmore]
          rcases hroom with hroom | ⟨hroom, hbegins⟩
          · split_ifs <;> omega
          · have hbegin : cursor = area.vmStart := by
              by_contra hne
              have hle := hbegins k area hk (by omega)
              omega
            rw [if_pos ⟨hbegin, rfl⟩]
            exact hroom
        · refine begins_of_get? (k := target.vmStart) (a := { stored with mapPerm := prot }) hmap'
            ?_ (hshape.vmEnd.trans hs.stop)
          rw [show s'' = _ from hupdate, updateVma, OrdMap.get?_insert_self]
        · rw [hview p, hshape.vmStart, hshape.vmEnd, hs.start, hs.stop, hpages p]

/-- **The second pass of `protect_range`.** -/
theorem Inv.protectLoop (hprot : prot.contains .U = true) :
    ∀ (fuel cursor : ℕ) (s : VmaSet) (mapper : M), Inv arch s →
      Inv arch (protectLoop maxMapCount endVpn prot fuel cursor s mapper).2.1 := by
  intro fuel
  induction fuel with
  | zero => exact fun _ _ _ h => h
  | succ fuel ih =>
    intro cursor s mapper h
    by_cases hlt : cursor < endVpn
    · rcases protectLoop_cases h.map hlt mapper with
        ⟨e, heq, -⟩ | ⟨stop, s', mapper', -, -, heq, -, hinv, -⟩
      · rw [heq]
        exact h
      · rw [heq]
        exact ih stop s' mapper' (hinv arch h hprot)
    · rw [VmaSet.protectLoop, if_neg hlt]
      exact h

theorem Inv.protectRange (h : Inv arch s) (mapper : M) (startVpn endVpn : ℕ)
    (hprot : prot.contains .U = true) :
    Inv arch (s.protectRange maxMapCount mapper startVpn endVpn prot).2.1 := by
  unfold VmaSet.protectRange
  split
  · exact h
  · exact Inv.protectLoop hprot _ _ s mapper h

/-- A part is split off and marked; the mark changes neither pages nor permissions. -/
theorem Inv.splitAndMark (h : Inv arch s) {mark : Vma → Vma}
    (hmark : ∀ a : Vma, a.SameShape (mark a)) :
    Inv arch (s.splitAndMark maxMapCount k startVpn endVpn mark).2 := by
  unfold VmaSet.splitAndMark
  rcases splitForRange_cases h.map maxMapCount k startVpn endVpn with ⟨e, hsplit, -⟩ |
    ⟨area, target, left, right, s', hs, -, hsplit⟩
  · rw [hsplit]
    exact h
  · obtain ⟨stored, hget, -⟩ := hs.stored
    rw [hsplit]
    dsimp only
    rw [hget]
    exact (hs.inv h).updateVma_of_sameShape hget (hmark stored)

/-- **One round of `advise_range`**, for every advice. -/
theorem Inv.adviseStep (h : Inv arch s) (maxMapCount advice : ℕ) (mapper : M) {area : Vma}
    (hk : s.vmas.get? k = some area) (cursor adviseEnd : ℕ) :
    Inv arch (s.adviseStep maxMapCount advice mapper k area cursor adviseEnd).2.1 := by
  unfold VmaSet.adviseStep
  split_ifs
  any_goals exact h
  · grind [discardRange_sameShape, h.updateVma_of_sameShape]
  all_goals exact h.splitAndMark fun a => ⟨rfl, rfl, rfl, rfl, rfl⟩

theorem Inv.adviseLoop {advice : ℕ} : ∀ (fuel cursor : ℕ) (s : VmaSet) (mapper : M), Inv arch s →
      Inv arch (adviseLoop maxMapCount advice endVpn fuel cursor s mapper).2.1 := by
  intro fuel
  induction fuel with
  | zero =>
    intro cursor s mapper h
    exact h
  | succ fuel ih =>
    intro cursor s mapper h
    rw [VmaSet.adviseLoop]
    split_ifs
    · cases hkey : s.findUserVmaKey cursor with
      | none => exact h
      | some k =>
        obtain ⟨area, hk, -⟩ := findUserVmaKey_eq_some hkey
        dsimp only
        rw [hk]
        grind [h.adviseStep]
    · exact h

end Mapped

theorem Inv.clear : Inv arch (s.clear arch) := by
  have h := Inv.new arch
  exact ⟨h.map, h.holes, h.cover, h.areaCount, h.pageCount⟩

/-! ## Growing in place -/

/-- The walk of `is_mmap_range_free` sees every page of the range in a hole. -/
theorem inHole_of_rangeFreeLoop {holes : OrdMap ℕ ℕ} {endVpn : ℕ} :
    ∀ (fuel cursor : ℕ), endVpn - cursor ≤ fuel → rangeFreeLoop holes endVpn fuel cursor = true →
      ∀ p, cursor ≤ p → p < endVpn → InHole holes p := by
  intro fuel
  induction fuel with
  | zero =>
    intro cursor hfuel _ p h₁ h₂
    omega
  | succ fuel ih =>
    intro cursor hfuel hfree p h₁ h₂
    rw [rangeFreeLoop, if_pos (by omega)] at hfree
    cases hlast : holes.lastLE? cursor with
    | none =>
      rw [hlast] at hfree
      cases hfree
    | some hole =>
      have hget := OrdMap.lastLE?_eq_some_iff.mp hlast
      rw [hlast] at hfree
      dsimp only at hfree
      split_ifs at hfree
      · rcases lt_or_ge p hole.2 with hp | hp
        · exact ⟨hole.1, hole.2, hget.1, by omega, hp⟩
        · exact ih hole.2 (by omega) hfree p hp h₂
      · exact ⟨hole.1, hole.2, hget.1, by omega, by simp only [id]; omega⟩

theorem inHole_of_isMmapRangeFree {startVpn endVpn : ℕ}
    (hfree : s.isMmapRangeFree arch startVpn endVpn = true) (h₁ : startVpn ≤ p)
    (h₂ : p < endVpn) : InHole s.mmapHoles p := by
  unfold isMmapRangeFree at hfree
  cases hclip : clipMmapRange arch startVpn endVpn with
  | none =>
    rw [hclip] at hfree
    cases hfree
  | some range =>
    rw [hclip] at hfree
    dsimp only at hfree
    split_ifs at hfree
    exact inHole_of_rangeFreeLoop _ _ le_rfl hfree p h₁ h₂

theorem Inv.tryMergeLazyPrivateMmap (h : Inv arch s) (startVa len : ℕ) (prot : MapPermission)
    (flags : MapFlags) : Inv arch (s.tryMergeLazyPrivateMmap arch startVa len prot flags).2 := by
  unfold VmaSet.tryMergeLazyPrivateMmap
  split_ifs
  · exact h
  dsimp only
  split_ifs with hbusy
  · exact h
  cases hlast : s.vmas.lastLE? (floor startVa) with
  | none => exact h
  | some e =>
    have hget := OrdMap.lastLE?_eq_some_iff.mp hlast |>.1
    dsimp only
    by_cases hno : (decide (e.2.vmEnd ≠ floor startVa) ||
        !e.2.vmCanMergeLazyPrivate prot flags) = true
    · rw [if_pos hno]
      exact h
    rw [if_neg hno]
    rw [Bool.or_eq_true, not_or, decide_eq_true_eq, not_not, Bool.not_eq_true',
      Bool.not_eq_false] at hno
    obtain ⟨hadj, hmerge⟩ := hno
    have hfile : e.2.mapFile = none := by simp_all [vmCanMergeLazyPrivate]
    have hfree : ∀ p, floor startVa ≤ p → p < ceil (startVa + len) →
        ¬ Mapped s.vmas p := fun p h₁ h₂ =>
      ((h.cover p).mp (inHole_of_isMmapRangeFree (by simpa using hbusy) h₁ h₂)).2
    have howe := h.reserve hfree
    cases hgrow : e.2.expandTo (startVa + len) with
    | error errno => exact howe.release.1
    | ok grown =>
      obtain ⟨hgs, hge, hgp, hgf, -⟩ := expandTo_eq_ok hgrow
      have hle : e.2.vmEnd ≤ grown.vmEnd := by grind [expandTo]
      have hfits : grown.Fits :=
        ⟨hge.le.trans (ceil_le_pageNumRange (by omega)), fun hsome => by
          rw [hgf, hfile] at hsome
          exact absurd hsome (by simp)⟩
      have hpay :=
        howe.updateVma (by simpa using hget) hadj.symm hgs hle hge.le hfits
      rw [userAreas_eq_of_perm hgp] at hpay
      have hcount : grown.areaPageCount = e.2.areaPageCount +
          (grown.areaPageCount - e.2.areaPageCount) := by
        unfold areaPageCount
        omega
      split_ifs
      · have hadd := hpay.addCounts 0 (grown.areaPageCount - e.2.areaPageCount)
        grind [userPages_eq_of_perm, hadd.settle]
      · grind [userPages_eq_of_perm, hpay.settle]

theorem Inv.expandGrowsdownForFault (h : Inv arch s) (faultVpn : ℕ) :
    Inv arch (s.expandGrowsdownForFault arch faultVpn).2 := by
  unfold VmaSet.expandGrowsdownForFault
  cases hfirst : s.vmas.firstGE? faultVpn with
  | none => exact h
  | some e =>
    obtain ⟨hget, -, -⟩ := OrdMap.firstGE?_eq_some_iff.mp hfirst
    dsimp only
    split_ifs with hno hfar hguard hover
    any_goals exact h
    · have hkey := h.map.key _ _ hget
      have hne := h.map.nonempty hget
      have hfits := h.map.fits _ _ hget
      have hlt : faultVpn < e.1 ∧ e.2.vmIsUser = true := by grind
      have howe := (h.reserve (hasOverlap_eq_false h.map hlt.1 (by simpa using hover))).takeVma
        (by simpa using hget) hkey.symm (by omega)
      rw [zero_add, zero_add] at howe
      rw [takeVma_of_get? (by simpa using hget)]
      dsimp only
      cases hgrow : e.2.expandDownTo (ofVpn faultVpn) with
      | error errno =>
        have hback := howe.putVmaRight rfl hne (by omega) hfits
        rw [sub_self, sub_self, hkey] at hback
        exact hback.release.1
      | ok grown =>
        obtain ⟨hgs, hge, hgp, hgf, -⟩ := expandDownTo_eq_ok hgrow
        have hsmall : faultVpn < pageNumRange := by
          have := hfits.vmEnd_le
          omega
        rw [floor_ofVpn hsmall] at hgs
        have hfits' : grown.Fits := ⟨hge.le.trans hfits.vmEnd_le, fun hsome => by
          rw [hgf] at hsome
          exact absurd hsome (by simp)⟩
        dsimp only
        rw [if_pos hlt.2]
        have hpay := (howe.addCounts 0 (grown.areaPageCount - e.2.areaPageCount)).putVma hgs
          (by omega) hge.le hfits'
        have hpages : userPages e.2 = e.2.areaPageCount := if_pos hlt.2
        grind [userPages_eq_of_perm, areaPageCount, userAreas_eq_of_perm, hpay.settle]
end MangoCore.Mm.VmaSet
