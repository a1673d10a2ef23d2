import MangoCore.Mm.VmaSetReachable

/-!
# What `munmap` and `mprotect` do to the pages

`unmap_range` removes the pages of its range and `protect_range` changes their permissions, and
neither does anything else, even when it fails half way.  On pages of the user, and with room for
two more mappings, both succeed (`pages_of_unmapRange_protectRange`).

`unmap_range` works in rounds.  A round takes the first mapping that meets the range.  It fails if
that is not a user mapping, or if the cut would exceed the limit on the number of mappings, and then
it changed nothing.  The limit can stop the first round only.  Once that one is through, the first
page of the range is unmapped, so every mapping left in the range begins there, and cutting it adds
at most one mapping before one is taken away.
-/

namespace MangoCore.Mm

open IntervalMap VmaSet Option

namespace VmaSet

variable {arch : Arch} {s t : VmaSet} {k startVpn endVpn maxMapCount : ℕ} {a : Vma}

/-! ## Unmapping -/

/-- The pages outside a range are untouched, those inside are untouched or gone. -/
structure Cut (s t : VmaSet) (startVpn endVpn : ℕ) : Prop where
  map : MapInv t.vmas
  outside : ∀ p, ¬ (startVpn ≤ p ∧ p < endVpn) → pageAt t.vmas p = pageAt s.vmas p
  inside : ∀ p, pageAt t.vmas p = pageAt s.vmas p ∨ pageAt t.vmas p = none

theorem Cut.refl (h : MapInv s.vmas) : Cut s s startVpn endVpn :=
  ⟨h, fun _ _ => rfl, fun _ => .inl rfl⟩

theorem Cut.trans {u : VmaSet} (h : Cut s t startVpn endVpn)
    (h' : Cut t u startVpn endVpn) : Cut s u startVpn endVpn := by
  refine ⟨h'.map, fun p hp => (h'.outside p hp).trans (h.outside p hp), fun p => ?_⟩
  grind [h'.inside, h.inside]

section Mapper

variable {M : Type} [UserMapper M] {prot : MapPermission} {mapper : M} {allowEmpty : Bool}
  {r : Except Errno Bool × VmaSet × M} {q : ℕ} {v : PageView} {found : Bool} {fuel : ℕ}

theorem unmapStep_cut (h : Inv arch s) :
    Cut s (s.unmapStep arch maxMapCount mapper k startVpn endVpn).2.1 startVpn endVpn := by
  rcases unmapStep_cases h mapper maxMapCount k startVpn endVpn with
    ⟨e, hstep, -⟩ | ⟨a, s', mapper', -, -, hstep, -, hinv, -, hpages⟩
  · rw [hstep]
    exact .refl h.map
  · rw [hstep]
    refine ⟨hinv.map, fun p hp => (hpages p).trans (if_neg ?_), fun p => ?_⟩
    · grind [overlapStart, overlapEnd]
    · rw [hpages p]
      split_ifs
      · exact .inr rfl
      · exact .inl rfl

/-- **The loop of `unmap_range`**: what it cuts is inside the range, and when it ends well nothing
of the range is left. -/
theorem unmapRangeLoop_cut (h : Inv arch s)
    (hr : unmapRangeLoop arch maxMapCount startVpn endVpn allowEmpty fuel found s mapper = some r) :
    Cut s r.2.1 startVpn endVpn ∧ ((∃ b, r.1 = .ok b) → ∀ p, startVpn ≤ p ∧ p < endVpn →
      pageAt r.2.1.vmas p = none) := by
  obtain ⟨⟨hinv, hcut⟩, hend, -⟩ := unmapRangeLoop_rule
    (I := fun t => Inv arch t ∧ Cut s t startVpn endVpn)
    (fun t mapper k ht _ => ⟨ht.1.unmapStep mapper _ k .., ht.2.trans (unmapStep_cut ht.1)⟩)
    fuel found s mapper r ⟨h, .refl h.map⟩ hr
  exact ⟨hcut, fun hok p hp => firstOverlapKey_eq_none hinv.map (hend hok) hp⟩

/-! ## Protecting -/

/-- **The second pass of `protect_range`**, from a cursor on: the pages outside are untouched, those
inside keep everything but perhaps their permissions, and when it ends well all of them have the new
ones. -/
theorem protectLoop_view :
    ∀ (fuel cursor : ℕ) (s : VmaSet) (mapper : M), MapInv s.vmas → endVpn - cursor ≤ fuel →
      let result := protectLoop maxMapCount endVpn prot fuel cursor s mapper
      (∀ p, pageAt result.2.1.vmas p = pageAt s.vmas p ∨ ((cursor ≤ p ∧ p < endVpn) ∧
          pageAt result.2.1.vmas p = (pageAt s.vmas p).map (withPerm prot))) ∧
      (result.1 = .ok () → ∀ p, pageAt result.2.1.vmas p =
          if cursor ≤ p ∧ p < endVpn then (pageAt s.vmas p).map (withPerm prot)
          else pageAt s.vmas p) := by
  intro fuel
  induction fuel with
  | zero => grind [protectLoop]
  | succ fuel ih =>
    intro cursor s mapper h hfuel
    by_cases hlt : cursor < endVpn
    · rcases protectLoop_cases h hlt mapper with
        ⟨e, heq, -⟩ | ⟨stop, s', mapper', hcursor, hstop, heq, hmap, -, -, hround⟩
      · rw [heq]
        exact ⟨fun p => .inl rfl, by simp⟩
      · rw [heq]
        obtain ⟨hany, hall⟩ := ih stop s' mapper' hmap (by omega)
        refine ⟨fun p => ?_, fun hdone p => ?_⟩
        · by_cases cursor ≤ p ∧ p < stop
          all_goals grind
        · grind
    · rw [protectLoop, if_neg hlt]
      grind

/-- The second pass never fails for a reason of permissions. -/
theorem protectLoop_errno :
    ∀ (fuel cursor : ℕ) (s : VmaSet) (mapper : M) (e : Errno), MapInv s.vmas →
      (protectLoop maxMapCount endVpn prot fuel cursor s mapper).1 = .error e →
      e = .EINVAL ∨ e = .ENOMEM := by
  intro fuel
  induction fuel with
  | zero => simp [protectLoop]
  | succ fuel ih =>
    intro cursor s mapper e h he
    by_cases hlt : cursor < endVpn
    · rcases protectLoop_cases h hlt mapper with
        ⟨e', heq, herrno, -⟩ | ⟨stop, s', mapper', -, -, heq, hmap, -⟩
      · rw [heq] at he
        rwa [← Except.error.inj he]
      · rw [heq] at he
        exact ih stop s' mapper' e hmap he
    · rw [protectLoop, if_neg hlt] at he
      cases he

/-- A page of the user that may get the permissions. -/
def PageView.Allows (prot : MapPermission) (v : PageView) : Prop :=
  v.mapPerm.contains .U = true ∧ (prot.contains .W = true → v.flags.contains .MAP_SHARED = true →
    v.writeSealed = false ∧ v.mayWrite = true)

/-- The first pass finds nothing against the permissions if no page does. -/
theorem protectCheckLoop_ok (h : MapInv s.vmas) :
    ∀ fuel cursor, (∀ p, cursor ≤ p → p < endVpn →
      ∃ v, pageAt s.vmas p = some v ∧ PageView.Allows prot v) →
      s.protectCheckLoop endVpn prot fuel cursor = .ok () := by
  intro fuel
  induction fuel with
  | zero => exact fun _ _ => rfl
  | succ fuel ih =>
    intro cursor hpages
    rw [protectCheckLoop]
    split_ifs with hlt
    · obtain ⟨v, hv, huser, hwrite⟩ := hpages cursor le_rfl hlt
      obtain ⟨k, a, hk, hin, rfl, hfind⟩ := exists_of_pageAt h hv
      rw [hfind huser]
      dsimp only
      rw [hk]
      simp only [Bool.and_eq_true, Bool.not_eq_true']
      rw [if_neg, if_neg]
      · refine ih _ fun p h₁ h₂ => hpages p ?_ h₂
        split_ifs at h₁ <;> omega
      · rintro ⟨⟨hw, hshared⟩, hmay⟩
        cases hmay.symm.trans (hwrite hw hshared).2
      · rintro ⟨⟨hw, hshared⟩, hsealed⟩
        cases hsealed.symm.trans (hwrite hw hshared).1
    · rfl

/-- The second pass succeeds on pages of the user if there is room for its cuts. -/
theorem protectLoop_ok :
    ∀ (fuel cursor : ℕ) (s : VmaSet) (mapper : M), MapInv s.vmas →
      (∀ p, cursor ≤ p → p < endVpn →
        ∃ v, pageAt s.vmas p = some v ∧ v.mapPerm.contains .U = true) →
      (cursor < endVpn → Room maxMapCount s cursor) →
      (protectLoop maxMapCount endVpn prot fuel cursor s mapper).1 = .ok () := by
  intro fuel
  induction fuel with
  | zero => exact fun _ _ _ _ _ _ => rfl
  | succ fuel ih =>
    intro cursor s mapper h hpages hroom
    by_cases hlt : cursor < endVpn
    · rcases protectLoop_cases h hlt mapper with
        ⟨e, -, -, hfail⟩ | ⟨stop, s', mapper', hcursor, -, heq, hmap, -, hnext, hround⟩
      · exact absurd (hroom hlt) (hfail (hpages cursor le_rfl hlt))
      · rw [heq]
        refine ih stop s' mapper' hmap (fun p h₁ h₂ => ?_) (hnext (hroom hlt))
        rw [hround p, if_neg (by omega)]
        exact hpages p (by omega) h₂
    · rw [protectLoop, if_neg hlt]

/-! ## All rounds -/

/-- The mapped pages of a range belong to the user. -/
def UserPages (s : VmaSet) (startVpn endVpn : ℕ) : Prop :=
  ∀ p v, startVpn ≤ p → p < endVpn → pageAt s.vmas p = some v → v.mapPerm.contains .U = true

/-- The first page of a mapping in a range. -/
theorem pageAt_overlapStart (h : MapInv s.vmas) (hk : s.vmas.get? k = some a)
    (hover : a.vmStart < endVpn ∧ startVpn < a.vmEnd) (hrange : startVpn < endVpn) :
    startVpn ≤ overlapStart a startVpn ∧ overlapStart a startVpn < endVpn ∧
      pageAt s.vmas (overlapStart a startVpn) = some (a.pageView (overlapStart a startVpn)) := by
  grind [h.nonempty, pageAt_of_get?, overlapStart]

theorem UserPages.vmIsUser (huser : UserPages s startVpn endVpn) (h : MapInv s.vmas)
    (hk : s.vmas.get? k = some a) (hover : a.vmStart < endVpn ∧ startVpn < a.vmEnd)
    (hrange : startVpn < endVpn) : a.vmIsUser = true := by
  obtain ⟨h₁, h₂, hpage⟩ := pageAt_overlapStart h hk hover hrange
  exact huser _ _ h₁ h₂ hpage

theorem roundCost_le (a : Vma) (startVpn endVpn : ℕ) : roundCost a startVpn endVpn ≤ 2 := by
  unfold roundCost splitAdditional
  split_ifs <;> omega

theorem roundCost_le_one (hstart : startVpn ≤ a.vmStart) : roundCost a startVpn endVpn ≤ 1 := by
  grind [overlapStart, roundCost, splitAdditional]

/-- **Later rounds do not fail.**  Once the first page of the range is unmapped, no mapping reaches
into the range from the left, so a round adds at most one mapping before it takes one away. -/
theorem unmapRangeLoop_of_user (hrange : startVpn < endVpn)
    (h : Inv arch s) (huser : UserPages s startVpn endVpn) (hfirst : pageAt s.vmas startVpn = none)
    (hcount : s.userAreaCount ≤ maxMapCount)
    (hr : unmapRangeLoop arch maxMapCount startVpn endVpn true fuel found s mapper = some r) :
    (∃ b, r.1 = .ok b) ∧ r.2.1.userAreaCount ≤ maxMapCount := by
  let I : VmaSet → Prop := fun t => Inv arch t ∧ UserPages t startVpn endVpn ∧
    pageAt t.vmas startVpn = none ∧ t.userAreaCount ≤ maxMapCount
  have hround : ∀ t (mapper : M) k, I t → t.firstOverlapKey startVpn endVpn = some k →
      (t.unmapStep arch maxMapCount mapper k startVpn endVpn).1 = .ok () ∧
        I (t.unmapStep arch maxMapCount mapper k startVpn endVpn).2.1 := by
    rintro t mapper k ⟨h, huser, hfirst, hcount⟩ hkey
    obtain ⟨a, hk, hstart, hend, -⟩ := firstOverlapKey_eq_some h.map hkey
    rcases unmapStep_cases h mapper maxMapCount k startVpn endVpn with
      ⟨e, hstep, hfail⟩ | ⟨a', s', mapper', -, -, hstep, -, hinv, hcount', hpages⟩
    · -- the mapping begins in the range
      have hin : startVpn ≤ a.vmStart := by
        by_contra hlt
        rw [pageAt_of_get? h.map hk ⟨by omega, hend⟩] at hfirst
        cases hfirst
      have hone : roundCost a startVpn endVpn ≤ 1 := roundCost_le_one hin
      rcases hfail a hk ⟨hstart, hend⟩ hrange with hkernel | hfull
      · rw [huser.vmIsUser h.map hk ⟨hstart, hend⟩ hrange] at hkernel
        cases hkernel
      · omega
    · rw [hstep]
      refine ⟨rfl, hinv, fun p v h₁ h₂ hp => ?_, ?_, hcount'⟩
      · rw [hpages p] at hp
        split_ifs at hp
        exact huser p v h₁ h₂ hp
      · rw [hpages startVpn, hfirst, ite_self]
  obtain ⟨⟨-, -, -, hend⟩, -, hfail⟩ := unmapRangeLoop_rule (fun t mapper k ht hkey =>
    (hround t mapper k ht hkey).2) fuel found s mapper r ⟨h, huser, hfirst, hcount⟩ hr
  refine ⟨?_, hend⟩
  cases hresult : r.1 with
  | ok b => exact ⟨b, rfl⟩
  | error e =>
    obtain ⟨t, mapper', k, ht, hkey, herr⟩ := hfail e hresult rfl
    rw [(hround t mapper' k ht hkey).1] at herr
    cases herr

/-- The first mapped page of a range. -/
structure FirstPage (s : VmaSet) (lo hi q : ℕ) (v : PageView) : Prop where
  mem : lo ≤ q ∧ q < hi
  page : pageAt s.vmas q = some v
  min : ∀ p, lo ≤ p → p < q → pageAt s.vmas p = none

theorem exists_firstPage {lo hi p : ℕ} (hp : lo ≤ p ∧ p < hi) (hpage : pageAt s.vmas p ≠ none) :
    ∃ q v, FirstPage s lo hi q v := by
  have hex : ∃ q, (lo ≤ q ∧ q < hi) ∧ pageAt s.vmas q ≠ none := ⟨p, hp, hpage⟩
  obtain ⟨hmem, hne⟩ := Nat.find_spec hex
  obtain ⟨v, hv⟩ := ne_none_iff_exists'.mp hne
  refine ⟨Nat.find hex, v, hmem, hv, fun j h₁ h₂ => ?_⟩
  by_contra hj
  exact Nat.find_min hex h₂ ⟨⟨h₁, by omega⟩, hj⟩

/-- Where nothing is mapped there is nothing to unmap. -/
theorem unmapRange_of_unmapped (h : MapInv s.vmas) (hrange : startVpn < endVpn)
    (hfree : ∀ p, startVpn ≤ p → p < endVpn → pageAt s.vmas p = none) :
    s.unmapRange arch maxMapCount mapper startVpn endVpn true = some (.ok false, s, mapper) := by
  unfold unmapRange
  rw [unmapRangeLoop]
  cases hkey : s.firstOverlapKey startVpn endVpn with
  | none => rfl
  | some k =>
    obtain ⟨a, hk, hstart, hend, -⟩ := firstOverlapKey_eq_some h hkey
    obtain ⟨h₁, h₂, hpage⟩ := pageAt_overlapStart h hk ⟨hstart, hend⟩ hrange
    rw [hfree _ h₁ h₂] at hpage
    cases hpage

section

variable (h : Inv arch s) (hrange : startVpn < endVpn) (hfirst : FirstPage s startVpn endVpn q v)
include h hrange hfirst

/-- The first round, where something is mapped. -/
theorem unmapRange_of_mapped (mapper : M) (maxMapCount : ℕ) :
    ∃ a, overlapStart a startVpn = q ∧ q < overlapEnd a endVpn ∧
      a.vmIsUser = v.mapPerm.contains .U ∧
      ((∃ e, s.unmapRange arch maxMapCount mapper startVpn endVpn true =
            some (.error e, s, mapper) ∧
          (a.vmIsUser = false ∨ maxMapCount + 1 < s.userAreaCount + roundCost a startVpn endVpn)) ∨
        ∃ s' mapper', s.unmapRange arch maxMapCount mapper startVpn endVpn true =
            unmapRangeLoop arch maxMapCount startVpn endVpn true (endVpn - startVpn) true s'
              mapper' ∧ a.vmIsUser = true ∧ Inv arch s' ∧ s'.userAreaCount ≤ maxMapCount ∧
          ∀ p, pageAt s'.vmas p = if overlapStart a startVpn ≤ p ∧ p < overlapEnd a endVpn then none
            else pageAt s.vmas p) := by
  unfold unmapRange
  rw [unmapRangeLoop]
  cases hkey : s.firstOverlapKey startVpn endVpn with
  | none => grind [hfirst.page, firstOverlapKey_eq_none, h.map, hfirst.mem]
  | some k =>
    obtain ⟨a, hk, hstart, hend, hleast⟩ := firstOverlapKey_eq_some h.map hkey
    obtain ⟨h₁, h₂, hpage'⟩ := pageAt_overlapStart h.map hk ⟨hstart, hend⟩ hrange
    obtain ⟨hq, hpage, hmin⟩ := hfirst
    have hmapped : Mapped s.vmas q := by grind [pageAt_eq_none_iff, h.map]
    have hle := hleast q hq.1 hq.2 hmapped
    have heq : overlapStart a startVpn = q := by grind [overlapStart]
    have hlt := (overlap_bounds (h.map.nonempty hk) ⟨hstart, hend⟩ hrange).2.2
    rw [heq, hpage] at hpage'
    refine ⟨a, heq, heq ▸ hlt, by rw [some.inj hpage']; rfl, ?_⟩
    dsimp only
    rcases unmapStep_cases h mapper maxMapCount k startVpn endVpn with
      ⟨e, hstep, hfail⟩ | ⟨a', s', mapper', hk', huser, hstep, -, hrest⟩
    · exact .inl ⟨e, by rw [hstep], hfail a hk ⟨hstart, hend⟩ hrange⟩
    · cases hk'.symm.trans hk
      exact .inr ⟨s', mapper', by rw [hstep], huser, hrest⟩

/-- **When `unmap_range` fails on user pages, it changed nothing**, and when it does not fail there
is room for one more mapping. -/
theorem unmapRange_of_user (huser : v.mapPerm.contains .U = true → UserPages s startVpn endVpn)
    (hr : s.unmapRange arch maxMapCount mapper startVpn endVpn true = some r) :
    (∃ e, r = (.error e, s, mapper) ∧
        (v.mapPerm.contains .U = false ∨ maxMapCount ≤ s.userAreaCount)) ∨
      ((∃ b, r.1 = .ok b) ∧ r.2.1.userAreaCount ≤ maxMapCount ∧
        UserPages s startVpn endVpn) := by
  obtain ⟨a, hstart, hend, hperm, hcases⟩ :=
    unmapRange_of_mapped h hrange hfirst mapper maxMapCount
  rcases hcases with ⟨e, herr, hreason⟩ | ⟨s', mapper', hloop, huser', hinv, hcount, hpages⟩
  · rw [herr] at hr
    have hcost := roundCost_le a startVpn endVpn
    exact .inl ⟨e, (some.inj hr).symm, hreason.imp (fun hk => hperm ▸ hk) fun hfull => by omega⟩
  · have hall := huser (hperm.symm.trans huser')
    have hhead : pageAt s'.vmas startVpn = none := by grind [hfirst.mem, hfirst.min]
    have hall' : UserPages s' startVpn endVpn := fun p v h₁ h₂ hp => by
      rw [hpages p] at hp
      split_ifs at hp
      exact hall p v h₁ h₂ hp
    rw [hloop] at hr
    obtain ⟨hok, hcount'⟩ := unmapRangeLoop_of_user hrange hinv hall' hhead hcount hr
    exact .inr ⟨hok, hcount', hall⟩

/-- With room for two more mappings, the first mapped page goes if it belongs to the user. -/
theorem pageAt_first_of_unmapRange (huser : v.mapPerm.contains .U = true)
    (hr : s.unmapRange arch (s.userAreaCount + 1) mapper startVpn endVpn true = some r) :
    pageAt r.2.1.vmas q = none := by
  obtain ⟨a, hstart, hend, hperm, hcases⟩ :=
    unmapRange_of_mapped h hrange hfirst mapper (s.userAreaCount + 1)
  rcases hcases with ⟨e, -, hkernel | hfull⟩ | ⟨s', mapper', hloop, -, hinv, -, hpages⟩
  · rw [hperm, huser] at hkernel
    exact absurd hkernel (by decide)
  · have hcost := roundCost_le a startVpn endVpn
    omega
  · rw [hloop] at hr
    have hcut := (unmapRangeLoop_cut hinv hr).1.inside q
    grind

end

/-- A page that does not belong to the user survives. -/
theorem unmapRangeLoop_of_kernel (hv : v.mapPerm.contains .U = false)
    (h : Inv arch s) (hq : pageAt s.vmas q = some v)
    (hr : unmapRangeLoop arch maxMapCount startVpn endVpn allowEmpty fuel found s mapper = some r) :
    pageAt r.2.1.vmas q = some v := by
  refine (unmapRangeLoop_rule (I := fun t => Inv arch t ∧ pageAt t.vmas q = some v)
    (fun t mapper k ht _ => ?_) fuel found s mapper r ⟨h, hq⟩ hr).1.2
  obtain ⟨ht, hq⟩ := ht
  rcases unmapStep_cases ht mapper maxMapCount k startVpn endVpn with
    ⟨e, hstep, -⟩ | ⟨a, s', mapper', hk, huser, hstep, hlt, hinv, -, hpages⟩
  · rw [hstep]
    exact ⟨ht, hq⟩
  · rw [hstep]
    refine ⟨hinv, ?_⟩
    rw [hpages q, if_neg, hq]
    -- the pages that go are pages of a user mapping
    intro hin
    rw [pageAt_of_get? ht.map hk (by grind [overlapStart, overlapEnd])] at hq
    rw [← some.inj hq] at hv
    cases hv.symm.trans huser

/-- So success means that there was none. -/
theorem userPages_of_unmapRange (h : Inv arch s) {b : Bool}
    (hr : s.unmapRange arch maxMapCount mapper startVpn endVpn allowEmpty = some r)
    (hok : r.1 = .ok b) : UserPages s startVpn endVpn := by
  intro p v h₁ h₂ hp
  by_contra hkernel
  rw [Bool.not_eq_true] at hkernel
  have hstays := unmapRangeLoop_of_kernel hkernel h hp hr
  rw [(unmapRangeLoop_cut h hr).2 ⟨b, hok⟩ p ⟨h₁, h₂⟩] at hstays
  cases hstays

/-- Once something was found, the loop does not ask whether it had to be. -/
theorem unmapRangeLoop_found :
    ∀ (fuel : ℕ) (s : VmaSet) (mapper : M),
      unmapRangeLoop arch maxMapCount startVpn endVpn allowEmpty fuel true s mapper =
        unmapRangeLoop arch maxMapCount startVpn endVpn true fuel true s mapper := by
  intro fuel
  induction fuel with
  | zero => exact fun _ _ => rfl
  | succ fuel ih =>
    intro s mapper
    rw [unmapRangeLoop, unmapRangeLoop]
    cases s.firstOverlapKey startVpn endVpn with
    | none => rfl
    | some k =>
      dsimp only
      rcases s.unmapStep arch maxMapCount mapper k startVpn endVpn with ⟨e | _, s', mapper'⟩
      · rfl
      · exact ih s' mapper'

theorem unmapRange_found (h : MapInv s.vmas) {p : ℕ} (hp : startVpn ≤ p ∧ p < endVpn)
    (hpage : pageAt s.vmas p ≠ none) (mapper : M) :
    s.unmapRange arch maxMapCount mapper startVpn endVpn allowEmpty =
      s.unmapRange arch maxMapCount mapper startVpn endVpn true := by
  unfold unmapRange
  rw [unmapRangeLoop, unmapRangeLoop]
  cases hkey : s.firstOverlapKey startVpn endVpn with
  | none => exact absurd (firstOverlapKey_eq_none h hkey hp) hpage
  | some k =>
    dsimp only
    rcases s.unmapStep arch maxMapCount mapper k startVpn endVpn with ⟨e | _, s', mapper'⟩
    · rfl
    · exact unmapRangeLoop_found _ s' mapper'

/-- **When `unmap_range` succeeds**: on a range with pages of the user only, with room for two more
mappings, and something to unmap if there has to be. -/
theorem unmapRange_ok (h : Inv arch s) (hrange : startVpn < endVpn)
    (huser : UserPages s startVpn endVpn) (hroom : s.userAreaCount < maxMapCount)
    (hallow : allowEmpty = true ∨ ∃ p, (startVpn ≤ p ∧ p < endVpn) ∧ pageAt s.vmas p ≠ none)
    (hr : s.unmapRange arch maxMapCount mapper startVpn endVpn allowEmpty = some r) :
    ∃ found, r.1 = .ok found := by
  by_cases hfree : ∃ p, (startVpn ≤ p ∧ p < endVpn) ∧ pageAt s.vmas p ≠ none
  · obtain ⟨p, hp, hpage⟩ := hfree
    obtain ⟨q, v, hfirst⟩ := exists_firstPage hp hpage
    rw [unmapRange_found h.map hp hpage] at hr
    rcases unmapRange_of_user h hrange hfirst (fun _ => huser) hr with
      ⟨e, -, hkernel | hfull⟩ | ⟨hok, -⟩
    · rw [huser q v hfirst.mem.1 hfirst.mem.2 hfirst.page] at hkernel
      cases hkernel
    · omega
    · exact hok
  · have hempty : ∀ p, startVpn ≤ p → p < endVpn → pageAt s.vmas p = none := fun p h₁ h₂ => by
      by_contra hpage
      exact hfree ⟨p, ⟨h₁, h₂⟩, hpage⟩
    rw [hallow.resolve_right hfree, unmapRange_of_unmapped h.map hrange hempty] at hr
    exact ⟨false, by rw [← some.inj hr]⟩

/-! ## The two operations -/

/-- **What `munmap` and `mprotect` do to the pages.**  Unmapping returns; when it succeeds, exactly
the pages outside the range are still mapped, as they were.  When protecting succeeds, exactly the
pages of the range have the new permissions, and keep everything else.  Both succeed on pages of the
user that may get the permissions, with room for two more mappings.  When either fails, the pages
outside the range are untouched all the same, and when protecting fails for a reason of permissions
nothing has changed at all. -/
theorem pages_of_unmapRange_protectRange (h : Inv arch s) (mapper : M)
    (maxMapCount startVpn endVpn : ℕ) : (∀ allowEmpty, ∃ r,
      s.unmapRange arch maxMapCount mapper startVpn endVpn allowEmpty = some r ∧
      ((∃ found, r.1 = .ok found) → ∀ p, pageAt r.2.1.vmas p =
        if startVpn ≤ p ∧ p < endVpn then none else pageAt s.vmas p) ∧
      (startVpn < endVpn → UserPages s startVpn endVpn → s.userAreaCount < maxMapCount →
        (allowEmpty = true ∨ ∃ p, (startVpn ≤ p ∧ p < endVpn) ∧ pageAt s.vmas p ≠ none) →
        ∃ found, r.1 = .ok found) ∧
      ∀ p, ¬ (startVpn ≤ p ∧ p < endVpn) → pageAt r.2.1.vmas p = pageAt s.vmas p) ∧
    ∀ prot, ∀ r, s.protectRange maxMapCount mapper startVpn endVpn prot = r →
      (r.1 = .ok () → ∀ p, pageAt r.2.1.vmas p =
        if startVpn ≤ p ∧ p < endVpn then (pageAt s.vmas p).map (withPerm prot)
        else pageAt s.vmas p) ∧
      ((∀ p, startVpn ≤ p → p < endVpn → ∃ v, pageAt s.vmas p = some v ∧ PageView.Allows prot v) →
        s.userAreaCount < maxMapCount → r.1 = .ok ()) ∧
      (∀ p, ¬ (startVpn ≤ p ∧ p < endVpn) → pageAt r.2.1.vmas p = pageAt s.vmas p) ∧
      (r.1 = .error .EPERM ∨ r.1 = .error .EACCES → r.2 = (s, mapper)) := by
  constructor
  · intro allowEmpty
    obtain ⟨r, hr⟩ := exists_unmapRange h mapper startVpn endVpn allowEmpty
    obtain ⟨hcut, hgone⟩ := unmapRangeLoop_cut h hr
    refine ⟨r, hr, fun hok p => ?_, fun hrange huser hroom hallow =>
      unmapRange_ok h hrange huser hroom hallow hr, hcut.outside⟩
    split_ifs with hp
    · exact hgone hok p hp
    · exact hcut.outside p hp
  · rintro prot r rfl
    unfold protectRange
    cases hcheck : s.protectCheckLoop endVpn prot (endVpn - startVpn) startVpn with
    | error e =>
      refine ⟨fun hok => absurd hok (by simp), fun hpages _ => ?_, fun _ _ => rfl, fun _ => rfl⟩
      cases hcheck.symm.trans (protectCheckLoop_ok h.map _ _ hpages)
    | ok _ =>
      obtain ⟨hany, hall⟩ :=
        protectLoop_view (endVpn - startVpn) startVpn s mapper h.map le_rfl
      refine ⟨hall, fun hpages hroom => ?_,
        fun p hp => (hany p).resolve_right fun hbad => hp hbad.1, fun herr => ?_⟩
      · refine protectLoop_ok _ _ s mapper h.map (fun p h₁ h₂ => ?_) fun _ => .inl hroom
        obtain ⟨v, hv, huser, -⟩ := hpages p h₁ h₂
        exact ⟨v, hv, huser⟩
      · rcases herr with herr | herr
        all_goals exact absurd (protectLoop_errno _ _ s mapper _ h.map herr) (by simp)

/-- The set that holds the two pages only. -/
def twoPagesSet : VmaSet := (insertVma .riscv 8 (new .riscv) twoPages).2

theorem inv_twoPagesSet : Inv .riscv twoPagesSet :=
  (Inv.new .riscv).insertVma (Vma.fits_tryNew _ (by decide) fun h => absurd h (by decide))

/-- Two more pages behind them, in a mapping of their own. -/
def fourPages : VmaSet :=
  (insertVma .riscv 8 twoPagesSet
    (Vma.tryNew 0x20002000 0x20004000 (.union .R .U) none 0 (by decide))).2

theorem inv_fourPages : Inv .riscv fourPages :=
  inv_twoPagesSet.insertVma (Vma.fits_tryNew _ (by decide) fun h => absurd h (by decide))

/-- The two pages in the middle, one of each mapping, become writable, or they are unmapped; the
first and the last page stay as they were. -/
theorem pages_fourPages :
    ((fourPages.protectRange 8 NoPages.mk 0x20001 0x20003 (.union .W .U)).1 = .ok () ∧
      ∀ p, pageAt (fourPages.protectRange 8 NoPages.mk 0x20001 0x20003 (.union .W .U)).2.1.vmas p =
        if 0x20001 ≤ p ∧ p < 0x20003 then (pageAt fourPages.vmas p).map (withPerm (.union .W .U))
        else pageAt fourPages.vmas p) ∧
    ∃ r, fourPages.unmapRange .riscv 8 NoPages.mk 0x20001 0x20003 false = some r ∧
      (∃ found, r.1 = .ok found) ∧ ∀ p, pageAt r.2.1.vmas p =
        if 0x20001 ≤ p ∧ p < 0x20003 then none else pageAt fourPages.vmas p := by
  obtain ⟨hunmap, hprotect⟩ :=
    pages_of_unmapRange_protectRange inv_fourPages NoPages.mk 8 0x20001 0x20003
  have hpages : ∀ p, 0x20001 ≤ p → p < 0x20003 → ∃ v, pageAt fourPages.vmas p = some v ∧
      PageView.Allows (.union .W .U) v := by
    intro p h₁ h₂
    obtain rfl | rfl : p = 0x20001 ∨ p = 0x20002 := by omega
    all_goals exact ⟨_, rfl, by decide, by decide⟩
  obtain ⟨hview, hok, -⟩ := hprotect (.union .W .U) _ rfl
  obtain ⟨r, hr, hgone, hdone, -⟩ := hunmap false
  have hfound := hdone (by decide) (fun p v h₁ h₂ hv => ?_) (by decide)
    (.inr ⟨0x20001, by decide, by decide⟩)
  · exact ⟨⟨hok hpages (by decide), hview (hok hpages (by decide))⟩, r, hr, hfound, hgone hfound⟩
  · obtain ⟨w, hw, huser, -⟩ := hpages p h₁ h₂
    rw [hv] at hw
    rw [some.inj hw]
    exact huser

end Mapper

theorem hasOverlap_of_unmapped (h : MapInv s.vmas) (hrange : startVpn < endVpn)
    (hfree : ∀ p, startVpn ≤ p → p < endVpn → pageAt s.vmas p = none) :
    s.hasOverlap startVpn endVpn = false := by
  have hnot : ¬ ∃ p, startVpn ≤ p ∧ p < endVpn ∧ Covers Vma.vmEnd s.vmas p :=
    fun ⟨p, h₁, h₂, hp⟩ => (pageAt_eq_none_iff h).mp (hfree p h₁ h₂) hp
  rw [h.spaced.exists_covers_iff_neighbours hrange, not_or] at hnot
  unfold hasOverlap
  rw [if_neg (by omega), Bool.or_eq_false_iff]
  constructor
  · grind
  · grind [h.key, OrdMap.firstGE?_eq_some_iff]

end VmaSet
end MangoCore.Mm
