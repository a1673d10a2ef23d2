import MangoCore.Mm.MmapFailure

/-!
# What a successful `mmap` leaves

The mapping that `mmap` stores fits the address space and its file, so `mmap` keeps the invariant of
the set of mappings.  At a fixed address the pages of the range become pages of the new mapping, and
all other pages stay.
-/

namespace MangoCore.Mm

open IntervalMap VirtAddr VmaSet Option VmPageStore

variable {arch : Arch} {maxMapCount stop len start : ℕ} {s t : VmaSet} {a : Vma}
  {prot : MapPermission}

theorem len_lt_of_checkedUserRange
    (h : checkedUserRange arch start len = .ok stop) : len < 2 ^ 63 := by
  have hend := arch.userVaEnd_lt
  unfold checkedUserRange at h
  grind

/-! ## Storing a mapping -/

theorem VmPageStore.allocInMemory_vpnRange (s : VmPageStore) (key ppn : ℕ) (reserve : Bool) :
    (s.allocInMemory key ppn reserve).2.vpnRange = s.vpnRange := by
  unfold allocInMemory recordActive
  split
  · dsimp only
    split
    all_goals split_ifs <;> rfl
  · rfl

theorem VmaSet.insertVma_eq_ok
    (h : MapInv s.vmas) (hok : s.insertVma arch maxMapCount a = (.ok (), t)) :
    a.vmStart < a.vmEnd ∧ (∀ p, a.vmStart ≤ p → p < a.vmEnd → ¬ Mapped s.vmas p) ∧
      t.vmas = ((s.reserveMmapRange arch a.vmStart a.vmEnd).putVma a).vmas := by
  unfold insertVma at hok
  split at hok
  · cases hok
  rename_i hne
  split at hok
  · cases hok
  rename_i hover
  have hlt := Nat.lt_of_not_le hne
  refine ⟨hlt, hasOverlap_eq_false h hlt (Bool.not_eq_true _ ▸ hover), ?_⟩
  grind

/-- `insert_vma` stores a mapping where nothing was mapped. -/
theorem VmaSet.insertVma_pages (h : MapInv s.vmas) (hfits : a.Fits)
    (hok : s.insertVma arch maxMapCount a = (.ok (), t)) (p : ℕ) : pageAt t.vmas p =
      if a.vmStart ≤ p ∧ p < a.vmEnd then some (a.pageView p) else pageAt s.vmas p := by
  obtain ⟨hlt, hfree, hvmas⟩ := insertVma_eq_ok h hok
  have hmap : MapInv (s.reserveMmapRange arch a.vmStart a.vmEnd).vmas := by
    rw [reserveMmapRange_vmas]
    exact h
  obtain ⟨-, hpages⟩ := hmap.putVma hlt hfits fun p h₁ h₂ => by
    rw [reserveMmapRange_vmas]
    exact (pageAt_eq_none_iff h).mpr (hfree p h₁ h₂)
  grind [reserveMmapRange_vmas]

namespace AddressSpace

variable {M : Type} {arch : Arch} {as as' : AddressSpace M} {args : MmapArgs} {env : MmapEnv}
  {startVa addr : ℕ} {r : Except Errno ℕ}

/-- Frames that are allocated at once change the pages of a mapping only. -/
theorem preallocate_sameShape :
    ∀ (vpns : List ℕ) (area area' : Vma), preallocate env vpns area = .ok area' →
      area.SameShape area' := by
  intro vpns
  induction vpns with
  | nil => simp [preallocate, Vma.SameShape.refl]
  | cons vpn vpns ih =>
    intro area area' h
    rw [preallocate] at h
    cases hone : allocOneZeroedUnmapped area vpn (env.frameAlloc vpn) (env.reserve vpn) with
    | error e =>
      rw [hone] at h
      cases e <;> cases h
    | ok next =>
      rw [hone] at h
      refine Vma.SameShape.trans ?_ (ih next area' h)
      unfold allocOneZeroedUnmapped at hone
      cases hframe : env.frameAlloc vpn with
      | none =>
        rw [hframe] at hone
        cases hone
      | some ppn =>
        rw [hframe] at hone
        dsimp only at hone
        have hrange := allocInMemory_vpnRange area.inner vpn ppn (env.reserve vpn)
        rcases halloc : area.inner.allocInMemory vpn ppn (env.reserve vpn) with ⟨_ | _, inner⟩
        · rw [halloc] at hone
          cases hone
        · grind [Vma.sameShape_of_vpnRange]

/-- The mapping that is stored covers the request, and fits. -/
theorem fits_of_back {area₀ area : Vma} (hlen : args.len < 2 ^ 63)
    (hoverflow : startVa + args.len < usizeRange)
    (hfile : backFile args (bareArea args startVa) = .ok area₀)
    (hshared : backShared env args area₀ = .ok area) : area.Fits ∧ area.vmStart = floor startVa ∧
      area.vmEnd = ceil (startVa + args.len) := by
  have hend : ceil (startVa + args.len) ≤ pageNumRange :=
    ceil_le_pageNumRange hoverflow
  have hbase : area₀.Fits ∧ area₀.vmStart = floor startVa ∧
      area₀.vmEnd = ceil (startVa + args.len) := by
    unfold backFile at hfile
    split_ifs at hfile with hanon hbad
    · rw [← Except.ok.inj hfile]
      exact ⟨⟨hend, fun h => absurd h Bool.false_ne_true⟩, rfl, rfl⟩
    · cases hinode : args.mapFile with
      | none =>
        rw [hinode] at hfile
        cases hfile
      | some inode =>
        rw [hinode] at hfile
        rw [← Except.ok.inj hfile]
        refine ⟨⟨hend, fun _ => ?_⟩, rfl, rfl⟩
        show args.offset +
          (ceil (startVa + args.len) - floor startVa) * pageSize ≤ usizeRange
        simp only [Bool.or_eq_true, decide_eq_true_eq, not_or, not_lt, ne_eq, not_not] at hbad
        unfold isizeMax pageSize at hbad
        unfold ceil floor pageSize usizeRange
        split_ifs <;> omega
  unfold backShared at hshared
  split_ifs at hshared
  · have hshape := preallocate_sameShape _ _ _ hshared
    grind [Fits_of_sameShape, hshape.vmStart, hshape.vmEnd]
  · rw [← Except.ok.inj hshared]
    exact hbase

/-! ## The invariant and the break -/

/-- What a mapping call leaves: mappings that are in order, and the break where it was. -/
structure MapStep (arch : Arch) (as as' : AddressSpace M) : Prop where
  inv : Inv arch as'.vmas
  heapBottom : as'.heapBottom = as.heapBottom
  heapPt : as'.heapPt = as.heapPt

theorem MapStep.refl (h : Inv arch as.vmas) : MapStep arch as as := ⟨h, rfl, rfl⟩

theorem MapStep.trans {as₁ : AddressSpace M} (h : MapStep arch as as₁) (h' : MapStep arch as₁ as') :
    MapStep arch as as' :=
  ⟨h'.inv, h'.heapBottom.trans h.heapBottom, h'.heapPt.trans h.heapPt⟩

theorem MapStep.setLockedPages (h : MapStep arch as as') {lo hi : ℕ} {locked : Bool} :
    MapStep arch as (as'.setLockedPages lo hi locked) :=
  ⟨h.inv, h.heapBottom, h.heapPt⟩

theorem mapStep_of_mapAt (h : Inv arch as.vmas) (hlen : args.len < 2 ^ 63)
    (hmap : as.mapAt arch env args startVa = (r, as')) : MapStep arch as as' := by
  rcases mapAt_cases arch env as args startVa with
    ⟨e, herr⟩ | ⟨area₀, area, vmas, hoverflow, hfile, hshared, -, hinsert, hok⟩
  · rw [herr, Prod.mk.injEq] at hmap
    rw [← hmap.2]
    exact .refl h
  · have hinv : Inv arch vmas := by
      grind [VmaSet.Inv.insertVma, fits_of_back]
    rw [hok, Prod.mk.injEq] at hmap
    rw [← hmap.2]
    split_ifs
    all_goals exact ⟨hinv, rfl, rfl⟩

theorem mapStep_placeAuto (args : MmapArgs) (h : Inv arch as.vmas) :
    MapStep arch as (as.placeAuto arch args).2 := by
  unfold placeAuto
  cases as.mmapPlacement arch args.start args.len with
  | error e => exact .refl h
  | ok a =>
    dsimp only
    split
    · exact .refl h
    have hmerge := h.tryMergeLazyPrivateMmap a args.len args.prot args.flags
    split
    all_goals
      rename_i hsome
      rw [hsome] at hmerge
      exact ⟨hmerge, rfl, rfl⟩

section Mapper

variable {limits : Limits} {allowEmpty : Bool} {r : Except Errno Bool} {startVpn endVpn : ℕ}
  [UserMapper M] {pf : Platform}

theorem mapStep_of_unmapUserRange (h : Inv arch as.vmas)
    (hr : as.unmapUserRange arch limits startVpn endVpn allowEmpty = some (r, as')) :
    MapStep arch as as' := by
  obtain ⟨r', hr', heq⟩ := map_eq_some_iff.mp hr
  rw [← (Prod.mk.inj heq).2]
  exact ⟨unmapRangeLoop_inv h hr', rfl, rfl⟩

/-- All that a fixed address does to the address space before the new mapping is stored. -/
theorem placeFixed_space {as₁ : AddressSpace M} {place : Except Errno Place}
    (hplaced : as.placeFixed pf env args startVpn endVpn = some (place, as₁)) : as₁ = as ∨ ∃ r as₂,
      as.unmapUserRange pf.toArch env.limits startVpn endVpn true = some (r, as₂) ∧
        (as₁ = as₂ ∨ as₁ = as₂.setLockedPages startVpn endVpn false) := by
  unfold placeFixed at hplaced
  split_ifs at hplaced
  any_goals exact .inl (Prod.mk.inj (some.inj hplaced)).2.symm
  · grind [map_eq_some_iff]

/-- **`mmap` keeps the invariant** and the break, whether it succeeds or not. -/
theorem mapStep_of_doMmap (h : Inv pf.toArch as.vmas) {r : Except Errno ℕ}
    (hmmap : doMmap pf env as args = some (r, as')) : MapStep pf.toArch as as' := by
  rcases doMmap_cases hmmap with ⟨-, -, rfl⟩ |
    ⟨stop, ⟨place, as₁⟩, haligned, hrange, hplaced, hsettle⟩
  · exact .refl h
  have hlen : args.len < 2 ^ 63 := len_lt_of_checkedUserRange hrange
  have hplace : MapStep pf.toArch as as₁ := by
    rcases hplaced with ⟨-, hplaced⟩ | ⟨-, hplaced⟩
    · rcases placeFixed_space hplaced with rfl | ⟨result, as₂, hunmap, rfl | rfl⟩
      · exact .refl h
      · exact mapStep_of_unmapUserRange h hunmap
      · exact (mapStep_of_unmapUserRange h hunmap).setLockedPages
    · have hauto := mapStep_placeAuto args h
      rw [hplaced] at hauto
      exact hauto
  cases place with
  | error e =>
    rw [← (Prod.mk.inj hsettle).2]
    exact hplace
  | ok place =>
    rcases place with a | a
    · exact hplace.trans (mapStep_of_mapAt hplace.inv hlen hsettle)
    · rw [← (Prod.mk.inj hsettle).2]
      exact hplace

/-- All that `munmap` does to the address space. -/
theorem munmap_space {r : Except Errno Unit}
    (hr : as.munmap arch limits start len = some (r, as')) :
    as' = as ∨ ∃ result as₂, as.unmapUserRange arch limits (floor start)
        (ceil (start + len)) true = some (result, as₂) ∧
      (as' = as₂ ∨ as' = as₂.setLockedPages (floor start) (ceil (start + len)) false) := by
  obtain ⟨⟨result, as₁⟩, hdo, heq⟩ := map_eq_some_iff.mp hr
  unfold doMunmap at hdo
  cases hrange : checkedUserRange arch start len with
  | error e => grind
  | ok stop =>
    obtain ⟨rfl, -⟩ := checkedUserRange_eq_ok hrange
    rw [hrange] at hdo
    split_ifs at hdo
    · grind
    · grind [map_eq_some_iff]

theorem mapStep_mprotect (h : Inv arch as.vmas) (hprot : prot.contains .U = true) :
    MapStep arch as (as.mprotect arch limits addr len prot).2 := by
  unfold mprotect
  split
  · exact .refl h
  split
  · exact .refl h
  split
  · exact .refl h
  · exact ⟨by grind [protectUserRange, VmaSet.Inv.protectRange], rfl, rfl⟩

/-! ## Pages -/

/-- A range that is unmapped with success has no page left; the others stay. -/
theorem pages_of_unmapUserRange (h : Inv arch as.vmas) {found : Bool}
    (hr : as.unmapUserRange arch limits startVpn endVpn allowEmpty = some (.ok found, as'))
    (p : ℕ) : pageAt as'.vmas.vmas p =
      if startVpn ≤ p ∧ p < endVpn then none else pageAt as.vmas.vmas p := by
  obtain ⟨r, hr', heq⟩ := map_eq_some_iff.mp hr
  obtain ⟨hcut, hgone⟩ := unmapRangeLoop_cut h hr'
  obtain ⟨hresult, has⟩ := Prod.mk.inj heq
  rw [← has]
  split_ifs with hp
  · exact hgone ⟨found, hresult⟩ p hp
  · exact hcut.outside p hp

section

variable (h : Inv pf.toArch as.vmas)
include h

/-- **A mapping at a fixed address.** -/
theorem pages_of_placeFixed
    {a : ℕ} (hrange : checkedUserRange pf.toArch args.start args.len = .ok stop)
    {placed : Except Errno Place × AddressSpace M}
    (hplaced : as.placeFixed pf env args (floor args.start) (ceil stop)
      = some placed) (hsettle : settle pf.toArch env args placed = (.ok a, as')) :
    ∃ area₀ area, backFile args (bareArea args args.start) = .ok area₀ ∧
      backShared env args area₀ = .ok area ∧ ∀ p, pageAt as'.vmas.vmas p =
        if floor args.start ≤ p ∧ p < ceil stop then some (area.pageView p)
        else pageAt as.vmas.vmas p := by
  obtain ⟨rfl, -, -, -⟩ := checkedUserRange_eq_ok hrange
  have hlen := len_lt_of_checkedUserRange hrange
  unfold placeFixed at hplaced
  split_ifs at hplaced
  any_goals grind [settle]
  obtain ⟨⟨result, as₁⟩, hunmap, heq⟩ := map_eq_some_iff.mp hplaced
  cases result with
  | error e => grind [settle]
  | ok found =>
    rw [← heq] at hsettle
    have hinv := (mapStep_of_unmapUserRange h hunmap).inv
    have hpages := pages_of_unmapUserRange h hunmap
    change (as₁.setLockedPages _ _ false).mapAt _ _ _ _ = _ at hsettle
    rcases mapAt_cases pf.toArch env (as₁.setLockedPages (floor args.start)
        (ceil (args.start + args.len)) false) args args.start with
      ⟨e, herr⟩ | ⟨area₀, area, vmas, hoverflow, hfile, hshared, -, hinsert, hok⟩
    · grind
    · refine ⟨area₀, area, hfile, hshared, fun p => ?_⟩
      obtain ⟨hfits, hstart, hend⟩ := fits_of_back hlen hoverflow hfile hshared
      have hstored := insertVma_pages hinv.map hfits hinsert p
      rw [hok, Prod.mk.injEq] at hsettle
      have hvmas : as'.vmas = vmas := by
        rw [← hsettle.2]
        split_ifs <;> rfl
      rw [hvmas, hstored, hstart, hend, hpages p]
      split_ifs <;> rfl

/-- A request at a fixed address with a sure backing, over user pages only, changes no page when it
fails. -/
theorem pages_of_doMmap_error {e : Errno}
    (hfixed : isFixed args.flags = true) (hback : args.backingCanFail = false)
    (huser : UserPages as.vmas (floor args.start) (ceil (args.start + args.len)))
    (herr : doMmap pf env as args = some (.error e, as')) (p : ℕ) :
    pageAt as'.vmas.vmas p = pageAt as.vmas.vmas p := by
  rcases doMmap_cases herr with ⟨-, -, rfl⟩ |
    ⟨stop, placed, -, hrange, ⟨-, hplaced⟩ | ⟨hauto, -⟩, hsettle⟩
  · rfl
  · obtain ⟨rfl, -, -, hlt⟩ := checkedUserRange_eq_ok hrange
    rcases placeFixed_cases hplaced with ⟨e', rfl⟩ | ⟨htrap, hreplace⟩
    · rw [← (Prod.mk.inj hsettle).2]
    by_cases hfree : ∀ p, floor args.start ≤ p →
        p < ceil (args.start + args.len) → pageAt as.vmas.vmas p = none
    · rw [eq_of_placeFixed_unmapped h ⟨hrange, htrap, hreplace⟩ hplaced hfree] at hsettle
      rw [eq_of_mapAt_error hsettle]
      rfl
    · push Not at hfree
      obtain ⟨j, h₁, h₂, hj⟩ := hfree
      obtain ⟨q, v, hfirst⟩ := exists_firstPage ⟨h₁, h₂⟩ hj
      exact (unchanged_of_placeFixed_mapped h ⟨hrange, htrap, hreplace⟩ hplaced hsettle hfirst
        (fun _ => ⟨huser, hback⟩)).pages p
  · rw [hfixed] at hauto
    exact absurd hauto (by decide)

end

end Mapper

end AddressSpace
end MangoCore.Mm
