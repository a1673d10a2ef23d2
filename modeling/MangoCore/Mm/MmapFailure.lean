import MangoCore.Mm.MmapPlacement

/-!
# What a failing `mmap` leaves behind

`mmap` at a fixed address unmaps the range first and looks at the file, the map count and the frame
allocator afterwards.  When one of those fails, the old mappings are gone.  Without a fixed address
nothing is unmapped, and every failure leaves the address space as it was.

The main result says exactly which requests are safe whatever the limits and the allocator answer.
-/

namespace MangoCore.Mm

open IntervalMap VirtAddr VmaSet Option

/-- The backing of a request is looked at after the old mappings are gone.  For a file that is a
missing file or a bad offset, for writable shared memory the lack of frames. -/
def MmapArgs.backingCanFail (args : MmapArgs) : Bool :=
  if args.flags.contains .MAP_ANONYMOUS then
    args.flags.contains .MAP_SHARED && args.prot.contains .W
  else args.offset % pageSize ≠ 0 || isizeMax < args.offset || args.mapFile.isNone

theorem floor_lt_ceil {start len : ℕ} (hlen : 0 < len) : floor start < ceil (start + len) := by
  unfold floor ceil pageSize
  rw [if_neg (by omega)]
  omega

theorem checkedUserRange_eq_ok {arch : Arch} {start len stop : ℕ}
    (h : checkedUserRange arch start len = .ok stop) :
    stop = start + len ∧ 0 < len ∧ start + len < usizeRange ∧ floor start < ceil stop := by
  unfold checkedUserRange at h
  grind [floor_lt_ceil]

namespace AddressSpace

variable {M : Type} {arch : Arch} {as as' : AddressSpace M} {args : MmapArgs} {env : MmapEnv}
  {startVa maxMapCount : ℕ} {e : Errno} {s : VmaSet}

/-- The same pages are mapped in the same way, to the same frames, and the same pages are locked. -/
structure Unchanged (as as' : AddressSpace M) : Prop where
  pages : ∀ p, pageAt as'.vmas.vmas p = pageAt as.vmas.vmas p
  mapper : as'.mapper = as.mapper
  locked : as'.lockedPages = as.lockedPages

theorem Unchanged.refl : Unchanged as as := ⟨fun _ => rfl, rfl, rfl⟩

/-! ## Storing the new mapping -/

theorem insertVma_cases {area : Vma} :
    (∃ e, s.insertVma arch maxMapCount area = (.error e, s)) ∨
      ∃ t, s.insertVma arch maxMapCount area = (.ok (), t) ∧ s.userAreaCount ≤ maxMapCount := by
  unfold insertVma
  split
  · exact .inl ⟨_, rfl⟩
  split
  · exact .inl ⟨_, rfl⟩
  cases hcan : s.ensureCanAdd maxMapCount 1 with
  | error e => exact .inl ⟨e, rfl⟩
  | ok _ => exact .inr ⟨_, rfl, Nat.le_of_succ_le_succ (ensureCanAdd_eq_ok.mp hcan)⟩

/-- Up to the insertion itself nothing is stored, and the insertion is the last thing that can
fail. -/
theorem mapAt_cases (arch : Arch) (env : MmapEnv) (as : AddressSpace M) (args : MmapArgs)
    (startVa : ℕ) :
    (∃ e, as.mapAt arch env args startVa = (.error e, as)) ∨
      ∃ area₀ area vmas, startVa + args.len < usizeRange ∧
        backFile args (bareArea args startVa) = .ok area₀ ∧ backShared env args area₀ = .ok area ∧
        as.vmas.userAreaCount ≤ env.limits.maxMapCount ∧
        as.vmas.insertVma arch env.limits.maxMapCount area = (.ok (), vmas) ∧
        as.mapAt arch env args startVa = (.ok startVa,
          if args.flags.contains .MAP_LOCKED then
            { as with vmas := vmas }.setLockedPages (floor startVa) (ceil (startVa + args.len)) true
          else { as with vmas := vmas }) := by
  unfold mapAt
  dsimp only
  split
  · exact .inl ⟨_, rfl⟩
  rename_i hoverflow
  split
  · exact .inl ⟨_, rfl⟩
  cases as.vmas.ensureCanAdd env.limits.maxMapCount 1 with
  | error e => exact .inl ⟨e, rfl⟩
  | ok _ =>
    cases backFile args (bareArea args startVa) with
    | error e => exact .inl ⟨e, rfl⟩
    | ok area₀ =>
      dsimp only
      cases hshared : backShared env args area₀ with
      | error e => exact .inl ⟨e, rfl⟩
      | ok area =>
        dsimp only
        rcases insertVma_cases with
          ⟨e, hinsert⟩ | ⟨t, hinsert, hcount⟩
        · exact .inl ⟨e, by rw [hinsert]⟩
        · exact .inr ⟨area₀, area, t, Nat.lt_of_not_le hoverflow, rfl, hshared, hcount, hinsert,
            by rw [hinsert]⟩

/-- A request whose backing cannot fail gets the bare mapping, with its file. -/
theorem back_of_not_fail (h : args.backingCanFail = false) (env : MmapEnv) (startVa : ℕ) :
    ∃ area, backFile args (bareArea args startVa) = .ok area ∧ backShared env args area = .ok area ∧
      area.vmStart = floor startVa ∧ area.vmEnd = ceil (startVa + args.len) := by
  unfold MmapArgs.backingCanFail at h
  unfold backFile backShared
  split_ifs at h with hanon
  · have hnot : sharedAnonymous args (bareArea args startVa) = false := by
      unfold sharedAnonymous
      rw [Bool.and_right_comm]
      exact Bool.and_eq_false_imp.mpr fun hshared => absurd (h.symm.trans hshared) (by decide)
    exact ⟨_, by rw [if_pos hanon], if_neg (by rw [hnot]; decide), rfl, rfl⟩
  · simp only [Bool.or_eq_false_iff, decide_eq_false_iff_not, not_lt, isNone_eq_false_iff] at h
    obtain ⟨inode, hinode⟩ := isSome_iff_exists.mp h.2
    refine ⟨_, by rw [if_neg hanon, if_neg (by simpa using h.1), hinode], if_neg ?_, rfl, rfl⟩
    simp [sharedAnonymous]

/-- A request for some bytes has a first page. -/
theorem exists_pages_bareArea (hlen : 0 < args.len) :
    ∃ n, (bareArea args startVa).vmEnd - (bareArea args startVa).vmStart = n + 1 :=
  Nat.exists_eq_succ_of_ne_zero (Nat.sub_ne_zero_of_lt (floor_lt_ceil hlen))

/-- A request whose backing can fail does fail when no frame is left. -/
theorem mapAt_of_fail (h : args.backingCanFail = true) (hlen : 0 < args.len)
    (hframes : env.frameAlloc = fun _ => none) :
    ∃ e, as.mapAt arch env args startVa = (.error e, as) := by
  rcases mapAt_cases arch env as args startVa with
    herr | ⟨area₀, area, vmas, -, hfile, hshared, -⟩
  · exact herr
  exfalso
  unfold MmapArgs.backingCanFail at h
  unfold backFile at hfile
  split_ifs at h hfile
  · -- the first page of the mapping finds no frame
    rw [← Except.ok.inj hfile, backShared, if_pos] at hshared
    · split_ifs at hshared
      obtain ⟨n, hn⟩ := exists_pages_bareArea hlen
      rw [hn, List.range'_succ, preallocate, hframes] at hshared
      exact absurd hshared (by simp [allocOneZeroedUnmapped])
    · rw [sharedAnonymous, Bool.and_right_comm]
      exact Bool.and_eq_true_iff.mpr ⟨h, rfl⟩
  · -- the file and its offset were found good
    grind

/-- Below the limit, a request whose backing cannot fail gets its mapping. -/
theorem mapAt_of_unmapped (h : MapInv as.vmas.vmas) (hback : args.backingCanFail = false)
    (hlen : 0 < args.len) (hoverflow : startVa + args.len < usizeRange)
    (hfree : ∀ p, floor startVa ≤ p → p < ceil (startVa + args.len) →
      pageAt as.vmas.vmas p = none) (hcount : as.vmas.userAreaCount ≤ env.limits.maxMapCount) :
    ∃ as', as.mapAt arch env args startVa = (.ok startVa, as') := by
  have hlt : floor startVa < ceil (startVa + args.len) := floor_lt_ceil hlen
  have hover := hasOverlap_of_unmapped h hlt hfree
  have hcan : as.vmas.ensureCanAdd env.limits.maxMapCount 1 = .ok () :=
    ensureCanAdd_eq_ok.mpr (Nat.succ_le_succ hcount)
  obtain ⟨area, hfile, hshared, hstart, hend⟩ := back_of_not_fail hback env startVa
  obtain ⟨t, hinsert⟩ : ∃ t, as.vmas.insertVma arch env.limits.maxMapCount area = (.ok (), t) := by
    simp [hstart, hend, hlt, hover, hcan, insertVma, if_neg]
  unfold mapAt
  simp [hoverflow, hover, hcan, hfile, hshared, hinsert, if_neg]

/-! ## Finding a place -/

theorem tryMerge_cases {len : ℕ} {prot : MapPermission} {flags : MapFlags} :
    (∃ e t, s.tryMergeLazyPrivateMmap arch startVa len prot flags = (.error e, t) ∧
        t.vmas = s.vmas) ∨ s.tryMergeLazyPrivateMmap arch startVa len prot flags = (.ok none, s) ∨
      ∃ t, s.tryMergeLazyPrivateMmap arch startVa len prot flags = (.ok (some startVa), t) := by
  unfold tryMergeLazyPrivateMmap
  dsimp only
  split
  · exact .inl ⟨_, _, rfl, rfl⟩
  split
  · exact .inr (.inl rfl)
  grind [releaseMmapRange_vmas, reserveMmapRange_vmas]

theorem eq_of_mapAt_error (h : as.mapAt arch env args startVa = (.error e, as')) : as' = as := by
  rcases mapAt_cases arch env as args startVa with ⟨e', herr⟩ | ⟨_, _, _, -, -, -, -, -, hok⟩
  · rw [herr, Prod.mk.injEq] at h
    exact h.2.symm
  · rw [hok] at h
    cases h

/-- Without a fixed address a failure leaves everything as it was. -/
theorem unchanged_of_placeAuto
    (h : settle arch env args (as.placeAuto arch args) = (.error e, as')) : Unchanged as as' := by
  unfold placeAuto at h
  cases hplace : as.mmapPlacement arch args.start args.len with
  | error e' => grind [settle, Unchanged.refl]
  | ok a =>
    rw [hplace] at h
    dsimp only at h
    split at h
    · rw [eq_of_mapAt_error h]
      exact Unchanged.refl
    rcases tryMerge_cases with
      ⟨e', t, hmerge, hvmas⟩ | hmerge | ⟨t, hmerge⟩
    · rw [hmerge] at h
      rw [← (Prod.mk.inj h).2]
      exact ⟨fun p => by rw [hvmas], rfl, rfl⟩
    · rw [hmerge] at h
      rw [eq_of_mapAt_error h]
      exact Unchanged.refl
    · grind [settle]

/-! ## A fixed address -/

/-- **The requests that are safe at a fixed address.**  If the first mapped page of the range
belongs to the user, it is going to be unmapped; then all others must belong to the user as well,
and the backing must be sure.  If nothing is mapped there, locks may still be dropped, left behind
by a heap that shrank; then the limit must be out of reach as well. -/
structure FixedSafe (as : AddressSpace M) (args : MmapArgs) (lo hi : ℕ) : Prop where
  mapped : ∀ q v, FirstPage as.vmas lo hi q v → v.mapPerm.contains .U = true →
    UserPages as.vmas lo hi ∧ args.backingCanFail = false
  locked : (∀ p, lo ≤ p → p < hi → pageAt as.vmas.vmas p = none) →
    ∀ p, lo ≤ p → p < hi → p ∈ as.lockedPages →
      args.backingCanFail = false ∧ as.vmas.userAreaCount = 0

section Mapper

variable {r : Except Errno Bool × VmaSet × M} [UserMapper M] {pf : Platform} {stop : ℕ}

/-- A fixed address is refused at once, or it is outside the trap window and free if needed. -/
theorem placeFixed_cases {startVpn endVpn : ℕ} {placed : Except Errno Place × AddressSpace M}
    (hplaced : as.placeFixed pf env args startVpn endVpn = some placed) :
    (∃ e, placed = (.error e, as)) ∨ (pf.intersectsTrapWindow startVpn endVpn = false ∧
        (args.flags.contains .MAP_FIXED_NOREPLACE && as.vmas.hasOverlap startVpn endVpn)
          = false) := by
  unfold placeFixed at hplaced
  grind

/-- The place at a fixed address, once the range is unmapped. -/
def placedAfter (as : AddressSpace M) (args : MmapArgs) (endVpn : ℕ)
    (r : Except Errno Bool × VmaSet × M) : Except Errno Place × AddressSpace M :=
  match r.1 with
  | .error e => (.error e, { as with vmas := r.2.1, mapper := r.2.2 })
  | .ok _ => (.ok (.at args.start), { as with vmas := r.2.1, mapper := r.2.2 }.setLockedPages
      (floor args.start) endVpn false)

/-- A fixed address that is not refused. -/
structure Allowed (pf : Platform) (as : AddressSpace M) (args : MmapArgs) (stop : ℕ) : Prop where
  range : checkedUserRange pf.toArch args.start args.len = .ok stop
  trap : pf.intersectsTrapWindow (floor args.start) (ceil stop) = false
  replace : (args.flags.contains .MAP_FIXED_NOREPLACE &&
    as.vmas.hasOverlap (floor args.start) (ceil stop)) = false

/-- What a fixed address does once it is not refused. -/
theorem placeFixed_eq (hat : Allowed pf as args stop)
    (hr : as.vmas.unmapRange pf.toArch env.limits.maxMapCount as.mapper (floor args.start)
      (ceil stop) true = some r) : as.placeFixed pf env args (floor args.start) (ceil stop) =
      some (placedAfter as args (ceil stop) r) := by
  rw [placeFixed, hat.trap, hat.replace, unmapUserRange, hr]
  cases hok : r.1 <;> simp [placedAfter, hok]

section

variable {placed : Except Errno Place × AddressSpace M} (h : Inv pf.toArch as.vmas)
  (hat : Allowed pf as args stop)
include h hat

/-- Once the range is unmapped, a sure backing is stored there. -/
theorem mapAt_of_unmapRange {b : Bool}
    (hr : as.vmas.unmapRange pf.toArch maxMapCount as.mapper (floor args.start) (ceil stop) true
      = some r) (hb : r.1 = .ok b) (hback : args.backingCanFail = false)
    (hcount : r.2.1.userAreaCount ≤ env.limits.maxMapCount) :
    ∃ as₂, ({ as with vmas := r.2.1, mapper := r.2.2 }.setLockedPages (floor args.start)
      (ceil stop) false).mapAt pf.toArch env args args.start = (.ok args.start, as₂) := by
  obtain ⟨rfl, hlen, hoverflow, -⟩ := checkedUserRange_eq_ok hat.range
  have hgone := (unmapRangeLoop_cut h hr).2 ⟨b, hb⟩
  have hinv := unmapRangeLoop_inv h hr
  exact mapAt_of_unmapped hinv.map hback hlen hoverflow (fun p h₁ h₂ => hgone p ⟨h₁, h₂⟩) hcount

variable (hplaced : as.placeFixed pf env args (floor args.start) (ceil stop) = some placed)
include hplaced

/-- Nothing is mapped in the range.  Then all that a failure can change are locks. -/
theorem eq_of_placeFixed_unmapped (hfree : ∀ p, floor args.start ≤ p → p < ceil stop →
      pageAt as.vmas.vmas p = none) :
    placed = (.ok (.at args.start), as.setLockedPages (floor args.start) (ceil stop) false) := by
  obtain ⟨rfl, -, -, hlt⟩ := checkedUserRange_eq_ok hat.range
  rw [placeFixed_eq hat (unmapRange_of_unmapped h.map hlt hfree), some.injEq] at hplaced
  exact hplaced.symm

variable {e : Errno} (hsettle : settle pf.toArch env args placed = (.error e, as'))
include hsettle

/-- Something is mapped in the range.  If the request is safe, a failure comes before the first page
goes. -/
theorem unchanged_of_placeFixed_mapped {q : ℕ} {v : PageView}
    (hfirst : FirstPage as.vmas (floor args.start) (ceil stop) q v)
    (hsafe : v.mapPerm.contains .U = true → UserPages as.vmas (floor args.start)
      (ceil stop) ∧ args.backingCanFail = false) : Unchanged as as' := by
  obtain ⟨rfl, hlen, hoverflow, hlt⟩ := checkedUserRange_eq_ok hat.range
  obtain ⟨r, hr⟩ := exists_unmapRange h as.mapper
    (floor args.start) (ceil (args.start + args.len)) true
  rw [placeFixed_eq hat hr, some.injEq] at hplaced
  rw [← hplaced] at hsettle
  rcases unmapRange_of_user h hlt hfirst (fun hu => (hsafe hu).1) hr with
    ⟨e', rfl, -⟩ | ⟨⟨b, hb⟩, hcount, hall⟩
  · rw [← (Prod.mk.inj hsettle).2]
    exact Unchanged.refl
  -- the range is unmapped, and the new mapping is stored
  have hback := (hsafe (hall _ _ hfirst.mem.1 hfirst.mem.2 hfirst.page)).2
  obtain ⟨as₂, hok⟩ := mapAt_of_unmapRange h hat hr hb hback hcount
  rw [placedAfter, hb] at hsettle
  cases congrArg Prod.fst (hok.symm.trans hsettle)

/-- **A safe request at a fixed address.** -/
theorem unchanged_of_placeFixed (hsafe : FixedSafe as args (floor args.start) (ceil stop)) :
    Unchanged as as' := by
  obtain ⟨rfl, hlen, hoverflow, hlt⟩ := checkedUserRange_eq_ok hat.range
  by_cases hfree : ∀ p, floor args.start ≤ p →
      p < ceil (args.start + args.len) → pageAt as.vmas.vmas p = none
  · rw [eq_of_placeFixed_unmapped h hat hplaced hfree] at hsettle
    by_cases hlocked : ∃ p, floor args.start ≤ p ∧
        p < ceil (args.start + args.len) ∧ p ∈ as.lockedPages
    · obtain ⟨p, h₁, h₂, hp⟩ := hlocked
      obtain ⟨hback, hcount⟩ := hsafe.locked hfree p h₁ h₂ hp
      obtain ⟨as₂, hok⟩ : ∃ as₂, (as.setLockedPages (floor args.start)
          (ceil (args.start + args.len)) false).mapAt pf.toArch env args args.start
            = (.ok args.start, as₂) :=
        mapAt_of_unmapped h.map hback hlen hoverflow hfree (hcount.trans_le bot_le)
      cases congrArg Prod.fst (hok.symm.trans hsettle)
    · rw [eq_of_mapAt_error hsettle]
      refine ⟨fun _ => rfl, rfl, Finset.sdiff_eq_self_of_disjoint ?_⟩
      grind [Finset.disjoint_left]
  · grind [exists_firstPage, unchanged_of_placeFixed_mapped, hsafe.mapped]

end

/-! ## Requests that are not safe -/

/-- No frame is left, and the limit on the number of mappings is as given. -/
def noFrames (maxMapCount : ℕ) : MmapEnv where
  limits := ⟨maxMapCount, 1, 0, 0⟩
  frameAlloc _ := none
  reserve _ := true

theorem doMmap_fixed (hfixed : isFixed args.flags = true) (haligned : args.start % pageSize = 0)
    (hat : Allowed pf as args stop)
    (hr : as.vmas.unmapRange pf.toArch maxMapCount as.mapper (floor args.start)
      (ceil stop) true = some r) : doMmap pf (noFrames maxMapCount) as args =
      some (settle pf.toArch (noFrames maxMapCount) args (placedAfter as args (ceil stop) r)) := by
  grind [noFrames, placeFixed_eq, doMmap, Limits.overcommitAllows, hat.range]

/-- A request that is not safe fails, for some answers, after it unmapped or unlocked a page. -/
theorem fixedSafe_of_unchanged (h : Inv pf.toArch as.vmas)
    (hfixed : isFixed args.flags = true) (haligned : args.start % pageSize = 0)
    (hat : Allowed pf as args stop)
    (hkeep : ∀ env e as', doMmap pf env as args = some (.error e, as') → Unchanged as as') :
    FixedSafe as args (floor args.start) (ceil stop) := by
  obtain ⟨rfl, hlen, hoverflow, hlt⟩ := checkedUserRange_eq_ok hat.range
  constructor
  · intro q v hfirst hv
    -- with room for two more mappings, the first round unmaps the page
    obtain ⟨r, hr⟩ := exists_unmapRange h as.mapper
      (floor args.start) (ceil (args.start + args.len)) true
    have hgone := pageAt_first_of_unmapRange h hlt hfirst hv hr
    have hmmap := doMmap_fixed hfixed haligned hat hr
    -- so the call must not fail after all
    have hnot : ∀ e as', doMmap pf (noFrames (as.vmas.userAreaCount + 1)) as args =
        some (.error e, as') → pageAt as'.vmas.vmas q ≠ none := by
      intro e as' herr
      rw [(hkeep _ e as' herr).pages q, hfirst.page]
      simp
    cases hresult : r.1 with
    | error e => grind [settle, placedAfter.eq_1]
    | ok b =>
      refine ⟨userPages_of_unmapRange h hr hresult, ?_⟩
      by_contra hback
      rw [Bool.not_eq_false] at hback
      rw [placedAfter, hresult] at hmmap
      obtain ⟨e, herr⟩ : ∃ e, ({ as with vmas := r.2.1, mapper := r.2.2 }.setLockedPages
          (floor args.start) (ceil (args.start + args.len)) false).mapAt
            pf.toArch (noFrames (as.vmas.userAreaCount + 1)) args args.start = (.error e, _) :=
        mapAt_of_fail hback hlen rfl
      exact absurd hgone (hnot e _ (hmmap.trans (congrArg some herr)))
  · intro hfree p h₁ h₂ hp
    have hmmap : ∀ maxMapCount, doMmap pf (noFrames maxMapCount) as args = some
        ((as.setLockedPages (floor args.start)
          (ceil (args.start + args.len)) false).mapAt pf.toArch (noFrames maxMapCount) args
            args.start) :=
      fun maxMapCount => doMmap_fixed hfixed haligned hat (unmapRange_of_unmapped h.map hlt hfree)
    have hnot : ∀ maxMapCount e, (as.setLockedPages (floor args.start)
        (ceil (args.start + args.len)) false).mapAt pf.toArch (noFrames maxMapCount) args
          args.start ≠ (.error e, as.setLockedPages (floor args.start)
            (ceil (args.start + args.len)) false) := by
      intro maxMapCount e herr
      have hlocked := (hkeep _ e _ ((hmmap maxMapCount).trans (congrArg some herr))).locked
      rw [← hlocked] at hp
      exact (Finset.mem_sdiff.mp hp).2 (Finset.mem_Ico.mpr ⟨h₁, h₂⟩)
    constructor
    · by_contra hback
      rw [Bool.not_eq_false] at hback
      obtain ⟨e, herr⟩ : ∃ e, (as.setLockedPages (floor args.start)
          (ceil (args.start + args.len)) false).mapAt pf.toArch (noFrames 0) args
            args.start = (.error e, _) := mapAt_of_fail hback hlen rfl
      exact hnot 0 e herr
    · -- a limit of one mapping is exceeded by any user mapping and the new one
      by_contra hcount
      rcases mapAt_cases pf.toArch (noFrames 0) (as.setLockedPages (floor args.start)
          (ceil (args.start + args.len)) false) args args.start with
        ⟨e, herr⟩ | ⟨_, _, _, -, -, -, hle, -⟩
      · exact hnot 0 e herr
      · exact hcount (Nat.le_zero.mp hle)

/-! ## The result -/

/-- The requests that change nothing when they fail: those without a fixed address, those that are
refused before anything is unmapped, and those that are safe at their address. -/
def MmapSafe (pf : Platform) (as : AddressSpace M) (args : MmapArgs) : Prop :=
  isFixed args.flags = true → args.start % pageSize = 0 →
    ∀ stop, checkedUserRange pf.toArch args.start args.len = .ok stop →
      pf.intersectsTrapWindow (floor args.start) (ceil stop) = false →
      (args.flags.contains .MAP_FIXED_NOREPLACE &&
        as.vmas.hasOverlap (floor args.start) (ceil stop)) = false →
      FixedSafe as args (floor args.start) (ceil stop)

/-- **Which failures of `mmap` change nothing.**  For every address space and every request, all
failures leave the mappings, the page table and the locked pages as they were, whatever the limits
are and whatever the frame allocator answers, exactly if the request is safe. -/
theorem unchanged_of_doMmap_iff (h : Inv pf.toArch as.vmas) (args : MmapArgs) :
    (∀ env e as', doMmap pf env as args = some (.error e, as') → Unchanged as as') ↔
      MmapSafe pf as args := by
  constructor
  · intro hkeep hfixed haligned stop hrange htrap hreplace
    exact fixedSafe_of_unchanged h hfixed haligned ⟨hrange, htrap, hreplace⟩ hkeep
  · intro hsafe env e as' herr
    rcases doMmap_cases herr with ⟨-, -, rfl⟩ |
      ⟨stop, placed, haligned, hrange, ⟨hfixed, hplaced⟩ | ⟨-, hplaced⟩, hsettle⟩
    · exact Unchanged.refl
    · rcases placeFixed_cases hplaced with ⟨e', rfl⟩ | ⟨htrap, hreplace⟩
      · rw [← (Prod.mk.inj hsettle).2]
        exact Unchanged.refl
      · exact unchanged_of_placeFixed h ⟨hrange, htrap, hreplace⟩ hplaced hsettle
          (hsafe hfixed haligned stop hrange htrap hreplace)
    · rw [← hplaced] at hsettle
      exact unchanged_of_placeAuto hsettle

/-- One writable anonymous page, over the first of the two pages. -/
def onePageFixed (type : MapFlags) : MmapArgs where
  start := 0x20000000
  len := pageSize
  prot := .union .R (.union .W .U)
  flags := .union .MAP_FIXED (.union .MAP_ANONYMOUS type)
  offset := 0
  mapFile := none
  mayWrite := true
  writeSealed := false

/-- A private page may be mapped over another one. -/
theorem unchanged_of_onePageFixed : MmapSafe .riscv twoPagesSpace (onePageFixed .MAP_PRIVATE) ∧
      ∀ env e as', doMmap .riscv env twoPagesSpace (onePageFixed .MAP_PRIVATE)
        = some (.error e, as') → Unchanged twoPagesSpace as' := by
  have hsafe : MmapSafe .riscv twoPagesSpace (onePageFixed .MAP_PRIVATE) := by
    intro _ _ stop hstop _ _
    cases hstop
    refine ⟨fun _ _ _ _ => ⟨fun p v h₁ h₂ hp => ?_, by decide⟩,
      fun _ p _ _ hp => absurd hp (Finset.notMem_empty p)⟩
    have hp' : p = 0x20000 := le_antisymm (Nat.le_of_lt_succ h₂) h₁
    have huser : (pageAt twoPagesSet.vmas 0x20000).all
        fun v => v.mapPerm.contains .U := by
      decide
    rw [hp'] at hp
    rw [show pageAt twoPagesSet.vmas 0x20000 = some v from hp] at huser
    exact huser
  exact ⟨hsafe, (unchanged_of_doMmap_iff inv_twoPagesSet _).mpr hsafe⟩

/-- **A shared page replaces a private one although there is no frame for it**: the call fails, and
the private page is gone. -/
theorem page_lost_of_doMmap : (pageAt twoPagesSpace.vmas.vmas 0x20000).isSome = true ∧
      ∃ as', doMmap .riscv (noFrames 8) twoPagesSpace (onePageFixed .MAP_SHARED)
          = some (.error .ENOMEM, as') ∧ pageAt as'.vmas.vmas 0x20000 = none :=
  ⟨by decide, _, rfl, by decide +kernel⟩

end Mapper

end AddressSpace
end MangoCore.Mm
