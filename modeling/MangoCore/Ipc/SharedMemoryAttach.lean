import MangoCore.Ipc.SharedMemorySpace

/-!
# Attachments and mappings

`Inv` says that the pages of segments that a process has mapped are those of its recorded
attachments, and that every segment in the registry is in use.  Each call that changes attachments
changes the pages in the same way: `shmat` maps what it records, `shmdt` unmaps the pages of the
attachment that it removes, `fork` copies both, and `exit` drops both.
-/

namespace MangoCore.Ipc.Shm

open MangoCore.Mm Function ShmRegistry List OrdMap ShmState VirtAddr Option Space

variable {s : ShmState} {arch : Arch} {seg old : ShmSegment} {segs : OrdMap ℕ ShmSegment}
  {pid id₀ addr id : ℕ} {r r' : ShmRegistry} {a : ShmAttachment} {size : ℕ}
  {shmid child parent vpn v i : ℕ}

/-! ## The invariant -/

/-- A segment of some size has an attachment. -/
def Holds (segs : OrdMap ℕ ShmSegment) (id : ℕ) (a : ShmAttachment) (size : ℕ) : Prop :=
  ∃ seg, segs.get? id = some seg ∧ a ∈ seg.attachments ∧ seg.size = size

/-- A page of a process that belongs to a recorded attachment, as a page of its segment. -/
def Backed (segs : OrdMap ℕ ShmSegment) (pid vpn id i : ℕ) : Prop :=
  ∃ addr size, Holds segs id ⟨pid, addr⟩ size ∧ vpn = addr / pageSize + i ∧ i < pageCount size

/-- A segment whose attachments make sense, and that is in use. -/
structure Good (arch : Arch) (procs : Finset ℕ) (seg : ShmSegment) : Prop where
  size_pos : 0 < seg.size
  nodup : seg.attachments.Nodup
  aligned : ∀ a ∈ seg.attachments, a.addr % pageSize = 0
  inside : ∀ a ∈ seg.attachments, a.addr + seg.size ≤ arch.userVaEnd
  live : ∀ a ∈ seg.attachments, a.pid ∈ procs
  used : seg.removed = true → seg.attachments ≠ []

/-- **The attachments are the mappings.** -/
structure Inv (arch : Arch) (s : ShmState) : Prop where
  mapped : ∀ pid vpn id i,
    s.space pid vpn = some (.shm id i) ↔ Backed s.registry.segments pid vpn id i
  good : ∀ id seg, s.registry.segments.get? id = some seg → Good arch s.procs seg
  fresh : ∀ id seg, s.registry.segments.get? id = some seg → ∀ n ∈ s.registry.nextId, id < n

theorem Backed.congr {segs' : OrdMap ℕ ShmSegment}
    (h : ∀ id a size, Holds segs' id a size ↔ Holds segs id a size) :
    Backed segs' pid vpn id i ↔ Backed segs pid vpn id i := by
  simp [h, Backed]

theorem holds_insert : Holds (segs.insert id₀ seg) id a size ↔
      if id = id₀ then a ∈ seg.attachments ∧ seg.size = size else Holds segs id a size := by
  grind [Holds, get?_insert]

/-- A segment that gets no other attachments. -/
theorem holds_insert_same
    (seg : ShmSegment) (hold : segs.get? id₀ = some old) (hatt : seg.attachments = old.attachments)
    (hsize : seg.size = old.size) :
    Holds (segs.insert id₀ seg) id a size ↔ Holds segs id a size := by
  rw [holds_insert]
  split_ifs
  · grind [Holds]
  · rfl

theorem holds_removeIfDetached :
    Holds (r.removeIfDetached shmid).segments id a size ↔ Holds r.segments id a size := by
  rw [removeIfDetached.eq_def]
  cases hget : r.segments.get? shmid with
  | none => rfl
  | some seg => grind [Holds, get?_erase]

/-- Freeing unused segments leaves only segments that were there. -/
theorem get?_removeIfDetached (h : (r.removeIfDetached shmid).segments.get? id = some seg) :
    r.segments.get? id = some seg ∧ (id = shmid → seg.removed = true → seg.attachments ≠ []) := by
  rw [removeIfDetached.eq_def] at h
  cases hget : r.segments.get? shmid with
  | none => grind
  | some old =>
    simp only [hget] at h
    split_ifs at h
    · grind [get?_erase]
    · grind

theorem nextId_removeIfDetached : (r.removeIfDetached shmid).nextId = r.nextId := by
  rw [removeIfDetached.eq_def]
  split
  · rfl
  · split_ifs <;> rfl

theorem ShmState.setSpace_space_self {m : Space} : (s.setSpace pid m).space pid = m :=
  update_self ..

theorem ShmState.setSpace_setSpace {m m' : Space} :
    (s.setSpace pid m).setSpace pid m' = s.setSpace pid m' := by
  unfold setSpace
  rw [update_idem]

namespace Inv

variable {s : ShmState} {arch : Arch} {seg : ShmSegment} {r : ShmRegistry}

/-- A change of the registry that keeps all attachments. -/
theorem setRegistry (h : Inv arch s)
    (hholds : ∀ id a size, Holds r.segments id a size ↔ Holds s.registry.segments id a size)
    (hgood : ∀ id seg, r.segments.get? id = some seg → Good arch s.procs seg)
    (hfresh : ∀ id seg, r.segments.get? id = some seg → ∀ n ∈ r.nextId, id < n) :
    Inv arch { s with registry := r } where
  mapped pid vpn id i := (h.mapped pid vpn id i).trans (Backed.congr hholds).symm
  good := hgood
  fresh := hfresh

/-- A change of an address space that keeps the pages of segments. -/
theorem setSpace (h : Inv arch s) {m : Space}
    (hsame : SameShm (s.space pid) m) : Inv arch (s.setSpace pid m) where
  mapped pid' vpn id i := by
    show update s.space pid m pid' vpn = _ ↔ _
    by_cases hpid : pid' = pid
    · subst hpid
      rw [update_self]
      exact (hsame vpn id i).trans (h.mapped pid' vpn id i)
    · rw [update_of_ne hpid]
      exact h.mapped pid' vpn id i
  good := h.good
  fresh := h.fresh

/-- A segment with other attachments, or none. -/
theorem insertSegment (h : Inv arch s) (hsegs : r.segments = s.registry.segments.insert id₀ seg)
    (hholds : ∀ a size, (a ∈ seg.attachments ∧ seg.size = size) ↔
      Holds s.registry.segments id₀ a size)
    (hgood : Good arch s.procs seg) (hid : ∀ n ∈ r.nextId, id₀ < n)
    (hnext : ∀ id seg, s.registry.segments.get? id = some seg → ∀ n ∈ r.nextId, id < n) :
    Inv arch { s with registry := r } := by
  refine h.setRegistry (fun id a size => ?_) (fun id seg' hget => ?_) fun id seg' hget => ?_
  · grind [holds_insert]
  all_goals
    rw [hsegs] at hget
    rcases get?_insert_cases hget with ⟨rfl, rfl⟩ | ⟨-, hget⟩
  · exact hgood
  · exact h.good id seg' hget
  · exact hid
  · exact hnext id seg' hget

theorem allocId_spec (h : r.allocId = some (id, r')) :
    r.nextId = some id ∧ r'.segments = r.segments ∧ ∀ n ∈ r'.nextId, id < n := by
  obtain ⟨n, hn, heq⟩ := map_eq_some_iff.mp h
  grind

section

variable (h : Inv arch s) {c : Caller} {nsId : ℕ}
include h

/-- The segments after one of them was replaced. -/
theorem get?_insert {seg' : ShmSegment} (hold : s.registry.segments.get? id₀ = some old)
    (hget : (s.registry.segments.insert id₀ seg).get? id = some seg') :
    (id = id₀ ∧ seg' = seg ∨ s.registry.segments.get? id = some seg') ∧
      ∀ n ∈ s.registry.nextId, id < n := by
  grind [OrdMap.get?_insert, h.fresh]

theorem createSegment {a : ShmgetArgs} :
    Inv arch { s with registry := (s.registry.createSegment c nsId a).2 } := by
  rw [ShmRegistry.createSegment]
  cases halloc : s.registry.allocId with
  | none =>
    simp only
    split_ifs <;> exact h
  | some result =>
    obtain ⟨id, r⟩ := result
    obtain ⟨hnext, hsegs, hlt⟩ := allocId_spec halloc
    simp only
    split_ifs with hsize
    any_goals exact h
    · -- no identifier is used twice, so the new one has no segment yet
      have hfree : s.registry.segments.get? id = none := by
        cases hget : s.registry.segments.get? id with
        | none => rfl
        | some seg => exact absurd (h.fresh id seg hget id hnext) (lt_irrefl id)
      have hpos : 0 < a.size := Nat.pos_of_ne_zero fun hzero => hsize (.inl hzero)
      refine h.insertSegment (congrArg (insert · id _) hsegs) (fun att size => ⟨nofun, ?_⟩)
        ⟨hpos, nodup_nil, nofun, nofun, nofun, nofun⟩ hlt fun id' seg' hget n hn => ?_
      · grind [Holds]
      · exact (h.fresh id' seg' hget id hnext).trans (hlt n hn)

theorem shmget {a : ShmgetArgs} :
    Inv arch { s with registry := (s.registry.shmget c nsId a).2 } := by
  rw [ShmRegistry.shmget]
  by_cases hprivate : a.key = 0
  · rw [if_pos hprivate]
    exact h.createSegment
  · rw [if_neg hprivate]
    cases s.registry.findByKey nsId a.key with
    | none =>
      cases a.create with
      | false => exact h
      | true => exact h.createSegment
    | some found =>
      simp only
      split_ifs <;> exact h

/-- A segment with the same attachments. -/
theorem setSegment
    (hold : s.registry.segments.get? id = some old) (hatt : seg.attachments = old.attachments)
    (hsize : seg.size = old.size) (hremoved : seg.removed = old.removed) :
    Inv arch { s with registry := s.registry.setSegment id seg } := by
  have hgood := h.good id old hold
  refine h.insertSegment rfl (fun a size => ?_) ?_ (h.fresh id old hold) h.fresh
  · grind [Holds]
  · exact ⟨hsize ▸ hgood.size_pos, hatt ▸ hgood.nodup, hatt ▸ hgood.aligned,
      by rw [hatt, hsize]; exact hgood.inside, hatt ▸ hgood.live,
      by rw [hatt, hremoved]; exact hgood.used⟩

theorem rmid (c : Caller) (nsId shmid : ℕ) :
    Inv arch { s with registry := (s.registry.rmid c nsId shmid).2 } := by
  rw [ShmRegistry.rmid]
  cases hget : s.registry.segments.get? shmid with
  | none => exact h
  | some seg =>
    simp only
    split_ifs
    any_goals exact h
    · have hgood := h.good shmid seg hget
      refine h.setRegistry (fun id a size => ?_) (fun id seg' hget' => ?_) fun id seg' hget' => ?_
      · rw [holds_removeIfDetached]
        exact holds_insert_same { seg with removed := true } hget rfl rfl
      · obtain ⟨hmid, hused⟩ := get?_removeIfDetached hget'
        rcases (h.get?_insert hget hmid).1 with ⟨heq, rfl⟩ | hold
        · exact { hgood with used := hused heq }
        · exact h.good id seg' hold
      · rw [nextId_removeIfDetached]
        exact (h.get?_insert hget (get?_removeIfDetached hget').1).2

end

theorem holds_attach (hget : segs.get? shmid = some seg) :
    Holds (segs.insert shmid (seg.attach pid addr)) id a size ↔
      Holds segs id a size ∨ (id = shmid ∧ a = ⟨pid, addr⟩ ∧ size = seg.size) := by
  rw [holds_insert]
  split_ifs with hid
  · subst hid
    have hold : Holds segs id a size ↔ a ∈ seg.attachments ∧ seg.size = size := by grind [Holds]
    have hmem : a ∈ (seg.attach pid addr).attachments ↔ a ∈ seg.attachments ∨ a = ⟨pid, addr⟩ := by
      rw [ShmSegment.attach, mem_append, mem_singleton]
    rw [hold, hmem]
    constructor
    all_goals grind [ShmSegment.attach]
  · exact ⟨.inl, fun hh => hh.resolve_right fun ⟨heq, _⟩ => hid heq⟩

/-- **A mapping and its attachment.** -/
theorem attach (h : Inv arch s)
    (hget : s.registry.segments.get? shmid = some seg) (hpid : pid ∈ s.procs)
    (hfree : ∀ v, vpn ≤ v → v < vpn + pageCount seg.size → s.space pid v = none)
    (hend : vpn * pageSize + seg.size ≤ arch.userVaEnd) :
    Inv arch ({ s with registry :=
      s.registry.setSegment shmid (seg.attach pid (vpn * pageSize)) }.setSpace pid
        ((s.space pid).mapRange vpn (vpn + pageCount seg.size) (.shm shmid))) := by
  have hgood := h.good shmid seg hget
  have hdiv : vpn * pageSize / pageSize = vpn := Nat.mul_div_cancel _ (by decide)
  have hbacked : ∀ pid' v id i,
      Backed (s.registry.segments.insert shmid (seg.attach pid (vpn * pageSize))) pid' v id i ↔
        Backed s.registry.segments pid' v id i ∨
          (pid' = pid ∧ id = shmid ∧ v = vpn + i ∧ i < pageCount seg.size) := by
    intro pid' v id i
    unfold Backed
    simp only [holds_attach hget, ShmAttachment.mk.injEq]
    constructor
    · grind
    · rintro (⟨addr, size, hholds, hv, hi⟩ | ⟨rfl, rfl, hv, hi⟩)
      · exact ⟨addr, size, .inl hholds, hv, hi⟩
      · exact ⟨_, _, .inr ⟨rfl, ⟨rfl, rfl⟩, rfl⟩, by rwa [hdiv], hi⟩
  refine ⟨fun pid' v id i => ?_, fun id seg' hget' => ?_, fun id seg' hget' => ?_⟩
  · refine Iff.trans ?_ (hbacked pid' v id i).symm
    show update s.space pid _ pid' v = _ ↔ _
    by_cases hp : pid' = pid
    · subst hp
      rw [update_self, mapRange]
      split_ifs with hin
      · have hnone : ¬ Backed s.registry.segments pid' v id i := fun hb => by
          rw [← h.mapped, hfree v hin.1 hin.2] at hb
          cases hb
        constructor
        all_goals grind
      · grind [h.mapped]
    · simp [hp, h.mapped]
  · rcases (h.get?_insert hget hget').1 with ⟨-, rfl⟩ | hold
    swap
    · exact h.good id seg' hold
    have hnew : (⟨pid, vpn * pageSize⟩ : ShmAttachment) ∉ seg.attachments := by
      intro hmem
      have hmapped : s.space pid vpn = some (.shm shmid 0) := by
        grind [Backed, mapped, Holds, pageCount_pos, Good.size_pos]
      grind [pageCount_pos, hgood.size_pos]
    have hmem : ∀ a ∈ (seg.attach pid (vpn * pageSize)).attachments,
        a ∈ seg.attachments ∨ a = ⟨pid, vpn * pageSize⟩ := fun a ha => by
      rwa [ShmSegment.attach, mem_append, mem_singleton] at ha
    refine ⟨hgood.size_pos, ?_, fun a ha => ?_, fun a ha => ?_, fun a ha => ?_, fun _ => ?_⟩
    · exact nodup_append.mpr ⟨hgood.nodup, nodup_singleton _, fun a ha b hb heq' =>
        hnew (by rw [← mem_singleton.mp hb, ← heq']; exact ha)⟩
    · grind [hgood.aligned, Nat.mul_mod_left]
    · rcases hmem a ha with ha | rfl
      · exact hgood.inside a ha
      · exact hend
    · grind [ShmState.setSpace, Good.live]
    · exact append_ne_nil_of_right_ne_nil _ (cons_ne_nil _ _)
  · exact (h.get?_insert hget hget').2

end Inv

/-! ## The calls -/

variable {m : Space} {start len : ℕ} {cfg : Config}

/-- The unmapping of an aligned range. -/
theorem munmap_aligned (haligned : addr % pageSize = 0)
    (hlen : 0 < len) (hend : addr + len ≤ arch.userVaEnd) : munmap arch m addr len none =
      (.ok 0, m.unmapRange (addr / pageSize) (addr / pageSize + pageCount len)) := by
  rw [munmap.eq_def, checkedUserRange, if_neg (by omega)]
  simp only [haligned, ceil_add haligned hlen]
  rfl

/-- **The pages of a segment are mapped at a free range.** -/
theorem shmMmap_spec (arch : Arch) (fixed remap : Bool) (shmid : ℕ)
    (env : MapEnv) (hfree : fixed = true → remap = true →
      m.shmFree (floor start) (ceil (start + seg.size)) = true) :
    match shmMmap arch m start fixed remap shmid seg env with
    | (.error _, m') => SameShm m m'
    | (.ok addr, m') => ∃ vpn m₁, addr = vpn * pageSize ∧ SameShm m m₁ ∧
        (∀ v, vpn ≤ v → v < vpn + pageCount seg.size → m₁ v = none) ∧
        vpn * pageSize + seg.size ≤ arch.userVaEnd ∧
        m' = m₁.mapRange vpn (vpn + pageCount seg.size) (.shm shmid) := by
  rw [shmMmap]
  by_cases hstart : start % pageSize ≠ 0
  · rw [if_pos hstart]
    exact .refl
  · rw [if_neg hstart]
    obtain ⟨hsame, hok⟩ := placeMapping_spec arch fixed (!remap) env (not_not.mp hstart)
      fun hf hr => hfree hf (by simpa using hr)
    cases hplace : placeMapping arch m start seg.size fixed (!remap) env with
    | mk answer m₁ =>
      rw [hplace] at hsame hok
      cases answer with
      | error e => exact hsame
      | ok vpn =>
        obtain ⟨-, hend, hnone⟩ := hok vpn rfl
        simp only
        split_ifs
        · exact hsame
        · exact ⟨vpn, m₁, rfl, hsame, hnone, hend, rfl⟩

theorem Inv.shmatSegment (h : Inv arch s) (c : Caller) (nsId : ℕ) (a : ShmatArgs) (env : ShmatEnv) :
    let result := s.registry.shmatSegment c nsId a env
    Inv arch { s with registry := result.2 } ∧ ∀ seg, result.1 = .ok seg → result.2.segments.get?
      a.shmid = some seg ∧ ∃ old, s.registry.segments.get? a.shmid = some old ∧ seg.size = old.size
      := by
  rw [shmatSegment.eq_def]
  cases hget : s.registry.segments.get? a.shmid with
  | none => exact ⟨h, nofun⟩
  | some old =>
    simp only
    -- the frames of the segment are all that may have changed
    generalize hseg :
      (if old.frames = 0 then { old with frames := pageCount old.size } else old) = seg
    have hsame : seg.attachments = old.attachments ∧ seg.size = old.size ∧
        seg.removed = old.removed := by
      rw [← hseg]
      split_ifs <;> exact ⟨rfl, rfl, rfl⟩
    have hinv := h.setSegment hget hsame.1 hsame.2.1 hsame.2.2
    split_ifs
    · exact ⟨h, nofun⟩
    · exact ⟨h, nofun⟩
    · exact ⟨h, nofun⟩
    · exact ⟨hinv, nofun⟩
    · exact ⟨hinv, nofun⟩
    · grind [ShmRegistry.setSegment, get?_insert_self]

/-- The `shmat` calls of a run that keeps attachments and mappings in step. -/
def properShmat (cfg : Config) (s : ShmState) (pid : ℕ) (a : ShmatArgs) (env : ShmatEnv) : Bool :=
  (env.attachOk || env.rollback.isNone) &&
    (!a.remap ||
      match attachAddr cfg a, s.registry.segments.get? a.shmid with
      | .ok start, some seg =>
        (s.space pid).shmFree (floor start) (ceil (start + seg.size))
      | _, _ => true)

theorem Inv.rollback (h : Inv arch s) {n : ℕ} {m₁ : Space}
    {p : ℕ → Page} (hsame : SameShm (s.space pid) m₁)
    (hnone : ∀ v, vpn ≤ v → v < vpn + n → m₁ v = none) :
    Inv arch (s.setSpace pid ((m₁.mapRange vpn (vpn + n) p).unmapRange vpn (vpn + n))) := by
  have hback : (m₁.mapRange vpn (vpn + n) p).unmapRange vpn (vpn + n) = m₁ := by
    funext v
    grind [unmapRange, mapRange]
  rw [hback]
  exact h.setSpace hsame

theorem Inv.shmat (h : Inv cfg.arch s)
    (hpid : pid ∈ s.procs) {c : Caller} {nsId : ℕ} {a : ShmatArgs} {env : ShmatEnv}
    (hproper : properShmat cfg s pid a env = true) :
    Inv cfg.arch (s.shmat cfg pid c nsId a env).1 := by
  obtain ⟨hback, hremap⟩ := (Bool.and_eq_true ..).mp hproper
  rw [ShmState.shmat]
  split_ifs
  · exact h
  obtain ⟨hinv, hok⟩ := h.shmatSegment c nsId a env
  cases hsection : s.registry.shmatSegment c nsId a env with
  | mk answer r =>
    rw [hsection] at hinv hok
    cases answer with
    | error e => exact hinv
    | ok seg =>
      obtain ⟨hget, old, hold, hsize⟩ := hok seg rfl
      simp only
      cases haddr : attachAddr cfg a with
      | error e => exact hinv
      | ok start =>
        simp only
        have hspec := shmMmap_spec cfg.arch (decide (a.addr ≠ 0)) a.remap
          a.shmid env.map fun _ hr => by
            rw [hr, Bool.not_true, Bool.false_or, haddr, hold] at hremap
            rw [hsize]
            exact hremap
        cases hmap : shmMmap cfg.arch (s.space pid) start (decide (a.addr ≠ 0)) a.remap
            a.shmid seg env.map with
        | mk answer' m =>
          rw [hmap] at hspec
          cases answer' with
          | error e => exact hinv.setSpace hspec
          | ok addr =>
            obtain ⟨vpn, m₁, rfl, hsame, hnone, hend, rfl⟩ := hspec
            have hpos := (hinv.good a.shmid seg hget).size_pos
            simp only [ShmState.attach]
            split_ifs with hattach
            · -- the address space changes first, then come mapping and attachment
              rw [← setSpace_setSpace]
              have hinv' := (hinv.setSpace hsame).attach hget hpid
                (by rwa [setSpace_space_self]) hend
              rwa [setSpace_space_self] at hinv'
            · rw [Bool.or_eq_true, isNone_iff_eq_none] at hback
              rw [hback.resolve_left hattach, munmap_aligned (Nat.mul_mod_left ..) hpos
                hend, Nat.mul_div_cancel _ (by decide), setSpace_space_self,
                setSpace_setSpace]
              exact hinv.rollback hsame hnone

/-- The attachment that `shmdt` finds. -/
theorem ShmRegistry.shmdt_eq_some
    (h : r.shmdt pid addr = some (seg, r')) : ∃ id old, r.segments.get? id = some old ∧
      (⟨pid, addr⟩ : ShmAttachment) ∈ old.attachments ∧
      seg = { old with attachments := old.attachments.erase ⟨pid, addr⟩ } ∧
      r' = (r.setSegment id seg).removeIfDetached id := by
  obtain ⟨⟨id, old⟩, hfind, heq⟩ := map_eq_some_iff.mp h
  grind [mem_entries_iff]

/-- The pages of an attachment belong to its segment. -/
theorem Inv.page_of_attachment (h : Inv arch s) (hget : s.registry.segments.get? id = some seg)
    (ha : (⟨pid, addr⟩ : ShmAttachment) ∈ seg.attachments) (hle : addr / pageSize ≤ v)
    (hlt : v < addr / pageSize + pageCount seg.size) :
    s.space pid v = some (.shm id (v - addr / pageSize)) := by
  grind [Backed, mapped, Holds]

/-- Two attachments with a common page are the same. -/
theorem Inv.attachment_unique (h : Inv arch s)
    {id' addr' i' size' : ℕ} (ha : Holds s.registry.segments id ⟨pid, addr⟩ size)
    (hv : v = addr / pageSize + i) (hi : i < pageCount size)
    (ha' : Holds s.registry.segments id' ⟨pid, addr'⟩ size')
    (hv' : v = addr' / pageSize + i') (hi' : i' < pageCount size') : id' = id ∧ addr' = addr := by
  have hfirst : s.space pid v = some (.shm id i) := (h.mapped ..).mpr ⟨addr, size, ha, hv, hi⟩
  have hsecond : s.space pid v = some (.shm id' i') :=
    (h.mapped ..).mpr ⟨addr', size', ha', hv', hi'⟩
  rw [hfirst] at hsecond
  cases hsecond
  obtain ⟨seg, hget, hmem, -⟩ := ha
  obtain ⟨seg', hget', hmem', -⟩ := ha'
  have haligned : addr % pageSize = 0 := (h.good id seg hget).aligned _ hmem
  have haligned' : addr' % pageSize = 0 := (h.good id seg' hget').aligned _ hmem'
  grind [Nat.div_add_mod]

theorem Inv.holds_shmdt (h : Inv arch s) (hget : s.registry.segments.get? id₀ = some old) :
    Holds ((s.registry.setSegment id₀ { old with
      attachments := old.attachments.erase ⟨pid, addr⟩ }).removeIfDetached id₀).segments id a size ↔
      Holds s.registry.segments id a size ∧ ¬ (id = id₀ ∧ a = ⟨pid, addr⟩) := by
  rw [holds_removeIfDetached, ShmRegistry.setSegment, holds_insert]
  split_ifs with hid
  · subst hid
    rw [(h.good id old hget).nodup.mem_erase_iff, Holds, hget]
    constructor
    all_goals grind
  · exact ⟨fun hh => ⟨hh, fun heq => hid heq.1⟩, fun hh => hh.1⟩

theorem Inv.shmdt (h : Inv cfg.arch s) (pid addr : ℕ) :
    Inv cfg.arch (s.shmdt cfg pid addr none).1 := by
  rw [ShmState.shmdt]
  cases hdt : s.registry.shmdt pid addr with
  | none => exact h
  | some result =>
    obtain ⟨seg, r⟩ := result
    obtain ⟨id₀, old, hget, hmem, rfl, rfl⟩ := shmdt_eq_some hdt
    have hgood := h.good id₀ old hget
    have haligned : addr % pageSize = 0 := hgood.aligned _ hmem
    have hend : addr + old.size ≤ cfg.arch.userVaEnd := hgood.inside _ hmem
    simp only [munmap_aligned haligned hgood.size_pos hend]
    refine ⟨fun pid' v id i => ?_, fun id seg' hget' => ?_, fun id seg' hget' => ?_⟩
    · have hbacked : Backed ((s.registry.setSegment id₀ { old with
          attachments := old.attachments.erase ⟨pid, addr⟩ }).removeIfDetached id₀).segments
          pid' v id i ↔ Backed s.registry.segments pid' v id i ∧
            ¬ (pid' = pid ∧ addr / pageSize ≤ v ∧ v < addr / pageSize + pageCount old.size) := by
        unfold Backed
        simp only [h.holds_shmdt hget, ShmAttachment.mk.injEq]
        constructor
        · rintro ⟨addr', size, ⟨hholds, hne⟩, hv, hi⟩
          refine ⟨⟨addr', size, hholds, hv, hi⟩, ?_⟩
          rintro ⟨rfl, hle, hlt⟩
          -- a page in the range belongs to the attachment that is gone
          have hself : Holds s.registry.segments id₀ ⟨pid', addr⟩ old.size :=
            ⟨old, hget, hmem, rfl⟩
          obtain ⟨rfl, rfl⟩ := h.attachment_unique hself
            (i := v - addr / pageSize) (by omega) (by omega) hholds hv hi
          exact hne ⟨rfl, rfl, rfl⟩
        · rintro ⟨⟨addr', size, hholds, hv, hi⟩, hout⟩
          refine ⟨addr', size, ⟨hholds, ?_⟩, hv, hi⟩
          rintro ⟨rfl, rfl, rfl⟩
          obtain ⟨seg, hseg, -, rfl⟩ := hholds
          grind
      refine Iff.trans ?_ hbacked.symm
      show update s.space pid _ pid' v = _ ↔ _
      by_cases hp : pid' = pid
      · subst hp
        rw [update_self, unmapRange]
        split_ifs with hin
        · exact ⟨nofun, fun hh => absurd ⟨rfl, hin⟩ hh.2⟩
        · grind [h.mapped]
      · simp [hp, h.mapped]
    · obtain ⟨hmid, hused⟩ := get?_removeIfDetached hget'
      rcases (h.get?_insert hget hmid).1 with ⟨heq, rfl⟩ | hold
      · exact ⟨hgood.size_pos, hgood.nodup.erase _,
          fun a ha => hgood.aligned a (mem_of_mem_erase ha),
          fun a ha => hgood.inside a (mem_of_mem_erase ha),
          fun a ha => hgood.live a (mem_of_mem_erase ha), hused heq⟩
      · exact h.good id seg' hold
    · show ∀ n ∈ (removeIfDetached ..).nextId, id < n
      rw [nextId_removeIfDetached]
      exact (h.get?_insert hget (get?_removeIfDetached hget').1).2

/-- The attachments of a process, also for its child. -/
theorem holds_cloneAttachments : Holds (r.cloneAttachments parent child).segments id a size ↔
      Holds r.segments id a size ∨ (a.pid = child ∧ Holds r.segments id ⟨parent, a.addr⟩ size) := by
  unfold Holds cloneAttachments
  simp only [get?_mapValues, map_eq_some_iff]
  constructor
  · rintro ⟨_, ⟨seg, hget, rfl⟩, ha, hsize⟩
    rcases mem_append.mp ha with ha | ha
    · exact .inl ⟨seg, hget, ha, hsize⟩
    · obtain ⟨b, hb, rfl⟩ := mem_map.mp ha
      obtain ⟨hb, hparent⟩ := mem_filter.mp hb
      have hpid : b.pid = parent := of_decide_eq_true hparent
      exact .inr ⟨rfl, seg, hget, by rw [← hpid]; exact hb, hsize⟩
  · rintro (⟨seg, hget, ha, hsize⟩ | ⟨hchild, seg, hget, ha, hsize⟩)
    · exact ⟨_, ⟨seg, hget, rfl⟩, mem_append_left _ ha, hsize⟩
    · refine ⟨_, ⟨seg, hget, rfl⟩, mem_append_right _ (mem_map.mpr ⟨⟨parent, a.addr⟩,
        mem_filter.mpr ⟨ha, decide_eq_true rfl⟩, ?_⟩), hsize⟩
      rw [← hchild]

theorem Good.cloneAttachments {procs : Finset ℕ}
    (h : Good arch procs seg) (hchild : child ∉ procs) :
    Good arch (insert child procs) (seg.cloneAttachments parent child) := by
  have hmem : ∀ a ∈ (seg.cloneAttachments parent child).attachments, a ∈ seg.attachments ∨
      (a.pid = child ∧ ∃ b ∈ seg.attachments, b.addr = a.addr) := fun a ha => by
    rcases mem_append.mp ha with ha | ha
    · exact .inl ha
    · grind
  refine ⟨h.size_pos, ?_, fun a ha => ?_, fun a ha => ?_, fun a ha => ?_, fun hr hnil => ?_⟩
  · refine nodup_append.mpr ⟨h.nodup, ?_, fun a ha b hb heq => ?_⟩
    · refine (h.nodup.filter _).map_on fun x hx y hy heq => ?_
      have hx' : x.pid = parent := of_decide_eq_true (mem_filter.mp hx).2
      have hy' : y.pid = parent := of_decide_eq_true (mem_filter.mp hy).2
      cases x
      cases y
      cases hx'
      cases hy'
      cases heq
      rfl
    · grind [h.live]
  · grind [h.aligned]
  · rcases hmem a ha with ha | ⟨-, b, hb, heq⟩
    · exact h.inside a ha
    · rw [← heq]
      exact h.inside b hb
  · grind [h.live]
  · exact h.used hr (append_eq_nil_iff.mp hnil).1

theorem Inv.fork (h : Inv arch s)
    (hchild : child ∉ s.procs) : Inv arch (s.fork pid child .ok).1 := by
  have hnone : ∀ id addr size, ¬ Holds s.registry.segments id ⟨child, addr⟩ size := by
    rintro id addr size ⟨seg, hget, ha, -⟩
    exact hchild ((h.good id seg hget).live _ ha)
  refine ⟨fun pid' v id i => ?_, fun id seg hget => ?_, fun id seg hget => ?_⟩
  · show update s.space child (s.space pid) pid' v = _ ↔
      Backed (s.registry.cloneAttachments pid child).segments pid' v id i
    unfold Backed
    simp only [holds_cloneAttachments]
    by_cases hp : pid' = child
    · subst hp
      rw [update_self, h.mapped]
      refine exists_congr fun addr => exists_congr fun size => and_congr_left fun _ => ?_
      exact ⟨fun hh => .inr ⟨rfl, hh⟩, fun hh => (hh.resolve_left (hnone id addr size)).2⟩
    · rw [update_of_ne hp, h.mapped]
      refine exists_congr fun addr => exists_congr fun size => and_congr_left fun _ => ?_
      exact ⟨.inl, fun hh => hh.resolve_right fun hc => hp hc.1⟩
  all_goals
    obtain ⟨old, hold, rfl⟩ := map_eq_some_iff.mp ((get?_mapValues ..).symm.trans hget)
  · exact (h.good id old hold).cloneAttachments hchild
  · exact h.fresh id old hold

/-- What is left of the segments when a process ends. -/
theorem get?_detachProcess_eq {forgotten : List ℕ} :
    (r.detachProcess pid forgotten).segments.get? id =
      ((r.segments.get? id).map (·.detachProcess pid)).filter fun seg =>
        !(seg.removed && seg.attachments.isEmpty) || forgotten.contains id := by
  rw [← get?_mapValues]
  exact get?_retain ..

theorem get?_detachProcess : (r.detachProcess pid []).segments.get? id = some seg ↔
      (∃ old, r.segments.get? id = some old ∧ old.detachProcess pid = seg) ∧
        (seg.removed = true → seg.attachments ≠ []) := by
  grind [get?_detachProcess_eq, filter_eq_some_iff, map_eq_some_iff]

theorem Inv.exit (h : Inv arch s) (pid : ℕ) :
    Inv arch ({ s with
      registry := s.registry.detachProcess pid []
      procs := s.procs.erase pid }.setSpace pid fun _ => none) := by
  have hholds : ∀ id a size, Holds (s.registry.detachProcess pid []).segments id a size ↔
      Holds s.registry.segments id a size ∧ a.pid ≠ pid := by
    intro id a size
    unfold Holds
    simp only [get?_detachProcess]
    constructor
    all_goals grind [ShmSegment.detachProcess]
  refine ⟨fun pid' v id i => ?_, fun id seg hget => ?_, fun id seg hget => ?_⟩
  · show update s.space pid (fun _ => none) pid' v = _ ↔
      Backed (s.registry.detachProcess pid []).segments pid' v id i
    unfold Backed
    simp only [hholds]
    by_cases hp : pid' = pid
    · grind
    · rw [update_of_ne hp, h.mapped]
      refine exists_congr fun addr => exists_congr fun size => and_congr_left fun _ => ?_
      exact ⟨fun hh => ⟨hh, hp⟩, fun hh => hh.1⟩
  · obtain ⟨⟨old, hold, rfl⟩, hused⟩ := get?_detachProcess.mp hget
    have hgood := h.good id old hold
    have hmem : ∀ a ∈ (old.detachProcess pid).attachments, a ∈ old.attachments ∧ a.pid ≠ pid :=
      fun a ha => ⟨(mem_filter.mp ha).1, of_decide_eq_true (mem_filter.mp ha).2⟩
    exact ⟨hgood.size_pos, hgood.nodup.filter _, fun a ha => hgood.aligned a (hmem a ha).1,
      fun a ha => hgood.inside a (hmem a ha).1,
      fun a ha => Finset.mem_erase.mpr ⟨(hmem a ha).2, hgood.live a (hmem a ha).1⟩, hused⟩
  · obtain ⟨⟨old, hold, -⟩, -⟩ := get?_detachProcess.mp hget
    exact h.fresh id old hold

/-- **An ordinary mapping that keeps away from segments.** -/
theorem sameShm_mmap {fixed noreplace : Bool}
    {env : MapEnv} (hfree : fixed = true → noreplace = false →
      m.shmFree (floor start) (ceil (start + len)) = true) :
    SameShm m (mmap arch m start len fixed noreplace env).2 := by
  rw [mmap]
  split_ifs with hstart
  · exact .refl
  · obtain ⟨hsame, hok⟩ :=
      placeMapping_spec arch fixed noreplace env (not_not.mp hstart) hfree
    cases hplace : placeMapping arch m start len fixed noreplace env with
    | mk answer m₁ => grind [SameShm.trans, sameShm_mapRange_other]

theorem sameShm_munmap {fault : Option Errno}
    (hfree : m.shmFree (floor start) (ceil (start + len)) = true) :
    SameShm m (munmap arch m start len fault).2 := by
  rw [munmap.eq_def, checkedUserRange]
  by_cases hrange : len = 0 ∨ start ≥ arch.userVaEnd ∨ start + len > arch.userVaEnd
  · rw [if_pos hrange]
    exact .refl
  · grind [SameShm.refl, sameShm_unmapRange]
end MangoCore.Ipc.Shm
