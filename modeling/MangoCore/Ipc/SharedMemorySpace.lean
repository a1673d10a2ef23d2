import MangoCore.Ipc.SharedMemory

/-!
# Where a mapping goes

What the mapping calls do to the pages of segments.  A mapping goes to a range that is free, or is
cleared first; if it keeps away from the pages of segments, none of them is lost (`SameShm`).
-/

namespace MangoCore.Ipc.Shm

open MangoCore.Mm VirtAddr List

/-! ## Ranges of pages -/

theorem pageCount_pos {size : ℕ} (h : 0 < size) : 0 < pageCount size := by
  unfold pageCount pageSize
  omega

/-- The pages of an aligned range. -/
theorem ceil_add {start len : ℕ} (hstart : start % pageSize = 0) (hlen : 0 < len) :
    ceil (start + len) = start / pageSize + pageCount len := by
  unfold pageSize at hstart
  unfold ceil pageCount pageSize
  rw [if_neg (by omega)]
  omega

/-- Two address spaces with the same pages of segments. -/
def SameShm (m m' : Space) : Prop :=
  ∀ vpn id i, m' vpn = some (.shm id i) ↔ m vpn = some (.shm id i)

theorem SameShm.refl {m : Space} : SameShm m m := fun _ _ _ => Iff.rfl

theorem SameShm.trans {m m' m'' : Space} (h : SameShm m m') (h' : SameShm m' m'') :
    SameShm m m'' := fun vpn id i => (h' vpn id i).trans (h vpn id i)

namespace Space

variable {m : Space} {start stop vpn : ℕ}

/-- No page of a segment in a range. -/
def shmFree (m : Space) (start stop : ℕ) : Bool :=
  (range' start (stop - start)).all fun vpn =>
    match m vpn with
    | some (.shm _ _) => false
    | _ => true

theorem ne_shm_of_shmFree (h : m.shmFree start stop = true) (hle : start ≤ vpn) (hlt : vpn < stop)
    {id i : ℕ} : m vpn ≠ some (.shm id i) := by
  have hmem : vpn ∈ range' start (stop - start) :=
    mem_range'_1.mpr ⟨hle, by omega⟩
  intro heq
  have := all_eq_true.mp h vpn hmem
  rw [heq] at this
  cases this

section

variable (h : ¬ m.hasOverlap start stop = true)
include h

theorem eq_none_of_not_hasOverlap (hle : start ≤ vpn) (hlt : vpn < stop) : m vpn = none := by
  have hmem : vpn ∈ range' start (stop - start) :=
    mem_range'_1.mpr ⟨hle, by omega⟩
  have hall := any_eq_false.mp (Bool.eq_false_iff.mpr h) vpn hmem
  exact Option.not_isSome_iff_eq_none.mp hall

theorem shmFree_of_not_hasOverlap : m.shmFree start stop = true := by
  refine all_eq_true.mpr fun vpn hvpn => ?_
  obtain ⟨hle, hlt⟩ := mem_range'_1.mp hvpn
  rw [eq_none_of_not_hasOverlap h hle (by omega)]

end

theorem sameShm_unmapRange (h : m.shmFree start stop = true) :
    SameShm m (m.unmapRange start stop) := by
  intro vpn id i
  unfold unmapRange
  split_ifs with hin
  · exact ⟨nofun, fun heq => absurd heq (ne_shm_of_shmFree h hin.1 hin.2)⟩
  · rfl

theorem unmapRange_eq_none (hle : start ≤ vpn) (hlt : vpn < stop) :
    m.unmapRange start stop vpn = none := if_pos ⟨hle, hlt⟩

theorem sameShm_mapRange_other (h : ∀ vpn, start ≤ vpn → vpn < stop → m vpn = none) :
    SameShm m (m.mapRange start stop fun _ => .other) := by
  intro vpn id i
  unfold mapRange
  split_ifs with hin
  · rw [h vpn hin.1 hin.2]
    exact ⟨nofun, nofun⟩
  · rfl

end Space

/-- **Where a mapping goes.**  Its range is free, and no page of a segment was lost. -/
theorem placeMapping_spec (arch : Arch) {m : Space} {start : ℕ} {len : ℕ} (fixed noreplace : Bool)
    (env : MapEnv) (hstart : start % pageSize = 0) (hfree : fixed = true → noreplace = false →
      m.shmFree (floor start) (ceil (start + len)) = true) :
    let placed := placeMapping arch m start len fixed noreplace env
    SameShm m placed.2 ∧ ∀ vpn, placed.1 = .ok vpn → 0 < len ∧ vpn * pageSize + len ≤ arch.userVaEnd
      ∧ ∀ v, vpn ≤ v → v < vpn + pageCount len → placed.2 v = none := by
  rw [placeMapping.eq_def, checkedUserRange]
  by_cases hrange : len = 0 ∨ start ≥ arch.userVaEnd ∨ start + len > arch.userVaEnd
  · rw [if_pos hrange]
    exact ⟨.refl, by simp⟩
  · rw [if_neg hrange]
    have hlen : 0 < len := by omega
    have hend : start + len ≤ arch.userVaEnd := by omega
    have hceil := ceil_add hstart hlen
    cases env.early with
    | some e => exact ⟨.refl, by simp⟩
    | none =>
      cases fixed with
      | true =>
        simp only [if_true]
        split_ifs
        · exact ⟨.refl, by simp⟩
        · have hshm :
              m.shmFree (floor start) (ceil (start + len)) = true := by
            cases hnoreplace : noreplace with
            | false => exact hfree rfl hnoreplace
            | true => grind [Space.shmFree_of_not_hasOverlap]
          have hsame := Space.sameShm_unmapRange hshm
          cases env.late with
          | some e => exact ⟨hsame, by simp⟩
          | none =>
            grind [floor, Nat.div_mul_cancel, Nat.dvd_of_mod_eq_zero, Space.unmapRange_eq_none]
      | false =>
        simp only [if_neg Bool.false_ne_true]
        cases env.chosen with
        | none => exact ⟨.refl, by simp⟩
        | some vpn =>
          simp only
          split_ifs with hbad
          · exact ⟨.refl, by simp⟩
          · cases env.late with
            | some e => exact ⟨.refl, by simp⟩
            | none =>
              refine ⟨.refl, ?_⟩
              rintro _ ⟨⟩
              obtain ⟨hover, hle⟩ := not_or.mp hbad
              refine ⟨hlen, ?_, fun v => Space.eq_none_of_not_hasOverlap hover⟩
              unfold pageCount pageSize at *
              omega
end MangoCore.Ipc.Shm
