import MangoCore.Fs.PosixLock

/-!
# What a list of records says about every byte

`Holds records o ty p` says that owner `o` holds a lock of type `ty` on byte `p`.  This is all a
client can see of the list: joining records does not change it (`holds_coalesce`), taking a range
from an owner takes exactly its bytes (`holds_removeRange`), and a granted request sets the bytes of
its range for its owner and no others (`holds_granted`).

`Exclusive` is the property the locks are for: where two different owners meet, both only read.
A request that is granted keeps it (`Exclusive.applyLock`), because it was checked against every
record of the others.
`bytes_of_applyLock` says when a request is refused and what it does to every byte.
-/

namespace MangoCore.Fs.PosixLock

open I64 LockRecord List

/-! ## Owners -/

theorem sameOwner_comm (o o' : LockOwner) : sameOwner o o' = sameOwner o' o := by
  cases o <;> cases o' <;> simp [sameOwner, eq_comm]

theorem sameOwner_trans {o₁ o₂ o₃ : LockOwner} (h : sameOwner o₁ o₂ = true)
    (h' : sameOwner o₂ o₃ = true) : sameOwner o₁ o₃ = true := by
  cases o₁ <;> cases o₂ <;> cases o₃ <;> simp_all [sameOwner]

/-- Of two names of one owner, both or neither are the same as a third. -/
theorem sameOwner_congr {o₁ o₂ : LockOwner} (h : sameOwner o₁ o₂ = true) (o : LockOwner) :
    sameOwner o₁ o = sameOwner o₂ o := by
  rw [Bool.eq_iff_iff]
  grind [sameOwner_comm, sameOwner_trans]

/-! ## Bytes -/

/-- A byte of the range of a record. -/
def LockRecord.Covers (r : LockRecord) (p : ℤ) : Prop := r.start.val ≤ p ∧ p ≤ r.endIncl.val

/-- An owner holds a lock of a type on a byte. -/
def Holds (records : List LockRecord) (o : LockOwner) (ty : LockType) (p : ℤ) : Prop :=
  ∃ r ∈ records, sameOwner r.owner o = true ∧ r.lockType = ty ∧ r.Covers p

/-- Different owners meet only on bytes that both read. -/
def Exclusive (records : List LockRecord) : Prop :=
  ∀ o o' ty ty' p, Holds records o ty p → Holds records o' ty' p → sameOwner o o' = false →
    ty = .read ∧ ty' = .read

variable {records l : List LockRecord} {o owner : LockOwner} {ty lt : LockType} {p ltype : ℤ}
  {state : EntryState} {r a : LockRecord} {endIncl start : I64}

@[simp] theorem holds_nil : ¬ Holds [] o ty p := by
  rintro ⟨r, hr, -⟩
  exact absurd hr not_mem_nil

theorem holds_cons : Holds (r :: records) o ty p ↔
    (sameOwner r.owner o = true ∧ r.lockType = ty ∧ r.Covers p) ∨ Holds records o ty p := by
  simp [Holds]

theorem holds_append (records' : List LockRecord) :
    Holds (records ++ records') o ty p ↔ Holds records o ty p ∨ Holds records' o ty p := by
  simp [Holds, or_and_right, exists_or]

theorem holds_perm {records' : List LockRecord} (h : records.Perm records') :
    Holds records o ty p ↔ Holds records' o ty p := by
  simp [Holds, h.mem_iff]

theorem exclusive_nil : Exclusive [] :=
  fun _ _ _ _ _ h => absurd h holds_nil

/-! ## Joining -/

/-- Joining two records that touch or overlap covers the bytes of both. -/
theorem holds_merge {b : LockRecord} (hm : mergeable a b = true)
    (hle : a.start.val ≤ b.start.val) :
    Holds ({ a with endIncl := a.endIncl.max b.endIncl } :: records) o ty p ↔
      Holds (a :: b :: records) o ty p := by
  simp only [mergeable, Bool.and_eq_true, beq_iff_eq, decide_eq_true_eq] at hm
  obtain ⟨⟨hsame, hty⟩, htouch⟩ := hm
  have htouch' := htouch.trans a.endIncl.saturatingSucc_le
  have hcov : Covers { a with endIncl := a.endIncl.max b.endIncl } p ↔
      a.Covers p ∨ b.Covers p := by
    unfold Covers
    dsimp only
    rw [val_max]
    omega
  rw [holds_cons, holds_cons, holds_cons, ← or_assoc, hcov, hty, sameOwner_congr hsame]
  tauto

theorem holds_coalesceFrom (hsort : (a :: l).Pairwise fun a b => a.start.val ≤ b.start.val) :
    Holds (coalesceFrom a l) o ty p ↔ Holds (a :: l) o ty p := by
  induction l generalizing a with
  | nil => rfl
  | cons b l ih => grind [pairwise_cons, coalesceFrom.eq_def, holds_merge, holds_cons]

section

variable (state : EntryState)

/-- **Joining changes no byte.** -/
theorem holds_coalesce : Holds (coalesce state).records o ty p ↔ Holds state.records o ty p := by
  have hperm := perm_insertionSort (fun a b : LockRecord => a.start.val ≤ b.start.val) state.records
  have : Std.Total fun a b : LockRecord => a.start.val ≤ b.start.val :=
    ⟨fun a b => le_total a.start.val b.start.val⟩
  have hsort := pairwise_insertionSort (fun a b : LockRecord => a.start.val ≤ b.start.val)
    state.records
  rw [← holds_perm hperm]
  unfold coalesce
  cases hs : state.records.insertionSort fun a b => a.start.val ≤ b.start.val with
  | nil => rfl
  | cons a l =>
    rw [hs] at hsort
    exact holds_coalesceFrom hsort

/-! ## Taking a range -/

variable (owner : LockOwner) {ownerPid : ℤ}

/-- What is left of one record: its bytes outside the range, if the owner is the one. -/
theorem holds_trim :
    Holds (trim owner start endIncl r) o ty p ↔
      (sameOwner r.owner o = true ∧ r.lockType = ty ∧ r.Covers p) ∧
        ¬ (sameOwner r.owner owner = true ∧ start.val ≤ p ∧ p ≤ endIncl.val) := by
  unfold trim
  split_ifs with hother hapart
  · have hno : sameOwner r.owner owner = false := by simpa using hother
    rw [holds_cons, hno]
    simp
  · simp only [Bool.or_eq_true, decide_eq_true_eq] at hapart
    rw [holds_cons, Covers]
    simp only [holds_nil, or_false]
    constructor
    · rintro ⟨h₁, h₂, h₃⟩
      exact ⟨⟨h₁, h₂, h₃⟩, by omega⟩
    · exact And.left
  all_goals
    have hyes : sameOwner r.owner owner = true := by simpa using hother
    simp only [Bool.or_eq_true, decide_eq_true_eq, not_or, not_lt] at hapart
    have hr₁ := r.start.ge
    have hr₂ := r.endIncl.lt
    rw [holds_append]
    simp only [holds_cons, holds_nil, or_false, false_or, Covers, hyes, true_and]
  · rw [saturatingPred_of_le (by omega), saturatingSucc_of_lt (by omega)]
    constructor
    · rintro (⟨h₁, h₂, h₃⟩ | ⟨h₁, h₂, h₃⟩)
      all_goals exact ⟨⟨h₁, h₂, by omega⟩, by omega⟩
    · rintro ⟨⟨h₁, h₂, h₃⟩, h₄⟩
      rcases lt_or_ge p start.val with hlt | hge
      · exact .inl ⟨h₁, h₂, by omega⟩
      · exact .inr ⟨h₁, h₂, by omega⟩
  · rw [saturatingPred_of_le (by omega)]
    constructor
    · rintro ⟨h₁, h₂, h₃⟩
      exact ⟨⟨h₁, h₂, by omega⟩, by omega⟩
    · rintro ⟨⟨h₁, h₂, h₃⟩, h₄⟩
      exact ⟨h₁, h₂, by omega⟩
  · rw [saturatingSucc_of_lt (by omega)]
    constructor
    · rintro ⟨h₁, h₂, h₃⟩
      exact ⟨⟨h₁, h₂, by omega⟩, by omega⟩
    · rintro ⟨⟨h₁, h₂, h₃⟩, h₄⟩
      exact ⟨h₁, h₂, by omega⟩
  · constructor
    · exact False.elim
    · rintro ⟨⟨h₁, h₂, h₃⟩, h₄⟩
      omega

theorem holds_flatMap {f : LockRecord → List LockRecord} :
    Holds (records.flatMap f) o ty p ↔ ∃ r ∈ records, Holds (f r) o ty p := by
  grind [Holds]

/-- **Taking a range takes its bytes from its owner**, and nothing else. -/
theorem holds_removeRange :
    Holds (removeRange state owner start endIncl).records o ty p ↔ Holds state.records o ty p ∧
        ¬ (sameOwner o owner = true ∧ start.val ≤ p ∧ p ≤ endIncl.val) := by
  rw [removeRange, holds_coalesce, holds_flatMap]
  simp only [holds_trim]
  constructor
  · grind [Holds, sameOwner_congr]
  · rintro ⟨⟨r, hr, hrest⟩, hout⟩
    grind [sameOwner_congr]

/-! ## Requests -/

/-- A request that is no lock request takes its range from the owner. -/
theorem applyLock_unlock (h : ¬ (ltype = F_RDLCK ∨ ltype = F_WRLCK)) :
    applyLock state owner ownerPid ltype start endIncl =
      (true, removeRange state owner start endIncl) := if_neg h

/-- A lock request is refused, and then changes nothing, or no record of another owner stands
against it. -/
theorem applyLock_lock (start endIncl : I64) (h : ltype = F_RDLCK ∨ ltype = F_WRLCK) :
    applyLock state owner ownerPid ltype start endIncl = (false, state) ∨
      ((∀ r ∈ state.records, blocks owner (requestedType ltype) start endIncl r = false) ∧
        applyLock state owner ownerPid ltype start endIncl =
          (true, coalesce ⟨(removeRange state owner start endIncl).records ++
            [⟨owner, ownerPid, requestedType ltype, start, endIncl⟩]⟩)) := by
  unfold applyLock
  grind

/-- **A granted lock** sets the bytes of its range for its owner. -/
theorem holds_granted : Holds (coalesce ⟨(removeRange state owner start endIncl).records ++
        [⟨owner, ownerPid, lt, start, endIncl⟩]⟩).records o ty p ↔ (Holds state.records o ty p ∧
        ¬ (sameOwner o owner = true ∧ start.val ≤ p ∧ p ≤ endIncl.val)) ∨
      (sameOwner owner o = true ∧ lt = ty ∧ start.val ≤ p ∧ p ≤ endIncl.val) := by
  rw [holds_coalesce, holds_append, holds_removeRange, holds_cons]
  simp only [holds_nil, or_false, Covers]

end

/-- A byte that an unblocked request asks for is held by another owner only if both read. -/
theorem read_of_not_blocks
    (h : ∀ r ∈ records, blocks owner lt start endIncl r = false) (hp : start.val ≤ p)
    (hp' : p ≤ endIncl.val) (hold : Holds records o ty p) (hne : sameOwner o owner = false) :
    ty = .read ∧ lt = .read := by
  obtain ⟨r, hr, hsame, rfl, hcov⟩ := hold
  have hb := h r hr
  unfold Covers at hcov
  rw [blocks, sameOwner_congr hsame, hne, Bool.not_false, Bool.true_and, conflict, if_neg] at hb
  · cases ht : r.lockType <;> cases hl : lt <;> simp_all
  · simp only [Bool.or_eq_true, decide_eq_true_eq]
    omega

theorem Exclusive.removeRange (h : Exclusive state.records)
    (owner : LockOwner) (start endIncl : I64) :
    Exclusive (removeRange state owner start endIncl).records :=
  fun o o' ty ty' p hold hold' hne =>
    h o o' ty ty' p ((holds_removeRange state owner).mp hold).1
      ((holds_removeRange state owner).mp hold').1 hne

/-- **Every request keeps the locks exclusive.** -/
theorem Exclusive.applyLock (h : Exclusive state.records) {ownerPid : ℤ} :
    Exclusive (applyLock state owner ownerPid ltype start endIncl).2.records := by
  by_cases hlock : ltype = F_RDLCK ∨ ltype = F_WRLCK
  · rcases applyLock_lock state owner start endIncl hlock with heq | ⟨hfree, heq⟩
    · rw [heq]
      exact h
    · rw [heq]
      intro o o' ty ty' p hold hold' hne
      rw [holds_granted] at hold hold'
      rcases hold with ⟨hold, -⟩ | ⟨hsame, hty, hp⟩
      · rcases hold' with ⟨hold', -⟩ | ⟨hsame', hty', hp'⟩
        · exact h o o' ty ty' p hold hold' hne
        · -- an old lock of another owner against the new one
          rw [sameOwner_comm, ← sameOwner_congr hsame', sameOwner_comm] at hne
          obtain ⟨hr, hr'⟩ := read_of_not_blocks hfree hp'.1 hp'.2 hold hne
          exact ⟨hr, hty' ▸ hr'⟩
      · rcases hold' with ⟨hold', -⟩ | ⟨hsame', -, -⟩
        · rw [← sameOwner_congr hsame, sameOwner_comm] at hne
          obtain ⟨hr, hr'⟩ := read_of_not_blocks hfree hp.1 hp.2 hold' hne
          exact ⟨hty ▸ hr', hr⟩
        · -- both are the new lock
          grind [sameOwner_congr]
  · simp [hlock, applyLock_unlock, h.removeRange]

/-- Fewer records hold fewer locks. -/
theorem Exclusive.filter (h : Exclusive records) (f : LockRecord → Bool) :
    Exclusive (records.filter f) := by
  have hsub : ∀ {o ty p}, Holds (records.filter f) o ty p → Holds records o ty p := by grind [Holds]
  exact fun o o' ty ty' p hold hold' hne => h o o' ty ty' p (hsub hold) (hsub hold') hne

/-! ## Where records come from -/

/-- A joined record begins as one of the records, which it covers. -/
theorem origin_of_mem_coalesceFrom
    (h : r ∈ coalesceFrom a l) : ∃ r₀ ∈ a :: l, r₀.owner = r.owner ∧ r₀.start = r.start ∧
      r₀.endIncl.val ≤ r.endIncl.val := by
  induction l generalizing a with
  | nil =>
    rw [coalesceFrom, mem_singleton] at h
    exact ⟨a, mem_singleton_self a, by rw [h], by rw [h], by rw [h]⟩
  | cons b l ih =>
    rw [coalesceFrom] at h
    split_ifs at h
    · grind [val_max]
    · grind

theorem origin_of_mem_coalesce
    (h : r ∈ (coalesce state).records) : ∃ r₀ ∈ state.records, r₀.owner = r.owner ∧
      r₀.start = r.start ∧ r₀.endIncl.val ≤ r.endIncl.val := by
  have hperm := perm_insertionSort (fun a b : LockRecord => a.start.val ≤ b.start.val) state.records
  rw [coalesce] at h
  grind [origin_of_mem_coalesceFrom]

theorem owner_of_mem_removeRange (h : r ∈ (removeRange state owner start endIncl).records) :
    ∃ r₀ ∈ state.records, r₀.owner = r.owner := by
  obtain ⟨r₁, hr₁, heq₁, -⟩ := origin_of_mem_coalesce h
  obtain ⟨r₀, hr₀, htrim⟩ := mem_flatMap.mp hr₁
  refine ⟨r₀, hr₀, ?_⟩
  rw [← heq₁]
  rw [trim] at htrim
  grind

/-! ## Records with a byte -/

/-- Every record has a byte. -/
def Proper (records : List LockRecord) : Prop := ∀ r ∈ records, r.start.val ≤ r.endIncl.val

section

variable (h : Proper state.records)
include h

theorem Proper.coalesce : Proper (coalesce state).records := by
  intro r hr
  obtain ⟨r₀, hr₀, -, hstart, hend⟩ := origin_of_mem_coalesce hr
  exact hstart ▸ (h r₀ hr₀).trans hend

variable (owner : LockOwner)

theorem Proper.removeRange
    (start endIncl : I64) : Proper (removeRange state owner start endIncl).records := by
  refine Proper.coalesce fun r' hr' => ?_
  obtain ⟨r, hr, htrim⟩ := mem_flatMap.mp hr'
  have hle := h r hr
  have hlo := r.start.ge
  have hhi := r.endIncl.lt
  unfold trim at htrim
  split_ifs at htrim <;> grind [saturatingPred_of_le, saturatingSucc_of_lt]

theorem Proper.applyLock (ownerPid ltype : ℤ) (hrange : start.val ≤ endIncl.val) :
    Proper (applyLock state owner ownerPid ltype start endIncl).2.records := by
  by_cases hlock : ltype = F_RDLCK ∨ ltype = F_WRLCK
  · rcases applyLock_lock state owner start endIncl hlock with heq | ⟨-, heq⟩
    · rwa [heq]
    · rw [heq]
      refine Proper.coalesce fun r hr => ?_
      rcases mem_append.mp hr with hr | hr
      · exact h.removeRange owner start endIncl r hr
      · rw [mem_singleton.mp hr]
        exact hrange
  · rw [applyLock_unlock _ _ hlock]
    exact h.removeRange owner start endIncl

end

/-! ## Requests, byte by byte -/

def IsLock (ltype : ℤ) : Prop := ltype = F_RDLCK ∨ ltype = F_WRLCK

/-- Another owner holds a lock on a byte of the range that does not go with the request. -/
def Refuses (records : List LockRecord) (owner : LockOwner) (ltype : ℤ) (start endIncl : I64) :
    Prop :=
  IsLock ltype ∧ ∃ o ty p, sameOwner o owner = false ∧ Holds records o ty p ∧
    (start.val ≤ p ∧ p ≤ endIncl.val) ∧ (ty = .write ∨ requestedType ltype = .write)

/-- What a request leaves behind. -/
structure Applied (state : EntryState) (owner : LockOwner) (ltype : ℤ) (start endIncl : I64)
    (result : Bool × EntryState) : Prop where
  refused_iff : result.1 = false ↔ Refuses state.records owner ltype start endIncl
  unchanged : result.1 = false → result.2 = state
  inside : result.1 = true → ∀ o ty p, sameOwner o owner = true →
    start.val ≤ p ∧ p ≤ endIncl.val →
      (Holds result.2.records o ty p ↔ IsLock ltype ∧ ty = requestedType ltype)
  others : result.1 = true → ∀ o ty p,
    ¬ (sameOwner o owner = true ∧ start.val ≤ p ∧ p ≤ endIncl.val) →
      (Holds result.2.records o ty p ↔ Holds state.records o ty p)

/-- A record that stands against a request has a byte in common with it. -/
theorem blocks_iff (hr : r.start.val ≤ r.endIncl.val) (hrange : start.val ≤ endIncl.val) :
    blocks owner lt start endIncl r = true ↔ sameOwner r.owner owner = false ∧
      (∃ p, r.Covers p ∧ start.val ≤ p ∧ p ≤ endIncl.val) ∧
        (r.lockType = .write ∨ lt = .write) := by
  have hmeet : (∃ p, r.Covers p ∧ start.val ≤ p ∧ p ≤ endIncl.val) ↔
      ¬ (r.endIncl.val < start.val ∨ endIncl.val < r.start.val) := by
    constructor
    · rintro ⟨p, ⟨h₁, h₂⟩, h₃, h₄⟩
      omega
    · intro h
      exact ⟨max r.start.val start.val, ⟨by omega, by omega⟩, by omega, by omega⟩
  rw [hmeet]
  simp only [blocks, conflict, Bool.and_eq_true, Bool.not_eq_true', Bool.or_eq_true,
    decide_eq_true_eq]
  split_ifs <;> simp_all

theorem any_blocks_iff (h : Proper records)
    (hlock : IsLock ltype) (hrange : start.val ≤ endIncl.val) :
    records.any (blocks owner (requestedType ltype) start endIncl) = true ↔
      Refuses records owner ltype start endIncl := by
  rw [any_eq_true]
  constructor
  · rintro ⟨r, hr, hb⟩
    obtain ⟨hother, ⟨p, hcov, hp⟩, hwrite⟩ := (blocks_iff (h r hr) hrange).mp hb
    have hself : sameOwner r.owner r.owner = true := by cases r.owner <;> simp [sameOwner]
    exact ⟨hlock, r.owner, r.lockType, p, hother, ⟨r, hr, hself, rfl, hcov⟩, hp, hwrite⟩
  · rintro ⟨-, o, ty, p, hother, ⟨r, hr, hsame, rfl, hcov⟩, hp, hwrite⟩
    refine ⟨r, hr, (blocks_iff (h r hr) hrange).mpr ⟨?_, ⟨p, hcov, hp⟩, hwrite⟩⟩
    rw [sameOwner_congr hsame, hother]

/-- **A request is refused exactly for an incompatible lock of another owner**, and then changes
nothing; otherwise it sets the bytes of its range for its owner and leaves all others alone. -/
theorem bytes_of_applyLock {state : EntryState} (hlist : Proper state.records)
    (owner : LockOwner) (ownerPid ltype : ℤ) {start endIncl : I64}
    (hrange : start.val ≤ endIncl.val) : Applied state owner ltype start endIncl
      (applyLock state owner ownerPid ltype start endIncl) := by
  by_cases hlock : IsLock ltype
  · have hany : _ ↔ Refuses state.records owner ltype start endIncl :=
      any_blocks_iff hlist hlock hrange
    rcases applyLock_lock state owner start endIncl hlock with heq | ⟨hfree, heq⟩
    · have hrefuses : Refuses state.records owner ltype start endIncl := by
        rw [← hany]
        by_contra hno
        unfold IsLock at hlock
        simp [applyLock, hlock, hno] at heq
      rw [heq]
      exact ⟨iff_of_true rfl hrefuses, fun _ => rfl, nofun, nofun⟩
    · have hno : ¬ Refuses state.records owner ltype start endIncl := by
        rw [← hany]
        simpa using hfree
      rw [heq]
      refine ⟨iff_of_false nofun hno, nofun, fun _ o ty p ho hp => ?_, fun _ o ty p hout => ?_⟩
      all_goals
        rw [holds_granted]
        grind [sameOwner_comm]
  · rw [applyLock_unlock _ _ hlock]
    refine ⟨iff_of_false nofun fun h => hlock h.1, nofun, fun _ o ty p ho hp => ?_,
      fun _ o ty p hout => ?_⟩
    all_goals
      rw [holds_removeRange]
      grind

/-- A reader takes bytes 0 to 9. -/
def readTen : EntryState := (applyLock ⟨[]⟩ (.ofd 1) (-1) F_RDLCK (ofInt 0) (ofInt 9)).2

/-- It then writes bytes 3 to 5. -/
def writeInside : Bool × EntryState :=
  applyLock readTen (.ofd 1) (-1) F_WRLCK (ofInt 3) (ofInt 5)

/-- The second request splits the lock of the first, and another writer is refused byte 5. -/
theorem bytes_of_writeInside : writeInside.1 = true ∧ writeInside.2.records.length = 3 ∧
    Applied readTen (.ofd 1) F_WRLCK (ofInt 3) (ofInt 5) writeInside ∧
    (applyLock writeInside.2 (.ofd 2) (-1) F_WRLCK (ofInt 5) (ofInt 5)).1 = false ∧
    Applied writeInside.2 (.ofd 2) F_WRLCK (ofInt 5) (ofInt 5)
      (applyLock writeInside.2 (.ofd 2) (-1) F_WRLCK (ofInt 5) (ofInt 5)) := by
  have hread : Proper readTen.records :=
    Proper.applyLock (fun _ hr => absurd hr not_mem_nil : Proper (EntryState.mk []).records)
      (.ofd 1) (-1) F_RDLCK (by decide)
  have hinside : Proper writeInside.2.records :=
    hread.applyLock (.ofd 1) (-1) F_WRLCK (by decide)
  exact ⟨by decide +kernel, by decide +kernel,
    bytes_of_applyLock hread (.ofd 1) (-1) F_WRLCK (by decide), by decide +kernel,
    bytes_of_applyLock hinside (.ofd 2) (-1) F_WRLCK (by decide)⟩

end MangoCore.Fs.PosixLock
