import MangoCore.Mm.UserBuffer
import MangoCore.Errno

/-!
# Copies to and from user memory

`copy_user_bytes_progress` goes through a range of user memory page by page.  For each page it may
fault the page in, and then looks it up and copies the bytes under the lock of the address space, so
that the mappings may change in any way between two pages (`Moment`).  The copy returns its calls of
`copy_chunk` beside the answer.  What a `UserBuffer` calls is this function without faults, of which
it sees the number of bytes only (`reported_copyUserBytesProgress`).
-/

namespace MangoCore.Mm.UserCopy

open List VirtAddr

inductive Direction where
  | fromUser | toUser | fillUser

/-- The permission that `resolve_user_va` asks for. -/
def Direction.access : Direction → UserAccess
  | .fromUser => .read
  | .toUser | .fillUser => .write

/-- What a page of the copy meets: the error of `fault_in_user_va_retry`, if any, and then the page
table. -/
structure Moment where
  fault : Option Errno
  translateVa : ℕ → Option ℕ
  userAccessOk : ℕ → UserAccess → Option Bool

/-- A call of `copy_chunk`, for the page of a moment. -/
structure Chunk where
  moment : ℕ
  va : ℕ
  pa : ℕ
  offset : ℕ
  len : ℕ

structure UserCopyFault where
  copied : ℕ
  errno : Errno

/-- The bytes that an answer reports. -/
def reported : Except UserCopyFault ℕ → ℕ
  | .ok copied => copied
  | .error fault => fault.copied

def checkUserRange (arch : Arch) (ptr len : ℕ) : Except Errno ℕ :=
  if len = 0 then .ok ptr
  else if usizeRange ≤ ptr + len then .error .EFAULT
  else if ptr < arch.userVaEnd ∧ ptr + len ≤ arch.userVaEnd then .ok (ptr + len)
  else .error .EFAULT

/-- `ram` is `is_allocatable_ram_phys_addr`; every error is reported as `EFAULT`. -/
def resolveUserVa (ram : ℕ → Bool) (m : Moment) (va : ℕ) (access : UserAccess) : Except Errno ℕ :=
  match m.translateVa va with
  | none => .error .EFAULT
  | some pa =>
    if ram pa ∧ (m.userAccessOk (floor va) access).getD false then .ok pa else .error .EFAULT

section

variable (arch : Arch) (ram : ℕ → Bool) (moments : ℕ → Moment) (faultIn : Bool) (userAddr len : ℕ)
  (direction : Direction)

/-- The loop, at page `i` of the copy. -/
def copyLoop (i copied : ℕ) : List Chunk × Except UserCopyFault ℕ :=
  if _h : copied < len then
    let va := userAddr + copied
    let chunkLen := min (pageSize - va % pageSize) (userAddr + len - va)
    match if faultIn then (moments i).fault else none with
    | some errno => ([], .error ⟨copied, errno⟩)
    | none =>
      match resolveUserVa ram (moments i) va direction.access with
      | .error errno => ([], .error ⟨copied, errno⟩)
      | .ok pa =>
        let rest := copyLoop (i + 1) (copied + chunkLen)
        (⟨i, va, pa, copied, chunkLen⟩ :: rest.1, rest.2)
  else ([], .ok copied)
termination_by len - copied
decreasing_by
  have hmod : (userAddr + copied) % pageSize < pageSize := Nat.mod_lt _ (by decide)
  omega

/-- `current` tells whether the token is the one of the current task. -/
def copyUserBytesProgress (current : Bool) : List Chunk × Except UserCopyFault ℕ :=
  if len = 0 then ([], .ok 0)
  else if maxBufferSize < len ∨ userAddr = 0 then ([], .error ⟨0, .EFAULT⟩)
  else match checkUserRange arch userAddr len with
    | .error errno => ([], .error ⟨0, errno⟩)
    | .ok _ =>
      if current then copyLoop ram moments faultIn userAddr len direction 0 0
      else ([], .error ⟨0, .EFAULT⟩)

end

variable {arch : Arch} {ram : ℕ → Bool} {moments : ℕ → Moment} {faultIn : Bool} {userAddr len : ℕ}
  {direction : Direction} {i copied : ℕ}

/-- The chunk lies in the range and in one page, which grants the access when it is copied. -/
structure Allowed (moments : ℕ → Moment) (userAddr stop : ℕ) (access : UserAccess) (c : Chunk) :
    Prop where
  va_eq : c.va = userAddr + c.offset
  in_range : c.va + c.len ≤ stop
  in_page : c.va % pageSize + c.len ≤ pageSize
  mapped : (moments c.moment).translateVa c.va = some c.pa
  granted : (moments c.moment).userAccessOk (floor c.va) access = some true

/-- The answer of a copy from the byte `copied` on, and its chunks. -/
structure Exact (moments : ℕ → Moment) (userAddr len stop : ℕ) (access : UserAccess) (copied : ℕ)
    (r : List Chunk × Except UserCopyFault ℕ) : Prop where
  le : copied ≤ reported r.2
  bytes : r.1.flatMap (fun c => range' c.offset c.len) = range' copied (reported r.2 - copied)
  allowed : ∀ c ∈ r.1, Allowed moments userAddr stop access c
  all : ∀ n, r.2 = .ok n → n = len

theorem resolveUserVa_eq_ok {m : Moment} {va pa : ℕ} {access : UserAccess}
    (h : resolveUserVa ram m va access = .ok pa) :
    m.translateVa va = some pa ∧ m.userAccessOk (floor va) access = some true := by
  unfold resolveUserVa at h
  split at h
  · cases h
  · split_ifs at h with hok
    cases h
    cases haccess : m.userAccessOk (floor va) access with
    | none => simp [haccess] at hok
    | some granted => simp_all

theorem exact_copyLoop {stop : ℕ} (hstop : userAddr + len ≤ stop) (hle : copied ≤ len) :
    Exact moments userAddr len stop direction.access copied
      (copyLoop ram moments faultIn userAddr len direction i copied) := by
  fun_induction copyLoop ram moments faultIn userAddr len direction i copied with
  | case1 | case2 => exact ⟨le_rfl, by simp [reported], by simp, by simp⟩
  | case3 i copied hlt va chunkLen hfault pa hresolve rest ih =>
    have hmod : va % pageSize < pageSize := Nat.mod_lt _ (by decide)
    obtain ⟨hrest, hbytes, hallowed, hall⟩ := ih (by omega)
    obtain ⟨hmapped, hgranted⟩ := resolveUserVa_eq_ok hresolve
    refine ⟨(Nat.le_add_right ..).trans hrest, ?_, forall_mem_cons.mpr ⟨?_, hallowed⟩, hall⟩
    · rw [flatMap_cons, hbytes, range'_append_1, add_comm, Nat.sub_add_eq,
        Nat.sub_add_cancel (Nat.le_sub_of_add_le' hrest)]
    · exact ⟨rfl, by dsimp only; omega, by dsimp only; omega, hmapped, hgranted⟩
  | case4 i copied hge =>
    exact ⟨le_rfl, by simp [reported], by simp, fun n hn => by cases hn; omega⟩

/-- **Exact progress.**  The chunks of a copy are the bytes that it reports, in order and each once,
which are all if it succeeds.  They lie in the user range, on pages that grant the access at the
time. -/
theorem exact_copyUserBytesProgress {current : Bool} :
    Exact moments userAddr len arch.userVaEnd direction.access 0
      (copyUserBytesProgress arch ram moments faultIn userAddr len direction current) := by
  have hnone : ∀ errno, Exact moments userAddr len arch.userVaEnd direction.access 0
      ([], .error ⟨0, errno⟩) := fun errno => ⟨le_rfl, rfl, by simp, by simp⟩
  unfold copyUserBytesProgress
  split_ifs with hlen
  · exact ⟨le_rfl, rfl, by simp, fun n hn => by cases hn; exact hlen.symm⟩
  · exact hnone _
  · split
    · exact hnone _
    · have hend : userAddr + len ≤ arch.userVaEnd := by grind [checkUserRange]
      exact exact_copyLoop hend len.zero_le
  · split <;> exact hnone _

/-! ## The copies of a buffer -/

/-- Whether the page of an address can be copied when its turn comes. -/
def resolves (ram : ℕ → Bool) (moments : ℕ → Moment) (direction : Direction)
    (userAddr addr : ℕ) : Bool :=
  (resolveUserVa ram (moments (floor addr - floor userAddr)) addr direction.access).isOk

theorem reported_copyLoop (hle : copied ≤ len)
    (hi : copied < len → i = floor (userAddr + copied) - floor userAddr) :
    reported (copyLoop ram moments false userAddr len direction i copied).2 =
      copied + copyPages (resolves ram moments direction userAddr) (userAddr + copied)
        (len - copied) := by
  fun_induction copyLoop ram moments false userAddr len direction i copied with
  | case1 i copied hlt errno hfault => cases hfault
  | case2 i copied hlt va hfault errno herror =>
    have hno : resolves ram moments direction userAddr (userAddr + copied) = false := by
      rw [resolves, ← hi hlt, herror]
      rfl
    rw [copyPages, dif_neg (by omega), hno]
    rfl
  | case3 i copied hlt va chunkLen hfault pa hresolve rest ih =>
    have hmod : va % pageSize < pageSize := Nat.mod_lt _ (by decide)
    have hyes : resolves ram moments direction userAddr va = true := by
      rw [resolves, ← hi hlt, hresolve]
      rfl
    have hchunk : min (pageSize - va % pageSize) (len - copied) = chunkLen := by omega
    rw [copyPages, dif_neg (by omega)]
    rw [hyes, if_pos rfl, hchunk, ih (by omega) fun hrest => ?_]
    · rw [Nat.sub_add_eq, Nat.add_assoc, Nat.add_assoc]
    · have hfull : chunkLen = pageSize - va % pageSize := by omega
      have hnow := hi hlt
      simp only [floor, pageSize] at hnow hmod hfull ⊢
      omega
  | case4 i copied hge =>
    rw [copyPages, dif_pos (by omega)]
    rfl

/-- **The copies of a `UserBuffer` are these copies** without faulting pages in: they copy up to the
first page that does not resolve. -/
theorem reported_copyUserBytesProgress {current : Bool} :
    reported (copyUserBytesProgress arch ram moments false userAddr len direction current).2 =
      Mm.copyUserBytesProgress (fun addr => current && (checkUserRange arch userAddr len).isOk &&
        resolves ram moments direction userAddr addr) userAddr len := by
  have hzero : copyPages (fun _ => false) userAddr len = 0 := by
    rw [copyPages]
    split <;> rfl
  unfold copyUserBytesProgress Mm.copyUserBytesProgress
  simp only [Bool.or_eq_true, decide_eq_true_eq, beq_iff_eq]
  split_ifs with hlen hbad hcurrent
  · rfl
  · rfl
  · cases hcheck : checkUserRange arch userAddr len with
    | error errno => simpa [reported, Except.isOk, Except.toBool] using hzero.symm
    | ok stop =>
      rw [reported_copyLoop len.zero_le fun _ => (Nat.sub_self (floor userAddr)).symm]
      simp [hcurrent, Except.isOk, Except.toBool]
  · rw [Bool.not_eq_true] at hcurrent
    cases checkUserRange arch userAddr len <;> simpa [reported, hcurrent] using hzero.symm

end MangoCore.Mm.UserCopy
