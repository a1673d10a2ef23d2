import MangoCore.Mm.Address

/-!
# Buffers in user memory

A `UserBuffer` names ranges of user addresses and does not hold on to the pages behind them: every
copy looks the pages up again, so a copy can stop at any page boundary when another thread has
changed the mappings.  Whether a page can be copied at the moment its turn comes is the argument
`resolves` of the copies; the buffer is made by functions that check that its ranges lie in user
space.

`transfer` reports an error only if nothing was copied, and a copy of at least one byte of the
buffer never reports success with nothing copied (`transfer_spec`).
-/

namespace MangoCore.Mm

open Option

inductive UserAccess where
  | read | write | readWrite
  deriving DecidableEq

namespace UserAccess

def needsRead : UserAccess → Bool
  | .read => true
  | .write => false
  | .readWrite => true

def needsWrite : UserAccess → Bool
  | .read => false
  | .write => true
  | .readWrite => true

end UserAccess

structure UserRange where
  start : ℕ
  len : ℕ

/-- One range, or the ranges of a scatter list. -/
structure UserBuffer where
  ranges : List UserRange
  len : ℕ
  access : UserAccess
  len_eq : len = (ranges.map UserRange.len).sum
  in_user_space : ∀ r ∈ ranges, r.start + r.len < usizeRange

def maxBufferSize : ℕ := 1024 * 1024 * 8

/-- The pages of a range one after the other: the number of bytes copied before the first page that
does not resolve. -/
def copyPages (resolves : ℕ → Bool) (addr len : ℕ) : ℕ :=
  if _h : len = 0 then 0
  else
    let chunk := min (pageSize - addr % pageSize) len
    if resolves addr then chunk + copyPages resolves (addr + chunk) (len - chunk) else 0
termination_by len
decreasing_by
  have hmod : addr % pageSize < pageSize := Nat.mod_lt _ (by decide)
  omega

section

variable (resolves : ℕ → Bool)

variable (userAddr len : ℕ)

/-- The number of bytes that a copy of one range makes; it fails if they are not all. -/
def copyUserBytesProgress : ℕ :=
  if len = 0 then 0
  else if maxBufferSize < len || userAddr == 0 then 0
  else copyPages resolves userAddr len

theorem copyPages_le (addr len : ℕ) : copyPages resolves addr len ≤ len := by
  fun_induction copyPages resolves addr len with
  | _ => omega

theorem copyUserBytesProgress_le : copyUserBytesProgress resolves userAddr len ≤ len := by
  grind [copyUserBytesProgress, copyPages_le]

end

namespace UserBuffer

section

variable (b : UserBuffer) (resolves : ℕ → Bool) (offset : ℕ)

/-- The loop of `transfer` over the ranges that remain: `logical` is the offset of the first of them
in the buffer and `copied` counts the bytes so far; `none` is an error. -/
def transferRanges (resolves : ℕ → Bool) (offset limit : ℕ) :
    List UserRange → (logical copied : ℕ) → Option ℕ
  | [], _, copied => some copied
  | range :: ranges, logical, copied =>
    let next := logical + range.len
    let start := max logical offset
    let stop := min next limit
    if start < stop then
      let done := copyUserBytesProgress resolves (range.start + (start - logical)) (stop - start)
      if done = stop - start then
        if limit ≤ next then some (copied + done)
        else transferRanges resolves offset limit ranges next (copied + done)
      else if copied + done = 0 then none else some (copied + done)
    else if limit ≤ next then some copied
    else transferRanges resolves offset limit ranges next copied

def transfer (len : ℕ) : Option ℕ :=
  if len = 0 ∨ b.len ≤ offset then some 0
  else transferRanges resolves offset (min (offset + len) b.len) b.ranges 0 0

def readIntoAtNofault (dstLen : ℕ) : Option ℕ :=
  let len := min dstLen (b.len - offset)
  if len = 0 then some 0
  else if !b.access.needsRead then none
  else b.transfer resolves offset len

def writeFromAtNofault (srcLen : ℕ) : Option ℕ :=
  let len := min srcLen (b.len - offset)
  if len = 0 then some 0
  else if !b.access.needsWrite then none
  else b.transfer resolves offset len

end

/-! ## How much is copied -/

variable {resolves : ℕ → Bool} {b : UserBuffer} {offset : ℕ} {ranges : List UserRange}
  {logical copied n : ℕ} {limit len : ℕ}

/-- The bytes that were copied are the first ones, up to the limit; and the copy has begun, or the
first byte is still ahead. -/
theorem transferRanges_spec (hlimit : offset < limit)
    (h : transferRanges resolves offset limit ranges logical copied = some n)
    (hcopied : copied + offset ≤ max offset (min logical limit))
    (hahead : 0 < copied ∨ logical ≤ offset ∧ limit ≤ logical + (ranges.map UserRange.len).sum) :
    0 < n ∧ n + offset ≤ limit := by
  induction ranges generalizing logical copied with
  | nil =>
    have : copied = n := some.inj h
    simp only [List.map_nil, List.sum_nil] at hahead
    omega
  | cons range ranges ih =>
    rw [transferRanges] at h
    have hdone := copyUserBytesProgress_le resolves (range.start + (max logical offset - logical))
      (min (logical + range.len) limit - max logical offset)
    dsimp only at h
    rw [List.map_cons, List.sum_cons] at hahead
    split_ifs at h
    · have := some.inj h
      omega
    · exact ih h (by omega) (by omega)
    · have := some.inj h
      omega
    · have := some.inj h
      omega
    · exact ih h (by omega) (by omega)

/-- **A copy that succeeds makes progress.** -/
theorem transfer_spec (hlen : 0 < len) (hoffset : offset < b.len)
    (h : b.transfer resolves offset len = some n) : 0 < n ∧ n ≤ len := by
  unfold transfer at h
  rw [if_neg (by omega)] at h
  have hsum := b.len_eq
  have := transferRanges_spec (by omega) h (by omega) (.inr (by omega))
  omega

/-- What a copy into the buffer can do. -/
theorem writeFromAtNofault_spec {srcLen : ℕ} (hsrc : 0 < srcLen) (hfits : offset + srcLen ≤ b.len)
    (h : b.writeFromAtNofault resolves offset srcLen = some n) : 0 < n ∧ n ≤ srcLen := by
  unfold writeFromAtNofault at h
  rw [min_eq_left (by omega)] at h
  rw [if_neg (by omega)] at h
  split_ifs at h
  exact transfer_spec hsrc (by omega) h

/-- What a copy out of the buffer can do. -/
theorem readIntoAtNofault_spec {dstLen : ℕ} (hdst : 0 < dstLen) (hfits : offset + dstLen ≤ b.len)
    (h : b.readIntoAtNofault resolves offset dstLen = some n) : 0 < n ∧ n ≤ dstLen := by
  unfold readIntoAtNofault at h
  rw [min_eq_left (by omega)] at h
  rw [if_neg (by omega)] at h
  split_ifs at h
  exact transfer_spec hdst (by omega) h

end UserBuffer
end MangoCore.Mm
