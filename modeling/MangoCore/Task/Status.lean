import Mathlib.Data.Nat.Bitwise

/-!
# The scheduling state of a task

A task control block holds one atomic word that says who owns the task: a run queue, a CPU, the
registry of interruptible sleepers, or a context that moves the task from one place to another.  The
word is a tag in its three low bits and a CPU number above them.  All ownership is handed over by
compare-and-swap on this word, so what matters is that two states never share an encoding
(`encode_injective`); the models of the scheduler then hold the decoded state.
-/

namespace MangoCore.Task

inductive TaskStatus where
  | new
  | queued (cpu : ℕ)
  | running (cpu : ℕ)
  /-- Registered as a sleeper, but still on its CPU. -/
  | blocking (cpu : ℕ)
  | blocked
  /-- Taken out of a run queue by a context that has not handed it on yet. -/
  | migrating
  | zombie
  deriving DecidableEq, Repr

namespace TaskStatus

def tagBits : ℕ := 3

/-- A CPU number above a tag. -/
def withTag (cpu tag : ℕ) : ℕ := cpu <<< tagBits ||| tag

def encode : TaskStatus → ℕ
  | .new => 0
  | .blocked => 1
  | .queued cpu => withTag cpu 2
  | .running cpu => withTag cpu 3
  | .blocking cpu => withTag cpu 4
  | .zombie => 5
  | .migrating => 6

/-- `none` is the panic on a tag that no state has. -/
def decode (raw : ℕ) : Option TaskStatus :=
  match raw % 2 ^ tagBits with
  | 0 => some .new
  | 1 => some .blocked
  | 2 => some (.queued (raw >>> tagBits))
  | 3 => some (.running (raw >>> tagBits))
  | 4 => some (.blocking (raw >>> tagBits))
  | 5 => some .zombie
  | 6 => some .migrating
  | _ => none

theorem withTag_mod {cpu tag : ℕ} (h : tag < 8) : withTag cpu tag % 2 ^ tagBits = tag := by
  rw [withTag, Nat.shiftLeft_eq, mul_comm, ← Nat.two_pow_add_eq_or_of_lt h, tagBits]
  omega

theorem withTag_shiftRight {cpu tag : ℕ} (h : tag < 8) : withTag cpu tag >>> tagBits = cpu := by
  rw [withTag, Nat.shiftLeft_eq, mul_comm, ← Nat.two_pow_add_eq_or_of_lt h,
    Nat.shiftRight_eq_div_pow, tagBits]
  omega

/-- **Decoding undoes encoding.** -/
theorem decode_encode (s : TaskStatus) : decode s.encode = some s := by
  cases s with
  | new | blocked | zombie | migrating => rfl
  | queued cpu | running cpu | blocking cpu =>
    grind [encode, decode, withTag_mod, withTag_shiftRight]

/-- **A compare-and-swap on the word compares states.** -/
theorem encode_injective : Function.Injective encode := by
  intro s t h
  have hs := decode_encode s
  rw [h, decode_encode t] at hs
  exact (Option.some.inj hs).symm

/-- On the way to sleep or asleep: the states of the tasks in the interruptible registry. -/
def asleep : TaskStatus → Bool
  | .blocking _ | .blocked => true
  | _ => false

end TaskStatus
end MangoCore.Task
