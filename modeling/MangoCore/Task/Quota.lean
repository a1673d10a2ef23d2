import MangoCore.Errno
import Mathlib.Data.Finset.Card

/-!
# The task quota

A task exists only while it holds one unit of a global quota: `clone` fails when the limit is
reached, and the unit is given back when the task is gone.  The limit is a constant of the platform,
lowered on machines with little memory.
-/

namespace MangoCore.Task

/-- The platforms the kernel is built for. -/
inductive Platform where
  | riscv | loongarchQemu | loongarchUboot
  deriving DecidableEq

namespace Platform

def kernelStackSize : Platform → ℕ
  | .riscv => 4096 * 0x10
  | _ => 4096 * 0x20

def systemTaskLimit : Platform → ℕ
  | .riscv =>
    let limit := 0x400000000 / (kernelStackSize .riscv * 4)
    if limit < 512 then 512 else if limit > 4096 then 4096 else limit
  | .loongarchQemu => loongarch 0x30000000
  | .loongarchUboot => loongarch 0x80000000
where
  loongarch (memorySize : ℕ) : ℕ :=
    let byRam := memorySize / (4096 * 0x20 * 4)
    let limit := if byRam < 1024 then byRam else 1024
    if limit < 512 then 512 else limit

/-- `task_limit`, with the memory that the firmware reports. -/
def taskLimit (p : Platform) (ram : ℕ) : ℕ :=
  min p.systemTaskLimit (max (ram / (p.kernelStackSize * 4)) 512)

end Platform

/-- `TaskQuotaGuard::try_acquire` for a new task. -/
def tryAcquire (limit : ℕ) (tasks : Finset ℕ) (t : ℕ) : Except Errno (Finset ℕ) :=
  if tasks.card ≥ limit then .error .EAGAIN else .ok (insert t tasks)
end MangoCore.Task
