import MangoCore.Errno
import Mathlib.Data.Nat.Notation

/-!
# Permissions of System V objects

Shared memory segments, semaphore sets and message queues are protected in the same way, and the
source has one copy of each function for each kind of object.  What they read is `IpcPerm` and the
identity of the caller.
-/

namespace MangoCore.Ipc

/-- The owner and creator of an object, and its mode. -/
structure IpcPerm where
  uid : ℕ
  gid : ℕ
  cuid : ℕ
  cgid : ℕ
  mode : ℕ
  deriving DecidableEq

/-- What a call knows about its caller, and the time. -/
structure Caller where
  euid : ℕ
  egid : ℕ
  pid : ℕ
  now : ℕ
  deriving DecidableEq

variable (perm : IpcPerm) (c : Caller)

/-- A new object belongs to its creator. -/
def IpcPerm.new (mode : ℕ) : IpcPerm where
  uid := c.euid
  gid := c.egid
  cuid := c.euid
  cgid := c.egid
  mode := mode % 0o1000

/-- `has_shm_permission`, `has_sem_permission` and `has_msg_permission`: the class of the caller
decides which three bits of the mode count. -/
def hasPermission (read write : Bool) : Bool :=
  if !read && !write then true
  else if c.euid = 0 then true
  else
    let shift :=
      if c.euid = perm.uid ∨ c.euid = perm.cuid then 6
      else if c.egid = perm.gid ∨ c.egid = perm.cgid then 3
      else 0
    let available := (perm.mode >>> shift) &&& 7
    let need := (if read then 4 else 0) ||| (if write then 2 else 0)
    available &&& need == need

/-- `can_modify_shm_segment`, `can_modify_sem_set` and `can_modify_msg_queue`. -/
def canModify : Bool :=
  c.euid == 0 || c.euid == perm.uid || c.euid == perm.cuid
end MangoCore.Ipc
