import MangoCore.Errno
import MangoCore.Lib.I64
import MangoCore.Lib.OrdMap
import Mathlib.Data.List.Sort

/-!
# POSIX record locks

The locks of one file are a list of records, each a byte range with inclusive ends, a type and an
owner.  This file embeds the functions on that list: a range is taken out of an owner's records
(`removeRange`), neighbouring records are joined (`coalesce`), and a request is checked against the
other owners and applied (`applyLock`).  Beside them stand the pure parts of `posix_lock_set`: the
byte range a request means (`resolveRange`), and the wait graph with its search for a cycle.

Owners are processes, by the identity of their descriptor table, or open file descriptions.  The
process number is carried along for reports only; two owners are the same when their identities are.
-/

namespace MangoCore.Fs.PosixLock

open I64

/-! ## Keys and requests -/

def numShards : ℕ := 53

/-- A file, by its device and inode. -/
structure LockKey where
  devId : ℕ
  inodeId : ℕ
  deriving DecidableEq, Repr

/-- The shard of a file: a 32-bit mixing hash. -/
@[irreducible]
def LockKey.shard (key : LockKey) : ℕ :=
  let h : UInt32 := UInt32.ofNat key.devId
  let h := h + (h <<< 10)
  let h := h ^^^ (h >>> 6)
  let h := h + UInt32.ofNat key.inodeId
  let h := h + (h <<< 10)
  let h := h ^^^ (h >>> 6)
  let h := h + (h <<< 3)
  let h := h ^^^ (h >>> 11)
  let h := h + (h <<< 15)
  h.toNat % numShards

inductive LockType where
  | read
  | write
  deriving DecidableEq, Repr

inductive LockOwner where
  | posix (ownerId : ℕ) (ownerPid : ℤ)
  | ofd (openFileId : ℕ)
  deriving DecidableEq, Repr

/-- One lock: the bytes from `start` to `endIncl`, both included. -/
structure LockRecord where
  owner : LockOwner
  ownerPid : ℤ
  lockType : LockType
  start : I64
  endIncl : I64
  deriving DecidableEq

structure EntryState where
  records : List LockRecord
  deriving DecidableEq

/-- The request as user space passes it; the process number is only written, by `F_GETLK`. -/
structure PosixFlock where
  lType : ℤ
  lWhence : ℤ
  lStart : I64
  lLen : I64
  deriving DecidableEq

def F_RDLCK : ℤ := 0
def F_WRLCK : ℤ := 1
def F_UNLCK : ℤ := 2

/-- What the lock code reads of an open file: its key and identity, the outcome of the two access
checks, the position, and the size, which `metadata` may fail to give. -/
structure File where
  posixLockKey : LockKey
  openFileId : ℕ
  readable : Except Errno Unit
  writable : Except Errno Unit
  offset : ℕ
  size : Option ℕ

/-! ## Owners and conflicts -/

def sameOwner : LockOwner → LockOwner → Bool
  | .posix a _, .posix b _ => a == b
  | .ofd a, .ofd b => a == b
  | _, _ => false

/-- The node of an owner in the wait graph.  Open file descriptions are tagged with bit 62. -/
def ownerGraphId : LockOwner → ℕ
  | .posix ownerId _ => ownerId
  | .ofd openFileId => openFileId ^^^ 2 ^ 62

def conflict (a : LockType) (aStart aEnd : I64) (b : LockType) (bStart bEnd : I64) : Bool :=
  if aEnd.val < bStart.val || bEnd.val < aStart.val then false
  else a == .write || b == .write

/-! ## Ranges -/

/-- Addition of `i128` values. -/
def checkedAdd (x y : ℤ) : Except Errno ℤ :=
  if -2 ^ 127 ≤ x + y ∧ x + y < 2 ^ 127 then .ok (x + y) else .error .EOVERFLOW

/-- The origin a request counts from. -/
def rangeBase (file : File) (whence : ℤ) : Except Errno ℤ :=
  if whence = 0 then .ok 0
  else if whence = 1 then .ok file.offset
  else if whence = 2 then
    match file.size with
    | none => .error .EINVAL
    | some size => .ok size
  else .error .EINVAL

/-- The first and the last byte of a request.  A negative length counts backwards, a zero length
reaches to the end, and an end past the last offset is cut off. -/
def resolveRange (file : File) (flock : PosixFlock) : Except Errno (I64 × I64) := do
  let base ← rangeBase file flock.lWhence
  let start ← checkedAdd base flock.lStart.val
  let len := flock.lLen.val
  let s ← if len < 0 then checkedAdd start len else .ok start
  let l := if len < 0 then -len else len
  if s < 0 ∨ maxValue.val < l then .error .EINVAL
  else if l = 0 then .ok (ofInt s, maxValue)
  else do
    let e ← checkedAdd s l
    .ok (ofInt s, if maxValue.val < e then maxValue else ofInt (e - 1))

/-! ## The list of records -/

/-- Whether the loop of `coalesce` joins a record with the next one. -/
def mergeable (a b : LockRecord) : Bool :=
  sameOwner a.owner b.owner && a.lockType == b.lockType
    && decide (b.start.val ≤ a.endIncl.saturatingSucc.val)

/-- The loop of `coalesce`, standing at record `a`. -/
def coalesceFrom (a : LockRecord) : List LockRecord → List LockRecord
  | [] => [a]
  | b :: l =>
    if mergeable a b then coalesceFrom { a with endIncl := a.endIncl.max b.endIncl } l
    else a :: coalesceFrom b l

/-- Records are sorted by their start, and neighbours of one owner and type are joined. -/
def coalesce (state : EntryState) : EntryState :=
  match state.records.insertionSort (fun a b => a.start.val ≤ b.start.val) with
  | [] => ⟨[]⟩
  | a :: l => ⟨coalesceFrom a l⟩

variable (state : EntryState) (owner : LockOwner) (start endIncl : I64)

/-- What is left of a record when `[start, endIncl]` is taken from its owner. -/
def trim (r : LockRecord) : List LockRecord :=
  if !sameOwner r.owner owner then [r]
  else if r.endIncl.val < start.val || endIncl.val < r.start.val then [r]
  else
    (if r.start.val < start.val then [{ r with endIncl := start.saturatingPred }] else [])
      ++ (if endIncl.val < r.endIncl.val then [{ r with start := endIncl.saturatingSucc }] else [])

def removeRange : EntryState :=
  coalesce ⟨state.records.flatMap (trim owner start endIncl)⟩

/-- A record of another owner that stands against a request. -/
def blocks (lt : LockType) (start endIncl : I64) (r : LockRecord) : Bool :=
  !sameOwner r.owner owner && conflict r.lockType r.start r.endIncl lt start endIncl

/-- The type that a lock request asks for. -/
def requestedType (ltype : ℤ) : LockType := if ltype = F_RDLCK then .read else .write

/-- A lock or unlock request on the list.  The result says whether it was granted; a refused request
changes nothing. -/
def applyLock (ownerPid : ℤ) (ltype : ℤ) (start endIncl : I64) : Bool × EntryState :=
  if ltype = F_RDLCK ∨ ltype = F_WRLCK then
    let lt := requestedType ltype
    if state.records.any (blocks owner lt start endIncl) then (false, state)
    else
      let state := removeRange state owner start endIncl
      (true, coalesce ⟨state.records ++ [⟨owner, ownerPid, lt, start, endIncl⟩]⟩)
  else (true, removeRange state owner start endIncl)

def validateAccess (file : File) (ltype : ℤ) : Except Errno Unit :=
  if ltype = F_RDLCK then file.readable
  else if ltype = F_WRLCK then file.writable
  else if ltype = F_UNLCK then .ok ()
  else .error .EINVAL

/-! ## The wait graph -/

/-- For every waiter, the owners it waits for, with a count. -/
abbrev EdgeMap := OrdMap ℕ (OrdMap ℕ ℕ)

variable (wg : EdgeMap) (waiter blocker : ℕ)

def addEdge : EdgeMap :=
  let edges := (wg.get? waiter).getD .empty
  wg.insert waiter (edges.insert blocker ((edges.get? blocker).getD 0 + 1))

/-- The depth-first search for `target`, with the top of the stack in front.  Every node is expanded
once, so the number of rounds is bounded by the number of edges. -/
def searchFrom (wg : EdgeMap) (target : ℕ) : ℕ → List ℕ → List ℕ → Bool
  | 0, _, _ => false
  | _ + 1, _, [] => false
  | fuel + 1, visited, n :: stack =>
    if n = target then true
    else if n ∈ visited then searchFrom wg target fuel visited stack
    else
      let next := match wg.get? n with
        | none => []
        | some edges => (edges.entries.map Prod.fst).reverse
      searchFrom wg target fuel (n :: visited) (next ++ stack)

/-- Whether `blocker` waits for `waiter`, possibly through others. -/
def deadlocks : Bool :=
  searchFrom wg waiter (wg.sum OrdMap.size + 2) [] [blocker]
end MangoCore.Fs.PosixLock
