import MangoCore.Ipc.Permission
import MangoCore.Lib.OrdMap
import MangoCore.Lib.System
import MangoCore.Mm.Address
import Mathlib.Data.Finset.Erase
import Mathlib.Data.Finset.Insert

/-!
# System V shared memory

A segment has a list of attachments, each a process and an address.  The list is kept by `shmat`,
`shmdt`, `fork` and `exit`, next to the address spaces of the processes, which every mapping call
changes.

An address space is what is mapped at each page: a page of a segment, or something else.  How the
memory subsystem represents it, and which free range it chooses, does not matter here; the choice
and its failures are part of a call's environment.  A failure before anything is changed, and one
after a fixed mapping has already cleared its range, are told apart.

A step is one whole call.  The times and process numbers that `shmctl` reports, and the locks on a
segment, are left out.
-/

namespace MangoCore.Ipc.Shm

open MangoCore.Mm

def shmmni : ℕ := 4096

def maxShmSize : ℕ := 16 * 1024 * 1024

/-- The layout of the address space, and the alignment that the C library of the platform expects of
a rounded address. -/
structure Config where
  arch : Arch
  archShmlba : ℕ

def Config.riscv : Config := ⟨.riscv, pageSize⟩

def Config.loongarch64 : Config := ⟨.loongarch64, 0x10000⟩

/-! ## Segments -/

structure ShmAttachment where
  pid : ℕ
  addr : ℕ
  deriving DecidableEq

structure ShmSegment where
  nsId : ℕ
  key : ℤ
  size : ℕ
  perm : IpcPerm
  removed : Bool
  /-- How many frames are allocated: none until the first `shmat`. -/
  frames : ℕ
  attachments : List ShmAttachment

def ShmSegment.new (nsId : ℕ) (key : ℤ) (size mode : ℕ) (c : Caller) : ShmSegment :=
  ⟨nsId, key, size, .new c mode, false, 0, []⟩

def pageCount (size : ℕ) : ℕ := (size + pageSize - 1) / pageSize

/-- The number that `IPC_STAT` reports. -/
def ShmSegment.nattch (seg : ShmSegment) : ℕ := seg.attachments.length

structure ShmRegistry where
  nextId : Option ℕ
  segments : OrdMap ℕ ShmSegment

def ShmRegistry.new : ShmRegistry := ⟨some 1, .empty⟩

/-- The answer of a call. -/
abbrev Answer := Except Errno ℕ

namespace ShmRegistry

variable (r : ShmRegistry)

def allocId : Option (ℕ × ShmRegistry) :=
  r.nextId.map fun id =>
    (id, { r with nextId := if id + 1 < 2 ^ 31 then some (id + 1) else none })

variable (shmid nsId : ℕ)

def findByKey (key : ℤ) : Option (ℕ × ShmSegment) :=
  r.segments.entries.find? fun e => e.2.nsId == nsId && !e.2.removed && e.2.key == key

def nsSegmentCount : ℕ :=
  (r.segments.entries.filter fun e => e.2.nsId == nsId).length

def removeIfDetached : ShmRegistry :=
  match r.segments.get? shmid with
  | none => r
  | some seg =>
    if seg.removed && seg.attachments.isEmpty then
      { r with segments := r.segments.erase shmid }
    else r

/-- The segment at an identifier is changed. -/
def setSegment (seg : ShmSegment) : ShmRegistry :=
  { r with segments := r.segments.insert shmid seg }

end ShmRegistry

/-- The arguments of `shmget`; key 0 is `IPC_PRIVATE`. -/
structure ShmgetArgs where
  key : ℤ
  size : ℕ
  create : Bool
  exclusive : Bool
  read : Bool
  write : Bool
  mode : ℕ

section

variable (r : ShmRegistry) (c : Caller) (nsId : ℕ) (a : ShmgetArgs)

/-- The part of `shmget` that makes a new segment. -/
def ShmRegistry.createSegment : Answer × ShmRegistry :=
  if a.size = 0 ∨ a.size > maxShmSize then (.error .EINVAL, r)
  else if r.nsSegmentCount nsId ≥ shmmni then (.error .ENOSPC, r)
  else
    match r.allocId with
    | none => (.error .ENOSPC, r)
    | some (id, r) => (.ok id, r.setSegment id (.new nsId a.key a.size a.mode c))

/-- `sys_shmget`. -/
def ShmRegistry.shmget : Answer × ShmRegistry :=
  if a.key = 0 then r.createSegment c nsId a
  else
    match r.findByKey nsId a.key with
    | some (id, seg) =>
      if a.create && a.exclusive then (.error .EEXIST, r)
      else if a.size > seg.size then (.error .EINVAL, r)
      else if !hasPermission seg.perm c a.read a.write then (.error .EACCES, r)
      else (.ok id, r)
    | none => if !a.create then (.error .ENOENT, r) else r.createSegment c nsId a

end

/-! ## Address spaces -/

/-- What is mapped at a page. -/
inductive Page where
  | shm (shmid index : ℕ)
  | other
  deriving DecidableEq

/-- What is mapped at each page of a process. -/
abbrev Space := ℕ → Option Page

namespace Space

variable (m : Space)

variable (start stop : ℕ)

def unmapRange : Space := fun vpn =>
  if start ≤ vpn ∧ vpn < stop then none else m vpn

def mapRange (p : ℕ → Page) : Space := fun vpn =>
  if start ≤ vpn ∧ vpn < stop then some (p (vpn - start)) else m vpn

def hasOverlap : Bool :=
  (List.range' start (stop - start)).any fun vpn => (m vpn).isSome

end Space

section

variable (arch : Arch)

/-- `checked_user_range`, and the pages of the range. -/
def checkedUserRange (start len : ℕ) : Option (ℕ × ℕ) :=
  if len = 0 ∨ start ≥ arch.userVaEnd ∨ start + len > arch.userVaEnd then none
  else some (VirtAddr.floor start, VirtAddr.ceil (start + len))

/-- What the memory subsystem decides in a mapping call. -/
structure MapEnv where
  /-- The first page of the free range it chooses. -/
  chosen : Option ℕ
  /-- A failure before anything is changed. -/
  early : Option Errno
  /-- A failure after a fixed mapping has cleared its range. -/
  late : Option Errno

variable (m : Space) (start len : ℕ) (fixed noreplace : Bool) (env : MapEnv)

/-- Where a mapping goes: at its fixed address, which is cleared first, or in a free range. -/
def placeMapping : Except Errno ℕ × Space :=
  match checkedUserRange arch start len with
  | none => (.error .EINVAL, m)
  | some (first, stop) =>
    match env.early with
    | some e => (.error e, m)
    | none =>
      if fixed then
        if noreplace && m.hasOverlap first stop then (.error .EEXIST, m)
        else
          match env.late with
          | some e => (.error e, m.unmapRange first stop)
          | none => (.ok first, m.unmapRange first stop)
      else
        match env.chosen with
        | none => (.error .ENOMEM, m)
        | some vpn =>
          if m.hasOverlap vpn (vpn + pageCount len) ∨
              (vpn + pageCount len) * pageSize > arch.userVaEnd then (.error .ENOMEM, m)
          else
            match env.late with
            | some e => (.error e, m)
            | none => (.ok vpn, m)

/-- `do_mmap`: pages that belong to no segment. -/
def mmap : Answer × Space :=
  if start % pageSize ≠ 0 then (.error .EINVAL, m)
  else
    match placeMapping arch m start len fixed noreplace env with
    | (.error e, m) => (.error e, m)
    | (.ok vpn, m) =>
      (.ok (vpn * pageSize), m.mapRange vpn (vpn + pageCount len) fun _ => .other)

/-- `do_shm_mmap`: the pages of a segment. -/
def shmMmap (remap : Bool) (shmid : ℕ) (seg : ShmSegment) (env : MapEnv) : Answer × Space :=
  if start % pageSize ≠ 0 then (.error .EINVAL, m)
  else
    match placeMapping arch m start seg.size fixed (!remap) env with
    | (.error e, m) => (.error e, m)
    | (.ok vpn, m) =>
      if seg.frames ≠ pageCount seg.size then (.error .EINVAL, m)
      else (.ok (vpn * pageSize), m.mapRange vpn (vpn + pageCount seg.size) (.shm shmid))

/-- `do_munmap`. -/
def munmap (fault : Option Errno) : Answer × Space :=
  match checkedUserRange arch start len with
  | none => (.error .EINVAL, m)
  | some (first, stop) =>
    if start % pageSize ≠ 0 then (.error .EINVAL, m)
    else
      match fault with
      | some e => (.error e, m)
      | none => (.ok 0, m.unmapRange first stop)

end

/-! ## Attaching and detaching -/

structure ShmatArgs where
  shmid : ℕ
  addr : ℕ
  rdonly : Bool
  rnd : Bool
  remap : Bool
  unknown : Bool

/-- What the environment decides in `shmat`. -/
structure ShmatEnv where
  framesOk : Bool
  cloneOk : Bool
  map : MapEnv
  attachOk : Bool
  /-- A failure of the unmapping that undoes a mapping without an attachment. -/
  rollback : Option Errno

section

variable (cfg : Config) (r : ShmRegistry) (c : Caller) (nsId : ℕ) (a : ShmatArgs)

/-- The first section of `shmat`: the segment, with its frames allocated. -/
def ShmRegistry.shmatSegment (env : ShmatEnv) : Except Errno ShmSegment × ShmRegistry :=
  match r.segments.get? a.shmid with
  | none => (.error .EINVAL, r)
  | some seg =>
    if seg.nsId ≠ nsId then (.error .EINVAL, r)
    else if !hasPermission seg.perm c true (!a.rdonly) then (.error .EACCES, r)
    else if seg.frames = 0 ∧ !env.framesOk then (.error .ENOMEM, r)
    else
      let seg := if seg.frames = 0 then { seg with frames := pageCount seg.size } else seg
      let r := r.setSegment a.shmid seg
      if !env.cloneOk then (.error .ENOMEM, r)
      else if seg.removed then (.error .EIDRM, r)
      else (.ok seg, r)

def roundShmatAddr (addr : ℕ) : ℕ :=
  if cfg.archShmlba > pageSize ∧ addr % cfg.archShmlba = cfg.archShmlba - 1 then
    addr - addr % cfg.archShmlba
  else addr - addr % pageSize

/-- The address that `shmat` asks for, 0 if any will do. -/
def attachAddr : Except Errno ℕ :=
  if a.addr = 0 then .ok 0
  else if a.rnd then
    let addr := roundShmatAddr cfg a.addr
    if addr < 0x10000 then .error .EINVAL else .ok addr
  else if a.addr % pageSize ≠ 0 ∨ a.addr < 0x10000 then .error .EINVAL
  else .ok a.addr

/-- The segment with one more attachment. -/
def ShmSegment.attach (seg : ShmSegment) (pid addr : ℕ) : ShmSegment :=
  { seg with attachments := seg.attachments ++ [⟨pid, addr⟩] }

/-- `shmdt` on the registry: the first segment with the attachment, without it.  The order of the
attachments has no effect. -/
def ShmRegistry.shmdt (pid addr : ℕ) : Option (ShmSegment × ShmRegistry) :=
  (r.segments.entries.find? fun e => e.2.attachments.contains ⟨pid, addr⟩).map fun e =>
    let seg := { e.2 with attachments := e.2.attachments.erase ⟨pid, addr⟩ }
    (seg, (r.setSegment e.1 seg).removeIfDetached e.1)

/-- `IPC_RMID`. -/
def ShmRegistry.rmid (shmid : ℕ) : Answer × ShmRegistry :=
  match r.segments.get? shmid with
  | none => (.error .EINVAL, r)
  | some seg =>
    if seg.nsId ≠ nsId then (.error .EINVAL, r)
    else if !canModify seg.perm c then (.error .EPERM, r)
    else (.ok 0, (r.setSegment shmid { seg with removed := true }).removeIfDetached shmid)

end

/-- The segment without the attachments of a process. -/
def ShmSegment.detachProcess (seg : ShmSegment) (pid : ℕ) : ShmSegment :=
  { seg with attachments := seg.attachments.filter fun a => a.pid ≠ pid }

/-- `shm_detach_process`; a segment whose removal cannot be noted for lack of memory is kept. -/
def ShmRegistry.detachProcess (r : ShmRegistry) (pid : ℕ) (forgotten : List ℕ) : ShmRegistry :=
  let segments := r.segments.mapValues (·.detachProcess pid)
  { r with segments := segments.retain fun id seg =>
      !(seg.removed && seg.attachments.isEmpty) || forgotten.contains id }

/-- The segment with the attachments of a process also for its child. -/
def ShmSegment.cloneAttachments (seg : ShmSegment) (parent child : ℕ) : ShmSegment :=
  { seg with
    attachments := seg.attachments ++
      (seg.attachments.filter fun a => a.pid = parent).map fun a => ⟨child, a.addr⟩ }

/-- `shm_clone_attachments`, when it has memory. -/
def ShmRegistry.cloneAttachments (r : ShmRegistry) (parent child : ℕ) : ShmRegistry :=
  { r with segments := r.segments.mapValues (·.cloneAttachments parent child) }

/-! ## Runs -/

structure ShmState where
  registry : ShmRegistry
  /-- The processes that exist. -/
  procs : Finset ℕ
  space : ℕ → Space

/-- One process, with nothing mapped and no segment. -/
def ShmState.initial : ShmState := ⟨.new, {1}, fun _ _ => none⟩

/-- How `fork` ends: it may fail before it clones the attachments, or after. -/
inductive ForkResult where
  | ok
  | early (e : Errno)
  | late (e : Errno)
  deriving DecidableEq

/-- One call of one process, with what the environment decides. -/
inductive Label where
  | shmget (pid : ℕ) (c : Caller) (nsId : ℕ) (a : ShmgetArgs)
  | shmat (pid : ℕ) (c : Caller) (nsId : ℕ) (a : ShmatArgs) (env : ShmatEnv)
  | shmdt (pid addr : ℕ) (fault : Option Errno)
  | rmid (pid : ℕ) (c : Caller) (nsId shmid : ℕ)
  | fork (pid child : ℕ) (result : ForkResult)
  | exit (pid : ℕ) (forgotten : List ℕ)
  | mmap (pid start len : ℕ) (fixed noreplace : Bool) (env : MapEnv)
  | munmap (pid start len : ℕ) (fault : Option Errno)

namespace ShmState

variable (s : ShmState)

variable (cfg : Config) (pid : ℕ)

def setSpace (m : Space) : ShmState :=
  { s with space := Function.update s.space pid m }

/-- The last section of `shmat`: the attachment is recorded, or the mapping is undone. -/
def attach (cfg : Config) (pid shmid : ℕ) (seg : ShmSegment) (addr : ℕ) (env : ShmatEnv) :
    ShmState × Answer :=
  if env.attachOk then
    ({ s with registry := s.registry.setSegment shmid (seg.attach pid addr) }, .ok addr)
  else (s.setSpace pid (munmap cfg.arch (s.space pid) addr seg.size env.rollback).2,
    .error .ENOMEM)

/-- `sys_shmat`. -/
def shmat (c : Caller) (nsId : ℕ) (a : ShmatArgs) (env : ShmatEnv) : ShmState × Answer :=
  if a.unknown ∨ (a.addr = 0 ∧ a.remap) then (s, .error .EINVAL)
  else
    match s.registry.shmatSegment c nsId a env with
    | (.error e, r) => ({ s with registry := r }, .error e)
    | (.ok seg, r) =>
      let s := { s with registry := r }
      match attachAddr cfg a with
      | .error e => (s, .error e)
      | .ok start =>
        match shmMmap cfg.arch (s.space pid) start (decide (a.addr ≠ 0)) a.remap a.shmid seg
            env.map with
        | (.error e, m) => (s.setSpace pid m, .error e)
        | (.ok addr, m) => (s.setSpace pid m).attach cfg pid a.shmid seg addr env

/-- `sys_shmdt`. -/
def shmdt (cfg : Config) (pid addr : ℕ) (fault : Option Errno) : ShmState × Answer :=
  match s.registry.shmdt pid addr with
  | none => (s, .error .EINVAL)
  | some (seg, r) =>
    match munmap cfg.arch (s.space pid) addr seg.size fault with
    | (answer, m) => ({ s with registry := r }.setSpace pid m, answer)

/-- `fork`: the child gets the same pages.  A child that is not published is dropped, with its
address space. -/
def fork (child : ℕ) : ForkResult → ShmState × Answer
  | .early e => (s, .error e)
  | .late e => ({ s with registry := s.registry.cloneAttachments pid child }, .error e)
  | .ok =>
    ({ s with
      registry := s.registry.cloneAttachments pid child
      procs := insert child s.procs }.setSpace child (s.space pid), .ok child)

/-- One call, of a process that exists. -/
def step : Label → Option (ShmState × Answer)
  | .shmget pid c nsId a =>
    if pid ∈ s.procs then
      let (answer, r) := s.registry.shmget c nsId a
      some ({ s with registry := r }, answer)
    else none
  | .shmat pid c nsId a env =>
    if pid ∈ s.procs then some (s.shmat cfg pid c nsId a env) else none
  | .shmdt pid addr fault => if pid ∈ s.procs then some (s.shmdt cfg pid addr fault) else none
  | .rmid pid c nsId shmid =>
    if pid ∈ s.procs then
      let (answer, r) := s.registry.rmid c nsId shmid
      some ({ s with registry := r }, answer)
    else none
  | .fork pid child result =>
    if pid ∈ s.procs ∧ child ∉ s.procs then some (s.fork pid child result) else none
  | .exit pid forgotten =>
    if pid ∈ s.procs then
      some ({ s with
        registry := s.registry.detachProcess pid forgotten
        procs := s.procs.erase pid }.setSpace pid (fun _ => none), .ok 0)
    else none
  | .mmap pid start len fixed noreplace env =>
    if pid ∈ s.procs then
      let (answer, m) := mmap cfg.arch (s.space pid) start len fixed noreplace env
      some (s.setSpace pid m, answer)
    else none
  | .munmap pid start len fault =>
    if pid ∈ s.procs then
      let (answer, m) := munmap cfg.arch (s.space pid) start len fault
      some (s.setSpace pid m, answer)
    else none

end ShmState

/-- All sequences of calls. -/
def sharedMemory (cfg : Config) : System ShmState Label :=
  System.ofFun (fun s => s = .initial) fun s l => (s.step cfg l).map Prod.fst
end MangoCore.Ipc.Shm
