import MangoCore.Errno
import MangoCore.Lib.OrdMap

/-!
# Mount propagation

A mount is an object with a table of the mounts that sit on it, keyed by the inode of the
mountpoint.  A mount may be in a peer group, and may be a slave of a peer group.  A mount made on a
member of a group is repeated on its peers and its slaves, and taken away from them again when it is
unmounted.

Two registries list the members and the slaves of every group.  They hold weak references: an entry
whose mount is gone, or has another group by now, is skipped.  Mounts, inodes and groups are named
by numbers here, and a reference to a mount can be upgraded when it is in the table.

The global list of mounts by path, the caches of directory entries and the counters are written by
these functions and never read by them; they are left out.  Reading the metadata of an inode does
not fail here.
-/

namespace MangoCore.Fs.Mount

/-! ## Flags -/

abbrev MountFlags := BitVec 32

namespace MountFlags

def REMOUNT : MountFlags := 0x20

def NOATIME : MountFlags := 0x400

def NODIRATIME : MountFlags := 0x800

def BIND : MountFlags := 0x1000

def REC : MountFlags := 0x4000

def RELATIME : MountFlags := 0x200000

def STRICTATIME : MountFlags := 0x1000000

/-- All the bits that are defined. -/
def all : MountFlags := 0x1205dff

variable (flags : MountFlags)

def contains (other : MountFlags) : Bool := flags &&& other == other

/-- The bits that may stay with a mount: not those that describe one call. -/
def persistent : MountFlags :=
  flags &&& ~~~(REMOUNT ||| BIND ||| REC) &&& all

def canonicalizeState : MountFlags :=
  let f := flags &&& ~~~(NOATIME ||| NODIRATIME ||| RELATIME ||| STRICTATIME)
  if contains flags STRICTATIME then
    if contains flags NODIRATIME then f ||| NODIRATIME else f
  else if contains flags NOATIME then f ||| NOATIME ||| NODIRATIME
  else if contains flags RELATIME then
    if contains flags NODIRATIME then f ||| RELATIME ||| NODIRATIME else f ||| RELATIME
  else if contains flags NODIRATIME then f ||| NODIRATIME
  else f

end MountFlags

/-! ## Mounts -/

inductive PropagationType where
  | priv
  | shared
  | slave
  | sharedSlave
  | unbindable
  deriving DecidableEq

namespace PropagationType

def isShared : PropagationType → Bool
  | shared | sharedSlave => true
  | _ => false

def isSlave : PropagationType → Bool
  | slave | sharedSlave => true
  | _ => false

end PropagationType

/-- The propagation state of one mount; group 0 stands for no group. -/
structure MountPropagation where
  propType : PropagationType
  peerGroupId : ℕ
  masterGroupId : ℕ
  deriving DecidableEq

namespace MountPropagation

def newPrivate : MountPropagation := ⟨.priv, 0, 0⟩

def isShared (p : MountPropagation) : Bool := p.propType.isShared

def isSlave (p : MountPropagation) : Bool := p.propType.isSlave

/-- A slave that joins a group is a shared slave. -/
def setSharedWithGroup (p : MountPropagation) (group : ℕ) : MountPropagation :=
  { p with
    propType := if p.propType.isSlave then .sharedSlave else .shared
    peerGroupId := group }

/-- The state with the given peer group and master, as `set_propagation_state_no_register` writes
it. -/
def ofGroups (peer master : Option ℕ) : MountPropagation :=
  { propType :=
      match peer, master with
      | some _, some _ => .sharedSlave
      | some _, none => .shared
      | none, some _ => .slave
      | none, none => .priv
    peerGroupId := peer.getD 0
    masterGroupId := master.getD 0 }

end MountPropagation

/-- What the metadata of an inode of the mounted file system tells. -/
structure Inode where
  inodeId : ℕ
  isDir : Bool
  deriving DecidableEq

structure MountFS where
  /-- The file system behind the mount. -/
  lifecycle : ℕ
  rootInnerInode : Inode
  mountFlags : MountFlags
  /-- The mounts on this one, by the inode of the mountpoint. -/
  mountpoints : OrdMap ℕ ℕ
  /-- Where this mount sits: the covered inode, and the mount it belongs to. -/
  selfMountpoint : Option (Inode × ℕ)
  propagation : MountPropagation

def MountFS.newWithRoot (lifecycle : ℕ) (root : Inode) (flags : MountFlags) : MountFS :=
  ⟨lifecycle, root, flags, .empty, none, .newPrivate⟩

/-- Every mount object, the counter of group ids, and the two registries. -/
structure Mounts where
  mounts : OrdMap ℕ MountFS
  nextMount : ℕ
  nextGroupId : ℕ
  peerGroups : OrdMap ℕ (List ℕ)
  slaveGroups : OrdMap ℕ (List ℕ)

namespace Mounts

/-- No mount yet; group ids start at 1. -/
def init : Mounts := ⟨.empty, 0, 1, .empty, .empty⟩

section

variable (s : Mounts)

section

variable (m : ℕ)

/-- Whether a weak reference can be upgraded. -/
def upgrade : Bool := (s.mounts.get? m).isSome

def propagation (s : Mounts) (m : ℕ) : MountPropagation :=
  ((s.mounts.get? m).map MountFS.propagation).getD .newPrivate

def modify (f : MountFS → MountFS) : Mounts :=
  match s.mounts.get? m with
  | some x => { s with mounts := s.mounts.insert m (f x) }
  | none => s

def setPropagation (p : MountPropagation) : Mounts :=
  s.modify m fun x => { x with propagation := p }

/-- A new object. -/
def create (x : MountFS) : ℕ × Mounts :=
  (s.nextMount,
    { s with mounts := s.mounts.insert s.nextMount x, nextMount := s.nextMount + 1 })

/-- The counter is a `u32` and wraps. -/
def allocateGroupId : ℕ × Mounts :=
  (s.nextGroupId, { s with nextGroupId := (s.nextGroupId + 1) % 2 ^ 32 })

/-! ## Registries -/

/-- The members listed for a peer group. -/
def peerList (group : ℕ) : List ℕ := (s.peerGroups.get? group).getD []

/-- The mounts listed as slaves of a group. -/
def slaveList (group : ℕ) : List ℕ := (s.slaveGroups.get? group).getD []

/-- Appends a mount, after dropping its earlier entry and those that cannot be upgraded. -/
def relist (l : List ℕ) (m : ℕ) : List ℕ :=
  l.filter (fun w => s.upgrade w && w != m) ++ [m]

/-- Drops a mount from its list, and the list when nothing is left. -/
def unlist (groups : OrdMap ℕ (List ℕ)) (group m : ℕ) :
    OrdMap ℕ (List ℕ) :=
  match groups.get? group with
  | none => groups
  | some l =>
    let l := l.filter fun w => w != m
    if l.isEmpty then groups.erase group else groups.insert group l

def registerPeer : Mounts :=
  let group := (s.propagation m).peerGroupId
  if group = 0 then s
  else { s with peerGroups := s.peerGroups.insert group (s.relist (s.peerList group) m) }

def unregisterPeerMount : Mounts :=
  let group := (s.propagation m).peerGroupId
  if group = 0 then s else { s with peerGroups := unlist s.peerGroups group m }

def registerSlave (m master : ℕ) : Mounts :=
  if master = 0 then s
  else { s with slaveGroups := s.slaveGroups.insert master (s.relist (s.slaveList master) m) }

def unregisterSlaveMount : Mounts :=
  let master := (s.propagation m).masterGroupId
  if master = 0 then s else { s with slaveGroups := unlist s.slaveGroups master m }

def registerCurrentPropagation : Mounts :=
  let s := if (s.propagation m).isShared then s.registerPeer m else s
  if (s.propagation m).isSlave then s.registerSlave m (s.propagation m).masterGroupId else s

def configurePropagationNoRegister (peer master : Option ℕ) : Mounts :=
  ((s.unregisterPeerMount m).unregisterSlaveMount m).setPropagation m (.ofGroups peer master)

/-- The members of the mount's own group, itself left out. -/
def getPeers : List ℕ :=
  let group := (s.propagation m).peerGroupId
  if group = 0 then []
  else
    (s.peerList group).filter fun w =>
      s.upgrade w && w != m && (s.propagation w).isShared &&
        (s.propagation w).peerGroupId == group

/-- The slaves of a group; the registry is cleaned on the way. -/
def getSlaves (master : ℕ) : List ℕ × Mounts :=
  if master = 0 then ([], s)
  else
    let l := (s.slaveList master).filter fun w =>
      s.upgrade w && (s.propagation w).isSlave && (s.propagation w).masterGroupId == master
    (l, { s with slaveGroups := s.slaveGroups.insert master l })

/-- `set_propagation_type`: what a change of the propagation type does to the groups. -/
def setPropagationType (t : PropagationType) : Mounts :=
  let old := s.propagation m
  match t with
  | .shared =>
    let master := if old.isSlave then some old.masterGroupId else none
    if old.isShared && old.peerGroupId != 0 then
      -- already shared: the group stays
      (s.setPropagation m (.ofGroups (some old.peerGroupId) master)).registerCurrentPropagation m
    else
      let s := (s.unregisterPeerMount m).unregisterSlaveMount m
      let (peer, s) := s.allocateGroupId
      (s.setPropagation m (.ofGroups (some peer) master)).registerCurrentPropagation m
  | .slave =>
    let master := if old.isShared then old.peerGroupId else old.masterGroupId
    let s := (s.unregisterPeerMount m).unregisterSlaveMount m
    let newMaster := if master ≠ 0 then some master else none
    (s.setPropagation m (.ofGroups none newMaster)).registerCurrentPropagation m
  | .priv => ((s.unregisterPeerMount m).unregisterSlaveMount m).setPropagation m .newPrivate
  | .unbindable =>
    ((s.unregisterPeerMount m).unregisterSlaveMount m).setPropagation m ⟨.unbindable, 0, 0⟩
  | .sharedSlave =>
    let s := (s.unregisterPeerMount m).unregisterSlaveMount m
    let (peer, s) := s.allocateGroupId
    let p := MountPropagation.ofGroups (some peer) (some old.masterGroupId)
    (s.setPropagation m p).registerCurrentPropagation m

end

/-! ## The tables of mountpoints -/

variable (parent inodeId : ℕ)

/-- The mount at an inode of another one. -/
def findChildMountById : Option ℕ :=
  (s.mounts.get? parent).bind fun x => x.mountpoints.get? inodeId

/-- Nothing is replaced: an inode that has a mount already gives `EEXIST`. -/
def addMount (m : ℕ) : Except Errno Mounts :=
  if (s.findChildMountById parent inodeId).isSome then .error .EEXIST
  else .ok (s.modify parent fun x => { x with mountpoints := x.mountpoints.insert inodeId m })

def removeMount : Mounts :=
  s.modify parent fun x => { x with mountpoints := x.mountpoints.erase inodeId }

/-- `mount_subtree_inner` without its propagation.  A mount on a shared one starts with a group of
its own, which is not registered yet.  An object that could not be added is dropped again. -/
def mountSubtreeInner (inode : Inode) (parent lifecycle : ℕ)
    (root : Inode) (flags : MountFlags) : Except Errno ℕ × Mounts :=
  if !inode.isDir then (.error .ENOTDIR, s)
  else
    let (p, s') :=
      if (s.propagation parent).isShared then
        let (group, s') := s.allocateGroupId
        (MountPropagation.newPrivate.setSharedWithGroup group, s')
      else (.newPrivate, s)
    let (m, s'') := s'.create
      { MountFS.newWithRoot lifecycle root flags with
        propagation := p
        selfMountpoint := some (inode, parent) }
    match s''.addMount parent inode.inodeId m with
    | .error e => (.error e, s')
    | .ok s'' => (.ok m, s'')

/-! ## Propagating a mount -/

/-- The group membership of a replica: a member of the group of the mount it repeats, or its slave;
a slave on a shared mount also gets a group of its own. -/
def finishPropagatedMount (newMount targetParent sourceChildGroup : ℕ) (asSlave : Bool) : Mounts :=
  let s := (s.unregisterPeerMount newMount).unregisterSlaveMount newMount
  let p : MountPropagation := { s.propagation newMount with peerGroupId := 0, masterGroupId := 0 }
  if asSlave then
    let (peer, s) :=
      if (s.propagation targetParent).isShared then
        let (group, s) := s.allocateGroupId
        (some group, s)
      else (none, s)
    let master := if sourceChildGroup ≠ 0 then some sourceChildGroup else none
    (s.setPropagation newMount (.ofGroups peer master)).registerCurrentPropagation newMount
  else if sourceChildGroup ≠ 0 then
    (s.setPropagation newMount (p.setSharedWithGroup sourceChildGroup)).registerPeer newMount
  else s.setPropagation newMount { p with propType := .priv }

/-- `propagate_to_mount`: one replica of `newChild` on `target`, at the inode with the number
`mountpointId`. -/
def propagateToMount (target mountpointId newChild sourceChildGroup : ℕ)
    (asSlave : Bool) : Option ℕ × Mounts :=
  match s.mounts.get? target, s.mounts.get? newChild with
  | some t, some c =>
    let flags := MountFlags.canonicalizeState (MountFlags.persistent c.mountFlags)
    if t.rootInnerInode.inodeId = mountpointId then
      match s.mountSubtreeInner t.rootInnerInode target c.lifecycle c.rootInnerInode flags with
      | (.ok m, s) => (some m, s.finishPropagatedMount m target sourceChildGroup asSlave)
      | (.error _, s) => (none, s)
    else
      -- the inode has the same number on every mount of the file system
      let inner := (c.selfMountpoint.map Prod.fst).getD c.rootInnerInode
      let (m, s') := s.create
        { MountFS.newWithRoot c.lifecycle c.rootInnerInode flags with
          selfMountpoint := some (inner, target) }
      match s'.addMount target mountpointId m with
      | .ok s' => (some m, s'.finishPropagatedMount m target sourceChildGroup asSlave)
      | .error _ =>
        -- the new object is dropped; the replica goes on top of what is there, unless that
        -- is in the group already
        match (t.mountpoints.get? mountpointId).bind fun e =>
            (s.mounts.get? e).map fun x => (e, x) with
        | none => (none, s)
        | some (existing, e) =>
          let group :=
            if asSlave then e.propagation.masterGroupId else e.propagation.peerGroupId
          if group = sourceChildGroup ∧ sourceChildGroup ≠ 0 then (none, s)
          else
            match s.mountSubtreeInner e.rootInnerInode existing c.lifecycle c.rootInnerInode
                flags with
            | (.ok m, s) =>
              (some m, s.finishPropagatedMount m existing sourceChildGroup asSlave)
            | (.error _, s) => (none, s)
  | _, _ => (none, s)

end

def maxDepth : ℕ := 32

/-- `propagate_mount_inner`.  The first argument bounds the nesting of the calls.  Every call that
goes deeper has put one more mount into `visited`, so the test on its length stops the recursion
before the bound does. -/
def propagateMountInner (mountpointId : ℕ) :
    ℕ → Mounts → ℕ → ℕ → List ℕ → Mounts × List ℕ
  | 0, s, _, _, visited => (s, visited)
  | fuel + 1, s, source, newChild, visited =>
    if !(s.propagation source).isShared then (s, visited)
    else if visited.length > maxDepth then (s, visited)
    else
      let group := (s.propagation newChild).peerGroupId
      let s := (s.getPeers source).foldl
        (fun s peer => (s.propagateToMount peer mountpointId newChild group false).2) s
      let (slaves, s) := s.getSlaves (s.propagation source).peerGroupId
      slaves.foldl
        (fun (acc : Mounts × List ℕ) slave =>
          if slave ∈ acc.2 then acc
          else
            match acc.1.propagateToMount slave mountpointId newChild group true with
            | (some created, s) =>
              if (s.propagation slave).isShared then
                propagateMountInner mountpointId fuel s slave created (acc.2 ++ [slave])
              else (s, acc.2)
            | (none, s) => (s, acc.2))
        (s, visited)

def propagateMount (s : Mounts) (source mountpointId newChild : ℕ) : Mounts :=
  (propagateMountInner mountpointId (maxDepth + 1) s source newChild [source]).1

/-! ## Propagating an unmount -/

/-- What is left of a mount that is taken away. -/
def forget (s : Mounts) (m : ℕ) : Mounts :=
  ((s.unregisterPeerMount m).unregisterSlaveMount m).modify m fun x =>
    { x with selfMountpoint := none, mountpoints := .empty }

/-- `finish_propagated_cleanup`: the mounts below go first, the last one in the table before the
others.  The first argument bounds the depth of the tree. -/
def finishPropagatedCleanup : ℕ → Mounts → ℕ → Mounts
  | 0, s, _ => s
  | fuel + 1, s, m =>
    let children := ((s.mounts.get? m).map fun x => x.mountpoints.entries.map Prod.snd).getD []
    (children.reverse.foldl (fun s child => finishPropagatedCleanup fuel s child) s).forget m

def umountAtPeer (s : Mounts) (m : ℕ) : Mounts :=
  let s' :=
    match (s.mounts.get? m).bind MountFS.selfMountpoint with
    | some (inode, parent) => s.removeMount parent inode.inodeId
    | none => s
  finishPropagatedCleanup s.nextMount s' m

/-- Whether the mount found at the mountpoint of a peer or a slave goes with the removed one. -/
def goesWith (s : Mounts) (child removed expectedGroup : ℕ) : Bool :=
  child != removed &&
    (expectedGroup == 0 || (s.propagation child).peerGroupId == expectedGroup ||
      (s.propagation child).masterGroupId == expectedGroup)

/-- `propagate_umount_inner`, with the same bound on the nesting as `propagateMountInner`. -/
def propagateUmountInner (mountpointId removed : ℕ) :
    ℕ → Mounts → ℕ → ℕ → List ℕ → Mounts × List ℕ
  | 0, s, _, _, visited => (s, visited)
  | fuel + 1, s, source, expectedGroup, visited =>
    if !(s.propagation source).isShared then (s, visited)
    else if visited.length > maxDepth then (s, visited)
    else
      let s := (s.getPeers source).foldl
        (fun s peer =>
          match s.findChildMountById peer mountpointId with
          | some child =>
            if s.goesWith child removed expectedGroup then s.umountAtPeer child else s
          | none => s) s
      let (slaves, s) := s.getSlaves (s.propagation source).peerGroupId
      slaves.foldl
        (fun (acc : Mounts × List ℕ) slave =>
          if slave ∈ acc.2 then acc
          else
            match acc.1.findChildMountById slave mountpointId with
            | some child =>
              if acc.1.goesWith child removed expectedGroup then
                let nextGroup := (acc.1.propagation child).peerGroupId
                let s := acc.1.umountAtPeer child
                if (s.propagation slave).isShared then
                  propagateUmountInner mountpointId removed fuel s slave nextGroup
                    (acc.2 ++ [slave])
                else (s, acc.2)
              else acc
            | none => acc)
        (s, visited)

variable (s : Mounts)

def propagateUmount (source mountpointId removed : ℕ) : Mounts :=
  (propagateUmountInner mountpointId removed (maxDepth + 1) s source
    (s.propagation removed).peerGroupId [source]).1

/-- `umount`: a mount with mounts on it is busy; the propagation runs after the mount has left the
table of its parent and before it leaves its groups. -/
def umount (m : ℕ) : Except Errno Mounts :=
  match s.mounts.get? m with
  | none => .error .EINVAL
  | some x =>
    if !x.mountpoints.entries.isEmpty then .error .EBUSY
    else
      match x.selfMountpoint with
      | none => .error .EINVAL
      | some (inode, parent) =>
        let s := s.removeMount parent inode.inodeId
        .ok ((s.propagateUmount parent inode.inodeId m).forget m)

/-! ## The calls that make a mount -/

/-- `mount_subtree`: a new mount is registered after its propagation. -/
def mountSubtree (inode : Inode) (parent lifecycle : ℕ) (root : Inode)
    (flags : MountFlags) : Except Errno ℕ × Mounts :=
  match s.mountSubtreeInner inode parent lifecycle root flags with
  | (.error e, s') => (.error e, s')
  | (.ok m, s') =>
    (.ok m,
      if (s.propagation parent).isShared then
        (s'.propagateMount parent inode.inodeId m).registerPeer m
      else s')

/-- The groups of a bind mount: those of its source, or else the group it got from the mount it was
made on. -/
def bindGroups (source : MountPropagation) (inherited : ℕ) : Option ℕ × Option ℕ :=
  (if source.isShared then some source.peerGroupId
    else if inherited ≠ 0 then some inherited else none,
    if source.isSlave ∧ source.masterGroupId ≠ 0 then some source.masterGroupId else none)

variable (sourceMount : ℕ) (sourceInner inode : Inode) (parent : ℕ) (flags : MountFlags)

/-- The part of `do_bind_mount` up to the propagation. -/
def bindUnregistered : Except Errno ℕ × Mounts :=
  match s.mounts.get? sourceMount with
  | none => (.error .EINVAL, s)
  | some src =>
    if src.propagation.propType = .unbindable then (.error .EINVAL, s)
    else
      match s.mountSubtreeInner inode parent src.lifecycle sourceInner flags with
      | (.error e, s') => (.error e, s')
      | (.ok m, s') =>
        let s' := s'.unregisterPeerMount m
        let groups := bindGroups src.propagation (s'.propagation m).peerGroupId
        (.ok m, s'.configurePropagationNoRegister m groups.1 groups.2)

/-- `do_bind_mount` without the mounts below the source. -/
def doBindMount : Except Errno ℕ × Mounts :=
  match s.bindUnregistered sourceMount sourceInner inode parent flags with
  | (.error e, s') => (.error e, s')
  | (.ok m, s') =>
    (.ok m, (s'.propagateMount parent inode.inodeId m).registerCurrentPropagation m)

end Mounts
end MangoCore.Fs.Mount
