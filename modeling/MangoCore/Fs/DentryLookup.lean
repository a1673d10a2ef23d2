import MangoCore.Fs.DentryCache
import MangoCore.Lib.System

/-!
# Lookups and mutations through the mounts of one filesystem

Any number of threads look names up and change them through any number of mounts of one
filesystem, bind mounts included.  The filesystem itself is atomic: one operation of it is one
step.  Around it, `do_find_with_parent_ino` and the mutating calls of `MountFSInode` take the lock
of their mount's cache, and read or raise its generation, one step at a time.

Every state of the filesystem has a number, its version, and `log` keeps them all.  A lookup
remembers the latest version that a returned mutation of its name has made (`since`): an inode that
the name has not had in this version or later is one that the filesystem no longer has there.

The overlay of mount points, the path hints and the counters do not touch the cache and are left
out; so is `..`, which does not go through it.
-/

namespace MangoCore.Fs.Dentry

open Function

/-- The inodes under the names of the filesystem. -/
abbrev Names := DentryKey → Option Inode

/-- A mutating call.  `create` is also `create_with_data`, `create_with_attrs`,
`create_with_data_and_attrs`, `symlink` and `symlink_with_attrs`. -/
inductive Op
  | create (key : DentryKey) (node : Inode)
  | link (key : DentryKey) (other : Inode)
  | unlink (key : DentryKey)
  | rmdir (key : DentryKey)
  | rename (oldKey newKey : DentryKey) (exchange : Bool)

/-- One section of a mutating call after the filesystem's operation. -/
inductive CacheAction
  | invalidate (key : DentryKey)
  | clearParent (ino : ℕ)
  | insert (key : DentryKey) (node : Inode)
  | findLinked (key : DentryKey) (other : Inode)
  deriving DecidableEq

namespace Op

/-- The names that a call changes. -/
def keys : Op → List DentryKey
  | create key _ | link key _ | unlink key | rmdir key => [key]
  | rename oldKey newKey _ => [oldKey, newKey]

variable (names : Names) (key : DentryKey)

/-- A new name; `none` if the name exists. -/
def addName (node : Inode) : Option Names :=
  match names key with
  | none => some (update names key (some node))
  | some _ => none

/-- A name goes; `none` if there is no such name. -/
def removeName : Option Names :=
  match names key with
  | none => none
  | some _ => some (update names key none)

/-- The operation of the filesystem; `none` is any of its errors. -/
def apply : Op → Option Names
  | create key node => addName names key node
  | link key other => addName names key other
  | unlink key => removeName names key
  | rmdir key => removeName names key
  | rename oldKey newKey false =>
    match names oldKey with
    | none => none
    | some x => some (update (update names oldKey none) newKey (some x))
  | rename oldKey newKey true =>
    match names oldKey, names newKey with
    | some x, some y =>
      some (update (update names oldKey (some y)) newKey (some x))
    | _, _ => none

/-- What a call does to the cache of its mount after the operation.  The flags say whether the
metadata of the directory, and of the new directory of a rename, could be read; `child` is the
number of the directory that `rmdir` found under the name. -/
def cacheActions (noDentryCache parentOk newParentOk : Bool) (child : Option ℕ) :
    Op → List CacheAction
  | create key node => if !noDentryCache && parentOk then [.insert key node] else []
  | link key other => if !noDentryCache && parentOk then [.findLinked key other] else []
  | unlink key => if !noDentryCache && parentOk then [.invalidate key] else []
  | rmdir key =>
    if noDentryCache then [] else
      (if parentOk then [.invalidate key] else []) ++ (child.map .clearParent).toList
  | rename oldKey newKey _ =>
    if !noDentryCache && parentOk then
      .invalidate oldKey :: if newParentOk then [.invalidate newKey] else []
    else []

end Op

/-- Where a thread is. -/
inductive Pc
  | idle
  /-- The lookup missed in the cache. -/
  | missed (mount : ℕ) (key : DentryKey) (since : ℕ)
  /-- It has read the generation. -/
  | loaded (mount : ℕ) (key : DentryKey) (since gen : ℕ)
  /-- It has asked the filesystem. -/
  | found (mount : ℕ) (key : DentryKey) (since gen : ℕ) (node : Inode)
  /-- The generation was still the same. -/
  | inserting (mount : ℕ) (key : DentryKey) (since : ℕ) (node : Inode)
  /-- The lookup of a mount without a cache. -/
  | direct (key : DentryKey) (since : ℕ)
  /-- The lookup yields an inode. -/
  | returned (key : DentryKey) (since : ℕ) (node : Inode)
  /-- A mutating call has raised the generation. -/
  | mutating (mount : ℕ) (op : Op) (child : Option ℕ)
  /-- The filesystem has done the operation, which made the given version. -/
  | mutated (mount : ℕ) (keys : List DentryKey) (version : ℕ) (actions : List CacheAction)

/-- The filesystem, the caches and generations of its mounts, and the threads. -/
structure State where
  version : ℕ
  log : ℕ → Names
  caches : ℕ → DentryCache
  gens : ℕ → ℕ
  /-- The latest version that a returned mutation of the name has made. -/
  settled : DentryKey → ℕ
  pc : ℕ → Pc

namespace State

variable (s : State)

/-- The filesystem now. -/
def names : Names := s.log s.version

/-- The name had the inode in this version or in a later one. -/
def HeldSince (version : ℕ) (key : DentryKey) (node : Inode) : Prop :=
  ∃ v, version ≤ v ∧ v ≤ s.version ∧ s.log v key = some node

def goto (thread : ℕ) (pc : Pc) : State :=
  { s with pc := update s.pc thread pc }

def setCache (mount : ℕ) (cache : DentryCache) : State :=
  { s with caches := update s.caches mount cache }

/-- The filesystem goes to its next version. -/
def advance (names : Names) : State :=
  { s with version := s.version + 1, log := update s.log (s.version + 1) names }

/-- The generation of a mount is raised. -/
def raiseGen (mount : ℕ) : State :=
  { s with gens := update s.gens mount (s.gens mount + 1) }

/-- A mutation of the names has returned. -/
def settle (keys : List DentryKey) (version : ℕ) : State :=
  { s with settled := fun k => if k ∈ keys then max (s.settled k) version else s.settled k }

end State

/-- The steps of the threads. -/
inductive Event
  | lookup (thread mount : ℕ) (key : DentryKey)
  | loadGen (thread : ℕ)
  | find (thread : ℕ)
  | testGen (thread : ℕ)
  | insert (thread : ℕ)
  | mutate (thread mount : ℕ) (op : Op)
  | inspect (thread : ℕ)
  | backend (thread : ℕ) (parentOk newParentOk : Bool)
  | act (thread : ℕ) (findOk : Bool)
  | finish (thread : ℕ)
  | abort (thread : ℕ)

section Steps

variable (noDentryCache : ℕ → Bool) (s : State)

/-- The start of `do_find_with_parent_ino`: the cache is asked. -/
def lookup (thread mount : ℕ) (key : DentryKey) : State :=
  if noDentryCache mount then s.goto thread (.direct key (s.settled key)) else
  match (s.caches mount).get key with
  | some (node, cache) =>
    (s.setCache mount cache).goto thread (.returned key (s.settled key) node)
  | none => s.goto thread (.missed mount key (s.settled key))

section

variable (thread : ℕ)

/-- `inner_inode.find(name)`. -/
def find : Option State :=
  match s.pc thread with
  | .loaded mount key since gen =>
    match s.names key with
    | none => some (s.goto thread .idle)
    | some node => some (s.goto thread (.found mount key since gen node))
  | .direct key since =>
    match s.names key with
    | none => some (s.goto thread .idle)
    | some node => some (s.goto thread (.returned key since node))
  | _ => none

/-- The generation is compared with the one before the find. -/
def testGen : Option State :=
  match s.pc thread with
  | .found mount key since gen node =>
    if gen = s.gens mount then some (s.goto thread (.inserting mount key since node))
    else some (s.goto thread (.returned key since node))
  | _ => none

/-- The lookup inserts what it found and yields what the cache then holds. -/
def insert : Option State :=
  match s.pc thread with
  | .inserting mount key since node =>
    let result := (s.caches mount).insertOrGet key node
    some ((s.setCache mount result.2).goto thread (.returned key since result.1))
  | _ => none

/-- `rmdir` reads the number of the directory. -/
def inspect : Option State :=
  match s.pc thread with
  | .mutating mount (.rmdir key) _ =>
    some (s.goto thread (.mutating mount (.rmdir key) ((s.names key).map Inode.ino)))
  | _ => none

/-- The operation of the filesystem in a mutating call. -/
def backend (parentOk newParentOk : Bool) : Option State :=
  match s.pc thread with
  | .mutating mount op child =>
    match op.apply s.names with
    | none => some (s.goto thread .idle)
    | some names =>
      some ((s.advance names).goto thread (.mutated mount op.keys (s.version + 1)
        (op.cacheActions (noDentryCache mount) parentOk newParentOk child)))
  | _ => none

/-- The next section of a mutating call.  The find of `link` falls back on the inode that was
linked. -/
def act (findOk : Bool) : Option State :=
  match s.pc thread with
  | .mutated mount keys version (action :: rest) =>
    match action with
    | .invalidate key =>
      some ((s.setCache mount ((s.caches mount).invalidate key)).goto thread
        (.mutated mount keys version rest))
    | .clearParent ino =>
      some ((s.setCache mount ((s.caches mount).clearParent ino)).goto thread
        (.mutated mount keys version rest))
    | .insert key node =>
      some ((s.setCache mount ((s.caches mount).insertOrGet key node).2).goto thread
        (.mutated mount keys version rest))
    | .findLinked key other =>
      let node := if findOk then (s.names key).getD other else other
      some (s.goto thread (.mutated mount keys version (.insert key node :: rest)))
  | _ => none

/-- A call is over. -/
def finish : Option State :=
  match s.pc thread with
  | .returned _ _ _ => some (s.goto thread .idle)
  | .mutated _ keys version [] => some ((s.settle keys version).goto thread .idle)
  | _ => none

/-- A call fails before the filesystem has done anything. -/
def abort : Option State :=
  match s.pc thread with
  | .loaded _ _ _ _ | .direct _ _ | .mutating _ _ _ => some (s.goto thread .idle)
  | _ => none

end

/-- One step of one thread. -/
def step : Event → Option State
  | .lookup thread mount key =>
    match s.pc thread with
    | .idle => some (lookup noDentryCache s thread mount key)
    | _ => none
  | .loadGen thread =>
    match s.pc thread with
    | .missed mount key since => some (s.goto thread (.loaded mount key since (s.gens mount)))
    | _ => none
  | .find thread => find s thread
  | .testGen thread => testGen s thread
  | .insert thread => insert s thread
  | .mutate thread mount op =>
    match s.pc thread with
    | .idle => some ((s.raiseGen mount).goto thread (.mutating mount op none))
    | _ => none
  | .inspect thread => inspect s thread
  | .backend thread parentOk newParentOk => backend noDentryCache s thread parentOk newParentOk
  | .act thread findOk => act s thread findOk
  | .finish thread => finish s thread
  | .abort thread => abort s thread

/-- The mounts of a filesystem with any names, with nothing cached and no call in progress. -/
def Start : Prop :=
  s.version = 0 ∧ (∀ mount, s.caches mount = DentryCache.new) ∧ (∀ key, s.settled key = 0) ∧
    ∀ thread, s.pc thread = .idle

/-- All interleavings. -/
def system : System State Event :=
  System.ofFun Start (step noDentryCache)

end Steps
end MangoCore.Fs.Dentry
