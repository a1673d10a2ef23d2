import MangoCore.Fs.PathLookup

/-!
# Confinement to the root of a process

The subtree of the root of a process is what can be reached from it by names and mounts (`Inside`),
and `Depth k` says by how many names.  In a tree a `..` undoes a name, also from the root of a mount
(`Tree.lookupDotdot_cases`), so it stays inside if it is taken below the root.  At the root itself
it gets out: the test that should stop it compares objects, and after a `..` the walk never holds
the root object.

The root of a mount that is on top of another mount is a case of its own.  `lookup_dotdot` asks the
lower mount for the parent of the directory that it shows as its root; for a bind mount that is a
directory which the mount does not show.

Both are asked only of the `..` that a lookup takes: `passes` lists the variables of its loop, round
by round.
-/

namespace MangoCore.Fs.Lookup

open Except List Vfs Env

section

variable (v : Vfs) (root p q : Place)

/-- A directory. -/
def Vfs.IsDir : Prop := (v.metadata p).map Metadata.fileType = .ok .dir

/-- The place is `k` names below the root. -/
inductive Depth (v : Vfs) (root : Place) : ℕ → Place → Prop
  | root : Depth v root 0 root
  /-- What is mounted on the place. -/
  | mounted {k m : ℕ} {p : Place} :
      Depth v root k p → v.mountpoints p = some m → Depth v root k (v.mountRoot m)
  | child {k ino : ℕ} {q : Place} {name : Text} :
      Depth v root k q → v.mountpoints q = none → v.child q name = .ok ino →
      Depth v root (k + 1) ⟨q.mount, ino⟩

/-- The subtree of the root. -/
def Inside : Prop := ∃ k, Depth v root k p

/-- In the subtree the file systems are trees, and mounts are on directories. -/
structure Tree : Prop where
  up_child : ∀ {k q name ino}, Depth v root k q → v.child q name = .ok ino →
    v.IsDir ⟨q.mount, ino⟩ → v.up ⟨q.mount, ino⟩ = .ok q.ino
  /-- What a mount shows as its root is not below it. -/
  root_not_child : ∀ {k q name ino}, Depth v root k q → v.child q name = .ok ino →
    ino ≠ v.rootInner q.mount
  selfMountpoint : ∀ {k p m}, Depth v root k p → v.mountpoints p = some m →
    v.selfMountpoint m = some p
  mountpoint_dir : ∀ {k p m}, Depth v root k p → v.mountpoints p = some m → v.IsDir p

/-- The root of a mount that is on top of the root of another one. -/
def Vfs.Stacked : Prop :=
  v.isMountpointRoot p = true ∧ v.selfMountpoint p.mount = some q ∧ v.isMountpointRoot q = true

/-- There is something outside: the parent of the root, and what a mount does not show. -/
structure Proper : Prop where
  parent : ∃ q, v.lookupDotdot root = .ok q ∧ ¬ Inside v root q
  hidden : ∀ {p q}, Inside v root q → v.Stacked p q → ∃ ino, v.up q = .ok ino ∧
    (ino ≠ q.ino → ¬ Inside v root (v.overlaid ⟨q.mount, ino⟩))

/-- **A place from which `..` leads inside.**  The root of a lower mount may be its own parent. -/
inductive Safe : Prop
  | named {k : ℕ} : (∀ q, ¬ v.Stacked p q) → Depth v root (k + 1) p → Safe
  | stays {q : Place} : v.Stacked p q → Inside v root q → v.up q = .ok q.ino → Safe

end

/-! ## The rounds of a lookup -/

/-- The next component is a `..` that is not stopped. -/
def Walk.Climbs (w : Walk) : Prop :=
  w.components.head? = some dotdot ∧ w.current.isRoot = false

instance (w : Walk) : Decidable w.Climbs := inferInstanceAs (Decidable (_ ∧ _))

section

variable (v : Vfs) (root : Place) (n : ℕ) (followFinal trailingSlash : Bool) (w : Walk)

/-- What one more round does, with the lookup of a parent by its path as `walk` has it. -/
def Walk.round : Option (Except Errno Progress) :=
  match w.components with
  | [] => none
  | name :: rest =>
    let nested path := do
      let inner ← startWalk root ⟨root, true⟩ path fun _ => 0
      walk v root n true (hasTrailingSlash path) inner
    some (advance ⟨v, root, followFinal, trailingSlash⟩ n nested w name rest)

end

section

variable (v : Vfs) (root : Place)

/-- **What a lookup passes.** -/
def passes : ℕ → Bool → Bool → Walk → List Walk
  | 0, _, _, _ => []
  | n + 1, followFinal, trailingSlash, w =>
    w :: match w.round v root n followFinal trailingSlash with
    | some (.ok (.more w')) => passes n followFinal trailingSlash w'
    | _ => []

end

variable {v : Vfs} {root p q r : Place} {k n m deep : ℕ} {name : Text} {rest : List Text}
  {followFinal trailingSlash : Bool} {w w' : Walk} {pr : Progress}

/-! ## Names and `..` -/

theorem depth_overlaid (h : Depth v root k p) : Depth v root k (v.overlaid p) := by
  rw [overlaid]
  generalize 32 = n
  induction n generalizing p with
  | zero => exact h
  | succ n ih =>
    rw [overlaidLoop]
    cases hm : v.mountpoints p with
    | none => exact h
    | some m => exact ih (h.mounted hm)

/-- A name is looked up in what is on top of the directory. -/
theorem depth_doFind (h : Depth v root k q) (hfind : v.doFind n q name = .ok p) :
    Depth v root (k + 1) p := by
  induction n generalizing q with
  | zero => cases hfind
  | succ n ih =>
    rw [doFind] at hfind
    cases hm : v.mountpoints q with
    | none =>
      rw [hm] at hfind
      obtain ⟨ino, hchild, rfl⟩ := map_eq_ok hfind
      exact depth_overlaid (h.child hm hchild)
    | some m =>
      rw [hm] at hfind
      exact ih (depth_overlaid h) hfind

theorem isMountpointRoot_mountRoot : v.isMountpointRoot (v.mountRoot m) = true :=
  decide_eq_true rfl

/-- From the root of a mount `..` is that of the mount point. -/
theorem lookupDotdot_of_mounted (hroot : v.isMountpointRoot p = true)
    (hself : v.selfMountpoint p.mount = some q) :
    v.lookupDotdot p = (v.up q).map fun ino => v.overlaid ⟨q.mount, ino⟩ := by
  rw [lookupDotdot, if_pos hroot, hself]

theorem lookupDotdot_of_not_root (h : v.isMountpointRoot p = false) :
    v.lookupDotdot p = (v.up p).map fun ino => v.overlaid ⟨p.mount, ino⟩ := by
  rw [lookupDotdot, h, if_neg Bool.false_ne_true]

namespace Tree

variable (ht : Tree v root)
include ht

/-- **Where `..` leads from inside**: it undoes a name, or it asks the lower one of two mounts, or
it is taken at the root. -/
theorem lookupDotdot_cases (h : Depth v root k p) (hdir : v.IsDir p) :
    (∃ j q, k = j + 1 ∧ Depth v root j q ∧ v.lookupDotdot p = .ok (v.overlaid q) ∧
        ∀ s, ¬ v.Stacked p s) ∨
      (∃ q, v.Stacked p q ∧ Depth v root k q) ∨
      (k = 0 ∧ v.lookupDotdot p = v.lookupDotdot root) := by
  cases h with
  | root => exact .inr (.inr ⟨rfl, rfl⟩)
  | @child j ino q name hq hfree hchild =>
    have hne : ino ≠ v.rootInner q.mount := ht.root_not_child hq hchild
    have hnot : v.isMountpointRoot ⟨q.mount, ino⟩ = false := decide_eq_false hne
    refine .inl ⟨j, q, rfl, hq, ?_, fun s hs => ?_⟩
    · rw [lookupDotdot_of_not_root hnot, ht.up_child hq hchild hdir]
      rfl
    · cases hnot.symm.trans hs.1
  | @mounted _ m p' hp hm =>
    have hself := ht.selfMountpoint hp hm
    have hup := lookupDotdot_of_mounted isMountpointRoot_mountRoot hself
    cases hlower : v.isMountpointRoot p' with
    | true => exact .inr (.inl ⟨p', ⟨isMountpointRoot_mountRoot, hself, hlower⟩, hp⟩)
    | false =>
      cases hp with
      | root => exact .inr (.inr ⟨rfl, hup.trans (lookupDotdot_of_not_root hlower).symm⟩)
      | mounted => cases hlower.symm.trans isMountpointRoot_mountRoot
      | @child j ino q name hq hfree hchild =>
        refine .inl ⟨j, q, rfl, hq, ?_, ?_⟩
        · rw [hup, ht.up_child hq hchild (ht.mountpoint_dir (.child hq hfree hchild) hm)]
          rfl
        · rintro s ⟨-, hs, hroot⟩
          cases hself.symm.trans hs
          cases hlower.symm.trans hroot

theorem lookupDotdot_of_safe (hsafe : Safe v root p) (hdir : v.IsDir p) :
    ∃ r, v.lookupDotdot p = .ok r ∧ Inside v root r := by
  cases hsafe with
  | named hunstacked hdepth =>
    rcases ht.lookupDotdot_cases hdepth hdir with
      ⟨j, q, -, hq, hup, -⟩ | ⟨q, hstacked, -⟩ | ⟨hzero, -⟩
    · exact ⟨_, hup, j, depth_overlaid hq⟩
    · exact absurd hstacked (hunstacked q)
    · cases hzero
  | @stays q hstacked hq hself =>
    obtain ⟨k, hk⟩ := hq
    refine ⟨v.overlaid q, ?_, k, depth_overlaid hk⟩
    rw [lookupDotdot_of_mounted hstacked.1 hstacked.2.1, hself]
    rfl

end Tree

/-! ## The loop -/

theorem advanceDotdot_of_ok {e : Env} {nested : Text → Except Errno Walk}
    (hroot : w.current.isRoot = false) (hup : e.vfs.lookupDotdot w.current.place = .ok r) :
    e.advanceDotdot nested w rest = .ok (.more (w.moveTo ⟨r, false⟩ rest w.visit)) := by
  rw [Env.advanceDotdot, hroot, if_neg Bool.false_ne_true, hup]

/-- A loop that returns has no component left, or returns in the next round or after it. -/
theorem walk_cases (h : walk v root (n + 1) followFinal trailingSlash w = .ok w') :
    (w.components = [] ∧ w' = w) ∨
      ∃ pr, w.round v root n followFinal trailingSlash = some (.ok pr) ∧
        (pr = .done w' ∨
          ∃ w₁, pr = .more w₁ ∧ walk v root n followFinal trailingSlash w₁ = .ok w') := by
  rw [walk] at h
  rw [Walk.round]
  cases hcomponents : w.components with
  | nil =>
    rw [hcomponents] at h
    exact .inl ⟨rfl, finish_eq_ok h⟩
  | cons name rest =>
    rw [hcomponents] at h
    obtain ⟨pr, hadvance, h⟩ := bind_eq_ok h
    refine .inr ⟨pr, congrArg some hadvance, ?_⟩
    cases pr with
    | more w₁ => exact .inr ⟨w₁, rfl, h⟩
    | done w₁ =>
      cases h
      exact .inl rfl

theorem mem_passes : w' ∈ passes v root (n + 1) followFinal trailingSlash w ↔ w' = w ∨
    ∃ w₁, w.round v root n followFinal trailingSlash = some (.ok (.more w₁)) ∧
      w' ∈ passes v root n followFinal trailingSlash w₁ := by
  rw [passes, mem_cons]
  refine or_congr_right ?_
  split
  · next w₁ hround => simp [hround]
  · next hround =>
    refine iff_of_false not_mem_nil ?_
    rintro ⟨w₁, hmore, -⟩
    exact hround w₁ hmore

/-- The walk is in the subtree, and holds the root object only at the root. -/
structure Confined (v : Vfs) (root : Place) (w : Walk) : Prop where
  root_place : w.current.isRoot = true → w.current.place = root
  inside : Inside v root w.current.place

namespace Confined

theorem of_current {w₁ : Walk} (h : Confined v root w₁) (heq : w.current = w₁.current) :
    Confined v root w := by
  refine ⟨?_, ?_⟩
  · rw [heq]
    exact h.root_place
  · rw [heq]
    exact h.inside

theorem of_root (h : w.current = ⟨root, true⟩) : Confined v root w := by
  refine ⟨fun _ => ?_, 0, ?_⟩
  · rw [h]
  · rw [h]
    exact .root

/-- **One round**, if its `..` is safe. -/
theorem round (ht : Tree v root) (h : Confined v root w)
    (hsafe : w.Climbs → Safe v root w.current.place)
    (hround : w.round v root n followFinal trailingSlash = some (.ok pr)) :
    ∃ w₁, (pr = .more w₁ ∨ pr = .done w₁) ∧ Confined v root w₁ := by
  rw [Walk.round] at hround
  cases hcomponents : w.components with
  | nil =>
    rw [hcomponents] at hround
    cases hround
  | cons name rest =>
    rw [hcomponents] at hround
    obtain ⟨hdir, ⟨rfl, hstep⟩ | ⟨-, hstep⟩⟩ := advance_cases (Option.some.inj hround)
    · cases hroot : w.current.isRoot with
      | true =>
        rw [Env.advanceDotdot, hroot, if_pos rfl] at hstep
        cases hstep
        exact ⟨_, .inl rfl, h.root_place, h.inside⟩
      | false =>
        have hclimbs : w.Climbs := ⟨by rw [hcomponents]; rfl, hroot⟩
        obtain ⟨r, hup, hin⟩ := ht.lookupDotdot_of_safe (hsafe hclimbs) hdir
        rw [advanceDotdot_of_ok hroot hup] at hstep
        cases hstep
        exact ⟨_, .inl rfl, nofun, hin⟩
    · obtain ⟨next, fileType, hfind, -, -, hcases⟩ := advanceName_cases hstep
      obtain ⟨k, hk⟩ := h.inside
      have hfound : Confined v root (w.moveTo
          (found ⟨v, root, followFinal, trailingSlash⟩ w name next) rest w.visit) :=
        ⟨fun hroot => of_decide_eq_true (Bool.and_eq_true _ _ ▸ hroot : _ ∧ _).2, k + 1,
          depth_doFind hk hfind⟩
      rcases hcases with ⟨-, -, -, -, rfl⟩ | ⟨-, -, hfollow⟩ | ⟨-, rfl⟩
      · exact ⟨_, .inr rfl, hfound⟩
      · obtain ⟨-, -, target, -, rfl⟩ := followLink_cases hfollow
        refine ⟨_, .inl rfl, ?_⟩
        -- an absolute target starts at the root object, a relative one where the walk is
        by_cases habs : (linkPath target rest).head? = some '/'
        · exact of_root (if_pos habs)
        · exact h.of_current (if_neg habs)
      · exact ⟨_, .inl rfl, hfound⟩

/-- **All rounds.** -/
theorem walk (ht : Tree v root) (h : Confined v root w)
    (hsafe : ∀ w₁ ∈ passes v root n followFinal trailingSlash w, w₁.Climbs →
      Safe v root w₁.current.place)
    (hwalk : walk v root n followFinal trailingSlash w = .ok w') :
    Confined v root w' ∧
      ∀ w₁ ∈ passes v root n followFinal trailingSlash w, Confined v root w₁ := by
  induction n generalizing w with
  | zero => cases hwalk
  | succ n ih =>
    have hself := hsafe w (mem_passes.mpr (.inl rfl))
    rcases walk_cases hwalk with ⟨hnil, rfl⟩ | ⟨pr, hround, hend⟩
    · refine ⟨h, fun w₁ hw₁ => ?_⟩
      rcases mem_passes.mp hw₁ with rfl | ⟨w₂, hround, -⟩
      · exact h
      · rw [Walk.round, hnil] at hround
        cases hround
    · obtain ⟨w₁, hpr, hconfined⟩ := h.round ht hself hround
      rcases hend with rfl | ⟨w₂, rfl, hwalk⟩
      · obtain rfl : w' = w₁ := by simpa using hpr
        refine ⟨hconfined, fun w₁ hw₁ => ?_⟩
        rcases mem_passes.mp hw₁ with rfl | ⟨w₂, hmore, -⟩
        · exact h
        · cases hround.symm.trans hmore
      · obtain rfl : w₂ = w₁ := by simpa using hpr
        obtain ⟨hlast, hrest⟩ := ih hconfined
          (fun w₁ hw₁ => hsafe w₁ (mem_passes.mpr (.inr ⟨w₂, hround, hw₁⟩))) hwalk
        refine ⟨hlast, fun w₁ hw₁ => ?_⟩
        rcases mem_passes.mp hw₁ with rfl | ⟨w₃, hmore, hw₁⟩
        · exact h
        · cases hround.symm.trans hmore
          exact hrest w₁ hw₁

end Confined

end MangoCore.Fs.Lookup
