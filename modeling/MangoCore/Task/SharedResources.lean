import MangoCore.Fs.FdTable
import MangoCore.Lib.OrdMap
import MangoCore.Lib.System

/-!
# Tables that processes share

A process refers to its descriptor table, its working directory and its signal handlers, and
`clone` with `CLONE_FILES`, `CLONE_FS` or `CLONE_SIGHAND` makes the child refer to the same object.
`exec` asks for the number of references before it closes descriptors and resets handlers, and works
on a copy if there is another one.  The last thread of a process that exits closes the descriptors
of its table and frees the table without asking.

References are numbers.  A zombie keeps its references until it is reaped, and other parts of the
kernel may hold a reference for a while; `held` says whether some do.  What other calls do to the
objects of a process is left open: they may set them to anything.
-/

namespace MangoCore.Task

open Function OrdMap Option

open Fs (FdTable)

/-! ## The objects -/

inductive SigHandler where
  | SIG_DFL
  | SIG_IGN
  | function (address : ℕ)
  deriving DecidableEq

structure SigAction where
  handler : SigHandler
  flags : ℕ
  restorer : ℕ
  mask : ℕ
  deriving DecidableEq

/-- The actions by signal number; `none` is the default one. -/
structure Sighand where
  actions : List (Option SigAction)
  deriving DecidableEq

/-- Only ignored signals stay ignored. -/
def Sighand.resetForExec (h : Sighand) : Sighand :=
  ⟨h.actions.map fun action => action.filter fun a => a.handler = .SIG_IGN⟩

structure FsStatus where
  workingInode : ℕ
  workingPath : String
  rootInode : Option ℕ
  umask : ℕ
  deriving DecidableEq

/-- The references of a process. -/
structure Pcb where
  files : ℕ
  fs : ℕ
  sighand : ℕ
  zombie : Bool
  deriving DecidableEq

/-- All processes and the objects that they refer to. -/
structure Family (φ : Type) where
  procs : OrdMap ℕ Pcb
  files : ℕ → FdTable φ
  fs : ℕ → FsStatus
  sighand : ℕ → Sighand
  nextRef : ℕ
  nextOwnerId : ℕ

inductive FamilyLabel (φ : Type) where
  | clone (p child : ℕ) (cloneFiles cloneFs cloneSighand mem : Bool)
  | setFiles (p : ℕ) (t : FdTable φ)
  | setFs (p : ℕ) (fs : FsStatus)
  | setSighand (p : ℕ) (h : Sighand)
  | exec (p : ℕ) (filesHeld sighandHeld mem : Bool)
  | exit (p : ℕ)
  | reap (p : ℕ)

namespace Family

variable {φ : Type}

/-- One process with an empty table. -/
def initial (fs : FsStatus) : Family φ :=
  ⟨empty.insert 1 ⟨0, 0, 0, false⟩, fun _ => .new 0, fun _ => fs,
    fun _ => ⟨List.replicate 64 none⟩, 1, 1⟩

variable (s : Family φ)

variable (p : ℕ) (pcb : Pcb)

/-- Another process refers to the object. -/
def sharedWith (refers : Pcb → Bool) : Bool :=
  s.procs.entries.any fun e => e.1 ≠ p && refers e.2

/-- The objects of a child: the parent's, or copies. -/
def clone (child : ℕ) (cloneFiles cloneFs cloneSighand : Bool) : Family φ :=
  let ref := s.nextRef
  { procs := s.procs.insert child
      ⟨if cloneFiles then pcb.files else ref, if cloneFs then pcb.fs else ref,
        if cloneSighand then pcb.sighand else ref, false⟩
    files := update s.files ref ((s.files pcb.files).tryClone s.nextOwnerId)
    fs := update s.fs ref (s.fs pcb.fs)
    sighand := update s.sighand ref (s.sighand pcb.sighand)
    nextRef := ref + 1
    nextOwnerId := s.nextOwnerId + 1 }

/-- `reset_exec_resources`: a referenced object is copied, and the copy changed. -/
def resetExecResources (filesHeld sighandHeld mem : Bool) : Except Errno (Family φ) :=
  let filesShared := filesHeld || s.sharedWith p fun q => q.files = pcb.files
  let sighandShared := sighandHeld || s.sharedWith p fun q => q.sighand = pcb.sighand
  if filesShared ∧ ¬ mem then .error .ENOMEM
  else
    let oldFiles := s.files pcb.files
    let files := if filesShared then s.nextRef else pcb.files
    let table := if filesShared then oldFiles.tryClone s.nextOwnerId else oldFiles
    let sighand := if sighandShared then s.nextRef else pcb.sighand
    .ok { s with
      procs := s.procs.insert p { pcb with files := files, sighand := sighand }
      files := update s.files files table.closeCloexec
      sighand := update s.sighand sighand (s.sighand pcb.sighand).resetForExec
      nextRef := s.nextRef + 1
      nextOwnerId := s.nextOwnerId + 1 }

/-- `close_files_on_exit`: every open number is dropped, then the storage. -/
def closeFilesOnExit (t : FdTable φ) : FdTable φ :=
  let openFds := (List.range' 0 t.slots.length).filter fun fd => (t.getFile fd).isSome
  (openFds.foldl (fun t fd => (t.dropFd fd).toOption.elim t Prod.snd) t).releaseBackingStorage

/-- The part of `finish_exit` that concerns the objects. -/
def finishExit : Family φ :=
  { s with
    procs := s.procs.insert p { pcb with zombie := true }
    files := update s.files pcb.files (closeFilesOnExit (s.files pcb.files)) }

/-- A process that has not exited. -/
def getRunning : Except Errno Pcb :=
  match s.procs.get? p with
  | none => .error .ESRCH
  | some pcb => if pcb.zombie then .error .ESRCH else .ok pcb

/-- One call of a process that has not exited, or the reaping of one that has. -/
def step : FamilyLabel φ → Except Errno (Family φ)
  | .clone p child cloneFiles cloneFs cloneSighand mem => do
      let pcb ← s.getRunning p
      if (s.procs.get? child).isSome then .error .EAGAIN
      else if ¬ cloneFiles ∧ ¬ mem then .error .ENOMEM
      else .ok (s.clone pcb child cloneFiles cloneFs cloneSighand)
  | .setFiles p t => do
      let pcb ← s.getRunning p
      .ok { s with files := update s.files pcb.files t }
  | .setFs p fs => do
      let pcb ← s.getRunning p
      .ok { s with fs := update s.fs pcb.fs fs }
  | .setSighand p h => do
      let pcb ← s.getRunning p
      .ok { s with sighand := update s.sighand pcb.sighand h }
  | .exec p filesHeld sighandHeld mem => do
      let pcb ← s.getRunning p
      s.resetExecResources p pcb filesHeld sighandHeld mem
  | .exit p => do
      let pcb ← s.getRunning p
      .ok (s.finishExit p pcb)
  | .reap p =>
    if (s.procs.get? p).any Pcb.zombie then .ok { s with procs := s.procs.erase p }
    else .error .ECHILD

end Family

/-- Every sequence of calls of a family of processes. -/
def family (φ : Type) : System (Family φ) (FamilyLabel φ) :=
  .ofFun (fun s => ∃ fs, s = .initial fs) fun s l => (s.step l).toOption

/-! ## What a process sees -/

/-- What a process sees of the objects that it refers to. -/
structure View (φ : Type) where
  descriptors : ℕ → Option φ
  cloexec : ℕ → Bool
  fs : FsStatus
  handlers : Sighand

namespace Family

variable {φ : Type}

/-- A process that has exited sees nothing. -/
def view (s : Family φ) (q : ℕ) : Option (View φ) :=
  (s.getRunning q).toOption.map fun pcb =>
    ⟨(s.files pcb.files).getFile, (s.files pcb.files).getCloexec, s.fs pcb.fs,
      s.sighand pcb.sighand⟩

/-- The table has no open descriptor and no flag. -/
def Blank (t : FdTable φ) : Prop :=
  ∀ fd, t.getFile fd = none ∧ t.getCloexec fd = false

/-- An exec, or an exit of a process that shares its table with no running process, or whose table
is blank. -/
def Alone (s : Family φ) : FamilyLabel φ → Prop
  | .exit p => ∀ pcb, s.getRunning p = .ok pcb →
      (∀ q qcb, q ≠ p → s.getRunning q = .ok qcb → qcb.files ≠ pcb.files) ∨
        Blank (s.files pcb.files)
  | _ => True

/-! ## References -/

/-- Every reference is an object. -/
def Allocated (s : Family φ) : Prop :=
  ∀ q pcb, s.procs.get? q = some pcb →
    pcb.files < s.nextRef ∧ pcb.fs < s.nextRef ∧ pcb.sighand < s.nextRef

variable {s s' : Family φ} {pcb : Pcb} {p q : ℕ} {qcb : Pcb} {filesHeld sighandHeld mem : Bool}

theorem allocated_initial {fs : FsStatus} : (initial fs : Family φ).Allocated := by
  intro q pcb hq
  change (empty.insert 1 ⟨0, 0, 0, false⟩ : OrdMap ℕ Pcb).get? q = some pcb at hq
  rcases get?_insert_cases hq with ⟨-, rfl⟩ | ⟨-, ⟨⟩⟩
  · exact ⟨Nat.one_pos, Nat.one_pos, Nat.one_pos⟩

/-- The references of one process change to objects. -/
theorem Allocated.insert (h : s.Allocated) (hle : s.nextRef ≤ s'.nextRef)
    (hprocs : s'.procs = s.procs.insert p pcb)
    (hpcb : pcb.files < s'.nextRef ∧ pcb.fs < s'.nextRef ∧ pcb.sighand < s'.nextRef) :
    s'.Allocated := by
  intro q qcb hq
  rw [hprocs] at hq
  rcases get?_insert_cases hq with ⟨-, rfl⟩ | ⟨-, hq⟩
  · exact hpcb
  · obtain ⟨h₁, h₂, h₃⟩ := h q qcb hq
    exact ⟨by omega, by omega, by omega⟩

theorem Allocated.clone (h : s.Allocated) (hp : s.procs.get? p = some pcb)
    (child : ℕ) (cloneFiles cloneFs cloneSighand : Bool) :
    (s.clone pcb child cloneFiles cloneFs cloneSighand).Allocated := by
  obtain ⟨h₁, h₂, h₃⟩ := h p pcb hp
  have hle : s.nextRef ≤ (s.clone pcb child cloneFiles cloneFs cloneSighand).nextRef :=
    Nat.le_succ _
  refine h.insert hle rfl ?_
  change (if cloneFiles then pcb.files else s.nextRef) < s.nextRef + 1 ∧
    (if cloneFs then pcb.fs else s.nextRef) < s.nextRef + 1 ∧
    (if cloneSighand then pcb.sighand else s.nextRef) < s.nextRef + 1
  refine ⟨?_, ?_, ?_⟩ <;> split_ifs <;> omega

theorem getRunning_eq_ok :
    s.getRunning p = .ok pcb ↔ s.procs.get? p = some pcb ∧ pcb.zombie = false := by
  rw [getRunning]
  grind

theorem resetExecResources_eq_ok
    (h : s.resetExecResources p pcb filesHeld sighandHeld mem = .ok s') :
    ∃ files sighand table,
      (files = s.nextRef ∨ (files = pcb.files ∧
        s.sharedWith p (fun q => q.files = pcb.files) = false)) ∧
      (sighand = s.nextRef ∨ (sighand = pcb.sighand ∧
        s.sharedWith p (fun q => q.sighand = pcb.sighand) = false)) ∧
      s' = { s with
        procs := s.procs.insert p { pcb with files := files, sighand := sighand }
        files := update s.files files table
        sighand := update s.sighand sighand (s.sighand pcb.sighand).resetForExec
        nextRef := s.nextRef + 1
        nextOwnerId := s.nextOwnerId + 1 } := by
  rw [resetExecResources] at h
  generalize hfiles : (filesHeld || s.sharedWith p fun q => q.files = pcb.files) = filesShared at h
  generalize hsighand :
    (sighandHeld || s.sharedWith p fun q => q.sighand = pcb.sighand) = sighandShared at h
  by_cases hmem : filesShared = true ∧ ¬ mem = true
  · rw [if_pos hmem] at h
    cases h
  · rw [if_neg hmem] at h
    refine ⟨_, _, _, ?_, ?_, (Except.ok.inj h).symm⟩
    all_goals grind

theorem Allocated.exec (h : s.Allocated) (hp : s.procs.get? p = some pcb)
    (hexec : s.resetExecResources p pcb filesHeld sighandHeld mem = .ok s') : s'.Allocated := by
  obtain ⟨h₁, h₂, h₃⟩ := h p pcb hp
  grind [resetExecResources_eq_ok, h.insert]

/-- **Every call keeps the references allocated.** -/
theorem Allocated.step (h : s.Allocated) {l : FamilyLabel φ} (hstep : s.step l = .ok s') :
    s'.Allocated := by
  cases l with
  | clone p child cloneFiles cloneFs cloneSighand mem =>
    obtain ⟨pcb, hp, hstep⟩ := bind_eq_ok hstep
    grind [h.clone, getRunning_eq_ok]
  | exec p filesHeld sighandHeld mem =>
    obtain ⟨pcb, hp, hstep⟩ := bind_eq_ok hstep
    exact h.exec (getRunning_eq_ok.mp hp).1 hstep
  | exit p =>
    obtain ⟨pcb, hp, hstep⟩ := bind_eq_ok hstep
    cases hstep
    exact h.insert (le_rfl) rfl (h p pcb (getRunning_eq_ok.mp hp).1)
  | reap p => grind [Allocated, step.eq_7, get?_erase]
  | _ =>
    obtain ⟨pcb, hp, hstep⟩ := bind_eq_ok hstep
    cases hstep
    exact h

/-! ## The views of the others -/

/-- No other process refers to an object that is not shared. -/
theorem ne_of_sharedWith_eq_false {refers : Pcb → Bool}
    (h : s.sharedWith p refers = false) (hq : s.procs.get? q = some qcb)
    (hne : q ≠ p) : refers qcb = false := by
  have hnone := List.any_eq_false.mp h (q, qcb) (mem_entries_iff.mpr hq)
  grind

/-- The references of another process stay when those of one change. -/
theorem getRunning_insert (hprocs : s'.procs = s.procs.insert p pcb)
    (hne : q ≠ p) : s'.getRunning q = s.getRunning q := by
  rw [getRunning, getRunning, hprocs, get?_insert_of_ne _ hne]

/-- What a process sees, by its references. -/
theorem view_eq_some (hq : s.getRunning q = .ok qcb) :
    s.view q = some ⟨(s.files qcb.files).getFile, (s.files qcb.files).getCloexec, s.fs qcb.fs,
      s.sighand qcb.sighand⟩ := by
  rw [view, hq]
  rfl

theorem view_eq_none {e : Errno} (hq : s.getRunning q = .error e) : s.view q = none := by
  rw [view, hq]
  rfl

/-- **An exec changes what no other process sees.** -/
theorem view_exec (h : s.Allocated)
    (hexec : s.resetExecResources p pcb filesHeld sighandHeld mem = .ok s')
    (hne : q ≠ p) : s'.view q = s.view q := by
  obtain ⟨files, sighand, table, hfiles, hsighand, hs'⟩ := resetExecResources_eq_ok hexec
  have hrun : s'.getRunning q = s.getRunning q := getRunning_insert (congrArg _ hs') hne
  cases hq : s.getRunning q with
  | error e => rw [view_eq_none hq, view_eq_none (hrun.trans hq)]
  | ok qcb =>
    have hget := (getRunning_eq_ok.mp hq).1
    obtain ⟨h₁, -, h₃⟩ := h q qcb hget
    have hf : qcb.files ≠ files := by grind [ne_of_sharedWith_eq_false]
    have hh : qcb.sighand ≠ sighand := by grind [ne_of_sharedWith_eq_false]
    rw [view_eq_some hq, view_eq_some (hrun.trans hq), hs']
    dsimp only
    rw [update_of_ne hf, update_of_ne hh]

theorem blank_closeFilesOnExit (t : FdTable φ) : Blank (closeFilesOnExit t) :=
  fun _ => ⟨rfl, rfl⟩

/-- **An exit changes what another process sees exactly when they share a table that is not
blank.** -/
theorem view_exit : (∀ q, q ≠ p → (s.finishExit p pcb).view q = s.view q) ↔
      (∀ q qcb, q ≠ p → s.getRunning q = .ok qcb → qcb.files ≠ pcb.files) ∨
        Blank (s.files pcb.files) := by
  have hrun : ∀ q, q ≠ p → (s.finishExit p pcb).getRunning q = s.getRunning q :=
    fun q hne => getRunning_insert rfl hne
  have hblank := blank_closeFilesOnExit (s.files pcb.files)
  constructor
  · intro hview
    by_cases hshared : ∃ q qcb, q ≠ p ∧ s.getRunning q = .ok qcb ∧ qcb.files = pcb.files
    · -- the other process now sees the blank table
      obtain ⟨q, qcb, hne, hq, heq⟩ := hshared
      have hsame := hview q hne
      rw [view_eq_some hq, view_eq_some ((hrun q hne).trans hq)] at hsame
      have hfile := congrArg View.descriptors (some.inj hsame)
      have hflag := congrArg View.cloexec (some.inj hsame)
      dsimp only [finishExit] at hfile hflag
      rw [heq, update_self] at hfile hflag
      refine .inr fun fd => ⟨?_, ?_⟩
      · rw [← hfile]
        exact (hblank fd).1
      · rw [← hflag]
        exact (hblank fd).2
    · exact .inl fun q qcb hne hq heq => hshared ⟨q, qcb, hne, hq, heq⟩
  · intro hcases q hne
    cases hq : s.getRunning q with
    | error e => rw [view_eq_none hq, view_eq_none ((hrun q hne).trans hq)]
    | ok qcb =>
      rw [view_eq_some hq, view_eq_some ((hrun q hne).trans hq)]
      dsimp only [finishExit]
      by_cases heq : qcb.files = pcb.files
      · have hold := hcases.resolve_left fun hall => hall q qcb hne hq heq
        rw [heq, update_self]
        have hfile : (closeFilesOnExit (s.files pcb.files)).getFile = (s.files pcb.files).getFile :=
          funext fun fd => (hblank fd).1.trans (hold fd).1.symm
        have hflag : (closeFilesOnExit (s.files pcb.files)).getCloexec =
            (s.files pcb.files).getCloexec :=
          funext fun fd => (hblank fd).2.trans (hold fd).2.symm
        rw [hfile, hflag]
      · rw [update_of_ne heq]

end Family

/-! ## Every run -/

theorem allocated_of_reachable {φ : Type} {s : Family φ} (hs : (family φ).Reachable s) :
    s.Allocated := by
  refine hs.invariant ?_ ?_
  · rintro s ⟨fs, rfl⟩
    exact Family.allocated_initial
  · rintro s l s' - h hstep
    exact h.step (eq_ok_of_toOption hstep)

/-- The process that executes or exits. -/
def FamilyLabel.actor? {φ : Type} : FamilyLabel φ → Option ℕ
  | .exec p .. | .exit p => some p
  | _ => none

/-- **What the other processes see stays exactly when** the call is an exec, or an exit of a process
whose table is blank or shared with no running process. -/
theorem views_of_reachable {φ : Type} {s s' : Family φ} {l : FamilyLabel φ} {p : ℕ}
    (hs : (family φ).Reachable s) (hactor : l.actor? = some p) (hstep : s.step l = .ok s') :
    (∀ q, q ≠ p → s'.view q = s.view q) ↔ s.Alone l := by
  cases l with
  | exec p' filesHeld sighandHeld mem =>
    cases hactor
    obtain ⟨pcb, hp, hstep⟩ := bind_eq_ok hstep
    exact iff_of_true (fun q hne => Family.view_exec (allocated_of_reachable hs) hstep hne) trivial
  | exit p' =>
    cases hactor
    obtain ⟨pcb, hp, hstep⟩ := bind_eq_ok hstep
    cases hstep
    refine Family.view_exit.trans ⟨fun h pcb' hp' => ?_, fun h => h pcb hp⟩
    rw [hp] at hp'
    cases hp'
    exact h
  | _ => cases hactor

/-- A process with one open descriptor that is closed on exec makes a child that shares
everything with it. -/
def shareAll : List (FamilyLabel ℕ) :=
  [.setFiles 1 ⟨[⟨some 7, true⟩], 4096, 0⟩, .clone 1 2 true true true true]

def startedFs : FsStatus := ⟨2, "/", none, 0o022⟩

/-- The exec of the parent closes its descriptor and leaves the child's. -/
theorem views_shareAll : ∃ s s', (family ℕ).Reachable s ∧
    s.step (.exec 1 false false true) = .ok s' ∧ s'.view 2 = s.view 2 ∧
    ((s'.view 1).map fun v => v.descriptors 0) = some none ∧
    ((s'.view 2).map fun v => v.descriptors 0) = some (some 7) := by
  obtain ⟨s, hreach, hgoal⟩ : ∃ s, (family ℕ).Reachable s ∧
      ((s.step (.exec 1 false false true)).toOption.any fun s' =>
        decide (((s'.view 1).map fun v => v.descriptors 0) = some none ∧
          ((s'.view 2).map fun v => v.descriptors 0) = some (some 7))) = true :=
    System.exists_run shareAll ⟨startedFs, rfl⟩ (by decide)
  obtain ⟨s', hs', hafter⟩ := (any_eq_true _ _).mp hgoal
  have hstep := eq_ok_of_toOption hs'
  exact ⟨s, s', hreach, hstep,
    (views_of_reachable (l := .exec 1 false false true) hreach rfl hstep).mpr trivial 2
      (by decide), of_decide_eq_true hafter⟩

/-- **The exit of one process closes the descriptors of the other.** -/
theorem exit_closes_shared : ∃ s s', (family ℕ).Reachable s ∧ s.step (.exit 1) = .ok s' ∧
    ((s.view 2).map fun v => v.descriptors 0) = some (some 7) ∧
    ((s'.view 2).map fun v => v.descriptors 0) = some none := by
  obtain ⟨s, hreach, hbefore, hgoal⟩ : ∃ s, (family ℕ).Reachable s ∧
      ((s.view 2).map fun v => v.descriptors 0) = some (some 7) ∧
      ((s.step (.exit 1)).toOption.any fun s' =>
        decide (((s'.view 2).map fun v => v.descriptors 0) = some none)) = true :=
    System.exists_run shareAll ⟨startedFs, rfl⟩ (by decide)
  obtain ⟨s', hs', hafter⟩ := (any_eq_true _ _).mp hgoal
  exact ⟨s, s', hreach, eq_ok_of_toOption hs', hbefore, of_decide_eq_true hafter⟩
end MangoCore.Task
