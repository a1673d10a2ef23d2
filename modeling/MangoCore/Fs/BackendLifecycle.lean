import MangoCore.Lib.System
import Mathlib.Data.List.Basic
import Mathlib.Logic.Function.Basic

/-!
# Backend lifecycles

A `BackendLifecycle` wraps a filesystem backend for the mounts that share it; its word packs a state
(Active, Dying or Dead) and a count of references.  The first `acquire` enters the lifecycle in a
registry, the `release` of the last reference makes it Dying, and the scheduler's drain takes a
Dying entry out, calls `on_umount` of the backend and then stores Dead or puts the entry back.
`shutdown_all_backends`, which unmounts whatever is registered, is left out.

A lifecycle that was acquired is in one place until it is Dead: in the registry or in the hands of
one thread (`Phase`).  Nothing joins the lifecycles of one backend: `sys_mount` wraps the global
`DEV_FS` anew for every mount of a `devtmpfs`.  What a lifecycle promises is therefore true of its
backend exactly if the backend has no second one (`served_iff`).
-/

namespace MangoCore.Fs.Backend

open Function List

/-- What a thread inside `acquire` or the drain does next. -/
inductive Op where
  | swap
  | push
  | umount
  | store
  | restore
  deriving DecidableEq

/-- `BackendLifecycle` with the threads at work on it, the mounts that have a reference, whether one
was dropped, and how often `on_umount` has succeeded. -/
structure Lifecycle where
  packed : ℕ
  registered : Bool
  ops : List Op
  mounts : ℕ
  dropped : Bool
  umounts : ℕ

namespace Lifecycle

def new : Lifecycle := ⟨0, false, [], 0, false, 0⟩

variable (l : Lifecycle)

/-- `packed >> LC_STATE_SHIFT`: 0 is Active, 1 Dying, 2 Dead. -/
def state : ℕ := l.packed / 2 ^ 62

/-- `packed & LC_COUNT_MASK`. -/
def count : ℕ := l.packed % 2 ^ 30

/-- A compare-and-swap that fails is tried again, so load and exchange are one step.  Who moves the
count from 0 goes on to the registry, the others return. -/
def acquire : Option Lifecycle :=
  if l.state ≠ 0 ∨ 2 ^ 30 - 1 ≤ l.count then none
  else if l.count = 0 then some { l with packed := l.packed + 1, ops := .swap :: l.ops }
  else some { l with packed := l.packed + 1, mounts := l.mounts + 1 }

/-- `Drop for MountFS`. -/
def release : Lifecycle :=
  { l with
    packed :=
      if l.count = 0 then l.packed
      else if l.count = 1 then 1 * 2 ^ 62
      else l.state * 2 ^ 62 + (l.count - 1)
    mounts := l.mounts - 1
    dropped := true }

/-- A thread goes on; `ok` is the answer of `on_umount`. -/
def goOn (ok : Bool) : Op → Lifecycle
  | .swap =>
    if l.registered then { l with mounts := l.mounts + 1 }
    else { l with registered := true, ops := .push :: l.ops }
  | .push => { l with mounts := l.mounts + 1 }
  | .umount =>
    if ok then { l with ops := .store :: l.ops, umounts := l.umounts + 1 }
    else { l with ops := .restore :: l.ops }
  | .store => { l with packed := 2 * 2 ^ 62 }
  | .restore => l

end Lifecycle

structure State (β : Type) where
  lc : β → Lifecycle
  registry : List β

inductive Label (β : Type) where
  | acquire (b : β)
  | release (b : β)
  | drain
  | op (o : Op) (b : β) (ok : Bool)

/-- What the thread adds to the registry. -/
def Op.entry {β : Type} (b : β) : Op → List β
  | .push | .restore => [b]
  | _ => []

variable {β : Type} [DecidableEq β]

def State.next (s : State β) : Label β → Option (State β)
  | .acquire b => (s.lc b).acquire.map fun l => { s with lc := update s.lc b l }
  | .release b =>
    if (s.lc b).mounts = 0 then none else some { s with lc := update s.lc b (s.lc b).release }
  | .drain => (s.registry.find? fun b => (s.lc b).state == 1).map fun b =>
    ⟨update s.lc b { s.lc b with ops := .umount :: (s.lc b).ops }, s.registry.erase b⟩
  | .op o b ok =>
    if o ∉ (s.lc b).ops then none
    else some ⟨update s.lc b ({ s.lc b with ops := (s.lc b).ops.erase o }.goOn ok o),
      s.registry ++ o.entry b⟩

/-- All interleavings, from new lifecycles. -/
def lifecycles (β : Type) [DecidableEq β] : System (State β) (Label β) :=
  .ofFun (· = ⟨fun _ => .new, []⟩) State.next

/-- The course of a lifecycle, with its number of entries in the registry. -/
inductive Phase : Lifecycle → ℕ → Prop
  | fresh : Phase ⟨0, false, [], 0, false, 0⟩ 0
  | swap {n d} : n + 1 < 2 ^ 30 → Phase ⟨n + 1, false, [.swap], n, d, 0⟩ 0
  | push {n d} : n + 1 < 2 ^ 30 → Phase ⟨n + 1, true, [.push], n, d, 0⟩ 0
  | active {n d} : n + 1 < 2 ^ 30 → Phase ⟨n + 1, true, [], n + 1, d, 0⟩ 1
  | dying : Phase ⟨2 ^ 62, true, [], 0, true, 0⟩ 1
  | umount : Phase ⟨2 ^ 62, true, [.umount], 0, true, 0⟩ 0
  | restore : Phase ⟨2 ^ 62, true, [.restore], 0, true, 0⟩ 0
  | store : Phase ⟨2 ^ 62, true, [.store], 0, true, 1⟩ 0
  | dead : Phase ⟨2 * 2 ^ 62, true, [], 0, true, 1⟩ 0

namespace Phase

variable {l l' : Lifecycle} {k : ℕ} (h : Phase l k)
include h

theorem acquire (hl : l.acquire = some l') : Phase l' k := by
  cases h <;> grind [Lifecycle.acquire, Lifecycle.state, Lifecycle.count, Phase]

theorem release (hl : l.mounts ≠ 0) : Phase l.release k := by
  have hrelease {n : ℕ} (hn : n + 1 < 2 ^ 30) (hl : l.packed = n + 1) : l.release = { l with
      packed := if n = 0 then 2 ^ 62 else n, mounts := l.mounts - 1, dropped := true } := by
    grind [Lifecycle.release, Lifecycle.state, Lifecycle.count]
  cases h with
  | swap hn =>
    obtain ⟨n, rfl⟩ := Nat.exists_eq_succ_of_ne_zero hl
    exact hrelease hn rfl ▸ .swap (Nat.lt_of_succ_lt hn)
  | push hn =>
    obtain ⟨n, rfl⟩ := Nat.exists_eq_succ_of_ne_zero hl
    exact hrelease hn rfl ▸ .push (Nat.lt_of_succ_lt hn)
  | @active n d hn =>
    rw [hrelease hn rfl]
    cases n with
    | zero => exact .dying
    | succ n => exact .active (Nat.lt_of_succ_lt hn)
  | _ => exact absurd rfl hl

theorem drain (hl : l.state = 1) (hk : k ≠ 0) :
    Phase { l with ops := .umount :: l.ops } (k - 1) := by
  cases h <;> grind [Lifecycle.state, Phase]

theorem goOn {o : Op} (ho : o ∈ l.ops) (ok : Bool) (b : β) :
    Phase ({ l with ops := l.ops.erase o }.goOn ok o) (k + (o.entry b).count b) := by
  cases h <;> grind [Lifecycle.goOn, Op.entry, Phase]

theorem le_packed_of_umount (hl : .umount ∈ l.ops) : 2 ^ 62 ≤ l.packed := by
  cases h <;> simp_all

/-- A lifecycle that is not Active refuses new mounts. -/
theorem acquire_eq_none (hl : 2 ^ 62 ≤ l.packed) : l.acquire = none ∧ l.mounts = 0 := by
  cases h <;> grind [Lifecycle.acquire, Lifecycle.state]

theorem drainable (hdropped : l.dropped) (hmounts : l.mounts = 0) (hswap : .swap ∉ l.ops)
    (hpush : .push ∉ l.ops) : l.umounts = 0 ∧ l.state = 1 ∧
      (k ≠ 0 ∨ .umount ∈ l.ops ∨ .restore ∈ l.ops) ∨ 0 < l.umounts := by
  cases h <;> simp_all [Lifecycle.state]

theorem umounted (hl : 0 < l.umounts) : l.umounts = 1 ∧ k = 0 ∧ .umount ∉ l.ops := by
  cases h <;> simp_all

end Phase

variable {s t : State β} {a : Label β}

/-- Every lifecycle is on its course. -/
def Sound (s : State β) : Prop := ∀ b, Phase (s.lc b) (s.registry.count b)

/-- No lifecycle becomes Active again, and no success is taken back. -/
def Later (s t : State β) : Prop := ∀ b,
  (2 ^ 62 ≤ (s.lc b).packed → 2 ^ 62 ≤ (t.lc b).packed) ∧ (s.lc b).umounts ≤ (t.lc b).umounts

theorem Sound.update (h : Sound s) {c : β} {l : Lifecycle} {r : List β}
    (hl : Phase l (r.count c)) (hr : ∀ b ≠ c, r.count b = s.registry.count b)
    (hp : 2 ^ 62 ≤ (s.lc c).packed → 2 ^ 62 ≤ l.packed) (hu : (s.lc c).umounts ≤ l.umounts) :
    Sound ⟨update s.lc c l, r⟩ ∧ Later s ⟨update s.lc c l, r⟩ := by
  refine ⟨fun b => ?_, fun b => ?_⟩ <;> obtain rfl | hb := eq_or_ne b c <;> simp_all [Sound]

theorem Sound.next (h : Sound s) (hstep : s.next a = some t) : Sound t ∧ Later s t := by
  cases a with
  | acquire c =>
    obtain ⟨l, hl, rfl⟩ := Option.map_eq_some_iff.mp hstep
    refine h.update ((h c).acquire hl) (fun _ _ => rfl) (fun hp => ?_) ?_
    · simp [((h c).acquire_eq_none hp).1] at hl
    · grind [Lifecycle.acquire]
  | release c =>
    obtain ⟨hc, ht⟩ := Option.ite_none_left_eq_some.mp hstep
    cases ht
    exact h.update ((h c).release hc) (fun _ _ => rfl)
      (fun hp => absurd ((h c).acquire_eq_none hp).2 hc) le_rfl
  | drain =>
    obtain ⟨c, hc, rfl⟩ := Option.map_eq_some_iff.mp hstep
    refine h.update ?_ (fun b hb => count_erase_of_ne hb) id le_rfl
    rw [count_erase_self]
    exact (h c).drain (by simpa using find?_some hc)
      (count_pos_iff.mpr (mem_of_find?_eq_some hc)).ne'
  | op o c ok =>
    obtain ⟨hc, ht⟩ := Option.ite_none_left_eq_some.mp hstep
    cases ht
    refine h.update ?_ (fun b hb => ?_) (fun hp => ?_) ?_
    · rw [count_append]
      exact (h c).goOn (not_not.mp hc) ok c
    · cases o <;> simp [Op.entry, hb.symm]
    all_goals cases o <;> grind [Lifecycle.goOn]

theorem sound_of_lifecycles (hs : (lifecycles β).Reachable s) : Sound s :=
  hs.invariant (by rintro _ rfl b; exact .fresh) fun _ _ _ _ h hstep => (h.next hstep).1

theorem later_of_leads (hs : (lifecycles β).Reachable s) (ht : (lifecycles β).Leads s t) :
    Later s t := by
  induction ht with
  | refl => exact fun _ => ⟨id, le_rfl⟩
  | tail hlead hstep ih =>
    have hnext := ((sound_of_lifecycles (hs.leads hlead)).next hstep.choose_spec).2
    exact fun b => ⟨(hnext b).1 ∘ (ih b).1, (ih b).2.trans (hnext b).2⟩

section

variable {φ : Type} {fs : β → φ} {f : φ}

/-- What is asked of a backend `f`, where `fs b` is the backend that the lifecycle `b` wraps. -/
structure Served (fs : β → φ) (f : φ) (s : State β) : Prop where
  /-- While `on_umount` runs no mount has the backend, and none gets it afterwards. -/
  idle : ∀ b, fs b = f → .umount ∈ (s.lc b).ops → ∀ t, (lifecycles β).Leads s t →
    ∀ c, fs c = f → (t.lc c).mounts = 0 ∧ t.next (.acquire c) = none
  /-- A backend whose last reference was released is in the registry or with a drain that puts it
  back on failure, until `on_umount` has succeeded; then it is not called again. -/
  drainable : (∃ b, fs b = f ∧ (s.lc b).dropped) →
    (∀ c, fs c = f → (s.lc c).mounts = 0 ∧ .swap ∉ (s.lc c).ops ∧ .push ∉ (s.lc c).ops) →
    (∃ b, fs b = f ∧ (s.lc b).umounts = 0 ∧ (s.lc b).state = 1 ∧
      (b ∈ s.registry ∨ .umount ∈ (s.lc b).ops ∨ .restore ∈ (s.lc b).ops)) ∨
    ∀ t, (lifecycles β).Leads s t → ∃ b, fs b = f ∧ (t.lc b).umounts = 1 ∧
      ∀ c, fs c = f → (c ≠ b → (t.lc c).umounts = 0) ∧ c ∉ t.registry ∧ .umount ∉ (t.lc c).ops

/-- The lifecycle that wraps a backend alone serves it. -/
theorem served_of_single (hs : (lifecycles β).Reachable s)
    (hone : ∀ b c, fs b = f → fs c = f → b = c) : Served fs f s where
  idle b hb hop t ht c hc := by
    cases hone b c hb hc
    have hpacked := (later_of_leads hs ht b).1 ((sound_of_lifecycles hs b).le_packed_of_umount hop)
    obtain ⟨hnone, hmounts⟩ := (sound_of_lifecycles (hs.leads ht) b).acquire_eq_none hpacked
    exact ⟨hmounts, by rw [State.next, hnone]; rfl⟩
  drainable := by
    rintro ⟨b, hb, hdropped⟩ hfree
    obtain ⟨hmounts, hswap, hpush⟩ := hfree b hb
    obtain hwait | hdone := (sound_of_lifecycles hs b).drainable hdropped hmounts hswap hpush
    · exact .inl ⟨b, hb, by simpa only [ne_eq, count_eq_zero, not_not] using hwait⟩
    · refine .inr fun t ht => ?_
      have hlater := (later_of_leads hs ht b).2
      obtain ⟨honce, hlisted, hop⟩ :=
        (sound_of_lifecycles (hs.leads ht) b).umounted (hdone.trans_le hlater)
      refine ⟨b, hb, honce, fun c hc => ?_⟩
      cases hone b c hb hc
      exact ⟨fun hne => absurd rfl hne, count_eq_zero.mp hlisted, hop⟩

/-- A lifecycle is acquired and released, and the drain calls `on_umount`; the others are new. -/
theorem reachable_umount (b : β) : (lifecycles β).Reachable
    ⟨update (fun _ => .new) b ⟨2 ^ 62, true, [.umount], 0, true, 0⟩, []⟩ := by
  refine System.reachable_run [.acquire b, .op .swap b true, .op .push b true, .release b, .drain]
    (.init rfl) ?_
  simp [State.next, Lifecycle.new, Lifecycle.acquire, Lifecycle.state, Lifecycle.count,
    Lifecycle.goOn, Lifecycle.release, Op.entry]

/-- **A backend is served in every run exactly if one lifecycle at most wraps it.** -/
theorem served_iff : (∀ s, (lifecycles β).Reachable s → Served fs f s) ↔
    ∀ b c, fs b = f → fs c = f → b = c := by
  refine ⟨fun h b c hb hc => ?_, fun hone s hs => served_of_single hs hone⟩
  by_contra hne
  have hrefused := ((h _ (reachable_umount b)).idle b hb (by simp) _ .refl c hc).2
  simp [State.next, Ne.symm hne, Lifecycle.new, Lifecycle.acquire, Lifecycle.state,
    Lifecycle.count] at hrefused

end

/-- Every lifecycle wraps the global backend. -/
def devtmpfs : ℕ → Unit := fun _ => ()

/-- A lifecycle comes and goes up to the drain. -/
def mountAndRelease (b : ℕ) : List (Label ℕ) :=
  [.acquire b, .op .swap b true, .op .push b true, .release b, .drain]

/-- **Two mounts of `devtmpfs`.**  While one is there, `on_umount` runs for the other, and in the
end it has succeeded twice on one backend. -/
theorem not_served_devtmpfs : (∃ s, (lifecycles ℕ).Reachable s ∧ .umount ∈ (s.lc 0).ops ∧
      (s.lc 1).mounts = 1 ∧ ¬ Served devtmpfs () s) ∧
    ∃ s, (lifecycles ℕ).Reachable s ∧ (s.lc 0).umounts = 1 ∧ (s.lc 1).umounts = 1 := by
  constructor
  · obtain ⟨s, hs, hop, hmounts⟩ : ∃ s, (lifecycles ℕ).Reachable s ∧ .umount ∈ (s.lc 0).ops ∧
        (s.lc 1).mounts = 1 :=
      System.exists_run ([.acquire 1, .op .swap 1 true, .op .push 1 true] ++ mountAndRelease 0)
        rfl (by decide)
    refine ⟨s, hs, hop, hmounts, fun h => ?_⟩
    have hnone := (h.idle 0 rfl hop s .refl 1 rfl).1
    omega
  · exact System.exists_run (mountAndRelease 0 ++ [.op .umount 0 true] ++ mountAndRelease 1 ++
      [.op .umount 1 true]) rfl (by decide)

end MangoCore.Fs.Backend
