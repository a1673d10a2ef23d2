import MangoCore.Task.SchedulerMoves

/-!
# Affinity requests are answered once

A request is posted in the slot of a running task.  It is taken out of the slot by the context that
answers it, either the CPU that requeues the task or the task itself when it falls asleep, exits or
changes its own mask.  `Req` says that a request is in one of these places only and has no answer as
long as it is there, so that no request is answered twice.
-/

namespace MangoCore.Task

open Function

/-- The request that the CPU answers next. -/
def CpuPc.request : CpuPc → Option ℕ
  | .requeue _ _ r | .requeued _ r => r
  | _ => none

/-- The request that the context answers next. -/
def Op.request : Op → Option ℕ
  | .sleepDone r | .retryDone r => r
  | _ => none

/-- The places of a request that has no answer. -/
inductive Keeper where
  | slot (t : ℕ)
  | cpu (c : ℕ)
  | op (o : Ctx)
  deriving DecidableEq

def State.request (s : State) : Keeper → Option ℕ
  | .slot t => s.slot t
  | .cpu c => (s.cpu c).request
  | .op o => (s.op o).request

/-- The state after a request, if there is one, has got its answer. -/
def State.answered (s : State) (r : Option ℕ) (result : RemoteAffinityState) : State :=
  { s with requests := fun i =>
      if r = some i then { s.requests i with state := result } else s.requests i }

/-- **The invariant of the requests.** -/
structure Req (s : State) : Prop where
  exclusive : Exclusive s.request
  pending : ∀ x r, s.request x = some r → r < s.nextRequest ∧ (s.requests r).state = .pending

/-- A result that keeps the requests and does not answer one twice. -/
abbrev KeepsReq (r : Except Panic State) : Prop := Outcome Req (fun p => p ≠ .completedTwice) r

/-- Nothing that concerns a request has changed. -/
structure SameRequests (s s' : State) : Prop where
  slot : s'.slot = s.slot
  requests : s'.requests = s.requests
  nextRequest : s'.nextRequest = s.nextRequest
  cpu : s'.cpu = s.cpu
  op : s'.op = s.op

namespace Req

open State

variable {s s' : State} {o : Ctx} {t c : ℕ} (h : Req s) {p : Op} {r : Option ℕ} {u : State}
  {result : RemoteAffinityState} {pc : CpuPc}
include h

/-- **The frame rule**: requests may be given up, but none is taken or changed. -/
theorem frame (hslot : ∀ t r, s'.slot t = some r → s.slot t = some r)
    (hcpu : ∀ c r, (s'.cpu c).request = some r → (s.cpu c).request = some r)
    (hop : ∀ o r, (s'.op o).request = some r → (s.op o).request = some r)
    (hrequests : s'.requests = s.requests) (hnext : s'.nextRequest = s.nextRequest) : Req s' := by
  have hle : ∀ x r, s'.request x = some r → s.request x = some r := by
    intro x r hx
    cases x with
    | slot t => exact hslot t r hx
    | cpu c => exact hcpu c r hx
    | op o => exact hop o r hx
  refine ⟨h.exclusive.mono hle, fun x r hx => ?_⟩
  rw [hrequests, hnext]
  exact h.pending x r (hle x r hx)

/-- A context moves on without a request. -/
theorem stepOp (hsame : SameRequests s u) (hp : p.request = none) : Req (u.setOp o p) := by
  refine h.frame (fun t r => ?_) (fun c r => ?_) (fun o' r => ?_) hsame.requests hsame.nextRequest
  · rw [setOp, hsame.slot]
    exact id
  · rw [setOp, hsame.cpu]
    exact id
  · simp only [setOp, update_apply, hsame.op]
    split_ifs
    · rw [hp]
      nofun
    · exact id

/-- A CPU moves on, with the request that it had or with none. -/
theorem setCpu (hsame : SameRequests s u)
    (hp : ∀ r, pc.request = some r → (s.cpu c).request = some r) : Req (u.setCpu c pc) := by
  refine h.frame (fun t r => ?_) (fun d r => ?_) (fun o r => ?_) hsame.requests hsame.nextRequest
  · rw [State.setCpu, hsame.slot]
    exact id
  · simp only [State.setCpu, update_apply, hsame.cpu]
    split_ifs with hdc
    · rw [hdc]
      exact hp r
    · exact id
  · rw [State.setCpu, hsame.op]
    exact id

/-- Whoever has answered a request gives it up. -/
theorem release (x : Keeper) (hx : s'.request x = none)
    (hle : ∀ y, y ≠ x → s'.request y = s.request y)
    (hrequests : ∀ i, s.request x ≠ some i → s'.requests i = s.requests i)
    (hnext : s'.nextRequest = s.nextRequest) : Req s' := by
  have hne : ∀ y i, s'.request y = some i → y ≠ x ∧ s.request y = some i := by grind
  refine ⟨h.exclusive.mono fun y i hy => (hne y i hy).2, fun y i hy => ?_⟩
  obtain ⟨hyx, hy'⟩ := hne y i hy
  rw [hnext, hrequests i fun hxi => hyx (h.exclusive y x i hy' hxi)]
  exact h.pending y i hy'

/-- A context answers its request and is done. -/
theorem answerOp (hop : (s.op o).request = r) {m : Option Ctx} :
    Req (({ s.answered r result with manager := m } : State).setOp o .ready) := by
  refine h.release (.op o) ?_ (fun y hy => ?_) (fun i hi => if_neg (hop ▸ hi)) rfl
  · simp only [request, setOp, update_self]
    rfl
  · cases y with
    | op o' =>
      have ho : o' ≠ o := fun ho => hy (by rw [ho])
      simp only [request, setOp, State.answered, update_of_ne ho]
    | _ => rfl

/-- The CPU answers the request of the task that it has requeued. -/
theorem answerCpu (hpc : (s.cpu c).request = r) :
    Req (((s.answered r result).setSlotLock t none).setCpu c .idle) := by
  refine h.release (.cpu c) ?_ (fun y hy => ?_) (fun i hi => if_neg (hpc ▸ hi)) rfl
  · simp only [request, State.setCpu, update_self]
    rfl
  · cases y with
    | cpu d =>
      have hd : d ≠ c := fun hd => hy (by rw [hd])
      simp only [request, State.setCpu, setSlotLock, State.answered, update_of_ne hd]
    | _ => rfl

/-- A request leaves its slot for the place `x`. -/
theorem takeSlot (x : Keeper) (t : ℕ) (htaken : s'.request x = s.slot t)
    (hslot : s'.request (.slot t) = none)
    (hle : ∀ y, y ≠ x → ∀ r, s'.request y = some r → s.request y = some r)
    (hrequests : s'.requests = s.requests) (hnext : s'.nextRequest = s.nextRequest) : Req s' := by
  refine ⟨h.exclusive.handOver hslot (fun r hr => htaken.symm.trans hr) hle, ?_⟩
  intro y r hr
  rw [hrequests, hnext]
  by_cases hy : y = x
  · rw [hy] at hr
    exact h.pending (.slot t) r (htaken.symm.trans hr)
  · exact h.pending y r (hle y hy r hr)

/-- A task takes the request out of its slot. -/
theorem takeSlotOp (hp : p.request = s.slot t)
    (hslot : s'.slot = update s.slot t none) (hcpu : s'.cpu = s.cpu)
    (hop : s'.op = update s.op o p) (hrequests : s'.requests = s.requests)
    (hnext : s'.nextRequest = s.nextRequest) : Req s' := by
  refine h.takeSlot (.op o) t ?_ ?_ (fun y hy r hr => ?_) hrequests hnext
  · simp only [request, hop, update_self]
    exact hp
  · simp only [request, hslot, update_self]
  · cases y with
    | slot u => simp_all [request, update_apply]
    | cpu c => simpa only [request, hcpu] using hr
    | op o' => simp_all [request]

/-- A CPU takes the request out of the slot of the task that it requeues. -/
theorem takeSlotCpu (hpc : pc.request = s.slot t)
    (hslot : s'.slot = update s.slot t none) (hcpu : s'.cpu = update s.cpu c pc)
    (hop : s'.op = s.op) (hrequests : s'.requests = s.requests)
    (hnext : s'.nextRequest = s.nextRequest) : Req s' := by
  refine h.takeSlot (.cpu c) t ?_ ?_ (fun y hy r hr => ?_) hrequests hnext
  · simp only [request, hcpu, update_self]
    exact hpc
  · simp only [request, hslot, update_self]
  · cases y with
    | slot u => simp_all [request, update_apply]
    | op o => simpa only [request, hop] using hr
    | cpu d => simp_all [request]

/-- A new request enters an empty slot. -/
theorem postRequest {mask target : ℕ} (hp : p.request = none) :
    Req ((s.postRequest t mask target).setOp o p) := by
  have hnew : ((s.postRequest t mask target).setOp o p).request (.slot t) = some s.nextRequest :=
    update_self ..
  have hle : ∀ y, y ≠ .slot t → ∀ r, ((s.postRequest t mask target).setOp o p).request y = some r →
      s.request y = some r := by
    intro y hy r hr
    cases y with
    | slot u =>
      have hu : u ≠ t := fun hu => hy (by rw [hu])
      simpa only [request, setOp, State.postRequest, setSlot, update_of_ne hu] using hr
    | cpu c => exact hr
    | op o' =>
      simp only [request, setOp, update_apply] at hr ⊢
      split_ifs at hr
      · rw [hp] at hr
        cases hr
      · exact hr
  refine ⟨h.exclusive.acquire (.slot t) hle fun r hr y _ hyr => ?_, fun y r hr => ?_⟩
  · rw [hnew] at hr
    exact absurd (h.pending y r hyr).1 (by rw [Option.some.inj hr]; exact lt_irrefl r)
  · by_cases hy : y = .slot t
    · rw [hy, hnew] at hr
      cases hr
      simp only [setOp, State.postRequest, update_self, Nat.lt_succ_self, and_self]
    · obtain ⟨hlt, hpending⟩ := h.pending y r (hle y hy r hr)
      simp only [setOp, State.postRequest, update_of_ne hlt.ne]
      exact ⟨hlt.trans (Nat.lt_add_one _), hpending⟩

end Req
end MangoCore.Task
