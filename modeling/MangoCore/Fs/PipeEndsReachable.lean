import MangoCore.Fs.PipeEnds

/-!
# When the other side of a pipe is gone

The references of a ring agree with the open descriptions (`Agrees`): a read of the empty ring
reports end-of-file exactly when no description can write to the pipe, and a write fails with
`EPIPE` exactly when no description can read from it.  This holds in every run in which a FIFO is
never open for both directions and for one direction at the same time (`Separate`).

When the two are mixed it fails in both ways (`not_agrees_of_mixed`).  An `open` for both directions
replaces references to ends that are in use, and they are gone with the new end.  An `open` for one
direction is handed an end for both directions, and keeps the other direction alive.
-/

namespace MangoCore.Fs.Pipe

open Mm Function Option Pipes

namespace Pipes

section

variable (s : Pipes) (w : Option ℕ) (name : Name)

/-- A description of the pipe that can write, or one that can read. -/
def HasWriter : Prop :=
  ∃ f d, s.files f = some d ∧ d.name = name ∧ d.forWrite = true

def HasReader : Prop :=
  ∃ f d, s.files f = some d ∧ d.name = name ∧ d.forRead = true

/-- **The references agree with the open descriptions.** -/
structure Agrees (s : Pipes) : Prop where
  read : ∀ f d, s.files f = some d → d.forRead = true → (s.ringOf d).status = .empty →
    ∀ len, 0 < len → ((s.read d len).1 = .ok [] ↔ ¬ s.HasWriter d.name)
  readUser : ∀ f d, s.files f = some d → d.forRead = true → (s.ringOf d).status = .empty →
    ∀ dst resolves, 0 < dst.len → ((s.readUser d dst resolves).1 = .ok [] ↔ ¬ s.HasWriter d.name)
  write : ∀ f d, s.files f = some d → d.forWrite = true →
    ∀ buf, 0 < buf.length → ((s.write d buf).1 = .error .EPIPE ↔ ¬ s.HasReader d.name)
  writeUser : ∀ f d, s.files f = some d → d.forWrite = true →
    ∀ src data resolves, 0 < src.len →
      ((s.writeUser d src data resolves).1 = .error .EPIPE ↔ ¬ s.HasReader d.name)

/-- A FIFO is opened for both directions only if all its descriptions are for both, and for one
direction only if none is. -/
def Separate : PipeCall → Prop
  | .openFifo key access _ _ => ∀ f < s.nextFile, ∀ d ∈ s.files f, d.name = .fifo key →
      (d.forRead && d.forWrite) = (access == .readWrite)
  | _ => True

instance (s : Pipes) (c : PipeCall) : Decidable (s.Separate c) := by
  unfold Separate
  split <;> infer_instance

/-! ## The invariant -/

/-- What holds of an open description. -/
structure FileOk (s : Pipes) (d : Description) : Prop where
  pipe_lt : d.pipe < s.nextEnd
  readable : (s.ends d.pipe).readable = d.forRead
  writable : (s.ends d.pipe).writable = d.forWrite
  mode : d.forRead = true ∨ d.forWrite = true
  readEnd : d.forRead = true → (s.buffers (s.ends d.pipe).buffer).readEnd = some d.pipe
  writeEnd : d.forWrite = true → (s.buffers (s.ends d.pipe).buffer).writeEnd = some d.pipe
  fifo : ∀ key, d.name = .fifo key → ∃ e, s.registry key = some e ∧
    e.buffer = (s.ends d.pipe).buffer ∧ (d.forRead = true → e.readEnd = some d.pipe) ∧
    (d.forWrite = true → e.writeEnd = some d.pipe)
  unnamed : ∀ n, d.name = .unnamed n → (s.ends d.pipe).buffer = n

/-- A reference to an end that reads from the ring, or to one that writes to it. -/
def ReadsFrom (b : ℕ) : Prop :=
  ∀ p, w = some p → p < s.nextEnd ∧ (s.ends p).readable = true ∧ (s.ends p).buffer = b

def WritesTo (b : ℕ) : Prop :=
  ∀ p, w = some p → p < s.nextEnd ∧ (s.ends p).writable = true ∧ (s.ends p).buffer = b

end

structure Inv (s : Pipes) : Prop where
  fresh : ∀ f, s.nextFile ≤ f → s.files f = none
  file : ∀ f d, s.files f = some d → s.FileOk d
  end_lt : ∀ p, p < s.nextEnd → (s.ends p).buffer < s.nextBuffer
  entry : ∀ key e, s.registry key = some e → e.buffer < s.nextBuffer ∧
    s.ReadsFrom e.readEnd e.buffer ∧ s.WritesTo e.writeEnd e.buffer
  readEnd : ∀ b, s.ReadsFrom (s.buffers b).readEnd b
  writeEnd : ∀ b, s.WritesTo (s.buffers b).writeEnd b
  /-- A ring belongs to one FIFO. -/
  keys : ∀ key e key' e', s.registry key = some e → s.registry key' = some e' →
    e.buffer = e'.buffer → key = key'
  owner : ∀ key e, s.registry key = some e → ∀ f d, s.files f = some d →
    (s.ends d.pipe).buffer = e.buffer → d.name = .fifo key

variable {s : Pipes} {capacity : ℕ} {has : End → Bool} {e : FifoEntry} {o : Option ℕ}

/-- Nothing that a description refers to has changed. -/
theorem FileOk.congr {t : Pipes} {d : Description} (h : s.FileOk d)
    (hlt : s.nextEnd ≤ t.nextEnd := by exact le_rfl)
    (hend : t.ends d.pipe = s.ends d.pipe := by rfl)
    (hread : (t.buffers (s.ends d.pipe).buffer).readEnd =
      (s.buffers (s.ends d.pipe).buffer).readEnd := by rfl)
    (hwrite : (t.buffers (s.ends d.pipe).buffer).writeEnd =
      (s.buffers (s.ends d.pipe).buffer).writeEnd := by rfl)
    (hentry : ∀ key, d.name = .fifo key → t.registry key = s.registry key := by
      exact fun _ _ => rfl) : t.FileOk d := by
  refine ⟨h.pipe_lt.trans_le hlt, ?_, ?_, h.mode, fun hm => ?_, fun hm => ?_,
    fun key hname => ?_, ?_⟩
  · rw [hend, h.readable]
  · rw [hend, h.writable]
  · rw [hend, hread, h.readEnd hm]
  · rw [hend, hwrite, h.writeEnd hm]
  · rw [hend, hentry key hname]
    exact h.fifo key hname
  · rw [hend]
    exact h.unnamed

section

variable (hfresh : ∀ f, s.nextFile ≤ f → s.files f = none)
include hfresh

theorem alive_iff {p : ℕ} : s.alive p = true ↔ ∃ f d, s.files f = some d ∧ d.pipe = p := by
  simp only [alive, List.any_eq_true, List.mem_range, any_eq_true, beq_iff_eq]
  grind

theorem upgrade_isSome_iff {w : Option ℕ} :
    (s.upgrade w).isSome = true ↔ ∃ f d, s.files f = some d ∧ w = some d.pipe := by
  cases w with
  | none => simp [upgrade]
  | some p =>
    rw [upgrade, filter_some, apply_ite isSome]
    grind [alive_iff]

end

namespace Inv

section

variable (h : Inv s)
include h

/-- Two descriptions of one ring are descriptions of one pipe. -/
theorem name_eq {f g : ℕ} {d d' : Description} (hf : s.files f = some d)
    (hg : s.files g = some d') (hb : (s.ends d.pipe).buffer = (s.ends d'.pipe).buffer) :
    d.name = d'.name := by
  cases hd : d.name with
  | fifo key =>
    obtain ⟨e, he, hbuf, -⟩ := (h.file f d hf).fifo key hd
    exact (h.owner key e he g d' hg (hb.symm.trans hbuf.symm)).symm
  | unnamed n =>
    cases hd' : d'.name with
    | fifo key =>
      obtain ⟨e, he, hbuf, -⟩ := (h.file g d' hg).fifo key hd'
      rw [h.owner key e he f d hf (hb.trans hbuf.symm)] at hd
      cases hd
    | unnamed m =>
      rw [← (h.file f d hf).unnamed n hd, ← (h.file g d' hg).unnamed m hd', hb]

/-- Two descriptions of one pipe are descriptions of one ring. -/
theorem buffer_eq {f g : ℕ} {d d' : Description} (hf : s.files f = some d)
    (hg : s.files g = some d') (hname : d.name = d'.name) :
    (s.ends d.pipe).buffer = (s.ends d'.pipe).buffer := by
  cases hd : d.name with
  | fifo key =>
    obtain ⟨e, he, hbuf, -⟩ := (h.file f d hf).fifo key hd
    obtain ⟨e', he', hbuf', -⟩ := (h.file g d' hg).fifo key (hname ▸ hd)
    rw [← hbuf, ← hbuf', some.inj (he.symm.trans he')]
  | unnamed n =>
    rw [(h.file f d hf).unnamed n hd, (h.file g d' hg).unnamed n (hname ▸ hd)]

/-- The write reference is alive as long as somebody can write. -/
theorem writeEnd_iff {f : ℕ} {d : Description} (hf : s.files f = some d) :
    (s.ringOf d).writeEnd = true ↔ s.HasWriter d.name := by
  rw [ringOf, upgrade_isSome_iff h.fresh]
  constructor
  · rintro ⟨g, d', hg, hw⟩
    obtain ⟨-, hwritable, hb⟩ := h.writeEnd _ _ hw
    exact ⟨g, d', hg, h.name_eq hg hf hb, (h.file g d' hg).writable ▸ hwritable⟩
  · grind [HasWriter, buffer_eq, FileOk.writeEnd, file]

theorem readEnd_iff {f : ℕ} {d : Description} (hf : s.files f = some d) :
    (s.ringOf d).readEnd = true ↔ s.HasReader d.name := by
  rw [ringOf, upgrade_isSome_iff h.fresh]
  constructor
  · rintro ⟨g, d', hg, hr⟩
    obtain ⟨-, hreadable, hb⟩ := h.readEnd _ _ hr
    exact ⟨g, d', hg, h.name_eq hg hf hb, (h.file g d' hg).readable ▸ hreadable⟩
  · grind [HasReader, buffer_eq, FileOk.readEnd, file]

theorem agrees : s.Agrees := by
  have hreadable : ∀ f d, s.files f = some d → d.forRead = true →
      (d.forRead && (s.ends d.pipe).readable) = true := fun f d hf hd => by
    rw [(h.file f d hf).readable, hd, Bool.and_self]
  have hwritable : ∀ f d, s.files f = some d → d.forWrite = true →
      (d.forWrite && (s.ends d.pipe).writable) = true := fun f d hf hd => by
    rw [(h.file f d hf).writable, hd, Bool.and_self]
  constructor
  · grind [writeEnd_iff, read.eq_1, readAt.eq_1]
  · grind [writeEnd_iff, readUser.eq_1, readAtUser.eq_1]
  · intro f d hf hd buf hlen
    rw [← h.readEnd_iff hf, write, hwritable f d hf hd, writeAt]
    grind
  · intro f d hf hd src data resolves hlen
    rw [← h.readEnd_iff hf, writeUser, hwritable f d hf hd, writeAtUser]
    grind

end

/-! ## Steps -/

theorem initial : Inv initial where
  fresh _ _ := rfl
  file _ _ := nofun
  end_lt _ := nofun
  entry _ _ := nofun
  readEnd _ _ := nofun
  writeEnd _ _ := nofun
  keys _ _ _ _ := nofun
  owner _ _ := nofun

variable (h : Inv s) {d : Description} {f : ℕ}
include h

/-- The bytes of a ring do not matter. -/
theorem setRing {r : PipeRingBuffer} : Inv (s.setRing d r) := by
  have hends : ∀ b, ((s.setRing d r).buffers b).readEnd = (s.buffers b).readEnd ∧
      ((s.setRing d r).buffers b).writeEnd = (s.buffers b).writeEnd := by
    intro b
    simp only [Pipes.setRing, update_apply]
    split_ifs with hb
    · rw [hb]
      exact ⟨rfl, rfl⟩
    · exact ⟨rfl, rfl⟩
  refine { h with file := fun f d' hf => ?_, readEnd := fun b p hp => ?_, writeEnd := fun b p hp =>
    ?_ }
  · exact (h.file f d' hf).congr le_rfl rfl (hends _).1 (hends _).2
  · exact h.readEnd b p ((hends b).1.symm.trans hp)
  · exact h.writeEnd b p ((hends b).2.symm.trans hp)

/-- Descriptions are closed, or shared by another number of descriptors. -/
theorem setFiles {files : ℕ → Option Description}
    (hfiles : ∀ f d, files f = some d → ∃ d', s.files f = some d' ∧
      d = { d' with descriptors := d.descriptors }) : Inv { s with files := files } := by
  refine { h with fresh := fun f hf => ?_, file := fun f d hf => ?_, owner := fun key e he f d hf hb
    => ?_ }
  · by_contra hne
    obtain ⟨d, hd⟩ := ne_none_iff_exists'.mp hne
    grind [h.fresh]
  · obtain ⟨d', hd', heq⟩ := hfiles f d hf
    have hok := h.file f d' hd'
    rw [heq]
    exact ⟨hok.pipe_lt, hok.readable, hok.writable, hok.mode, hok.readEnd, hok.writeEnd, hok.fifo,
      hok.unnamed⟩
  · grind [h.owner]

theorem dup : Inv (s.dup f) := by
  refine h.setFiles fun g d hg => ?_
  grind [map_eq_some_iff]

theorem close : Inv (s.close f) := by
  refine h.setFiles fun g d hg => ?_
  grind [bind_eq_some_iff]

/-- An entry in use has an end that is alive. -/
theorem upgrade_of_fifo {key : ℕ × ℕ}
    (hf : s.files f = some d) (hname : d.name = .fifo key) (he : s.registry key = some e) :
    (s.upgrade e.readEnd).isSome = true ∨ (s.upgrade e.writeEnd).isSome = true := by
  obtain ⟨e', he', -, hread, hwrite⟩ := (h.file f d hf).fifo key hname
  cases he.symm.trans he'
  rcases (h.file f d hf).mode with hd | hd
  · exact .inl ((upgrade_isSome_iff h.fresh).mpr ⟨f, d, hf, hread hd⟩)
  · exact .inr ((upgrade_isSome_iff h.fresh).mpr ⟨f, d, hf, hwrite hd⟩)

/-- Entries without a living end are dropped. -/
theorem setRegistry {registry : ℕ × ℕ → Option FifoEntry}
    (hsub : ∀ key e, registry key = some e → s.registry key = some e)
    (hkeep : ∀ key e, s.registry key = some e →
      (s.upgrade e.readEnd).isSome = true ∨ (s.upgrade e.writeEnd).isSome = true →
      registry key = some e) : Inv { s with registry := registry } := by
  refine ⟨h.fresh, fun f d hf => ?_, h.end_lt, fun key e he => h.entry key e (hsub key e he),
    h.readEnd, h.writeEnd,
    fun key e key' e' he he' => h.keys key e key' e' (hsub key e he) (hsub key' e' he'),
    fun key e he => h.owner key e (hsub key e he)⟩
  refine (h.file f d hf).congr le_rfl rfl rfl rfl fun key hname => ?_
  grind [(h.file f d hf).fifo, h.upgrade_of_fifo]

variable (key : ℕ × ℕ) (capacity : ℕ)

theorem dropStale : Inv (s.dropStale key) := by
  rw [Pipes.dropStale]
  split
  · rename_i entry hentry
    split_ifs
    · refine h.setRegistry (fun k e he => ?_) fun k e he halive => ?_
      · grind
      · grind [isNone_iff_eq_none]
    · exact h
  · exact h

theorem compactFifoRegistry : Inv s.compactFifoRegistry := by
  refine h.setRegistry (fun key e he => (filter_eq_some_iff.mp he).1) fun key e he halive => ?_
  exact filter_eq_some_iff.mpr ⟨he, by simpa using halive⟩

/-! ## Opening -/

/-- A new description of a ring, through an end that the ring and the registry refer to. -/
theorem newFile (hd : s.FileOk d)
    (howner : ∀ key e, s.registry key = some e → (s.ends d.pipe).buffer = e.buffer →
      d.name = .fifo key) : Inv (s.newFile d) := by
  have hfile : ∀ f d', (s.newFile d).files f = some d' → d' = d ∨ s.files f = some d' := by
    intro f d' hf
    simp only [Pipes.newFile, update_apply] at hf
    grind
  have hkeep : ∀ d', s.FileOk d' → (s.newFile d).FileOk d' := fun d' hd' => hd'.congr
  refine { h with fresh := fun f hf => ?_, file := fun f d' hf => ?_, owner := fun key e he f d' hf
    hb => ?_ }
  · have hlt : s.nextFile < f := hf
    exact (update_of_ne hlt.ne' ..).trans (h.fresh f hlt.le)
  · grind [h.file]
  · rcases hfile f d' hf with rfl | hf'
    · exact howner key e he hb
    · exact h.owner key e he f d' hf' hb

theorem newBuffer : Inv (s.newBuffer capacity) := by
  have hold : ∀ b, b ≠ s.nextBuffer → (s.newBuffer capacity).buffers b = s.buffers b :=
    fun b hb => update_of_ne hb ..
  have hempty : (s.newBuffer capacity).buffers s.nextBuffer = ⟨.new capacity, none, none⟩ :=
    update_self ..
  refine ⟨h.fresh, fun f d hf => ?_, fun p hp => (h.end_lt p hp).trans (Nat.lt_add_one _),
    fun key e he => ⟨(h.entry key e he).1.trans (Nat.lt_add_one _), (h.entry key e he).2⟩,
    fun b => ?_, fun b => ?_, h.keys, h.owner⟩
  · have hd := h.file f d hf
    have hb := hold _ (h.end_lt _ hd.pipe_lt).ne
    exact hd.congr le_rfl rfl (congrArg _ hb) (congrArg _ hb)
  · by_cases hb : b = s.nextBuffer
    · rw [hb, hempty]
      nofun
    · rw [hold b hb]
      exact h.readEnd b
  · by_cases hb : b = s.nextBuffer
    · rw [hb, hempty]
      nofun
    · rw [hold b hb]
      exact h.writeEnd b

/-- The entry that `fifo_open` uses is in the registry. -/
theorem entryOf :
    let result := s.entryOf key capacity
    Inv result.2 ∧ result.2.registry key = some result.1 ∧ result.2.files = s.files := by
  rw [Pipes.entryOf]
  cases hentry : s.registry key with
  | some entry => exact ⟨h, hentry, rfl⟩
  | none =>
    refine ⟨?_, update_self .., rfl⟩
    have hbuf := h.newBuffer capacity
    have hnew : ∀ k e, ((s.newBuffer capacity).setEntry key
        (some ⟨none, none, s.nextBuffer⟩)).registry k = some e →
        (k = key ∧ e = ⟨none, none, s.nextBuffer⟩) ∨ (k ≠ key ∧ s.registry k = some e) := by
      intro k e he
      simp only [setEntry, update_apply] at he
      split_ifs at he with hk
      · exact .inl ⟨hk, (some.inj he).symm⟩
      · exact .inr ⟨hk, he⟩
    refine ⟨h.fresh, fun f d hf => ?_, hbuf.end_lt, fun k e he => ?_, hbuf.readEnd, hbuf.writeEnd,
      fun k e k' e' he he' hb => ?_, fun k e he f d hf hb => ?_⟩
    · have hd := hbuf.file f d hf
      refine hd.congr le_rfl rfl rfl rfl fun k hname => update_of_ne (fun hk => ?_) _ _
      obtain ⟨e, he, -⟩ := hd.fifo k hname
      rw [hk] at he
      cases hentry.symm.trans he
    · rcases hnew k e he with ⟨-, rfl⟩ | ⟨-, he'⟩
      · exact ⟨Nat.lt_add_one _, nofun, nofun⟩
      · exact hbuf.entry k e he'
    · rcases hnew k e he with ⟨rfl, rfl⟩ | ⟨-, he₁⟩ <;>
        rcases hnew k' e' he' with ⟨rfl, rfl⟩ | ⟨-, he₂⟩
      · rfl
      · exact absurd hb.symm (h.entry k' e' he₂).1.ne
      · exact absurd hb (h.entry k e he₁).1.ne
      · exact h.keys k e k' e' he₁ he₂ hb
    · rcases hnew k e he with ⟨rfl, rfl⟩ | ⟨-, he'⟩
      · exact absurd hb (h.end_lt _ (h.file f d hf).pipe_lt).ne
      · exact h.owner k e he' f d hf hb

end Inv

/-- The entry of a FIFO with this ring refers to the new end `p`. -/
def attachEntry (e : FifoEntry) (b p : ℕ) (r w : Bool) : FifoEntry :=
  { e with
    readEnd := if e.buffer = b ∧ r = true then some p else e.readEnd
    writeEnd := if e.buffer = b ∧ w = true then some p else e.writeEnd }

/-- What `fifo_open` and `make_pipe` do to make a new end: the ring, and the entry of its FIFO if it
has one, refer to the new end for the directions that it has. -/
def attach (s : Pipes) (b : ℕ) (r w : Bool) : Pipes :=
  { s with
    ends := update s.ends s.nextEnd ⟨r, w, b⟩
    nextEnd := s.nextEnd + 1
    buffers := update s.buffers b { s.buffers b with
      readEnd := if r then some s.nextEnd else (s.buffers b).readEnd
      writeEnd := if w then some s.nextEnd else (s.buffers b).writeEnd }
    registry := fun key => (s.registry key).map fun e => attachEntry e b s.nextEnd r w }

section Attach

variable {b : ℕ} {r w : Bool} {p : ℕ}

theorem ends_attach_self : (s.attach b r w).ends s.nextEnd = ⟨r, w, b⟩ := update_self ..

theorem ends_attach_of_lt (hp : p < s.nextEnd) : (s.attach b r w).ends p = s.ends p :=
  update_of_ne hp.ne ..

theorem readEnd_attach (b' : ℕ) : ((s.attach b r w).buffers b').readEnd =
    if b' = b ∧ r = true then some s.nextEnd else (s.buffers b').readEnd := by
  by_cases hb : b' = b
  · subst hb
    simp [attach]
  · simp [attach, hb]

theorem writeEnd_attach (b' : ℕ) : ((s.attach b r w).buffers b').writeEnd =
    if b' = b ∧ w = true then some s.nextEnd else (s.buffers b').writeEnd := by
  by_cases hb : b' = b
  · subst hb
    simp [attach]
  · simp [attach, hb]

/-- A reference to the new end, or one that is kept, in either direction. -/
theorem refers_attach {b' : ℕ}
    (h : ∀ p, o = some p → p < s.nextEnd ∧ has (s.ends p) = true ∧ (s.ends p).buffer = b')
    (hp : (if b' = b ∧ has ⟨r, w, b⟩ = true then some s.nextEnd else o) = some p) :
    p < (s.attach b r w).nextEnd ∧ has ((s.attach b r w).ends p) = true ∧
      ((s.attach b r w).ends p).buffer = b' := by
  split_ifs at hp with hif
  · rw [← some.inj hp, ends_attach_self]
    exact ⟨Nat.lt_add_one _, hif.2, hif.1.symm⟩
  · obtain ⟨hlt, hrest⟩ := h p hp
    rw [ends_attach_of_lt hlt]
    exact ⟨hlt.trans (Nat.lt_add_one _), hrest⟩

theorem registry_attach {key : ℕ × ℕ} (he : (s.attach b r w).registry key = some e) :
    ∃ e', s.registry key = some e' ∧ e.buffer = e'.buffer := by
  obtain ⟨e', he', rfl⟩ := map_eq_some_iff.mp he
  exact ⟨e', he', rfl⟩

/-- **A new end**, for directions that no description of the ring has. -/
theorem Inv.attach (h : Inv s) (hb : b < s.nextBuffer)
    (hfree : ∀ f d, s.files f = some d → (s.ends d.pipe).buffer = b →
      (d.forRead = true → r = false) ∧ (d.forWrite = true → w = false)) :
    Inv (s.attach b r w) := by
  refine ⟨h.fresh, fun f d hf => ?_, fun p hp => ?_, fun key e he => ?_, fun b' => ?_, fun b' => ?_,
    fun key e key' e' he he' hbuf => ?_, fun key e he f d hf hbuf => ?_⟩
  · have hd := h.file f d hf
    have hend := ends_attach_of_lt (b := b) (r := r) (w := w) hd.pipe_lt
    have hnot := hfree f d hf
    refine ⟨hd.pipe_lt.trans (Nat.lt_add_one _), by rw [hend]; exact hd.readable,
      by rw [hend]; exact hd.writable, hd.mode, fun hm => ?_, fun hm => ?_, fun key hname => ?_,
      by rw [hend]; exact hd.unnamed⟩
    · grind [readEnd_attach, hd.readEnd]
    · grind [writeEnd_attach, hd.writeEnd]
    · obtain ⟨e, he, hbuf, hr, hw⟩ := hd.fifo key hname
      refine ⟨attachEntry e b s.nextEnd r w, congrArg (Option.map _) he, by rw [hend]; exact hbuf,
        fun hm => ?_, fun hm => ?_⟩
      all_goals grind [attachEntry]
  · by_cases hp' : p = s.nextEnd
    · rw [hp', ends_attach_self]
      exact hb
    · have hlt : p < s.nextEnd := lt_of_le_of_ne (Nat.le_of_lt_succ hp) hp'
      rw [ends_attach_of_lt hlt]
      exact h.end_lt p hlt
  · obtain ⟨e', he', rfl⟩ := map_eq_some_iff.mp he
    obtain ⟨hlt, hr, hw⟩ := h.entry key e' he'
    exact ⟨hlt, fun p => refers_attach hr, fun p => refers_attach hw⟩
  · intro p hp
    rw [readEnd_attach] at hp
    exact refers_attach (h.readEnd b') hp
  · intro p hp
    rw [writeEnd_attach] at hp
    exact refers_attach (h.writeEnd b') hp
  · grind [registry_attach, h.keys]
  · obtain ⟨e₀, he₀, hbuf₀⟩ := registry_attach he
    rw [ends_attach_of_lt (h.file f d hf).pipe_lt] at hbuf
    exact h.owner key e₀ he₀ f d hf (hbuf.trans hbuf₀)

end Attach

section Open

variable {key : ℕ × ℕ} {entry : FifoEntry} {d : Description} {access : Access} {f p : ℕ}

section

variable (h : Inv s) (hentry : s.registry key = some entry)
include h hentry

/-- Only the entry of the FIFO has its ring. -/
theorem Inv.registry_eq {r w : Bool} :
    (s.attach entry.buffer r w).registry =
      update s.registry key (some { entry with
        readEnd := if r then some s.nextEnd else entry.readEnd
        writeEnd := if w then some s.nextEnd else entry.writeEnd }) := by
  funext k
  by_cases hk : k = key
  · subst hk
    simp [Pipes.attach, attachEntry, hentry]
  · rw [update_of_ne hk]
    cases he : s.registry k with
    | none => simp [Pipes.attach, he]
    | some e =>
      have hne : e.buffer ≠ entry.buffer := fun hb => hk (h.keys k e key entry he hentry hb)
      simp [Pipes.attach, attachEntry, he, hne]

theorem Inv.attach_eq {r w : Bool} :
    s.attach entry.buffer r w =
      ({ s.newEnd ⟨r, w, entry.buffer⟩ with
        buffers := (s.attach entry.buffer r w).buffers } : Pipes).setEntry key (some { entry with
          readEnd := if r then some s.nextEnd else entry.readEnd
          writeEnd := if w then some s.nextEnd else entry.writeEnd }) := by
  rw [setEntry, newEnd, ← h.registry_eq hentry]
  rfl

/-- A description of a FIFO whose ring is the one of the entry. -/
theorem Inv.name_of_buffer (hf : s.files f = some d) :
    (s.ends d.pipe).buffer = entry.buffer ↔ d.name = .fifo key := by
  constructor
  · exact h.owner key entry hentry f d hf
  · intro hname
    obtain ⟨e, he, hbuf, -⟩ := (h.file f d hf).fifo key hname
    rw [← hbuf, some.inj (he.symm.trans hentry)]

end

/-- What `fifo_open` hands out: an end of the FIFO that has the directions asked for. -/
structure Opened (s : Pipes) (key : ℕ × ℕ) (access : Access) (p : ℕ) : Prop where
  inv : Inv s
  file : s.FileOk ⟨.fifo key, p, access.forRead, access.forWrite, 1⟩

theorem Opened.newFile (h : s.Opened key access p) :
    Inv (s.newFile ⟨.fifo key, p, access.forRead, access.forWrite, 1⟩) := by
  grind [h.inv.newFile, h.file, h.file.fifo, h.inv.keys]

section

variable (h : Inv s)
include h

/-- An end that some description of the FIFO has. -/
theorem Inv.opened_of_alive
    (hf : s.files f = some d) (hname : d.name = .fifo key) (hread : d.forRead = access.forRead)
    (hwrite : d.forWrite = access.forWrite) : s.Opened key access d.pipe := by
  have hd := h.file f d hf
  refine ⟨h, ?_⟩
  rw [← hread, ← hwrite]
  refine { hd with fifo := ?_, unnamed := nofun }
  intro key' hkey
  cases hkey
  exact hd.fifo key hname

theorem Inv.opened_attach (access : Access) (hentry : s.registry key = some entry)
    (hfree : ∀ f d, s.files f = some d → d.name = .fifo key →
      (d.forRead = true → access.forRead = false) ∧ (d.forWrite = true → access.forWrite = false)) :
    (s.attach entry.buffer access.forRead access.forWrite).Opened key access s.nextEnd := by
  have hinv := h.attach (h.entry key entry hentry).1 fun f d hf hb =>
    hfree f d hf ((h.name_of_buffer hentry hf).mp hb)
  refine ⟨hinv, Nat.lt_add_one _, by rw [ends_attach_self], by rw [ends_attach_self], ?_,
    fun hr => ?_, fun hw => ?_, fun key' hkey => ?_, nofun⟩
  · cases access
    any_goals exact .inl rfl
    · exact .inr rfl
  · rw [ends_attach_self, readEnd_attach, if_pos ⟨rfl, hr⟩]
  · rw [ends_attach_self, writeEnd_attach, if_pos ⟨rfl, hw⟩]
  · cases hkey
    rw [ends_attach_self, h.registry_eq hentry]
    exact ⟨_, update_self .., rfl, fun hr => if_pos hr, fun hw => if_pos hw⟩

/-- A living end that an entry refers to belongs to a description of the FIFO. -/
theorem Inv.exists_of_upgrade (hentry : s.registry key = some entry)
    (ho : ∀ p, o = some p → p < s.nextEnd ∧ has (s.ends p) = true ∧
      (s.ends p).buffer = entry.buffer) (hp : s.upgrade o = some p) :
    ∃ f d, s.files f = some d ∧ d.pipe = p ∧ d.name = .fifo key ∧ has (s.ends d.pipe) = true := by
  obtain ⟨hw, halive⟩ := filter_eq_some_iff.mp hp
  obtain ⟨f, d, hf, rfl⟩ := (alive_iff h.fresh).mp halive
  obtain ⟨-, hhas, hbuf⟩ := ho _ hw
  exact ⟨f, d, hf, rfl, (h.name_of_buffer hentry hf).mp hbuf, hhas⟩

variable (hentry : s.registry key = some entry)
include hentry

/-- A description keeps the ends of the entry for its directions alive. -/
theorem Inv.upgrade_of_file (hf : s.files f = some d) (hname : d.name = .fifo key) :
    (d.forRead = true → s.upgrade entry.readEnd = some d.pipe) ∧
      (d.forWrite = true → s.upgrade entry.writeEnd = some d.pipe) := by
  have halive : s.alive d.pipe = true := (alive_iff h.fresh).mpr ⟨f, d, hf, rfl⟩
  obtain ⟨e, he, -, hr, hw⟩ := (h.file f d hf).fifo key hname
  cases he.symm.trans hentry
  exact ⟨fun hm => filter_eq_some_iff.mpr ⟨hr hm, halive⟩,
    fun hm => filter_eq_some_iff.mpr ⟨hw hm, halive⟩⟩

section

variable (hsep : ∀ f d, s.files f = some d → d.name = .fifo key → (d.forRead && d.forWrite) = false)
include hsep

theorem Inv.openRead :
    (s.openRead key entry).2.Opened key .readOnly (s.openRead key entry).1 := by
  rw [Pipes.openRead]
  cases hp : s.upgrade entry.readEnd with
  | some p =>
    obtain ⟨f, d, hf, rfl, hname, hread⟩ :=
      h.exists_of_upgrade hentry (h.entry key entry hentry).2.1 hp
    rw [(h.file f d hf).readable] at hread
    have hwrite := hsep f d hf hname
    rw [hread, Bool.true_and] at hwrite
    exact h.opened_of_alive hf hname hread hwrite
  | none =>
    have hnew := h.opened_attach .readOnly hentry fun f d hf hname =>
      ⟨fun hread => absurd (hp.symm.trans ((h.upgrade_of_file hentry hf hname).1 hread)) nofun,
        fun _ => rfl⟩
    rw [h.attach_eq hentry] at hnew
    exact hnew

theorem Inv.openWrite :
    (s.openWrite key entry).2.Opened key .writeOnly (s.openWrite key entry).1 := by
  rw [Pipes.openWrite]
  cases hp : s.upgrade entry.writeEnd with
  | some p =>
    obtain ⟨f, d, hf, rfl, hname, hwrite⟩ :=
      h.exists_of_upgrade hentry (h.entry key entry hentry).2.2 hp
    rw [(h.file f d hf).writable] at hwrite
    have hread := hsep f d hf hname
    rw [hwrite, Bool.and_true] at hread
    exact h.opened_of_alive hf hname hread hwrite
  | none =>
    have hnew := h.opened_attach .writeOnly hentry fun f d hf hname => ⟨fun _ => rfl,
      fun hwrite => absurd (hp.symm.trans ((h.upgrade_of_file hentry hf hname).2 hwrite)) nofun⟩
    rw [h.attach_eq hentry] at hnew
    exact hnew

end

theorem Inv.openReadWrite
    (hsep : ∀ f d, s.files f = some d → d.name = .fifo key → (d.forRead && d.forWrite) = true) :
    (s.openReadWrite key entry).2.Opened key .readWrite (s.openReadWrite key entry).1 := by
  rw [Pipes.openReadWrite]
  cases hp : (s.upgrade entry.readEnd).filter fun p => (s.ends p).writable with
  | some p =>
    obtain ⟨hup, hwritable⟩ := filter_eq_some_iff.mp hp
    obtain ⟨f, d, hf, rfl, hname, hread⟩ :=
      h.exists_of_upgrade hentry (h.entry key entry hentry).2.1 hup
    exact h.opened_of_alive hf hname ((h.file f d hf).readable ▸ hread)
      ((h.file f d hf).writable ▸ hwritable)
  | none =>
    have hnone : ∀ f d, s.files f = some d → d.name ≠ .fifo key := by
      intro f d hf hname
      obtain ⟨hread, hwrite⟩ := Bool.and_eq_true_iff.mp (hsep f d hf hname)
      have hup := (h.upgrade_of_file hentry hf hname).1 hread
      refine absurd (hp.symm.trans (filter_eq_some_iff.mpr ⟨hup, ?_⟩)) nofun
      exact (h.file f d hf).writable.trans hwrite
    have hnew := h.opened_attach .readWrite hentry fun f d hf hname =>
      absurd hname (hnone f d hf)
    rw [h.attach_eq hentry] at hnew
    simp only [newEnd, setReadEnd, setWriteEnd, update_self, update_idem]
    exact hnew

end

theorem files_dropStale : (s.dropStale key).files = s.files := by
  rw [dropStale]
  split
  · split_ifs <;> rfl
  · rfl

theorem Inv.openFifo (h : Inv s) {nonblock : Bool}
    (hsep : s.Separate (.openFifo key access nonblock capacity)) :
    Inv (s.openFifo key access nonblock capacity).2 := by
  obtain ⟨hinv, hentry, hfiles⟩ := (h.dropStale key).entryOf key capacity
  rw [files_dropStale] at hfiles
  have hsep' : ∀ f d, ((s.dropStale key).entryOf key capacity).2.files f = some d →
      d.name = .fifo key → (d.forRead && d.forWrite) = (access == .readWrite) := by
    intro f d hf hname
    rw [hfiles] at hf
    refine hsep f ?_ d hf hname
    by_contra hlt
    cases (h.fresh f (by omega)).symm.trans hf
  rw [Pipes.openFifo, Pipes.fifoOpen]
  cases access with
  | readWrite => exact (hinv.openReadWrite hentry hsep').newFile
  | readOnly => exact (hinv.openRead hentry hsep').newFile
  | writeOnly => grind [Opened.newFile, openWrite]

end Open

theorem Inv.makePipe_eq (h : Inv s) :
    (s.makePipe capacity).2 = (((s.newBuffer capacity).attach s.nextBuffer true false).attach
      s.nextBuffer false true) := by
  have hsame : ∀ p r w, (s.registry · |>.map fun e => attachEntry e s.nextBuffer p r w) =
      s.registry := by
    intro p r w
    funext key
    cases he : s.registry key with
    | none => rfl
    | some e => simp [attachEntry, (h.entry key e he).1.ne]
  have hsame' : ∀ p q, (fun key => ((s.registry key).map
      fun e => attachEntry e s.nextBuffer p true false).map
        fun e => attachEntry e s.nextBuffer q false true) = s.registry := by
    intro p q
    have hfirst := hsame p true false
    have hsecond := hsame q false true
    funext key
    rw [congrFun hfirst key]
    exact congrFun hsecond key
  simp only [makePipe, Pipes.attach, Pipes.newBuffer, newEnd, setReadEnd, setWriteEnd, hsame',
    update_self, update_idem, if_true, Bool.false_eq_true, if_false]

theorem Inv.pipe2 (h : Inv s) : Inv (s.pipe2 capacity).2 := by
  have hb : s.nextBuffer < (s.newBuffer capacity).nextBuffer := Nat.lt_add_one _
  have hunused : ∀ f d, s.files f = some d → (s.ends d.pipe).buffer ≠ s.nextBuffer :=
    fun f d hf => (h.end_lt _ (h.file f d hf).pipe_lt).ne
  have h₁ := (h.newBuffer capacity).attach (r := true) (w := false) hb fun f d hf heq =>
    absurd heq (hunused f d hf)
  have h₂ := h₁.attach (r := false) (w := true) hb fun f d hf heq => by
    have hlt : d.pipe < (s.newBuffer capacity).nextEnd := (h.file f d hf).pipe_lt
    rw [ends_attach_of_lt hlt] at heq
    exact absurd heq (hunused f d hf)
  rw [← h.makePipe_eq] at h₂
  have hentries : ∀ key e, (s.makePipe capacity).2.registry key = some e →
      e.buffer ≠ s.nextBuffer := fun key e he => (h.entry key e he).1.ne
  have hrbuf : (s.makePipe capacity).2.ends s.nextEnd = ⟨true, false, s.nextBuffer⟩ := by
    simp [makePipe, newEnd, setReadEnd, setWriteEnd, Pipes.newBuffer]
  have hwbuf : (s.makePipe capacity).2.ends (s.nextEnd + 1) = ⟨false, true, s.nextBuffer⟩ := by
    simp [makePipe, newEnd, setReadEnd, setWriteEnd, Pipes.newBuffer]
  have hread : (s.makePipe capacity).2.FileOk
      ⟨.unnamed s.nextBuffer, s.nextEnd, true, false, 1⟩ := by
    refine ⟨Nat.lt_succ_of_lt (Nat.lt_add_one _), by rw [hrbuf], by rw [hrbuf], .inl rfl,
      fun _ => ?_, nofun, nofun, fun n hn => ?_⟩
    · simp [makePipe, newEnd, setReadEnd, setWriteEnd, Pipes.newBuffer]
    · rw [hrbuf]
      exact Name.unnamed.inj hn
  have hwrite : (s.makePipe capacity).2.FileOk
      ⟨.unnamed s.nextBuffer, s.nextEnd + 1, false, true, 1⟩ := by
    refine ⟨Nat.lt_add_one _, by rw [hwbuf], by rw [hwbuf], .inr rfl, nofun, fun _ => ?_, nofun,
      fun n hn => ?_⟩
    · simp [makePipe, newEnd, setReadEnd, setWriteEnd, Pipes.newBuffer]
    · rw [hwbuf]
      exact Name.unnamed.inj hn
  have h₃ := h₂.newFile hread fun key e he heq => absurd (hrbuf ▸ heq).symm (hentries key e he)
  exact h₃.newFile hwrite.congr fun key e he heq => absurd (hwbuf ▸ heq).symm (hentries key e he)

theorem Inv.call (h : Inv s) {c : PipeCall} (hsep : s.Separate c) : Inv (s.call c) := by
  cases c with
  | openFifo key access nonblock capacity => exact h.openFifo hsep
  | pipe2 capacity => exact h.pipe2
  | dup f => exact h.dup
  | close f => exact h.close
  | compact => exact h.compactFifoRegistry
  | _ =>
    rw [Pipes.call]
    cases s.files _ with
    | none => exact h
    | some d => exact h.setRing

end Pipes

/-- **End-of-file and `EPIPE` agree with the open descriptions** in every run in which no FIFO is
open for both directions and one direction at the same time. -/
theorem agrees_of_reachable {s : Pipes} (h : (pipeCalls.restrict Separate).Reachable s) :
    s.Agrees := by
  refine (h.invariant (I := Inv) ?_ ?_).agrees
  · rintro _ rfl
    exact Pipes.Inv.initial
  · rintro s c t - hinv ⟨hsep, hstep⟩
    exact some.inj hstep ▸ hinv.call hsep

/-- A FIFO is opened for reading and for writing, and the writer is closed. -/
def readerLeft : List PipeCall :=
  [.openFifo (1, 7) .readOnly false 16, .openFifo (1, 7) .writeOnly true 16, .close 1]

/-- The reader is then at the end of the file. -/
theorem agrees_readerLeft : ∃ s, (pipeCalls.restrict Separate).Reachable s ∧ s.Agrees ∧
    ∃ d, s.files 0 = some d ∧ (s.read d 1).1 = .ok [] := by
  obtain ⟨s, hreach, hread⟩ : ∃ s, (pipeCalls.restrict Separate).Reachable s ∧
      ((s.files 0).any fun d => decide ((s.read d 1).1 = .ok [])) = true :=
    System.exists_run_restrict readerLeft rfl (by decide)
  obtain ⟨d, hd, hd'⟩ := (any_eq_true _ _).mp hread
  exact ⟨s, hreach, agrees_of_reachable hreach, d, hd, of_decide_eq_true hd'⟩

/-! ## Mixed access modes -/

/-- A reader and a writer are open when the FIFO is opened for both directions, and the third
description is closed again. -/
def bothWaysLast : List PipeCall :=
  [.openFifo (1, 7) .readOnly false 16, .openFifo (1, 7) .writeOnly false 16,
    .openFifo (1, 7) .readWrite false 16, .close 2]

/-- The FIFO is open for both directions when a reader is opened, and only the reader is left. -/
def bothWaysFirst : List PipeCall :=
  [.openFifo (1, 7) .readWrite false 16, .openFifo (1, 7) .readOnly false 16, .close 0]

/-- **Mixed access modes.**  After `bothWaysLast` the reader is told that the file has ended and the
writer that there is no reader, although both are open.  After `bothWaysFirst` the reader is told to
try again, although no writer is left. -/
theorem not_agrees_of_mixed :
    (∃ s d e, pipeCalls.Reachable s ∧ s.files 0 = some d ∧ s.files 1 = some e ∧
      s.HasWriter d.name ∧ s.HasReader e.name ∧ (s.read d 1).1 = .ok [] ∧
      (s.write e [0]).1 = .error .EPIPE ∧ ¬ s.Agrees) ∧
    ∃ s d, pipeCalls.Reachable s ∧ s.files 1 = some d ∧ ¬ s.HasWriter d.name ∧
      (s.read d 1).1 = .error .EAGAIN ∧ ¬ s.Agrees := by
  let last := bothWaysLast.foldl call .initial
  let first := bothWaysFirst.foldl call .initial
  have hlast : pipeCalls.Reachable last :=
    System.reachable_run bothWaysLast (.init rfl) rfl
  have hfirst : pipeCalls.Reachable first :=
    System.reachable_run bothWaysFirst (.init rfl) rfl
  constructor
  · have hreader : last.files 0 = some ⟨.fifo (1, 7), 0, true, false, 1⟩ := rfl
    have hwriter : last.files 1 = some ⟨.fifo (1, 7), 1, false, true, 1⟩ := rfl
    have hread : (last.read ⟨.fifo (1, 7), 0, true, false, 1⟩ 1).1 = .ok [] := by decide
    have hwrite : (last.write ⟨.fifo (1, 7), 1, false, true, 1⟩ [0]).1 = .error .EPIPE := by
      decide
    have hempty : (last.ringOf ⟨.fifo (1, 7), 0, true, false, 1⟩).status = .empty := by
      decide
    have hhas : last.HasWriter (.fifo (1, 7)) := ⟨1, _, hwriter, rfl, rfl⟩
    exact ⟨last, _, _, hlast, hreader, hwriter, hhas, ⟨0, _, hreader, rfl, rfl⟩, hread, hwrite,
      fun h => (h.read 0 _ hreader rfl hempty 1 one_pos).mp hread hhas⟩
  · have hreader : first.files 1 = some ⟨.fifo (1, 7), 0, true, false, 1⟩ := rfl
    have hread : (first.read ⟨.fifo (1, 7), 0, true, false, 1⟩ 1).1 = .error .EAGAIN := by
      decide
    have hempty : (first.ringOf ⟨.fifo (1, 7), 0, true, false, 1⟩).status = .empty := by
      decide
    have hnone : ∀ f, f ≠ 1 → first.files f = none := by
      rintro (_ | _ | f) hf
      any_goals rfl
      · exact absurd rfl hf
    have hhas : ¬ first.HasWriter (.fifo (1, 7)) := by
      rintro ⟨f, d, hd, -, hw⟩
      by_cases hf : f = 1
      · rw [hf, hreader] at hd
        cases hd
        exact Bool.false_ne_true hw
      · rw [hnone f hf] at hd
        cases hd
    refine ⟨first, _, hfirst, hreader, hhas, hread, fun h => ?_⟩
    have hok := (h.read 1 _ hreader rfl hempty 1 one_pos).mpr hhas
    rw [hread] at hok
    cases hok
end MangoCore.Fs.Pipe
