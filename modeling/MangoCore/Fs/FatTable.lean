import Mathlib.Data.Nat.Prime.Pow

/-!
# The FAT on the disk

A FAT32 volume keeps one or more copies of a table with one 32-bit entry per cluster.  The device is
read and written in blocks of 4096 bytes, while the volume counts in sectors of its own size, so an
entry is written by reading a block, replacing one sector of it and writing the block back.

Reads use the active copy.  Writes go to every copy, unless the boot sector disables mirroring, and
keep the four reserved high bits of the entry.

The device is seen as a function from a block and the byte offset of a word in it to the word; reads
and writes of it succeed.
-/

namespace MangoCore.Fs.Fat

def blockSz : ℕ := 4096

def fatEntryFree : ℕ := 0

def badBlock : ℕ := 0x0FFFFFF7

def fatEntryReservedToEnd : ℕ := 0x0FFFFFF8

/-- `EOC`, which is also the mask of the entry bits that count. -/
def eoc : ℕ := 0x0FFFFFFF

/-- Block, byte offset of the word in it. -/
abbrev Device := ℕ → ℕ → ℕ

/-- The shape of a volume, with what the constructor asserts. -/
structure Geometry where
  /-- The first sector of the first copy. -/
  startBlockId : ℕ
  bytsPerSec : ℕ
  sectorsPerFat : ℕ
  numFats : ℕ
  activeFat : ℕ
  mirrorWrites : Bool
  /-- The clusters are `2, …, maxClusterExclusive - 1`. -/
  maxClusterExclusive : ℕ
  bytsPerSec_dvd : bytsPerSec ∣ blockSz
  bytsPerSec_ge : 512 ≤ bytsPerSec
  activeFat_lt : activeFat < numFats
  capacity : maxClusterExclusive * 4 ≤ sectorsPerFat * bytsPerSec
  /-- The cluster numbers of FAT32 are below the mark for bad clusters. -/
  numbers : maxClusterExclusive ≤ badBlock

/-- `Fat::new`: bit 7 of the flags disables mirroring, and the low bits then name the active copy.
A volume that the assertions refuse, or whose sectors do not fit a block, has no result. -/
def Geometry.new (rsvdSecCnt bytsPerSec sectorsPerFat numFats extFlags clusterCount : ℕ) :
    Option Geometry :=
  let mirrorWrites := decide (extFlags &&& 0x0080 = 0)
  let activeFat := if mirrorWrites then 0 else extFlags &&& 0x000f
  if h : (bytsPerSec ∣ blockSz ∧ 512 ≤ bytsPerSec) ∧ activeFat < numFats ∧
      (clusterCount + 2) * 4 ≤ sectorsPerFat * bytsPerSec ∧ clusterCount + 2 ≤ badBlock then
    some ⟨rsvdSecCnt, bytsPerSec, sectorsPerFat, numFats, activeFat, mirrorWrites,
      clusterCount + 2, h.1.1, h.1.2, h.2.1, h.2.2.1, h.2.2.2⟩
  else none

namespace Geometry

variable (g : Geometry)

/-- The block of a sector and the place of the sector in it. -/
def sectorToParent (sector : ℕ) : ℕ × ℕ :=
  let sectorsPerBlock := blockSz / g.bytsPerSec
  (sector / sectorsPerBlock, sector % sectorsPerBlock * g.bytsPerSec)

section

variable (device : Device)

section

variable (clusNum sector : ℕ)

/-- The words of a sector by their byte offset. -/
def readFatSector : ℕ → ℕ :=
  let parent := g.sectorToParent sector
  fun offset => device parent.1 (parent.2 + offset)

/-- The block is read, the sector replaced, and the block written back. -/
def writeFatSector (buf : ℕ → ℕ) : Device :=
  let parent := g.sectorToParent sector
  fun block offset =>
    if block = parent.1 ∧ parent.2 ≤ offset ∧ offset < parent.2 + g.bytsPerSec then
      buf (offset - parent.2)
    else device block offset

/-- `this_fat_sector_offset`; the product is a 32-bit one. -/
def thisFatSectorOffset : ℕ :=
  clusNum * 4 % 2 ^ 32 / g.bytsPerSec

def thisFatEntOffset : ℕ :=
  clusNum * 4 % 2 ^ 32 % g.bytsPerSec

end

variable (fatIndex fatSectorOffset offset : ℕ)

/-- The sector of an entry in one copy. -/
def sectorOf : ℕ :=
  g.startBlockId + fatIndex * g.sectorsPerFat + fatSectorOffset

def readFatEntry : ℕ :=
  g.readFatSector device (g.sectorOf g.activeFat fatSectorOffset) offset

/-- One round of the loop of `write_fat_entry`. -/
def writeCopy (val : ℕ) (device : Device) (fatIndex : ℕ) : Device :=
  let sector := g.sectorOf fatIndex fatSectorOffset
  let buf := g.readFatSector device sector
  let updated := (buf offset &&& 0xF0000000) ||| (val &&& eoc)
  g.writeFatSector device sector (Function.update buf offset updated)

/-- The copies that a write goes to. -/
def writtenCopies : List ℕ :=
  if g.mirrorWrites then List.range' 0 g.numFats else List.range' g.activeFat 1

def writeFatEntry (val : ℕ) : Device :=
  g.writtenCopies.foldl (g.writeCopy fatSectorOffset offset val) device

def getNextClusNum (currentClusNum : ℕ) : ℕ :=
  g.readFatEntry device (g.thisFatSectorOffset currentClusNum)
    (g.thisFatEntOffset currentClusNum) &&& eoc

def setNextClus (current : Option ℕ) (next : ℕ) : Device :=
  match current with
  | none => device
  | some current =>
    g.writeFatEntry device (g.thisFatSectorOffset current) (g.thisFatEntOffset current) next

/-- The word of an entry in one copy. -/
def entry (clusNum : ℕ) : ℕ :=
  g.readFatSector device (g.sectorOf fatIndex (g.thisFatSectorOffset clusNum))
    (g.thisFatEntOffset clusNum)

end

/-! ## Where an entry is -/

variable {g} {device : Device} {c d i j val : ℕ}

theorem bytsPerSec_pos : 0 < g.bytsPerSec :=
  Nat.pos_of_dvd_of_pos g.bytsPerSec_dvd (by decide)

theorem four_dvd_bytsPerSec : 4 ∣ g.bytsPerSec := by
  obtain ⟨k, -, hk⟩ := (Nat.dvd_prime_pow Nat.prime_two (m := 12)).mp g.bytsPerSec_dvd
  have hge := g.bytsPerSec_ge
  rw [hk] at hge ⊢
  refine pow_dvd_pow 2 (?_ : 2 ≤ k)
  by_contra hlt
  have : 2 ^ k ≤ 2 ^ 1 := Nat.pow_le_pow_right (by decide) (by omega)
  omega

section

variable (hc : c < g.maxClusterExclusive)
include hc

/-- A cluster number of the volume does not wrap in the product with 4. -/
theorem mul_four_mod : c * 4 % 2 ^ 32 = c * 4 := by
  grind [g.numbers, badBlock]

/-- **The assertions of an access hold** for every cluster of the volume. -/
theorem entry_in_table :
    g.thisFatSectorOffset c < g.sectorsPerFat ∧ g.thisFatEntOffset c + 4 ≤ g.bytsPerSec := by
  have hpos := g.bytsPerSec_pos
  have hcap := g.capacity
  rw [thisFatSectorOffset, thisFatEntOffset, mul_four_mod hc]
  refine ⟨(Nat.div_lt_iff_lt_mul hpos).mpr (by omega), ?_⟩
  -- offsets are multiples of four below the sector size, which is one too
  have hlt := Nat.mod_lt (c * 4) hpos
  have hdvd : 4 ∣ c * 4 % g.bytsPerSec :=
    (Nat.dvd_mod_iff g.four_dvd_bytsPerSec).mpr (dvd_mul_left 4 c)
  have hfour := g.four_dvd_bytsPerSec
  omega

/-- An entry is determined by its sector and its offset. -/
theorem eq_of_address_eq (hd : d < g.maxClusterExclusive)
    (hsector : g.sectorOf i (g.thisFatSectorOffset c) = g.sectorOf j (g.thisFatSectorOffset d))
    (hoffset : g.thisFatEntOffset c = g.thisFatEntOffset d) : i = j ∧ c = d := by
  obtain ⟨hci, -⟩ := entry_in_table hc
  obtain ⟨hdj, -⟩ := entry_in_table hd
  have hsum : i * g.sectorsPerFat + g.thisFatSectorOffset c =
      j * g.sectorsPerFat + g.thisFatSectorOffset d := by
    rw [sectorOf, sectorOf] at hsector
    omega
  have hspf : 0 < g.sectorsPerFat := by omega
  have hdiv : ∀ k x, x < g.sectorsPerFat → (k * g.sectorsPerFat + x) / g.sectorsPerFat = k := by
    intro k x hx
    rw [mul_comm, Nat.mul_add_div hspf, Nat.div_eq_of_lt hx, add_zero]
  have hij : i = j := by
    rw [← hdiv i _ hci, hsum, hdiv j _ hdj]
  grind [thisFatSectorOffset, mul_four_mod, thisFatEntOffset, Nat.div_add_mod]

end

/-! ## Reading what was written -/

variable {s t offset : ℕ}

/-- The places of a sector in its block determine the sector. -/
theorem sector_eq_of_parent (hoffset : offset < g.bytsPerSec)
    (hblock : (g.sectorToParent t).1 = (g.sectorToParent s).1)
    (hle : (g.sectorToParent s).2 ≤ (g.sectorToParent t).2 + offset)
    (hlt : (g.sectorToParent t).2 + offset < (g.sectorToParent s).2 + g.bytsPerSec) : t = s := by
  have hpos := g.bytsPerSec_pos
  simp only [sectorToParent] at hblock hle hlt
  generalize hk : blockSz / g.bytsPerSec = k at hblock hle hlt
  have hmod : t % k = s % k := by
    grind [mul_comm, Nat.mul_add_div, Nat.div_eq_of_lt, Nat.div_eq_of_lt_le]
  rw [← Nat.div_add_mod t k, hblock, hmod, Nat.div_add_mod]

theorem readFatSector_writeFatSector {buf : ℕ → ℕ}
    (hoffset : offset < g.bytsPerSec) : g.readFatSector (g.writeFatSector device s buf) t offset =
      if t = s then buf offset else g.readFatSector device t offset := by
  grind [readFatSector.eq_1, writeFatSector.eq_1, sector_eq_of_parent]

/-- What a write leaves in an entry: the reserved bits stay. -/
def merge (old val : ℕ) : ℕ :=
  (old &&& 0xF0000000) ||| (val &&& eoc)

theorem merge_and_eoc (old val : ℕ) (hval : val < 2 ^ 28) : merge old val &&& eoc = val := by
  have hlow : val &&& eoc = val := by
    rw [show eoc = 2 ^ 28 - 1 from rfl, Nat.and_two_pow_sub_one_eq_mod, Nat.mod_eq_of_lt hval]
  grind [eoc, merge]

section

variable (hc : c < g.maxClusterExclusive) (hd : d < g.maxClusterExclusive)
include hc hd

/-- One round changes the entry in its copy and nothing else of the tables. -/
theorem entry_writeCopy :
    g.entry (g.writeCopy (g.thisFatSectorOffset c) (g.thisFatEntOffset c) val device i) j d =
      if j = i ∧ d = c then merge (g.entry device j d) val else g.entry device j d := by
  have hlt : g.thisFatEntOffset d < g.bytsPerSec := Nat.mod_lt _ g.bytsPerSec_pos
  rw [entry, writeCopy, readFatSector_writeFatSector hlt]
  by_cases hsame : j = i ∧ d = c
  · simp [hsame, merge, entry]
  · grind [entry, eq_of_address_eq]

theorem entry_foldl_writeCopy {copies : List ℕ} (hnodup : copies.Nodup) :
    g.entry (copies.foldl
      (g.writeCopy (g.thisFatSectorOffset c) (g.thisFatEntOffset c) val) device) j d =
      if j ∈ copies ∧ d = c then merge (g.entry device j d) val else g.entry device j d := by
  induction copies generalizing device with
  | nil => rw [if_neg (fun h => nomatch h.1)]; rfl
  | cons i copies ih =>
    obtain ⟨hnot, hnodup⟩ := List.nodup_cons.mp hnodup
    rw [List.foldl_cons, ih hnodup, entry_writeCopy hc hd]
    by_cases hd' : d = c
    · grind
    · rw [if_neg (fun h => hd' h.2), if_neg (fun h => hd' h.2), if_neg (fun h => hd' h.2)]

end

theorem nodup_writtenCopies : g.writtenCopies.Nodup := by
  rw [writtenCopies]
  split_ifs <;> exact List.nodup_range'

theorem activeFat_mem_writtenCopies : g.activeFat ∈ g.writtenCopies := by
  grind [writtenCopies, g.activeFat_lt]

/-! ## The table of links -/

/-- The link of a cluster is what the last write to it says. -/
theorem getNextClusNum_setNextClus (hc : c < g.maxClusterExclusive)
    (hd : d < g.maxClusterExclusive) (hval : val < 2 ^ 28) :
    g.getNextClusNum (g.setNextClus device (some c) val) d =
      if d = c then val else g.getNextClusNum device d := by
  have hentry : ∀ dev, g.getNextClusNum dev d = g.entry dev g.activeFat d &&& eoc := fun _ => rfl
  grind [setNextClus, writeFatEntry, entry_foldl_writeCopy, nodup_writtenCopies,
    activeFat_mem_writtenCopies, merge_and_eoc]

/-- Every copy holds the same words. -/
def Mirrored (g : Geometry) (device : Device) : Prop :=
  ∀ i < g.numFats, ∀ c < g.maxClusterExclusive, g.entry device i c = g.entry device 0 c

/-- A mirrored write keeps the copies equal. -/
theorem Mirrored.setNextClus (h : g.Mirrored device) (hmirror : g.mirrorWrites = true)
    (hc : c < g.maxClusterExclusive) (val : ℕ) :
    g.Mirrored (g.setNextClus device (some c) val) := by
  have hcopies : ∀ i < g.numFats, i ∈ g.writtenCopies := by simp [hmirror, writtenCopies]
  have hpos : 0 < g.numFats := lt_of_le_of_lt (Nat.zero_le _) g.activeFat_lt
  intro i hi d hd
  rw [Geometry.setNextClus, writeFatEntry, entry_foldl_writeCopy hc hd nodup_writtenCopies,
    entry_foldl_writeCopy hc hd nodup_writtenCopies, h i hi d hd]
  simp only [hcopies i hi, hcopies 0 hpos]

end Geometry
end MangoCore.Fs.Fat
