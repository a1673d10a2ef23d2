import MangoCore.Errno
import Mathlib.Algebra.Order.Ring.Int

/-!
# Addresses, page numbers and mapping attributes

The base types of the memory subsystem.  Addresses (`va`), virtual page numbers (`vpn`) and physical
page numbers (`ppn`) are 64-bit machine words; they are natural numbers here, and the one conversion
that can lose bits, from a page number to the address of its first byte, reduces modulo `2 ^ 64` as
the shift of the source does.

`VPNRange` carries the check that its constructor makes, so a range never runs backwards.
-/

namespace MangoCore.Mm

/-! ## Pages -/

def pageSize : ℕ := 4096

/-- The number of values of a `usize`. -/
def usizeRange : ℕ := 2 ^ 64

/-- The number of pages of the 64-bit address space. -/
def pageNumRange : ℕ := 2 ^ 52

/-- The page an address lies in. -/
def VirtAddr.floor (va : ℕ) : ℕ := va / pageSize

/-- The first page that begins at or after an address. -/
def VirtAddr.ceil (va : ℕ) : ℕ :=
  if va = 0 then 0 else (va - 1) / pageSize + 1

/-- The address of the first byte of a page; the bits a shift pushes out are lost. -/
def VirtAddr.ofVpn (vpn : ℕ) : ℕ := vpn * pageSize % usizeRange

theorem VirtAddr.ceil_le_pageNumRange {va : ℕ} (h : va < usizeRange) :
    VirtAddr.ceil va ≤ pageNumRange := by
  unfold VirtAddr.ceil pageSize
  unfold usizeRange at h
  unfold pageNumRange
  split_ifs <;> omega

/-- No bit is lost for the page of an address. -/
theorem VirtAddr.ofVpn_of_lt {vpn : ℕ} (h : vpn < pageNumRange) :
    VirtAddr.ofVpn vpn = vpn * pageSize := by
  grind [VirtAddr.ofVpn, usizeRange, pageSize, pageNumRange]

theorem VirtAddr.floor_ofVpn {vpn : ℕ} (h : vpn < pageNumRange) :
    VirtAddr.floor (VirtAddr.ofVpn vpn) = vpn := by
  grind [VirtAddr.ofVpn_of_lt, VirtAddr.floor, pageSize]

/-- A half-open range of virtual pages. -/
structure VPNRange where
  getStart : ℕ
  getEnd : ℕ
  le : getStart ≤ getEnd
  deriving DecidableEq, Repr

/-! ## Errors -/

/-- The internal errors of the memory subsystem. -/
inductive MemoryError where
  | badAddress | areaNotFound | alreadyMapped | notMapped | noPermission | notInMemory
  | notCompressed | notSwappedOut | alreadyAllocated | sharedPage | zramIsFull | swapIsFull
  | beyondEOF | outOfMemory | backingStoreFailure
  deriving DecidableEq, Repr

/-! ## Permissions and mapping flags -/

/-- The permission bits of a mapping. -/
structure MapPermission where
  bits : BitVec 8
  deriving DecidableEq, Repr

namespace MapPermission

def R : MapPermission := ⟨1#8 <<< 1⟩
def W : MapPermission := ⟨1#8 <<< 2⟩
def X : MapPermission := ⟨1#8 <<< 3⟩
def U : MapPermission := ⟨1#8 <<< 4⟩
def G : MapPermission := ⟨1#8 <<< 5⟩

variable (a b : MapPermission)

/-- All bits of the second argument are set in the first. -/
def contains : Bool := a.bits &&& b.bits = b.bits

def union : MapPermission := ⟨a.bits ||| b.bits⟩

def difference : MapPermission := ⟨a.bits &&& ~~~b.bits⟩

end MapPermission

/-- The flag word of a mapping. -/
structure MapFlags where
  bits : BitVec 64
  deriving DecidableEq, Repr

namespace MapFlags

def MAP_SHARED : MapFlags := ⟨0x01⟩
def MAP_PRIVATE : MapFlags := ⟨0x02⟩
def MAP_SHARED_VALIDATE : MapFlags := ⟨0x03⟩
def MAP_TYPE : MapFlags := ⟨0x0f⟩
def MAP_FIXED : MapFlags := ⟨0x10⟩
def MAP_ANONYMOUS : MapFlags := ⟨0x20⟩
def MAP_GROWSDOWN : MapFlags := ⟨0x0100⟩
def MAP_LOCKED : MapFlags := ⟨0x2000⟩
def MAP_STACK : MapFlags := ⟨0x20000⟩
def MAP_FIXED_NOREPLACE : MapFlags := ⟨0x100000⟩

/-- All bits of the second argument are set in the first. -/
def contains (a b : MapFlags) : Bool := a.bits &&& b.bits = b.bits

def union (a b : MapFlags) : MapFlags := ⟨a.bits ||| b.bits⟩

end MapFlags

/-- The direction of the access that raised a fault. -/
inductive FaultAccess where
  | load | store | execute
  deriving DecidableEq, Repr

/-! ## Build configuration -/

/-- The constants that differ between the two architectures the kernel is built for. -/
structure Arch where
  mmapBase : ℕ
  mmapEnd : ℕ
  userVaEnd : ℕ
  userStackSize : ℕ
  mmapBase_lt : VirtAddr.floor mmapBase < VirtAddr.floor mmapEnd
  userVaEnd_lt : userVaEnd < 2 ^ 63

/-- The RISC-V layout. -/
def Arch.riscv : Arch where
  mmapBase := 0x20000000
  mmapEnd := 0xb8000000
  userVaEnd := 0xc0000000
  userStackSize := pageSize * 0x100
  mmapBase_lt := by decide
  userVaEnd_lt := by decide

/-- The LoongArch layout: the arena ends at the trap contexts, below the two trampolines that close
the user half, and takes an eighth of it. -/
def Arch.loongarch64 : Arch where
  mmapBase := 0x2000000000 - 2 * pageSize - 1024 * pageSize - 0x2000000000 / 8 + 0x3000
  mmapEnd := 0x2000000000 - 2 * pageSize - 1024 * pageSize
  userVaEnd := 0x120000000 + 0x2000000000
  userStackSize := pageSize * 0x100
  mmapBase_lt := by decide
  userVaEnd_lt := by decide
end MangoCore.Mm
