import Mathlib.Algebra.Order.Ring.Int
import Mathlib.Data.BitVec

/-!
# `Threads.Pte` — virtual addresses and page table entries

`threads/vaddr.h` and `threads/pte.h`: how a 32-bit address splits into a directory index, a table index and an
offset, and how an entry packs an address with flag bits. A function that asserts something of its argument returns
`none` where the assertion fails.

The lemmas come in two kinds. Those about addresses go through `BitVec.toNat`, where the slices are divisions and
remainders. Those about entries stay with the bits: setting or clearing a flag commutes with reading the address
and the other flags.
-/

namespace Asg1
namespace Pte

open BitVec

abbrev Word := BitVec 32

def PGSIZE : Word := 0x1000#32

def PGMASK : Word := 0xfff#32

def PTSHIFT : Nat := 12

def PTMASK : Word := 0x3ff000#32

def PDSHIFT : Nat := 22

def PHYS_BASE : Word := 0xc0000000#32

/-! ## `vaddr.h` -/

def pgOfs (va : Word) : Word := va &&& PGMASK

def pgRoundDown (va : Word) : Word := va &&& ~~~PGMASK

def isUserVaddr (va : Word) : Prop := va < PHYS_BASE

instance (va : Word) : Decidable (isUserVaddr va) := inferInstanceAs (Decidable (_ < _))

def ptov (paddr : Word) : Option Word := if paddr < PHYS_BASE then some (paddr + PHYS_BASE) else none

def vtop (vaddr : Word) : Option Word := if isUserVaddr vaddr then none else some (vaddr - PHYS_BASE)

/-- What follows an assertion that has not failed. -/
theorem of_assert {α : Type} {c : Prop} [Decidable c] {f : Unit → Option α} {x : α}
    (h : (guard c >>= f) = some x) : c ∧ f () = some x := by
  by_cases hc : c
  · exact ⟨hc, by simpa [guard, hc] using h⟩
  · simp [guard, hc] at h

theorem of_vtop {vaddr paddr : Word} (h : vtop vaddr = some paddr) :
    ¬ isUserVaddr vaddr ∧ paddr = vaddr - PHYS_BASE := by
  unfold vtop at h
  split at h
  · cases h
  · exact ⟨‹_›, (Option.some.inj h).symm⟩

/-! ## `pte.h` -/

def ptNo (va : Word) : Word := (va &&& PTMASK) >>> PTSHIFT

def pdNo (va : Word) : Word := va >>> PDSHIFT

def PTE_ADDR : Word := 0xfffff000#32

def PTE_P : Word := 0x1#32

def PTE_W : Word := 0x2#32

def PTE_U : Word := 0x4#32

def PTE_A : Word := 0x20#32

def PTE_D : Word := 0x40#32

def pdeCreate (pt : Word) : Option Word := do
  guard (pgOfs pt = 0#32)
  let paddr ← vtop pt
  return paddr ||| PTE_U ||| PTE_P ||| PTE_W

def pdeGetPt (pde : Word) : Option Word := do
  guard (pde &&& PTE_P ≠ 0#32)
  ptov (pde &&& PTE_ADDR)

def pteCreateKernel (page : Word) (writable : Bool) : Option Word := do
  guard (pgOfs page = 0#32)
  let paddr ← vtop page
  return paddr ||| PTE_P ||| (if writable then PTE_W else 0#32)

def pteCreateUser (page : Word) (writable : Bool) : Option Word := do
  let pte ← pteCreateKernel page writable
  return pte ||| PTE_U

def pteGetPage (pte : Word) : Option Word := ptov (pte &&& PTE_ADDR)

/-! ## Slices of an address -/

theorem pgOfs_toNat (va : Word) : (pgOfs va).toNat = va.toNat % 4096 := by
  have hmask : PGMASK.toNat = 2 ^ 12 - 1 := rfl
  rw [pgOfs, toNat_and, hmask, Nat.and_two_pow_sub_one_eq_mod]

theorem pgOfs_eq_mod (va : Word) : pgOfs va = va % PGSIZE := by
  rw [← toNat_inj, pgOfs_toNat, toNat_umod]
  rfl

theorem pdNo_toNat (va : Word) : (pdNo va).toNat = va.toNat / 2 ^ 22 := by
  rw [pdNo, toNat_ushiftRight, Nat.shiftRight_eq_div_pow, PDSHIFT]

theorem ptNo_toNat (va : Word) : (ptNo va).toNat = va.toNat / 4096 % 1024 := by
  have hmask : PTMASK.toNat >>> 12 = 2 ^ 10 - 1 := rfl
  rw [ptNo, toNat_ushiftRight, toNat_and, PTSHIFT, Nat.shiftRight_and_distrib, hmask,
    Nat.and_two_pow_sub_one_eq_mod, Nat.shiftRight_eq_div_pow]
variable {va a i w f g : Word}


theorem pgOfs_eq_zero : pgOfs va = 0#32 ↔ va.toNat % 4096 = 0 := by
  rw [← toNat_inj, pgOfs_toNat]
  rfl

/-- An address is its page and its offset. -/
theorem pgRoundDown_add_pgOfs (va : Word) : pgRoundDown va + pgOfs va = va := by
  have hdisj : pgRoundDown va &&& pgOfs va = 0#32 := by
    rw [pgRoundDown, pgOfs, BitVec.and_assoc, ← BitVec.and_assoc (~~~PGMASK), BitVec.and_comm (~~~PGMASK) va,
      BitVec.and_assoc va, show ~~~PGMASK &&& PGMASK = 0#32 by decide]
    simp
  have hall : ~~~PGMASK ||| PGMASK = BitVec.allOnes 32 := by decide
  rw [add_eq_or_of_and_eq_zero _ _ hdisj, pgRoundDown, pgOfs, ← and_or_distrib_left, hall,
    and_allOnes]

theorem pgRoundDown_toNat (va : Word) : (pgRoundDown va).toNat = va.toNat / 4096 * 4096 := by
  have hsum : pgRoundDown va = va - pgOfs va := by
    rw [BitVec.eq_sub_iff_add_eq, pgRoundDown_add_pgOfs]
  have hofs := pgOfs_toNat va
  have hle : pgOfs va ≤ va := by
    rw [le_def, hofs]
    exact Nat.mod_le _ _
  rw [hsum, toNat_sub_of_le hle, hofs]
  omega

theorem pgOfs_pgRoundDown (va : Word) : pgOfs (pgRoundDown va) = 0#32 := by
  rw [pgOfs_eq_zero, pgRoundDown_toNat]
  omega

theorem pgRoundDown_of_aligned (h : pgOfs va = 0#32) : pgRoundDown va = va := by
  have hsum := pgRoundDown_add_pgOfs va
  rwa [h, BitVec.add_zero] at hsum

/-- Addresses are on one page just when they agree in both indices. -/
theorem pgRoundDown_eq_iff {va va' : Word} :
    pgRoundDown va' = pgRoundDown va ↔ (pdNo va').toNat = (pdNo va).toNat ∧ (ptNo va').toNat = (ptNo va).toNat := by
  rw [← toNat_inj, pgRoundDown_toNat, pgRoundDown_toNat, pdNo_toNat, pdNo_toNat, ptNo_toNat, ptNo_toNat]
  omega

theorem isUserVaddr_iff : isUserVaddr va ↔ va.toNat < 0xc0000000 := by
  rfl

/-- The directory indices of user addresses lie below 768, the others do not. -/
theorem pdNo_lt_iff : (pdNo va).toNat < 768 ↔ isUserVaddr va := by
  rw [isUserVaddr_iff, pdNo_toNat]
  omega

theorem ptNo_lt (va : Word) : (ptNo va).toNat < 1024 := by
  rw [ptNo_toNat]
  omega

theorem pdNo_lt (va : Word) : (pdNo va).toNat < 1024 := by
  rw [pdNo_toNat]
  omega

/-- Where the word at `&a[i]` lies, for an array `a` that starts at a page. -/
theorem index_toNat (ha : pgOfs a = 0#32) (hi : i.toNat < 1024) : (a + 4#32 * i).toNat = a.toNat + 4 * i.toNat := by
  rw [pgOfs_eq_zero] at ha
  have hfour : (4#32).toNat = 4 := rfl
  rw [toNat_add, toNat_mul, hfour]
  omega

theorem pgRoundDown_index (ha : pgOfs a = 0#32) (hi : i.toNat < 1024) : pgRoundDown (a + 4#32 * i) = a := by
  rw [← toNat_inj, pgRoundDown_toNat, index_toNat ha hi]
  rw [pgOfs_eq_zero] at ha
  omega

theorem pgOfs_index (ha : pgOfs a = 0#32) (hi : i.toNat < 1024) : (pgOfs (a + 4#32 * i)).toNat / 4 = i.toNat := by
  rw [pgOfs_toNat, index_toNat ha hi]
  rw [pgOfs_eq_zero] at ha
  omega

/-! ## Kernel pages and the entries that name them -/

/-- The address of a page in the kernel's part of the address space. -/
structure KernelPage (a : Word) : Prop where
  aligned : pgOfs a = 0#32
  kernel : ¬ isUserVaddr a

instance (a : Word) : Decidable (KernelPage a) :=
  decidable_of_iff (pgOfs a = 0#32 ∧ ¬ isUserVaddr a) ⟨fun h => ⟨h.1, h.2⟩, fun h => ⟨h.1, h.2⟩⟩

variable {a w pt kpage : Word}

theorem KernelPage.vtop (ha : KernelPage a) : vtop a = some (a - PHYS_BASE) := if_neg ha.kernel

theorem KernelPage.aligned_sub (ha : KernelPage a) : pgOfs (a - PHYS_BASE) = 0#32 := by
  have hkernel := ha.kernel
  have haligned := ha.aligned
  rw [isUserVaddr_iff] at hkernel
  rw [pgOfs_eq_zero] at haligned ⊢
  have hbase : PHYS_BASE.toNat = 0xc0000000 := rfl
  have hle : PHYS_BASE ≤ a := by
    rw [le_def, hbase]
    omega
  rw [toNat_sub_of_le hle, hbase]
  omega

theorem KernelPage.ptov (ha : KernelPage a) : ptov (a - PHYS_BASE) = some a := by
  have hkernel := ha.kernel
  rw [isUserVaddr_iff] at hkernel
  have hbase : PHYS_BASE.toNat = 0xc0000000 := rfl
  have hle : PHYS_BASE ≤ a := by
    rw [le_def, hbase]
    omega
  have hlt : a - PHYS_BASE < PHYS_BASE := by
    rw [lt_def, toNat_sub_of_le hle, hbase]
    omega
  rw [Pte.ptov, if_pos hlt, BitVec.sub_add_cancel]

theorem and_PTE_ADDR (h : pgOfs w = 0#32) : w &&& PTE_ADDR = w := by
  have hmask : PTE_ADDR = ~~~PGMASK := by decide
  exact pgRoundDown_of_aligned h

/-- Setting bits is not seen through a mask they lie outside of. -/
theorem or_and_of_disjoint (h : f &&& g = 0#32) : (w ||| f) &&& g = w &&& g := by
  rw [BitVec.and_comm, and_or_distrib_left, BitVec.and_comm g f, h, BitVec.and_comm g w]
  exact or_zero

/-- Nor is clearing them. -/
theorem and_not_and_of_disjoint (h : ~~~f &&& g = g) : w &&& ~~~f &&& g = w &&& g := by
  rw [BitVec.and_assoc, h]

theorem or_and_ne_zero (h : f &&& g ≠ 0#32) : (w ||| f) &&& g ≠ 0#32 := by
  intro hzero
  apply h
  rw [BitVec.and_comm, and_or_distrib_left] at hzero
  have hright := (BitVec.or_eq_zero_iff.mp hzero).2
  rwa [BitVec.and_comm] at hright

theorem and_not_and_self (w f : Word) : w &&& ~~~f &&& f = 0#32 := by
  rw [BitVec.and_assoc, BitVec.and_comm (~~~f) f, BitVec.and_not_self]
  exact and_zero

/-- Clearing bits that are clear. -/
theorem and_not_of_and_eq_zero {f : Word} (h : w &&& f = 0#32) : w &&& ~~~f = w := by
  have hsplit : w &&& ~~~f ||| w &&& f = w := by
    rw [← and_or_distrib_left, BitVec.or_comm, or_not_self, and_allOnes]
  rwa [h, or_zero] at hsplit

/-- The directory entry for table `pt`. -/
def pdeOf (pt : Word) : Word := (pt - PHYS_BASE) ||| PTE_U ||| PTE_P ||| PTE_W

/-- The table entry for page `kpage`. -/
def pteOf (kpage : Word) (writable : Bool) : Word :=
  (kpage - PHYS_BASE) ||| PTE_P ||| (if writable then PTE_W else 0#32) ||| PTE_U

theorem pdeCreate_eq (h : KernelPage pt) : pdeCreate pt = some (pdeOf pt) := by
  simp [pdeCreate, h.aligned, h.vtop, pdeOf, guard]

theorem pdeOf_present (pt : Word) : pdeOf pt &&& PTE_P ≠ 0#32 := by
  rw [pdeOf, BitVec.or_assoc, BitVec.or_assoc]
  exact or_and_ne_zero (by decide)

theorem pdeOf_ne_zero (pt : Word) : pdeOf pt ≠ 0#32 := by
  intro h
  exact pdeOf_present pt (by rw [h]; exact zero_and)

theorem pdeGetPt_pdeOf (h : KernelPage pt) : pdeGetPt (pdeOf pt) = some pt := by
  have haddr : pdeOf pt &&& PTE_ADDR = pt - PHYS_BASE := by
    rw [pdeOf, BitVec.or_assoc, BitVec.or_assoc, or_and_of_disjoint (by decide), and_PTE_ADDR h.aligned_sub]
  simp [pdeGetPt, guard, pdeOf_present, haddr, h.ptov]

theorem pteCreateUser_eq (h : KernelPage kpage) (writable : Bool) :
    pteCreateUser kpage writable = some (pteOf kpage writable) := by
  simp [pteCreateUser, pteCreateKernel, h.aligned, h.vtop, pteOf, guard]

theorem pteOf_present (kpage : Word) (writable : Bool) : pteOf kpage writable &&& PTE_P ≠ 0#32 := by
  rw [pteOf, BitVec.or_assoc, BitVec.or_assoc]
  exact or_and_ne_zero (by cases writable <;> decide)

theorem pteOf_addr (h : KernelPage kpage) (writable : Bool) :
    pteOf kpage writable &&& PTE_ADDR = kpage - PHYS_BASE := by
  rw [pteOf, BitVec.or_assoc, BitVec.or_assoc, or_and_of_disjoint (by cases writable <;> decide),
    and_PTE_ADDR h.aligned_sub]

end Pte
end Asg1
