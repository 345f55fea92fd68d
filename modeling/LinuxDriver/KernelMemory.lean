import LinuxDriver.KernelTypes
import LinuxDriver.ModuleRuns
import Mathlib.Algebra.Group.Nat.Defs
import Mathlib.Data.Finset.Insert
import Mathlib.Data.Finset.Erase
import Mathlib.Data.Nat.Size

/-!
# The allocators of the kernel

A block belongs to the function it comes from and has to be given back to its counterpart, with
the same order, size or cache. An allocation answers any address that is not in use, or fails;
giving back something that is not there is a misuse, and an access to it a fault, at which the
monad answers `none`. Addresses are words of 64 bits, of which the last 4095 are error values.
-/
namespace KernelMemory

open KernelTypes ModuleRuns

abbrev Word := BitVec 64

def MAX_ERRNO : ℤ := 4095

def ERR_PTR (error : ℤ) : Word := BitVec.ofInt 64 error

def PTR_ERR (ptr : Word) : ℤ := ptr.toInt

def IS_ERR (ptr : Word) : Bool := BitVec.ofInt 64 (-MAX_ERRNO) ≤ ptr

theorem toNat_of_isErr {ptr : Word} : IS_ERR ptr ↔ 2 ^ 64 - 4095 ≤ ptr.toNat := by
  simp only [IS_ERR, MAX_ERRNO, decide_eq_true_eq, BitVec.le_def]
  rfl

inductive Kind where
  | pages (order : ℕ)
  | slab
  | vmalloc
  | coherent (size : ℕ) (phys : Word)
  | cache
  | object (cache : Word)
  deriving DecidableEq, Repr

structure Block where
  kind : Kind
  addr : Word
  deriving DecidableEq, Repr

structure Memory where
  held : Finset Block
  misuses : ℕ

namespace Memory

/-- An address that an allocation can answer. -/
def Usable (m : Memory) (a : Word) : Prop := a ≠ 0 ∧ ¬ IS_ERR a ∧ ∀ b ∈ m.held, b.addr ≠ a

instance (m : Memory) (a : Word) : Decidable (m.Usable a) :=
  inferInstanceAs (Decidable (_ ∧ _ ∧ _))

def hold (m : Memory) (b : Block) : Memory := { m with held := insert b m.held }

def release (m : Memory) (b : Block) : Memory :=
  if b ∈ m.held then { m with held := m.held.erase b } else { m with misuses := m.misuses + 1 }

@[simp] theorem mem_hold {m : Memory} {b c : Block} : c ∈ (m.hold b).held ↔ c = b ∨ c ∈ m.held :=
  Finset.mem_insert

@[simp] theorem misuses_hold (m : Memory) (b : Block) : (m.hold b).misuses = m.misuses := rfl

theorem release_of_mem {m : Memory} {b : Block} (h : b ∈ m.held) :
    m.release b = { m with held := m.held.erase b } := if_pos h

theorem misuses_release_of_mem {m : Memory} {b : Block} (h : b ∈ m.held) :
    (m.release b).misuses = m.misuses := by rw [release_of_mem h]

theorem mem_release {m : Memory} {b c : Block} :
    c ∈ (m.release b).held ↔ c ≠ b ∧ c ∈ m.held := by
  unfold release
  split
  case isTrue h => exact Finset.mem_erase
  case isFalse h =>
    refine ⟨fun hc => ⟨?_, hc⟩, And.right⟩
    rintro rfl
    exact h hc

theorem notMem_of_usable {m : Memory} {a : Word} (h : m.Usable a) (kind : Kind) :
    ⟨kind, a⟩ ∉ m.held := fun hmem => h.2.2 _ hmem rfl

end Memory

abbrev MemoryM := StateT Memory Option

def allocate (kind : Kind) (a : Word) : MemoryM Word := fun m =>
  if m.Usable a then some (a, m.hold ⟨kind, a⟩) else some (0, m)

/-- Nothing happens where the pointer is null. -/
def free (kind : Kind) (p : Word) : MemoryM Unit := fun m =>
  if p = 0 then some ((), m) else some ((), m.release ⟨kind, p⟩)

def store (p : Word) : MemoryM Unit := fun m =>
  if ∃ b ∈ m.held, b.addr = p then some ((), m) else none

/-- Where the kernel has its linear mapping of the physical memory, and what of it is there. -/
structure Platform where
  PAGE_OFFSET : Word
  PHYS_OFFSET : Word
  mapped : Word → Bool

def Platform.load (P : Platform) (p : Word) : MemoryM Unit := fun m =>
  if P.mapped p then some ((), m) else none

def getOrder (size : ℕ) : ℕ := Nat.size ((size - 1) / PAGE_SIZE)

def getFreePages (order : ℕ) (a : Word) : MemoryM Word := allocate (.pages order) a

def freePages (p : Word) (order : ℕ) : MemoryM Unit := free (.pages order) p

/-- `kmalloc` and `kzalloc`, whatever the size is. -/
def kmalloc (_ : ℕ) (a : Word) : MemoryM Word := allocate .slab a

def kfree (p : Word) : MemoryM Unit := free .slab p

def vmalloc (_ : ℕ) (a : Word) : MemoryM Word := allocate .vmalloc a

def vfree (p : Word) : MemoryM Unit := free .vmalloc p

/-- Answers with the address of the block and the one that devices use. -/
def dmaAllocCoherent (size : ℕ) (a phys : Word) : MemoryM (Word × Word) := do
  let virt ← allocate (.coherent size phys) a
  return (virt, phys)

def dmaFreeCoherent (size : ℕ) (virt phys : Word) : MemoryM Unit := free (.coherent size phys) virt

def kmemCacheCreate (a : Word) : MemoryM Word := allocate .cache a

def kmemCacheAlloc (kc a : Word) : MemoryM Word := allocate (.object kc) a

/-- The null pointer is no exception here. -/
def kmemCacheFree (kc p : Word) : MemoryM Unit := fun m => some ((), m.release ⟨.object kc, p⟩)

/-- A cache that has objects in use is not destroyed. -/
def kmemCacheDestroy (kc : Word) : MemoryM Unit := fun m =>
  if kc = 0 then some ((), m)
  else if ∃ b ∈ m.held, b.kind = .object kc then some ((), { m with misuses := m.misuses + 1 })
  else some ((), m.release ⟨.cache, kc⟩)

/-- The objects of a cache live inside it. Nothing lives at the null pointer. -/
def account : Account Memory Block where
  held m := m.held
  misuses := Memory.misuses
  parent b := match b.kind with
    | .object kc => some ⟨.cache, kc⟩
    | _ => none
  Good m := ∀ b ∈ m.held, b.addr ≠ 0

end KernelMemory
