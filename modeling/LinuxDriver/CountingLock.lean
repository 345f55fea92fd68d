import Mathlib.Data.Nat.Notation

/-!
# Locks that admit a fixed number of holders

A lock is described by its state, by the two operations on it and by the number of
further callers it would admit, which the operations change by one. Mutexes, spinlocks
and semaphores are instances; a proof about the critical section uses only the count.
-/
namespace CountingLock

/-- `acquire` answers `none` where the caller has to wait. -/
structure Lock (L : Type) where
  init : L
  acquire : L → ℕ → Option L
  release : L → ℕ → L
  free : L → ℕ
  free_acquire : ∀ {l i l'}, acquire l i = some l' → free l' + 1 = free l
  free_release : ∀ {l i}, free l < free init → free (release l i) = free l + 1
  eq_init : ∀ {l}, free l = free init → l = init

def mutex : Lock (Option ℕ) where
  init := none
  acquire
    | none, i => some (some i)
    | some _, _ => none
  release _ _ := none
  free l := if l = none then 1 else 0
  free_acquire {l i l'} h := by cases l <;> simp_all; simp [← h]
  free_release {l i} h := by cases l <;> simp_all
  eq_init {l} h := by cases l <;> simp_all

def spinlock : Lock Bool where
  init := false
  acquire l _ := if l then none else some true
  release _ _ := false
  free l := if l then 0 else 1
  free_acquire {l i l'} h := by cases l <;> simp_all
  free_release {l i} h := by cases l <;> simp_all
  eq_init {l} h := by cases l <;> simp_all

/-- A semaphore initialised to `n`: `down` waits for a positive value, `up` adds one. -/
def semaphore (n : ℕ) : Lock ℕ where
  init := n
  acquire
    | 0, _ => none
    | l + 1, _ => some l
  release l _ := l + 1
  free l := l
  free_acquire {l i l'} h := by cases l <;> simp_all
  free_release _ := rfl
  eq_init h := h

end CountingLock
