import Mathlib.Data.Nat.Notation
import Mathlib.Data.List.Basic

/-!
# Histories that are made of numbered blocks

Each of a list of participants contributes one block, which depends on the participant and
on its number; `triple` is the block of three consecutive values of a 32-bit counter.
-/
namespace NumberedBlocks

variable {α β γ : Type*}

def numbered (b : ℕ → γ → List β) (n : ℕ) : List γ → List β
  | [] => []
  | x :: xs => b n x ++ numbered b (n + 1) xs

theorem numbered_append (b : ℕ → γ → List β) (n : ℕ) (xs ys : List γ) :
    numbered b n (xs ++ ys) = numbered b n xs ++ numbered b (n + xs.length) ys := by
  induction xs generalizing n with
  | nil => rfl
  | cons x xs ih =>
    simp only [List.cons_append, numbered, ih, List.append_assoc, List.length_cons]
    rw [Nat.add_assoc, Nat.add_comm 1]

theorem numbered_snoc (b : ℕ → γ → List β) (xs : List γ) (x : γ) :
    numbered b 0 (xs ++ [x]) = numbered b 0 xs ++ b xs.length x := by
  simp [numbered_append, numbered]

/-- Where all blocks have the same length, the block of a participant is found at its own
place, whatever follows. -/
theorem numbered_slice {b : ℕ → γ → List β} {m : ℕ} (hb : ∀ n x, (b n x).length = m)
    {xs : List γ} {k : ℕ} {x : γ} (n : ℕ) (rest : List β) (h : xs[k]? = some x) :
    ((numbered b n xs ++ rest).drop (m * k)).take m = b (n + k) x := by
  induction xs generalizing n k with
  | nil => simp at h
  | cons y ys ih =>
    cases k with
    | zero =>
      obtain rfl := Option.some.inj h
      simp [numbered, ← hb n y]
    | succ k =>
      have hdrop : m * (k + 1) = (b n y).length + m * k := by rw [hb, Nat.mul_succ, Nat.add_comm]
      rw [numbered, List.append_assoc, hdrop, List.drop_length_add_append]
      rw [ih (n + 1) (by simpa using h), Nat.add_assoc, Nat.add_comm 1]

def triple (f : BitVec 32 → α) (n : ℕ) : List α :=
  (List.range 3).map fun k => f (BitVec.ofNat 32 (3 * n + k))

@[simp] theorem length_triple (f : BitVec 32 → α) (n : ℕ) : (triple f n).length = 3 := by
  simp [triple]

theorem take_triple_succ (f : BitVec 32 → α) (n : ℕ) {k : ℕ} (h : k < 3) :
    (triple f n).take (k + 1) = (triple f n).take k ++ [f (BitVec.ofNat 32 (3 * n + k))] := by
  rw [List.take_succ_eq_append_getElem (by rw [length_triple]; exact h)]
  simp [triple]

theorem take_triple (f : BitVec 32 → α) (n : ℕ) : (triple f n).take 3 = triple f n :=
  List.take_of_length_le (Nat.le_of_eq (length_triple f n))

end NumberedBlocks
