import Mathlib.Data.List.Basic
import Mathlib.Algebra.BigOperators.Group.List.Basic
import Mathlib.Algebra.GroupWithZero.Nat

/-!
# Pools of concurrent calls

The calls of a function that are or have been in progress form a list that only grows:
a new call is appended, its position is its identifier, and a step of call `i` replaces
the entry at `i`. The number of calls is not bounded. The lemmas say how such a step
changes the entries and how many of them satisfy a predicate.
-/
namespace CallPool

variable {α : Type*} {p : α → Bool} {calls : List α} {i j : ℕ} {a b : α}

theorem lt_length (h : calls[i]? = some a) : i < calls.length :=
  (List.getElem?_eq_some_iff.mp h).1

theorem entry_of_set (h : (calls.set i b)[j]? = some a) :
    (j = i ∧ a = b) ∨ (j ≠ i ∧ calls[j]? = some a) := by
  rw [List.getElem?_set] at h
  by_cases hij : i = j
  · subst hij
    by_cases hi : i < calls.length
    · exact Or.inl ⟨rfl, by simpa [hi, eq_comm] using h⟩
    · simp [hi] at h
  · exact Or.inr ⟨Ne.symm hij, by simpa [hij] using h⟩

theorem set_entry (h : calls[i]? = some a) : (calls.set i b)[i]? = some b := by
  simp [lt_length h]

theorem set_other (h : j ≠ i) : (calls.set i b)[j]? = calls[j]? := by
  simp [Ne.symm h]

/-- Where the new entry looks like the old one, every entry looks like the one before. -/
theorem alike_of_set {β : Type} {f : α → β} {c : α} (h : (calls.set i b)[j]? = some a)
    (hi : calls[i]? = some c) (hf : f b = f c) : ∃ d, calls[j]? = some d ∧ f a = f d := by
  rcases entry_of_set h with ⟨rfl, rfl⟩ | ⟨-, hj⟩
  · exact ⟨c, hi, hf⟩
  · exact ⟨a, hj, rfl⟩

theorem alike_in_set {β : Type} {f : α → β} {c : α} (h : calls[j]? = some a)
    (hi : calls[i]? = some c) (hf : f b = f c) :
    ∃ d, (calls.set i b)[j]? = some d ∧ f d = f a := by
  by_cases hij : j = i
  · subst hij
    obtain rfl := Option.some.inj (hi.symm.trans h)
    exact ⟨b, set_entry hi, hf⟩
  · exact ⟨a, (set_other hij).trans h, rfl⟩

theorem entry_of_spawn (h : (calls ++ [b])[j]? = some a) :
    calls[j]? = some a ∨ (j = calls.length ∧ a = b) := by
  by_cases hj : j < calls.length
  · exact Or.inl (by simpa [List.getElem?_append, hj] using h)
  · have hlt := lt_length h
    have he : j = calls.length := by simp at hlt; omega
    subst he
    exact Or.inr ⟨rfl, by simpa [eq_comm] using h⟩

theorem spawn_entry : (calls ++ [b])[calls.length]? = some b := by simp

theorem spawn_other (h : calls[j]? = some a) : (calls ++ [b])[j]? = some a := by
  rw [List.getElem?_append_left (lt_length h), h]

/-- The two sides count the old and the new entry, so that no subtraction occurs. -/
theorem countP_set_add (h : calls[i]? = some a) :
    (calls.set i b).countP p + (if p a then 1 else 0) =
      calls.countP p + (if p b then 1 else 0) := by
  rcases List.getElem?_eq_some_iff.mp h with ⟨hi, rfl⟩
  have hle := List.boole_getElem_le_countP (p := p) hi
  rw [List.countP_set hi]
  omega

theorem countP_pos (h : calls[i]? = some a) (ha : p a) : 0 < calls.countP p :=
  List.countP_pos_iff.mpr ⟨a, List.mem_of_getElem? h, ha⟩

theorem exists_of_countP_pos (h : 0 < calls.countP p) :
    ∃ (i : ℕ) (a : α), calls[i]? = some a ∧ p a := by
  rcases List.countP_pos_iff.mp h with ⟨a, ha, hp⟩
  rcases List.mem_iff_getElem?.mp ha with ⟨i, hi⟩
  exact ⟨i, a, hi, hp⟩

theorem eq_of_countP_le_one (h : calls.countP p ≤ 1) (hi : calls[i]? = some a)
    (hj : calls[j]? = some b) (ha : p a) (hb : p b) : i = j := by
  by_contra hne
  have hone : (calls.map p)[i]? = some true := by simp [hi, ha]
  have hset := countP_set_add (p := id) (b := false) hone
  have hrest : 0 < ((calls.map p).set i false).countP id :=
    countP_pos (a := true) (by rw [set_other (Ne.symm hne)]; simp [hj, hb]) rfl
  simp only [List.countP_map, Function.id_comp] at hset
  simp at hset
  omega

/-- A total over the pool, with the two sides as in `countP_set_add`. -/
theorem sum_set_add {M : Type*} [AddCommMonoid M] (f : α → M) (h : calls[i]? = some a) :
    ((calls.set i b).map f).sum + f a = (calls.map f).sum + f b := by
  induction calls generalizing i with
  | nil => cases h
  | cons c calls ih =>
    cases i with
    | zero =>
      obtain rfl := Option.some.inj h
      simp only [List.set_cons_zero, List.map_cons, List.sum_cons]
      rw [add_right_comm, add_comm (f b), add_right_comm]
    | succ i =>
      simp only [List.set_cons_succ, List.map_cons, List.sum_cons, add_assoc]
      rw [ih h]

theorem sum_le_mul_length {f : α → ℕ} {n : ℕ} (h : ∀ c, f c ≤ n) (calls : List α) :
    (calls.map f).sum ≤ n * calls.length := by
  induction calls with
  | nil => exact Nat.zero_le _
  | cons c calls ih =>
    have hone := h c
    rw [List.map_cons, List.sum_cons, List.length_cons, Nat.mul_succ]
    omega

theorem sum_eq_mul_countP {f : α → ℕ} {n : ℕ} (h : ∀ c ∈ calls, f c = if p c then n else 0) :
    (calls.map f).sum = n * calls.countP p := by
  induction calls with
  | nil => rfl
  | cons c calls ih =>
    have hrest := ih fun d hd => h d (List.mem_cons_of_mem c hd)
    rw [List.map_cons, List.sum_cons, hrest, h c List.mem_cons_self, List.countP_cons]
    split <;> simp [Nat.mul_add, Nat.add_comm]

end CallPool
