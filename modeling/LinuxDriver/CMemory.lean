import Mathlib.Data.List.Basic
import Mathlib.Data.List.TakeWhile
import Mathlib.Order.Nat

/-!
# Bytes, C strings and the writes of the C library

A memory region is the list of its bytes. A library call is the list of the single-byte
writes that it makes, in order, so that one can ask where a call writes before asking what
the region holds afterwards. Writes outside the region change nothing in it.
-/
namespace CMemory

structure Write where
  offset : ℕ
  byte : UInt8
  deriving DecidableEq, Repr

def applyWrites (m : List UInt8) : List Write → List UInt8
  | [] => m
  | w :: ws => applyWrites (m.set w.offset w.byte) ws

def memcpy (dst : ℕ) : List UInt8 → List Write
  | [] => []
  | b :: bs => ⟨dst, b⟩ :: memcpy (dst + 1) bs

def memset (dst : ℕ) (c : UInt8) (n : ℕ) : List Write := memcpy dst (List.replicate n c)

/-- What `%s` prints of a region: the bytes before the first NUL. -/
def cString (m : List UInt8) : List UInt8 := m.takeWhile (· ≠ 0)

def strlen (m : List UInt8) : ℕ := (cString m).length

/-- The offsets that `strlen` and a `%s` conversion read, the terminator included. -/
def cStringReads (m : List UInt8) : List ℕ := List.range (strlen m + 1)

theorem le_length_zeros (n : ℕ) (beyond : List UInt8) :
    n ≤ (List.replicate n 0 ++ beyond).length := by
  rw [List.length_append, List.length_replicate]
  exact Nat.le_add_right n _

theorem cString_cons (b : UInt8) (bs : List UInt8) :
    cString (b :: bs) = if b = 0 then [] else b :: cString bs := by
  unfold cString
  split <;> simp_all

theorem zero_notMem_cString (m : List UInt8) : 0 ∉ cString m := by
  intro h
  have hne := List.mem_takeWhile_imp h
  simp at hne

theorem char_of_cString {m : List UInt8} {k : ℕ} {b : UInt8} (h : (cString m)[k]? = some b) :
    m[k]? = some b ∧ b ≠ 0 := by
  constructor
  · have hlt := (List.getElem?_eq_some_iff.mp h).1
    have hsplit : cString m ++ m.dropWhile (· ≠ 0) = m := List.takeWhile_append_dropWhile
    rw [← hsplit, List.getElem?_append_left hlt, h]
  · rintro rfl
    exact zero_notMem_cString m (List.mem_of_getElem? h)

theorem cString_eq_self {s : List UInt8} (h : 0 ∉ s) : cString s = s := by
  apply List.takeWhile_eq_self_iff.mpr
  intro b hb
  simp only [ne_eq, decide_not, Bool.not_eq_eq_eq_not, Bool.not_true, decide_eq_false_iff_not]
  rintro rfl
  exact h hb

/-- A terminator hides what follows it. -/
theorem cString_append_of_mem {s : List UInt8} (h : 0 ∈ s) (t : List UInt8) :
    cString (s ++ t) = cString s := by
  induction s with
  | nil => simp at h
  | cons b bs ih =>
    by_cases hb : b = 0
    · simp [cString_cons, hb]
    · have hbs : 0 ∈ bs := (List.mem_cons.mp h).resolve_left (Ne.symm hb)
      simp [cString_cons, hb, ih hbs]

theorem cString_append_zeros (s : List UInt8) (k : ℕ) :
    cString (s ++ List.replicate k 0) = cString s := by
  induction s with
  | nil => cases k <;> simp [cString, List.replicate_succ]
  | cons b bs ih =>
    simp only [List.cons_append, cString_cons, ih]

theorem offset_of_mem_memcpy {dst : ℕ} {src : List UInt8} {w : Write}
    (h : w ∈ memcpy dst src) : dst ≤ w.offset ∧ w.offset < dst + src.length := by
  induction src generalizing dst with
  | nil => simp [memcpy] at h
  | cons b bs ih =>
    simp only [memcpy, List.mem_cons] at h
    simp only [List.length_cons]
    rcases h with rfl | h
    · exact ⟨le_rfl, by simp⟩
    · have := ih h
      omega

theorem exists_mem_memcpy (dst : ℕ) {k : ℕ} {src : List UInt8} (h : k < src.length) :
    ∃ w ∈ memcpy dst src, w.offset = dst + k := by
  induction src generalizing dst k with
  | nil => simp at h
  | cons b bs ih =>
    cases k with
    | zero => exact ⟨⟨dst, b⟩, List.mem_cons_self, rfl⟩
    | succ k =>
      obtain ⟨w, hw, hk⟩ := ih (dst + 1) (k := k) (by simpa using h)
      exact ⟨w, List.mem_cons_of_mem _ hw, by omega⟩

theorem memcpy_inside_iff {src : List UInt8} {n : ℕ} :
    (∀ w ∈ memcpy 0 src, w.offset < n) ↔ src.length ≤ n := by
  constructor
  · intro h
    by_contra hn
    have hlt : n < src.length := by omega
    obtain ⟨w, hw, hk⟩ := exists_mem_memcpy 0 hlt
    have := h w hw
    omega
  · intro h w hw
    have := offset_of_mem_memcpy hw
    omega

@[simp] theorem length_applyWrites (m : List UInt8) (ws : List Write) :
    (applyWrites m ws).length = m.length := by
  induction ws generalizing m with
  | nil => rfl
  | cons w ws ih => simp [applyWrites, ih]

theorem applyWrites_append (m : List UInt8) (xs ys : List Write) :
    applyWrites m (xs ++ ys) = applyWrites (applyWrites m xs) ys := by
  induction xs generalizing m with
  | nil => rfl
  | cons w xs ih => exact ih _

theorem applyWrites_memcpy {m src : List UInt8} {dst : ℕ} (h : dst + src.length ≤ m.length) :
    applyWrites m (memcpy dst src) = m.take dst ++ src ++ m.drop (dst + src.length) := by
  induction src generalizing m dst with
  | nil => simp [memcpy, applyWrites]
  | cons b bs ih =>
    simp only [List.length_cons] at h
    have hd : dst < m.length := by omega
    simp only [memcpy, applyWrites]
    rw [ih (by rw [List.length_set]; omega), List.take_succ_eq_append_getElem (by simpa using hd),
      List.take_set_of_le le_rfl,
      List.drop_set_of_lt (by omega)]
    simp [Nat.add_assoc, Nat.add_comm 1]

/-- A region copied onto itself stays what it is. -/
theorem applyWrites_memcpy_drop (m : List UInt8) (k : ℕ) :
    applyWrites m (memcpy k (m.drop k)) = m := by
  by_cases hk : k ≤ m.length
  · rw [applyWrites_memcpy (by rw [List.length_drop]; omega), List.take_append_drop,
      List.drop_eq_nil_of_le (by rw [List.length_drop]; omega), List.append_nil]
  · rw [List.drop_eq_nil_of_le (by omega)]
    rfl

theorem applyWrites_memset {m : List UInt8} {c : UInt8} {n : ℕ} (h : n ≤ m.length) :
    applyWrites m (memset 0 c n) = List.replicate n c ++ m.drop n := by
  rw [memset, applyWrites_memcpy (by simpa using h)]
  simp

theorem fill_inside_iff {src : List UInt8} {n : ℕ} :
    (∀ w ∈ memset 0 0 n ++ memcpy 0 src, w.offset < n) ↔ src.length ≤ n := by
  have hclear : ∀ w ∈ memset 0 0 n, w.offset < n := memcpy_inside_iff.mpr (by simp)
  rw [List.forall_mem_append, memcpy_inside_iff]
  exact and_iff_right hclear

theorem applyWrites_fill {m src : List UInt8} {n : ℕ} (hn : n ≤ m.length) (h : src.length ≤ n) :
    applyWrites m (memset 0 0 n ++ memcpy 0 src) =
      src ++ List.replicate (n - src.length) 0 ++ m.drop n := by
  have hfit : 0 + src.length ≤ (List.replicate n 0 ++ m.drop n).length := by
    simp only [List.length_append, List.length_replicate]
    omega
  rw [applyWrites_append, applyWrites_memset hn, applyWrites_memcpy hfit, List.take_zero,
    List.nil_append, Nat.zero_add, List.drop_append_of_le_length (by simpa using h),
    List.drop_replicate, List.append_assoc]

theorem take_fill {m src : List UInt8} {n : ℕ} (hn : n ≤ m.length) (h : src.length ≤ n) :
    (applyWrites m (memset 0 0 n ++ memcpy 0 src)).take n =
      src ++ List.replicate (n - src.length) 0 := by
  rw [applyWrites_fill hn h]
  apply List.take_left'
  simp only [List.length_append, List.length_replicate]
  omega

theorem zero_mem_fill_iff {m src : List UInt8} {n : ℕ} (hn : n ≤ m.length)
    (h : src.length ≤ n) : 0 ∈ (applyWrites m (memset 0 0 n ++ memcpy 0 src)).take n ↔
      src.length < n ∨ src.length = n ∧ 0 ∈ src := by
  rw [take_fill hn h, List.mem_append, List.mem_replicate]
  by_cases hlt : src.length < n
  · simp [hlt]; omega
  · have heq : src.length = n := by omega
    simp [heq]

theorem strlen_lt_iff {m : List UInt8} {n : ℕ} (hn : n ≤ m.length) :
    strlen m < n ↔ 0 ∈ m.take n := by
  induction m generalizing n with
  | nil => simp at hn; simp [hn]
  | cons b bs ih =>
    cases n with
    | zero => simp
    | succ n =>
      by_cases hb : b = 0
      · simp [strlen, cString, hb]
      · have := ih (n := n) (by simpa using hn)
        simpa [strlen, cString, hb, Ne.symm hb] using this

theorem reads_inside_iff {m : List UInt8} {n : ℕ} :
    (∀ k ∈ cStringReads m, k < n) ↔ strlen m < n := by
  simp only [cStringReads, List.mem_range, Nat.lt_succ_iff]
  exact ⟨fun h => h _ le_rfl, fun h k hk => hk.trans_lt h⟩

end CMemory
