import LinuxDriver.CMemory
import LinuxDriver.KernelTypes
import Mathlib.Data.Nat.Digits.Defs
import Mathlib.Data.Nat.Digits.Lemmas
import Mathlib.Data.List.TakeWhile

/-! # Numbers as text: the kernel's snprintf and kstrtoul -/
namespace KernelStrings

open CMemory KernelTypes

def decimal (n : ℕ) : List UInt8 :=
  if n = 0 then [48] else (Nat.digits 10 n).reverse.map fun d => 48 + UInt8.ofNat d

def percentD (x : BitVec 32) : List UInt8 :=
  if x.toInt < 0 then 45 :: decimal x.toInt.natAbs else decimal x.toInt.natAbs

/-- `snprintf` of the formatted text into a buffer of `n` bytes: at most `n - 1` characters
and a NUL. It returns the length of the whole text. -/
def snprintf (n : ℕ) (text : List UInt8) : List Write :=
  match n with
  | 0 => []
  | n + 1 => memcpy 0 (text.take n ++ [0])

def isDigit (b : UInt8) : Bool := 48 ≤ b && b ≤ 57

def digitsValue (ds : List UInt8) : ℕ := ds.foldl (fun n d => 10 * n + (d.toNat - 48)) 0

/-- `kstrtoul` in base 10: an optional plus sign, digits, an optional newline. -/
def kstrtoul (s : List UInt8) : Except ℤ (BitVec 64) :=
  let text := cString s
  let digits := if text.head? = some 43 then text.tail else text
  let parsed := digits.takeWhile isDigit
  let rest := digits.dropWhile isDigit
  if 2 ^ 64 ≤ digitsValue parsed then .error (-ERANGE)
  else if parsed = [] then .error (-EINVAL)
  else if rest = [] ∨ rest = [10] then .ok (BitVec.ofNat 64 (digitsValue parsed))
  else .error (-EINVAL)

/-- What the caller of `snprintf` finds in the bytes that its result announces: the text cut
at the bound, and the zeroes of the page behind it. -/
theorem take_snprintf {text : List UInt8} {size : ℕ} (n : ℕ) (h : text.length < size) :
    (applyWrites (List.replicate size 0) (snprintf n text)).take text.length =
      text.take (n - 1) ++ List.replicate (text.length - (n - 1)) 0 := by
  cases n with
  | zero =>
    simp only [snprintf, applyWrites, List.take_replicate, Nat.zero_sub, List.take_zero,
      List.nil_append, Nat.sub_zero]
    rw [Nat.min_eq_left (Nat.le_of_lt h)]
  | succ n =>
    have hlen : (text.take n).length = min n text.length := List.length_take
    have hfit : 0 + (text.take n ++ [0]).length ≤ (List.replicate size (0 : UInt8)).length := by
      simp only [List.length_append, List.length_replicate, List.length_singleton]
      omega
    have hpad : [0] ++ (List.replicate size (0 : UInt8)).drop (0 + (text.take n ++ [0]).length) =
        List.replicate (size - min n text.length) 0 := by
      rw [List.drop_replicate, List.singleton_append, ← List.replicate_succ]
      congr 1
      simp only [List.length_append, List.length_singleton]
      omega
    rw [snprintf, applyWrites_memcpy hfit, List.take_zero, List.nil_append, List.append_assoc,
      hpad, List.take_append, List.take_replicate, hlen, Nat.add_sub_cancel]
    rw [List.take_of_length_le (by rw [hlen]; omega)]
    congr 2
    omega

def digitByte (d : ℕ) : UInt8 := 48 + UInt8.ofNat d

theorem toNat_digitByte {d : ℕ} (h : d < 10) : (digitByte d).toNat = 48 + d := by
  interval_cases d <;> rfl

theorem exists_digit_of_mem {n : ℕ} {b : UInt8} (h : b ∈ decimal n) :
    ∃ d < 10, b = digitByte d := by
  unfold decimal at h
  split at h
  · rcases List.mem_singleton.mp h with rfl
    exact ⟨0, by decide, rfl⟩
  · rcases List.mem_map.mp h with ⟨d, hd, rfl⟩
    exact ⟨d, Nat.digits_lt_base (by decide) (List.mem_reverse.mp hd), rfl⟩

theorem isDigit_of_mem {n : ℕ} {b : UInt8} (h : b ∈ decimal n) : isDigit b := by
  obtain ⟨d, hd, rfl⟩ := exists_digit_of_mem h
  interval_cases d <;> decide

theorem decimal_ne_nil (n : ℕ) : decimal n ≠ [] := by
  unfold decimal
  split
  · simp
  case isFalse hn => simpa using Nat.digits_ne_nil_iff_ne_zero.mpr hn

theorem digitsValue_map {ds : List ℕ} (h : ∀ d ∈ ds, d < 10) :
    digitsValue (ds.reverse.map digitByte) = Nat.ofDigits 10 ds := by
  induction ds with
  | nil => rfl
  | cons d ds ih =>
    have hd := toNat_digitByte (h d List.mem_cons_self)
    have hds := ih fun e he => h e (List.mem_cons_of_mem d he)
    rw [Nat.ofDigits_cons, ← hds, List.reverse_cons, List.map_append, digitsValue,
      List.foldl_append]
    simp only [List.map_cons, List.map_nil, List.foldl_cons, List.foldl_nil, hd, digitsValue]
    omega

theorem digitsValue_decimal (n : ℕ) : digitsValue (decimal n) = n := by
  unfold decimal
  split
  case isTrue hn => subst hn; rfl
  case isFalse hn =>
    have hlt : ∀ d ∈ Nat.digits 10 n, d < 10 := fun d hd => Nat.digits_lt_base (by decide) hd
    exact (digitsValue_map hlt).trans (Nat.ofDigits_digits 10 n)

theorem length_decimal_le_two_iff {n : ℕ} : (decimal n).length ≤ 2 ↔ n < 100 := by
  unfold decimal
  split
  case isTrue hn => simp [hn]
  case isFalse hn =>
    rw [List.length_map, List.length_reverse]
    exact Nat.digits_length_le_iff (by decide) n

/-- A text that `kstrtoul` accepts, and its number. -/
def Denotes (text : List UInt8) (n : BitVec 64) : Prop :=
  ∃ sign ∈ [[], [43]], ∃ digits newline, newline ∈ [[], [10]] ∧ digits ≠ [] ∧
    (∀ d ∈ digits, isDigit d) ∧ text = sign ++ digits ++ newline ∧ digitsValue digits = n.toNat

theorem head_ne_plus {digits newline : List UInt8} (hne : digits ≠ [])
    (hdigits : ∀ d ∈ digits, isDigit d) : (digits ++ newline).head? ≠ some 43 := by
  obtain ⟨d, ds, rfl⟩ := List.exists_cons_of_ne_nil hne
  intro hplus
  obtain rfl : d = 43 := by simpa using hplus
  exact absurd (hdigits 43 List.mem_cons_self) (by decide)

theorem parsed_digits {digits newline : List UInt8} (hdigits : ∀ d ∈ digits, isDigit d)
    (hnl : newline ∈ [[], [10]]) : (digits ++ newline).takeWhile isDigit = digits ∧
      (digits ++ newline).dropWhile isDigit = newline := by
  have hrest : newline.takeWhile isDigit = [] ∧ newline.dropWhile isDigit = newline := by
    simp only [List.mem_cons, List.not_mem_nil, or_false] at hnl
    rcases hnl with rfl | rfl <;> decide
  rw [List.takeWhile_append_of_pos hdigits, List.dropWhile_append_of_pos hdigits, hrest.1,
    hrest.2, List.append_nil]
  exact ⟨rfl, rfl⟩

theorem kstrtoul_of_denotes {s : List UInt8} {n : BitVec 64} (h : Denotes (cString s) n) :
    kstrtoul s = .ok n := by
  obtain ⟨sign, hsign, digits, newline, hnl, hne, hdigits, htext, hvalue⟩ := h
  have hunsigned : (if (cString s).head? = some 43 then (cString s).tail else cString s) =
      digits ++ newline := by
    rw [htext]
    simp only [List.mem_cons, List.not_mem_nil, or_false] at hsign
    rcases hsign with rfl | rfl
    · exact if_neg (head_ne_plus hne hdigits)
    · rfl
  have hparsed := parsed_digits hdigits hnl
  have hfits : ¬ 2 ^ 64 ≤ n.toNat := Nat.not_le.mpr n.isLt
  simp only [List.mem_cons, List.not_mem_nil, or_false] at hnl
  simp only [kstrtoul, hunsigned, hparsed, hvalue, if_neg hfits, if_neg hne, if_pos hnl,
    BitVec.ofNat_toNat, BitVec.setWidth_eq]

theorem denotes_of_kstrtoul {s : List UInt8} {n : BitVec 64} (h : kstrtoul s = .ok n) :
    Denotes (cString s) n := by
  unfold kstrtoul at h
  extract_lets text digits parsed rest at h
  by_cases hfits : 2 ^ 64 ≤ digitsValue parsed
  · rw [if_pos hfits] at h
    cases h
  by_cases hne : parsed = []
  · rw [if_neg hfits, if_pos hne] at h
    cases h
  by_cases hrest : rest = [] ∨ rest = [10]
  case neg =>
    rw [if_neg hfits, if_neg hne, if_neg hrest] at h
    cases h
  rw [if_neg hfits, if_neg hne, if_pos hrest] at h
  obtain rfl := Except.ok.inj h
  have hsplit : digits = parsed ++ rest := List.takeWhile_append_dropWhile.symm
  have hvalue : digitsValue parsed = (BitVec.ofNat 64 (digitsValue parsed)).toNat := by
    rw [BitVec.toNat_ofNat, Nat.mod_eq_of_lt (Nat.not_le.mp hfits)]
  have hdigits : ∀ d ∈ parsed, isDigit d := fun d hd => List.mem_takeWhile_imp hd
  by_cases hsign : text.head? = some 43
  · have htext : text = [43] ++ digits := by
      rw [show digits = text.tail from if_pos hsign]
      exact List.eq_cons_of_mem_head? hsign
    refine ⟨[43], by simp, parsed, rest, by simpa using hrest, hne, hdigits, ?_, hvalue⟩
    rw [List.append_assoc, ← hsplit]
    exact htext
  · have htext : text = digits := (if_neg hsign).symm
    refine ⟨[], by simp, parsed, rest, by simpa using hrest, hne, hdigits, ?_, hvalue⟩
    rw [List.nil_append, ← hsplit]
    exact htext

theorem kstrtoul_ok_iff {s : List UInt8} {n : BitVec 64} :
    kstrtoul s = .ok n ↔ Denotes (cString s) n :=
  ⟨denotes_of_kstrtoul, kstrtoul_of_denotes⟩

theorem denotes_decimal (n : BitVec 64) {newline : List UInt8} (h : newline ∈ [[], [10]]) :
    Denotes (decimal n.toNat ++ newline) n :=
  ⟨[], by simp, decimal n.toNat, newline, h, decimal_ne_nil _, fun _ hd => isDigit_of_mem hd,
    rfl, digitsValue_decimal _⟩

theorem Denotes.cString_eq {text : List UInt8} {n : BitVec 64} (h : Denotes text n) :
    cString text = text := by
  obtain ⟨sign, hsign, digits, newline, hnl, -, hdigits, rfl, -⟩ := h
  apply cString_eq_self
  intro hzero
  simp only [List.mem_cons, List.not_mem_nil, or_false] at hsign hnl
  simp only [List.mem_append] at hzero
  rcases hzero with (hzero | hzero) | hzero
  · rcases hsign with rfl | rfl <;> simp at hzero
  · exact absurd (hdigits 0 hzero) (by decide)
  · rcases hnl with rfl | rfl <;> simp at hzero

theorem kstrtoul_decimal (n : BitVec 64) {newline : List UInt8}
    (h : newline = [] ∨ newline = [10]) : kstrtoul (decimal n.toNat ++ newline) = .ok n := by
  have htext : Denotes (decimal n.toNat ++ newline) n := denotes_decimal n (by simpa using h)
  apply kstrtoul_of_denotes
  rwa [htext.cString_eq]

end KernelStrings
