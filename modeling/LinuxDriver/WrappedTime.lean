import Mathlib.Data.List.Chain
import Mathlib.Algebra.Ring.Int.Defs

/-!
# Times on a counter that wraps around

A counter of `w` bits shows a time modulo `2 ^ w`. Two of its values are ordered by the sign of
their difference, which is the order of the times as long as these are close together.
-/
namespace WrappedTime

variable {w : ℕ}

def before (t deadline : BitVec w) : Bool := (t - deadline).toInt < 0

/-- Less than half a turn apart. -/
def Near (w : ℕ) (t deadline : ℤ) : Prop :=
  -2 ^ (w - 1) ≤ t - deadline ∧ t - deadline < 2 ^ (w - 1)

theorem toInt_sub_ofInt (hw : 0 < w) {t deadline : ℤ} (h : Near w t deadline) :
    (BitVec.ofInt w t - BitVec.ofInt w deadline).toInt = t - deadline := by
  have hsub : BitVec.ofInt w t - BitVec.ofInt w deadline = BitVec.ofInt w (t - deadline) := by
    rw [BitVec.sub_eq_iff_eq_add, ← BitVec.ofInt_add, Int.sub_add_cancel]
  rw [hsub]
  exact BitVec.toInt_ofInt_eq_self hw h.1 h.2

theorem before_iff (hw : 0 < w) {t deadline : ℤ} (h : Near w t deadline) :
    before (BitVec.ofInt w t) (BitVec.ofInt w deadline) ↔ t < deadline := by
  rw [before, decide_eq_true_eq, toInt_sub_ofInt hw h]
  omega

def Soon (w : ℕ) (s t : ℤ) : Prop := s ≤ t ∧ t < s + 2 ^ (w - 1)

theorem near_of_soon {s t deadline : ℤ} (h : Soon w s t) (hs : s ≤ deadline)
    (hdeadline : deadline ≤ s + 2 ^ (w - 1)) : Near w t deadline := by
  obtain ⟨hlow, hhigh⟩ := h
  constructor
  · omega
  · omega

/-- Looks that follow each other soon find a deadline exactly when it has come. -/
theorem findIdx_expired (hw : 0 < w) {start deadline : ℤ} {looks : List ℤ}
    (hstart : start ≤ deadline) (hdeadline : deadline ≤ start + 2 ^ (w - 1))
    (h : (start :: looks).IsChain (Soon w)) :
    (looks.map (BitVec.ofInt w)).findIdx? (fun t => !before t (BitVec.ofInt w deadline)) =
      looks.findIdx? (fun t => deadline ≤ t) := by
  induction looks generalizing start with
  | nil => rfl
  | cons t looks ih =>
    obtain ⟨hsoon, hrest⟩ := List.isChain_cons_cons.mp h
    have hiff := before_iff hw (near_of_soon hsoon hstart hdeadline)
    rw [List.map_cons, List.findIdx?_cons, List.findIdx?_cons]
    by_cases ht : t < deadline
    · have hearly : before (BitVec.ofInt w t) (BitVec.ofInt w deadline) = true := hiff.mpr ht
      have hle : deadline ≤ t + 2 ^ (w - 1) := by
        have hfrom := hsoon.1
        omega
      have hstill := ih (Int.le_of_lt ht) hle hrest
      simp only [hearly, Bool.not_true, Bool.false_eq_true, if_false, hstill,
        decide_eq_true_eq, if_neg (Int.not_le.mpr ht)]
    · have hdue : before (BitVec.ofInt w t) (BitVec.ofInt w deadline) = false := by
        rw [← Bool.not_eq_true, hiff]
        exact ht
      simp only [hdue, Bool.not_false, if_true, decide_eq_true_eq, if_pos (Int.not_lt.mp ht)]

end WrappedTime
