import LinuxDriver.WrappedTime
import Mathlib.Algebra.Group.Nat.Defs

/-!
# One timer over a tick counter that wraps around

A timer that has been armed is pending with the tick at which it is due. The processor takes
it off the list at that tick or later and starts its function; while the function runs the
timer can be armed again, but it does not start a second time. The expiry that the caller asks
for is a value of the counter, which the list turns into a distance from the present.
-/
namespace KernelTimer

open WrappedTime

variable {w : ℕ}

def counter (w now : ℕ) : BitVec w := BitVec.ofInt w now

/-- The tick for which an expiry of `expires` stands at tick `now`; one that lies behind is due
at once. -/
def dueAt (now : ℕ) (expires : BitVec w) : ℕ := now + (expires - counter w now).toInt.toNat

theorem now_le_dueAt (now : ℕ) (expires : BitVec w) : now ≤ dueAt now expires :=
  Nat.le_add_right _ _

theorem counter_add (now delay : ℕ) :
    counter w now + BitVec.ofNat w delay = BitVec.ofInt w (now + delay : ℕ) := by
  rw [counter, Nat.cast_add, BitVec.ofInt_add, BitVec.ofInt_natCast, BitVec.ofInt_natCast]

theorem dueAt_eq (hw : 0 < w) {now since delay : ℕ} (hsince : since ≤ now)
    (hnow : now ≤ since + delay) (hdelay : delay < 2 ^ (w - 1)) :
    dueAt now (counter w since + BitVec.ofNat w delay) = since + delay := by
  have hlt := Int.ofNat_lt.mpr hdelay
  push_cast at hlt
  have hnear : Near w (since + delay : ℕ) now := by
    constructor
    · push_cast
      omega
    · push_cast
      omega
  rw [dueAt, counter_add, counter, toInt_sub_ofInt hw hnear]
  omega

theorem le_dueAt (hw : 0 < w) {now since delay : ℕ} (hsince : since ≤ now)
    (hdelay : delay < 2 ^ (w - 1)) :
    since + delay ≤ dueAt now (counter w since + BitVec.ofNat w delay) := by
  by_cases hnow : now ≤ since + delay
  · exact (dueAt_eq hw hsince hnow hdelay).ge
  · exact (Nat.le_of_not_le hnow).trans (now_le_dueAt now _)

/-- `π` are the points that a run of the function can reach. -/
structure Timer (π : Type) where
  due : Option ℕ
  running : Option π
  deriving DecidableEq, Repr

variable {π : Type}

namespace Timer

def idle : Timer π := ⟨none, none⟩

def pending (t : Timer π) : Bool := t.due.isSome

/-- Arms the timer, whether it is pending or not. -/
def modify (t : Timer π) (due : ℕ) : Timer π := { t with due := some due }

def expire (t : Timer π) (now : ℕ) (entry : π) : Option (Timer π) :=
  t.due.bind fun due =>
    if due ≤ now ∧ t.running = none then some ⟨none, some entry⟩ else none

/-- Takes the timer off the list at a moment at which its function is not running. -/
def deleteSync (t : Timer π) : Option (Timer π) :=
  if t.running = none then some idle else none

def move (t : Timer π) (p : Option π) : Timer π := { t with running := p }

@[simp] theorem idle_due : (idle : Timer π).due = none := rfl
@[simp] theorem idle_running : (idle : Timer π).running = none := rfl
@[simp] theorem modify_due (t : Timer π) (d : ℕ) : (t.modify d).due = some d := rfl
@[simp] theorem modify_running (t : Timer π) (d : ℕ) : (t.modify d).running = t.running := rfl
@[simp] theorem move_due (t : Timer π) (p : Option π) : (t.move p).due = t.due := rfl
@[simp] theorem move_running (t : Timer π) (p : Option π) : (t.move p).running = p := rfl

variable {t u : Timer π} {now : ℕ} {entry : π}

theorem expire_eq_some : t.expire now entry = some u ↔
    ∃ due, t.due = some due ∧ due ≤ now ∧ t.running = none ∧ u = ⟨none, some entry⟩ := by
  simp only [expire, Option.bind_eq_some_iff, Option.ite_none_right_eq_some, Option.some.injEq,
    and_assoc]
  constructor
  · rintro ⟨due, hdue, hle, hr, rfl⟩
    exact ⟨due, hdue, hle, hr, rfl⟩
  · rintro ⟨due, hdue, hle, hr, rfl⟩
    exact ⟨due, hdue, hle, hr, rfl⟩

theorem deleteSync_eq_some : t.deleteSync = some u ↔ t.running = none ∧ u = idle := by
  simp only [deleteSync, Option.ite_none_right_eq_some, Option.some.injEq]
  exact and_congr_right fun _ => eq_comm

end Timer

end KernelTimer
