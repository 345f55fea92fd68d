import Mathlib.Data.Option.Basic

/-!
# One interrupt line with one handler

`request` installs a handler under a cookie, `detach` removes it again where the cookie is
the same, and a handler that is installed can start at any moment at which no run of it is in
progress. A run survives the removal of its handler: whoever removes it has to wait.
-/
namespace InterruptLine

/-- `δ` are the cookies, `π` the points that a run of the handler can reach. -/
structure Line (δ π : Type) where
  action : Option δ
  running : Option π
  deriving DecidableEq, Repr

variable {δ π : Type}

namespace Line

def empty : Line δ π := ⟨none, none⟩

def request (l : Line δ π) (d : δ) : Option (Line δ π) :=
  if l.action.isNone then some { l with action := some d } else none

/-- The removal finds the handler only under its own cookie. -/
def detach [DecidableEq δ] (l : Line δ π) (d : δ) : Option (Line δ π) :=
  if l.action = some d then some { l with action := none } else none

def raise (l : Line δ π) (entry : π) : Option (Line δ π) :=
  if l.action.isSome ∧ l.running = none then some { l with running := some entry } else none

def move (l : Line δ π) (p : Option π) : Line δ π := { l with running := p }

def Silent (l : Line δ π) : Prop := l.action = none ∧ l.running = none

@[simp] theorem empty_action : (empty : Line δ π).action = none := rfl
@[simp] theorem empty_running : (empty : Line δ π).running = none := rfl
@[simp] theorem move_action (l : Line δ π) (p : Option π) : (l.move p).action = l.action := rfl
@[simp] theorem move_running (l : Line δ π) (p : Option π) : (l.move p).running = p := rfl

variable {l k : Line δ π} {d : δ} {entry : π}

theorem request_eq_some : l.request d = some k ↔ l.action = none ∧ k = ⟨some d, l.running⟩ := by
  simp only [request, Option.ite_none_right_eq_some, Option.isNone_iff_eq_none, Option.some.injEq]
  exact and_congr_right fun _ => eq_comm

theorem detach_eq_some [DecidableEq δ] :
    l.detach d = some k ↔ l.action = some d ∧ k = ⟨none, l.running⟩ := by
  simp only [detach, Option.ite_none_right_eq_some, Option.some.injEq]
  exact and_congr_right fun _ => eq_comm

theorem raise_eq_some : l.raise entry = some k ↔
    l.action.isSome ∧ l.running = none ∧ k = ⟨l.action, some entry⟩ := by
  simp only [raise, Option.ite_none_right_eq_some, Option.some.injEq, and_assoc]
  exact and_congr_right fun _ => and_congr_right fun _ => eq_comm

theorem raise_of_installed (hd : l.action = some d) (hr : l.running = none) (entry : π) :
    l.raise entry = some ⟨some d, some entry⟩ := by
  simp [Line.raise, hd, hr]

end Line

end InterruptLine
