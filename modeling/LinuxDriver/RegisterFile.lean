import Mathlib.Data.Fin.Basic
import Mathlib.Algebra.Group.Fin.Basic
import Mathlib.Algebra.GroupWithZero.Nat
import Mathlib.Data.List.Induction

/-!
# Registers behind a pointer that counts on

`m` registers in a ring and a pointer into them. Every value written or read moves the pointer
to the next register, from the last one back to the first.
-/

@[ext] structure RegisterFile (m : ℕ) (α : Type) where
  regs : Fin m → α
  ptr : Fin m

namespace RegisterFile

variable {m : ℕ} {α : Type}

def seek (f : RegisterFile m α) (addr : Fin m) : RegisterFile m α := { f with ptr := addr }

@[simp] theorem seek_regs (f : RegisterFile m α) (addr : Fin m) : (f.seek addr).regs = f.regs := rfl
@[simp] theorem seek_ptr (f : RegisterFile m α) (addr : Fin m) : (f.seek addr).ptr = addr := rfl

/-- A block of values and where it starts. -/
structure Block (m : ℕ) (α : Type) where
  addr : Fin m
  values : List α
  fits : values.length ≤ m

def Block.valueAt (w : Block m α) (r : Fin m) : Option α := w.values[(r - w.addr).val]?

/-- The value of the latest block that covers the register. -/
def lastWritten (ws : List (Block m α)) (r : Fin m) : Option α :=
  ws.reverse.findSome? fun w => w.valueAt r

theorem lastWritten_append (ws : List (Block m α)) (w : Block m α) (r : Fin m) :
    lastWritten (ws ++ [w]) r = (w.valueAt r).or (lastWritten ws r) := by
  rw [lastWritten, List.reverse_append, List.reverse_singleton, List.singleton_append,
    List.findSome?_cons, lastWritten]
  cases w.valueAt r
  · rfl
  · rfl

section

variable [NeZero m]

def write (f : RegisterFile m α) (a : α) : RegisterFile m α :=
  ⟨Function.update f.regs f.ptr a, f.ptr + 1⟩

def writeBlock (f : RegisterFile m α) : List α → RegisterFile m α
  | [] => f
  | a :: as => (f.write a).writeBlock as

/-- The values of the next `n` registers, and the file with the pointer behind them. -/
def readBlock (f : RegisterFile m α) : ℕ → List α × RegisterFile m α
  | 0 => ([], f)
  | n + 1 =>
    let rest := (f.seek (f.ptr + 1)).readBlock n
    (f.regs f.ptr :: rest.1, rest.2)

def place (addr : Fin m) (k : ℕ) : Fin m := addr + Fin.ofNat m k

theorem write_regs (f : RegisterFile m α) (a : α) :
    (f.write a).regs = Function.update f.regs f.ptr a := rfl

theorem place_zero (addr : Fin m) : place addr 0 = addr := by
  rw [place, Fin.ofNat_zero, add_zero]

theorem place_succ (addr : Fin m) (k : ℕ) : place (addr + 1) k = place addr (k + 1) := by
  have hk : Fin.ofNat m (k + 1) = 1 + Fin.ofNat m k := by
    apply Fin.ext
    simp [Fin.ofNat, Fin.val_add, Nat.add_comm]
  rw [place, place, hk, add_assoc]

theorem val_place_sub {addr : Fin m} {k : ℕ} (hk : k < m) : (place addr k - addr).val = k := by
  rw [place, add_sub_cancel_left, Fin.val_ofNat, Nat.mod_eq_of_lt hk]

theorem place_val_sub (addr r : Fin m) : place addr (r - addr).val = r := by
  rw [place, Fin.ofNat_val_eq_self, add_sub_cancel]

theorem val_sub_one (d : Fin m) : (d - 1).val = if d = 0 then m - 1 else d.val - 1 := by
  obtain ⟨n, rfl⟩ := Nat.exists_eq_succ_of_ne_zero (NeZero.ne m)
  exact Fin.coe_sub_one d

theorem getElem?_sub_eq_none_iff {addr r : Fin m} {as : List α} (h : as.length ≤ m) :
    as[(r - addr).val]? = none ↔ ∀ k < as.length, r ≠ place addr k := by
  rw [List.getElem?_eq_none_iff]
  constructor
  · rintro hlen k hk rfl
    rw [val_place_sub (hk.trans_le h)] at hlen
    omega
  · intro hout
    by_contra hlt
    exact hout _ (Nat.not_le.mp hlt) (place_val_sub addr r).symm

/-- A block no longer than the ring leaves its values where the pointer came by. -/
theorem regs_writeBlock (f : RegisterFile m α) {as : List α} (h : as.length ≤ m) (r : Fin m) :
    (f.writeBlock as).regs r = as[(r - f.ptr).val]?.getD (f.regs r) := by
  induction as generalizing f with
  | nil => simp [writeBlock]
  | cons a as ih =>
    have hlen : as.length < m := h
    have hnext : r - (f.write a).ptr = r - f.ptr - 1 := sub_add_eq_sub_sub r f.ptr 1
    rw [writeBlock, ih _ hlen.le, hnext, val_sub_one]
    by_cases hr : r = f.ptr
    · have hfirst : r - f.ptr = 0 := sub_eq_zero.mpr hr
      have hnone : as[m - 1]? = none := List.getElem?_eq_none (by omega)
      rw [if_pos hfirst, hnone, hfirst, Option.getD_none, write_regs, hr, Function.update_self]
      rfl
    · have hne : r - f.ptr ≠ 0 := sub_ne_zero.mpr hr
      have hpos : (r - f.ptr).val ≠ 0 := Fin.val_ne_zero_iff.mpr hne
      obtain ⟨k, hk⟩ := Nat.exists_eq_succ_of_ne_zero hpos
      rw [if_neg hne, hk, write_regs, Function.update_of_ne hr]
      rfl

theorem readBlock_regs (f : RegisterFile m α) (n : ℕ) : (f.readBlock n).2.regs = f.regs := by
  induction n generalizing f with
  | zero => rfl
  | succ n ih => exact ih _

theorem readBlock_values (f : RegisterFile m α) (n : ℕ) :
    (f.readBlock n).1 = (List.range n).map fun k => f.regs (place f.ptr k) := by
  induction n generalizing f with
  | zero => rfl
  | succ n ih =>
    simp only [readBlock, ih, List.range_succ_eq_map, List.map_cons, List.map_map, place_zero,
      seek_regs, seek_ptr]
    congr 1
    apply List.map_congr_left
    intro k _
    exact congrArg f.regs (place_succ f.ptr k)

theorem length_readBlock (f : RegisterFile m α) (n : ℕ) : (f.readBlock n).1.length = n := by
  rw [readBlock_values, List.length_map, List.length_range]

def store (f : RegisterFile m α) (w : Block m α) : RegisterFile m α :=
  (f.seek w.addr).writeBlock w.values

theorem regs_store (f : RegisterFile m α) (w : Block m α) (r : Fin m) :
    (f.store w).regs r = (w.valueAt r).getD (f.regs r) :=
  regs_writeBlock _ w.fits r

theorem regs_store_of_outside (f : RegisterFile m α) {w : Block m α} {r : Fin m}
    (h : ∀ k < w.values.length, r ≠ place w.addr k) : (f.store w).regs r = f.regs r := by
  have hnone : w.valueAt r = none := (getElem?_sub_eq_none_iff w.fits).mpr h
  rw [regs_store, hnone, Option.getD_none]

theorem regs_stores (f : RegisterFile m α) (ws : List (Block m α)) (r : Fin m) :
    (ws.foldl store f).regs r = (lastWritten ws r).getD (f.regs r) := by
  induction ws using List.reverseRecOn with
  | nil => rfl
  | append_singleton ws w ih =>
    rw [List.foldl_append, List.foldl_cons, List.foldl_nil, regs_store, ih, lastWritten_append,
      Option.getD_or]

theorem readBlock_store (f : RegisterFile m α) (w : Block m α) :
    (((f.store w).seek w.addr).readBlock w.values.length).1 = w.values := by
  rw [readBlock_values]
  apply List.ext_getElem?
  intro k
  by_cases hk : k < w.values.length
  · have hstored := regs_store f w (place w.addr k)
    rw [Block.valueAt, val_place_sub (hk.trans_le w.fits), List.getElem?_eq_getElem hk,
      Option.getD_some] at hstored
    rw [List.getElem?_map, List.getElem?_range hk, List.getElem?_eq_getElem hk]
    exact congrArg some hstored
  · rw [List.getElem?_eq_none (by simpa using hk), List.getElem?_eq_none (Nat.not_lt.mp hk)]

end

end RegisterFile
