import LinuxDriver.KernelTypes
import LinuxDriver.ModuleRuns
import Mathlib.Data.Finset.Insert
import Mathlib.Data.Finset.Erase

/-!
# proc/proc_create: a directory and a file

`proc_init` looks at the directory that it gets and not at the file; `proc_exit` removes both by
name. Removing what is not there, or a directory that is not empty, is a misuse.
-/
namespace ProcLoading

open KernelTypes TransitionSystem ModuleRuns

/-- An entry is known by its path from the root of the file system, which is `[]`. -/
abbrev Path := List String

structure ProcFs where
  held : Finset Path
  misuses : ℕ

abbrev ProcM := StateT ProcFs Option

def above (e : Path) : Option Path := if e.length ≤ 1 then none else some e.dropLast

namespace ProcFs

def hold (k : ProcFs) (e : Path) : ProcFs := { k with held := insert e k.held }

def misuse (k : ProcFs) : ProcFs := { k with misuses := k.misuses + 1 }

def release (k : ProcFs) (e : Path) : ProcFs := { k with held := k.held.erase e }

@[simp] theorem mem_hold {k : ProcFs} {d e : Path} : d ∈ (k.hold e).held ↔ d = e ∨ d ∈ k.held :=
  Finset.mem_insert

@[simp] theorem mem_release {k : ProcFs} {d e : Path} :
    d ∈ (k.release e).held ↔ d ≠ e ∧ d ∈ k.held := Finset.mem_erase

end ProcFs

/-- The pointer to the directory of an entry; the null pointer stands for the root. -/
def place (parent : Option Path) (name : String) : Path := parent.getD [] ++ [name]

/-- `proc_mkdir` and `proc_create`: the name must be free, and the call itself can fail. -/
def create (o : Bool) (name : String) (parent : Option Path) : ProcM (Option Path) := fun k =>
  if o ∧ place parent name ∉ k.held then
    some (some (place parent name), k.hold (place parent name))
  else some (none, k)

def procMkdir (o : Bool) (name : String) (parent : Option Path) : ProcM (Option Path) :=
  create o name parent

def procCreate (o : Bool) (name : String) (parent : Option Path) : ProcM (Option Path) :=
  create o name parent

/-- A directory goes also when it is not empty. -/
def removeProcEntry (name : String) (parent : Option Path) : ProcM Unit := fun k =>
  if place parent name ∈ k.held then
    if ∃ e ∈ k.held, above e = some (place parent name) then
      some ((), (k.release (place parent name)).misuse)
    else some ((), k.release (place parent name))
  else some ((), k.misuse)

structure Calls where
  dir : Bool
  file : Bool
  deriving DecidableEq, Repr

def procInit (o : Calls) : ProcM (ℤ × Option Path) := do
  let procDir ← procMkdir o.dir "proc_test_dir" none
  match procDir with
  | none => return (-EFAULT, procDir)
  | some _ =>
    let _ ← procCreate o.file "proc_test" procDir
    return (0, procDir)

def procExit (procDir : Option Path) : ProcM Unit := do
  removeProcEntry "proc_test" procDir
  removeProcEntry "proc_test_dir" none

def procTest : Loadable ProcFs Calls (Option Path) := ⟨procInit, procExit⟩

def account : Account ProcFs Path where
  held k := k.held
  misuses := ProcFs.misuses
  parent := above
  Good _ := True

def dirPath : Path := ["proc_test_dir"]

def filePath : Path := ["proc_test_dir", "proc_test"]

def owner : Owner (Option Path) Path where
  Valid procDir := procDir = some dirPath
  own _ := {dirPath, filePath}

/-- The directory is refused, or the file is not. -/
def Calls.AllOrNone (o : Calls) (k : ProcFs) : Prop :=
  ¬ (o.dir = true ∧ dirPath ∉ k.held) ∨ o.file = true

section

variable {k t : ProcFs} {o : Calls} {e : Path}

theorem procInit_refused (h : ¬ (o.dir = true ∧ dirPath ∉ k.held)) :
    procInit o k = some ((-EFAULT, none), k) := by
  have hrun : procMkdir o.dir "proc_test_dir" none k = some (none, k) := if_neg h
  change (procMkdir o.dir "proc_test_dir" none k).bind _ = _
  rw [hrun]
  rfl

theorem procInit_granted (hclosed : account.Closed (account.held k))
    (h : o.dir = true ∧ dirPath ∉ k.held) : procInit o k = some ((0, some dirPath),
      if o.file then (k.hold dirPath).hold filePath else k.hold dirPath) := by
  have hrun : procMkdir o.dir "proc_test_dir" none k = some (some dirPath, k.hold dirPath) :=
    if_pos h
  have hfree : filePath ∉ (k.hold dirPath).held := by
    intro hmem
    rcases ProcFs.mem_hold.mp hmem with heq | hmem
    · exact absurd heq (by decide)
    · exact h.2 (hclosed filePath hmem dirPath rfl)
  have hfile : procCreate o.file "proc_test" (some dirPath) (k.hold dirPath) =
      some (if o.file then some filePath else none,
        if o.file then (k.hold dirPath).hold filePath else k.hold dirPath) := by
    cases hf : o.file with
    | true => exact if_pos ⟨rfl, hfree⟩
    | false => rfl
  change (procMkdir o.dir "proc_test_dir" none k).bind _ = _
  rw [hrun]
  change (procCreate o.file "proc_test" (some dirPath) (k.hold dirPath)).bind _ = _
  rw [hfile]
  rfl

theorem held_release : account.held (k.release e) = account.held k \ {e} := by
  ext d
  simp [account, and_comm]

theorem procExit_run (k : ProcFs) : procExit (some dirPath) k =
    (removeProcEntry "proc_test" (some dirPath) k).bind fun u =>
      removeProcEntry "proc_test_dir" none u.2 := rfl

theorem procExit_owned (hdir : dirPath ∈ k.held) (hfile : filePath ∈ k.held)
    (hsealed : account.Sealed k {dirPath, filePath}) :
    procExit (some dirPath) k = some ((), (k.release filePath).release dirPath) := by
  have hleaf : ¬ ∃ e ∈ k.held, above e = some filePath := by
    rintro ⟨e, he, habove⟩
    rcases hsealed e he filePath (.inr rfl) habove with rfl | rfl
    · cases habove
    · exact absurd habove (by decide)
  have hempty : ¬ ∃ e ∈ (k.release filePath).held, above e = some dirPath := by
    rintro ⟨e, he, habove⟩
    obtain ⟨hne, he⟩ := ProcFs.mem_release.mp he
    rcases hsealed e he dirPath (.inl rfl) habove with rfl | rfl
    · cases habove
    · exact hne rfl
  have hfirst : removeProcEntry "proc_test" (some dirPath) k = some ((), k.release filePath) :=
    (if_pos hfile).trans (if_neg hleaf)
  have hdir' : dirPath ∈ (k.release filePath).held := ProcFs.mem_release.mpr ⟨by decide, hdir⟩
  rw [procExit_run, hfirst]
  exact (if_pos hdir').trans (if_neg hempty)

theorem tidy_procTest :
    Tidy procTest account (fun o k => account.Closed (account.held k) ∧ o.AllOrNone k) owner where
  init {k o} _ h := by
    obtain ⟨hclosed, hall⟩ := h
    by_cases hdir : o.dir = true ∧ dirPath ∉ k.held
    · have hfile : o.file = true := hall.resolve_left (not_not_intro hdir)
      have hrun := procInit_granted hclosed hdir
      rw [if_pos hfile] at hrun
      refine ⟨0, _, _, hrun, trivial, rfl, fun hrc => absurd rfl hrc, fun _ => ⟨?_, ?_, ?_, rfl⟩⟩
      · ext d
        simp [account, owner, or_left_comm]
      · rw [Set.disjoint_right]
        rintro d (rfl | rfl) hd
        · exact hdir.2 hd
        · exact hdir.2 (hclosed filePath hd dirPath rfl)
      · rintro d (rfl | rfl) p hp
        · cases hp
        · exact .inl (Option.some.inj hp).symm
    · exact ⟨-EFAULT, none, k, procInit_refused hdir, trivial, rfl, fun _ => rfl,
        fun hrc => absurd hrc (by decide)⟩
  exit {k g} _ hvalid hown hsealed := by
    obtain rfl : g = some dirPath := hvalid
    refine ⟨_, procExit_owned (hown (.inl rfl)) (hown (.inr rfl)) hsealed, trivial, rfl, ?_⟩
    rw [held_release, held_release, Set.sdiff_sdiff, Set.union_comm]
    rfl

theorem misuses_le_remove (name : String) (parent : Option Path) (k : ProcFs) :
    ∃ t, removeProcEntry name parent k = some ((), t) ∧ k.misuses ≤ t.misuses := by
  by_cases hheld : place parent name ∈ k.held
  · by_cases hfull : ∃ e ∈ k.held, above e = some (place parent name)
    · exact ⟨_, (if_pos hheld).trans (if_pos hfull), Nat.le_succ _⟩
    · exact ⟨_, (if_pos hheld).trans (if_neg hfull), le_rfl⟩
  · exact ⟨_, if_neg hheld, Nat.le_succ _⟩

theorem procExit_missing (h : filePath ∉ k.held) :
    ∃ t, procExit (some dirPath) k = some ((), t) ∧ k.misuses < t.misuses := by
  obtain ⟨t, hrun, hle⟩ := misuses_le_remove "proc_test_dir" none k.misuse
  refine ⟨t, ?_, hle⟩
  have hfirst : removeProcEntry "proc_test" (some dirPath) k = some ((), k.misuse) := if_neg h
  rw [procExit_run, hfirst]
  exact hrun

/-- The directory is there without the file, and init has not noticed. -/
theorem proc_missing (hclosed : account.Closed (account.held k)) (hno : ¬ o.AllOrNone k) :
    ∃ t u, procInit o k = some ((0, some dirPath), t) ∧ filePath ∉ t.held ∧
      procExit (some dirPath) t = some ((), u) ∧ k.misuses < u.misuses := by
  obtain ⟨hdir, hfile⟩ := not_or.mp hno
  have hdir := not_not.mp hdir
  have hrun := procInit_granted hclosed hdir
  rw [if_neg hfile] at hrun
  have hmissing : filePath ∉ (k.hold dirPath).held := by
    intro hmem
    rcases ProcFs.mem_hold.mp hmem with heq | hmem
    · exact absurd heq (by decide)
    · exact hdir.2 (hclosed filePath hmem dirPath rfl)
  obtain ⟨u, hexit, hlt⟩ := procExit_missing hmissing
  exact ⟨_, u, hrun, hmissing, hexit, hlt⟩

/-- Loading and unloading leaves the file system as it was and removes nothing that is not there
in exactly the cases in which the directory is refused or the file is created: init returns 0
without the file, too. -/
theorem proc_clean_iff (hclosed : account.Closed (account.held k)) :
    (Clean procTest account o k ↔ o.AllOrNone k) ∧
      (¬ o.AllOrNone k → ∃ t u, procInit o k = some ((0, some dirPath), t) ∧ filePath ∉ t.held ∧
        procExit (some dirPath) t = some ((), u) ∧ k.misuses < u.misuses) := by
  refine ⟨⟨?_, fun hall => tidy_procTest.clean trivial hclosed ⟨hclosed, hall⟩⟩,
    proc_missing hclosed⟩
  rintro ⟨rc, g, t, hinit, -, -, hloaded⟩
  by_contra hno
  obtain ⟨t', u, hrun, -, hexit, hlt⟩ := proc_missing hclosed hno
  obtain ⟨heq, rfl⟩ := Prod.mk.inj (Option.some.inj (hinit.symm.trans hrun))
  obtain ⟨rfl, rfl⟩ := Prod.mk.inj heq
  obtain ⟨v, hexit', -, hsame⟩ := hloaded rfl
  obtain ⟨-, rfl⟩ := Prod.mk.inj (Option.some.inj (hexit.symm.trans hexit'))
  exact absurd hsame hlt.ne'

end

theorem proc_clean_missing : ¬ Clean procTest account ⟨true, false⟩ ⟨∅, 0⟩ := by
  rw [(proc_clean_iff fun e he => by cases he).1]
  rintro (hno | hfile)
  · exact hno ⟨rfl, by simp⟩
  · cases hfile

end ProcLoading
