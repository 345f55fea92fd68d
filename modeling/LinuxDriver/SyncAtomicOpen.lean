import LinuxDriver.TransitionSystem
import LinuxDriver.CallPool
import LinuxDriver.KernelTypes
import Mathlib.Algebra.Group.Nat.Defs
import Mathlib.Data.List.Infix

/-!
# sync/atomic: a device that one process opens at a time

`my_misc_open` takes the counter down with `atomic_dec_and_test` and, when the result is
not zero, puts it back in a second atomic step before it returns `-EAGAIN`. Any number of
calls may stand between these two steps. The VFS runs `my_misc_release` once for each open
that returned 0. The counter is a 32-bit `atomic_t` and wraps.
-/
namespace SyncAtomicOpen

open TransitionSystem CallPool KernelTypes

/-- One call of `my_misc_open` and, if it succeeded, the file that it opened. -/
inductive Call where
  | entered | failing | opened | refused | released
  deriving DecidableEq, Repr

def Call.rc : Call → Option ℤ
  | .entered | .failing => none
  | .opened | .released => some 0
  | .refused => some (-EAGAIN)

def Call.isOpen (c : Call) : Bool := c == .opened
def Call.isFailing (c : Call) : Bool := c == .failing
def Call.isInProgress (c : Call) : Bool := c.rc.isNone

structure State where
  v : BitVec 32
  calls : List Call
  deriving DecidableEq, Repr

inductive Event where
  | call
  | decAndTest (i : ℕ)
  | inc (i : ℕ)
  | release (i : ℕ)
  deriving DecidableEq, Repr

def atomicDecAndTest (v : BitVec 32) : BitVec 32 × Bool := (v - 1, v - 1 == 0)
def atomicInc (v : BitVec 32) : BitVec 32 := v + 1

def myMiscInit : State := ⟨1, []⟩

/-- `my_misc_open` up to the outcome of its test: success, or the error branch entered. -/
def myMiscOpen (v : BitVec 32) : BitVec 32 × Call :=
  if !(atomicDecAndTest v).2 then ((atomicDecAndTest v).1, .failing)
  else ((atomicDecAndTest v).1, .opened)

def myMiscOpenError (v : BitVec 32) : BitVec 32 × Call := (atomicInc v, .refused)

def myMiscRelease (v : BitVec 32) : BitVec 32 × Call := (atomicInc v, .released)

def State.resume (s : State) (i : ℕ) (f : BitVec 32 → BitVec 32 × Call) : State :=
  ⟨(f s.v).1, s.calls.set i (f s.v).2⟩

def step (s : State) : Event → Option State
  | .call => some { s with calls := s.calls ++ [.entered] }
  | .decAndTest i =>
    if s.calls[i]? = some .entered then some (s.resume i myMiscOpen) else none
  | .inc i =>
    if s.calls[i]? = some .failing then some (s.resume i myMiscOpenError) else none
  | .release i =>
    if s.calls[i]? = some .opened then some (s.resume i myMiscRelease) else none

def atomicOpen : System State Event := ⟨myMiscInit, step⟩

def openFiles (calls : List Call) : ℕ := calls.countP Call.isOpen
def failing (calls : List Call) : ℕ := calls.countP Call.isFailing
def inProgress (calls : List Call) : ℕ := calls.countP Call.isInProgress

inductive Step : State → Event → State → Prop where
  | call (s) : Step s .call ⟨s.v, s.calls ++ [.entered]⟩
  | succeed (s i) (hi : s.calls[i]? = some .entered) (hv : s.v = 1) :
      Step s (.decAndTest i) ⟨s.v - 1, s.calls.set i .opened⟩
  | fail (s i) (hi : s.calls[i]? = some .entered) (hv : s.v ≠ 1) :
      Step s (.decAndTest i) ⟨s.v - 1, s.calls.set i .failing⟩
  | inc (s i) (hi : s.calls[i]? = some .failing) :
      Step s (.inc i) ⟨s.v + 1, s.calls.set i .refused⟩
  | release (s i) (hi : s.calls[i]? = some .opened) :
      Step s (.release i) ⟨s.v + 1, s.calls.set i .released⟩

theorem myMiscOpen_eq (v : BitVec 32) :
    myMiscOpen v = if v = 1 then (v - 1, .opened) else (v - 1, .failing) := by
  by_cases h : v = 1
  · subst h; decide
  · have hne : ¬ v - 1 = 0 := by bv_omega
    simp only [myMiscOpen, atomicDecAndTest, beq_eq_false_iff_ne.mpr hne, if_neg h]
    rfl

theorem step_sound {s t : State} {e : Event} (h : step s e = some t) : Step s e t := by
  cases e with
  | call => simp only [step, Option.some.injEq] at h; exact h ▸ .call s
  | decAndTest i =>
    simp only [step, Option.ite_none_right_eq_some, Option.some.injEq] at h
    obtain ⟨hi, rfl⟩ := h
    by_cases hv : s.v = 1
    · simpa only [State.resume, myMiscOpen_eq, if_pos hv] using Step.succeed s i hi hv
    · simpa only [State.resume, myMiscOpen_eq, if_neg hv] using Step.fail s i hi hv
  | inc i =>
    simp only [step, Option.ite_none_right_eq_some, Option.some.injEq] at h
    obtain ⟨hi, rfl⟩ := h
    exact .inc s i hi
  | release i =>
    simp only [step, Option.ite_none_right_eq_some, Option.some.injEq] at h
    obtain ⟨hi, rfl⟩ := h
    exact .release s i hi

def Call.units (c : Call) : ℕ := (if c.isOpen then 1 else 0) + (if c.isFailing then 1 else 0)

/-- Modulo 2^32, each open file and each failed open not yet undone holds one unit. -/
def Balanced (s : State) : Prop :=
  s.v + BitVec.ofNat 32 (openFiles s.calls + failing s.calls) = 1

theorem openFiles_set {calls : List Call} {i : ℕ} {c : Call} (d : Call)
    (h : calls[i]? = some c) :
    openFiles (calls.set i d) + (if c.isOpen then 1 else 0) =
      openFiles calls + (if d.isOpen then 1 else 0) := countP_set_add h

theorem units_set {calls : List Call} {i : ℕ} {c : Call} (d : Call) (h : calls[i]? = some c) :
    openFiles (calls.set i d) + failing (calls.set i d) + c.units =
      openFiles calls + failing calls + d.units := by
  have ho := openFiles_set d h
  have hf := countP_set_add (p := Call.isFailing) (b := d) h
  simp only [failing, Call.units]
  omega

theorem step_balanced {s t : State} {e : Event} (hb : Balanced s) (h : Step s e t) :
    Balanced t := by
  unfold Balanced at *
  cases h with
  | call => simpa [openFiles, failing, Call.isOpen, Call.isFailing] using hb
  | succeed i hi =>
    have hu : openFiles (s.calls.set i .opened) + failing (s.calls.set i .opened) =
      openFiles s.calls + failing s.calls + 1 := units_set .opened hi
    simp only [hu]
    bv_omega
  | fail i hi =>
    have hu : openFiles (s.calls.set i .failing) + failing (s.calls.set i .failing) =
      openFiles s.calls + failing s.calls + 1 := units_set .failing hi
    simp only [hu]
    bv_omega
  | inc i hi =>
    have hu : openFiles (s.calls.set i .refused) + failing (s.calls.set i .refused) + 1 =
      openFiles s.calls + failing s.calls := units_set .refused hi
    rw [← hu] at hb
    bv_omega
  | release i hi =>
    have hu : openFiles (s.calls.set i .released) + failing (s.calls.set i .released) + 1 =
      openFiles s.calls + failing s.calls := units_set .released hi
    rw [← hu] at hb
    bv_omega

theorem trace_balanced {es : List Event} {s : State} (h : atomicOpen.Trace es s) :
    Balanced s :=
  h.invariant rfl fun hb hstep => step_balanced hb (step_sound hstep)

def Bounded (s : State) : Prop := inProgress s.calls < 2 ^ 31

theorem failing_le_inProgress (calls : List Call) : failing calls ≤ inProgress calls :=
  List.countP_mono_left fun c _ hc => by cases c <;> first | rfl | exact hc

structure Exclusive (s : State) : Prop where
  balanced : Balanced s
  single : openFiles s.calls ≤ 1

theorem no_units_of_one {s : State} (h : Exclusive s) (hB : Bounded s) (hv : s.v = 1) :
    openFiles s.calls = 0 ∧ failing s.calls = 0 := by
  have hb := h.balanced
  have hs := h.single
  have hf := failing_le_inProgress s.calls
  unfold Balanced at hb
  unfold Bounded at hB
  rw [hv] at hb
  have hz : (openFiles s.calls + failing s.calls) % 2 ^ 32 = 0 := by
    have hn : BitVec.ofNat 32 (openFiles s.calls + failing s.calls) = 0 := by bv_omega
    simpa using congrArg BitVec.toNat hn
  rw [Nat.mod_eq_of_lt (by omega)] at hz
  omega

theorem step_exclusive {s t : State} {e : Event} (hB : Bounded s) (h : Exclusive s)
    (hstep : Step s e t) : Exclusive t := by
  refine ⟨step_balanced h.balanced hstep, ?_⟩
  have hs := h.single
  cases hstep with
  | call => simpa [openFiles, Call.isOpen] using hs
  | succeed i hi hv =>
    have hz := (no_units_of_one h hB hv).1
    have ho : openFiles _ = openFiles s.calls + 1 := openFiles_set .opened hi
    exact le_of_eq (by rw [ho, hz])
  | fail i hi =>
    have ho : openFiles _ = openFiles s.calls := openFiles_set .failing hi
    exact ho.trans_le hs
  | inc i hi =>
    have ho : openFiles _ = openFiles s.calls := openFiles_set .refused hi
    exact ho.trans_le hs
  | release i hi =>
    have ho : openFiles _ + 1 = openFiles s.calls := openFiles_set .released hi
    exact (Nat.le_of_succ_le ho.le).trans hs

theorem trace_exclusive {es : List Event} {s : State} (h : atomicOpen.Trace es s)
    (hB : atomicOpen.Throughout Bounded es) : Exclusive s :=
  h.invariant_throughout hB ⟨rfl, Nat.zero_le _⟩ fun hB _ hI hstep =>
    step_exclusive hB hI (step_sound hstep)

theorem undisturbed_open {s : State} {i : ℕ} (hi : s.calls[i]? = some .entered)
    (hv : s.v = 1) :
    ∃ t, step s (.decAndTest i) = some t ∧ t.calls[i]? = some .opened :=
  ⟨⟨s.v - 1, s.calls.set i .opened⟩,
    by simp only [step, if_pos hi, State.resume, myMiscOpen_eq, if_pos hv], set_entry hi⟩

structure ExclusiveOpen (s : State) : Prop where
  single : openFiles s.calls ≤ 1
  counter : failing s.calls = 0 → s.v = if openFiles s.calls = 0 then 1 else 0
  reopen : failing s.calls = 0 → openFiles s.calls = 0 → ∀ i, s.calls[i]? = some .entered →
    ∃ t, step s (.decAndTest i) = some t ∧ t.calls[i]? = some .opened
  reopenNew : failing s.calls = 0 → openFiles s.calls = 0 →
    ∃ t, atomicOpen.Path s [.call, .decAndTest s.calls.length] t ∧
      t.calls[s.calls.length]? = some .opened

theorem exclusive_open {es : List Event} {s : State} (h : atomicOpen.Trace es s)
    (hB : atomicOpen.Throughout Bounded es) : ExclusiveOpen s := by
  have hI := trace_exclusive h hB
  have counter : failing s.calls = 0 → s.v = if openFiles s.calls = 0 then 1 else 0 := by
    intro hf
    have hb := hI.balanced
    unfold Balanced at hb
    rw [hf] at hb
    rcases Nat.le_one_iff_eq_zero_or_eq_one.mp hI.single with ho | ho
    · rw [if_pos ho]; rw [ho] at hb; bv_omega
    · rw [if_neg (by omega)]; rw [ho] at hb; bv_omega
  have free : failing s.calls = 0 → openFiles s.calls = 0 → s.v = 1 := by
    intro hf ho
    rw [counter hf, if_pos ho]
  refine ⟨hI.single, counter, fun hf ho i hi => undisturbed_open hi (free hf ho), ?_⟩
  intro hf ho
  obtain ⟨t, ht, hopen⟩ := undisturbed_open
    (s := ⟨s.v, s.calls ++ [.entered]⟩) spawn_entry (free hf ho)
  exact ⟨t, System.path_cons.mpr ⟨_, rfl, System.path_single.mpr ht⟩, hopen⟩

theorem inProgress_le_events {es : List Event} {s : State} (h : atomicOpen.Trace es s) :
    s.calls.length ≤ es.length := by
  induction h with
  | nil => exact le_rfl
  | snoc _ hstep ih =>
    cases step_sound hstep <;> simp <;> omega

theorem short_bounded {es : List Event} (h : es.length < 2 ^ 31) :
    atomicOpen.Throughout Bounded es := fun pre s hpre hs => by
  have hcalls : inProgress s.calls ≤ s.calls.length := List.countP_le_length
  have hlen := inProgress_le_events hs
  have hpre := hpre.length_le
  unfold Bounded
  omega

theorem exclusive_open_contended :
    ExclusiveOpen ⟨-1, [.opened, .failing, .refused]⟩ := by
  have hrun : atomicOpen.Trace [.call, .call, .call, .decAndTest 0, .decAndTest 1, .decAndTest 2,
      .inc 2] ⟨-1, [.opened, .failing, .refused]⟩ := System.trace_of_run (by decide)
  exact exclusive_open hrun (short_bounded (by decide))

inductive Handover where
  | grant (i : ℕ)
  | giveBack (i : ℕ)
  deriving DecidableEq, Repr

/-- What the device is for: whoever holds the file gives it back before the next grant. -/
def exclusiveFile : System (Option ℕ) Handover where
  initial := none
  step
    | none, .grant i => some (some i)
    | some i, .giveBack j => if i = j then some none else none
    | _, _ => none

def handovers (s : State) : Event → List Handover
  | .decAndTest i => if s.v = 1 then [.grant i] else []
  | .release i => [.giveBack i]
  | _ => []

def Holds (s : State) (holder : Option ℕ) : Prop :=
  ∀ i, s.calls[i]? = some .opened ↔ holder = some i

theorem holds_set {s : State} {holder : Option ℕ} {i : ℕ} {c d : Call} (v : BitVec 32)
    (h : Holds s holder) (hi : s.calls[i]? = some c) (hc : c ≠ .opened) (hd : d ≠ .opened) :
    Holds ⟨v, s.calls.set i d⟩ holder := by
  intro j
  by_cases hj : j = i
  · subst hj
    simp only [set_entry hi, Option.some.injEq, hd, ← h j, hi, hc]
  · simpa only [set_other hj] using h j

theorem handover_step {s t : State} {e : Event} {holder : Option ℕ} (hI : Exclusive s)
    (hB : Bounded s) (h : Holds s holder) (hstep : Step s e t) :
    ∃ next, exclusiveFile.Path holder (handovers s e) next ∧ Holds t next := by
  cases hstep with
  | call =>
    refine ⟨holder, System.path_nil.mpr rfl, ?_⟩
    intro i
    rw [← h i]
    constructor
    · intro hi
      rcases entry_of_spawn hi with hi | ⟨-, hi⟩
      · exact hi
      · cases hi
    · exact spawn_other
  | succeed i hi hv =>
    have hnone : holder = none := by
      cases hh : holder with
      | none => rfl
      | some j =>
        have hpos := countP_pos (p := Call.isOpen) ((h j).mpr hh) rfl
        have hz := (no_units_of_one hI hB hv).1
        exact absurd hpos (by simp only [openFiles] at hz; omega)
    subst hnone
    refine ⟨some i, by simp only [handovers, if_pos hv]; exact System.path_single.mpr rfl, ?_⟩
    intro j
    by_cases hj : j = i
    · subst hj; simp [set_entry hi]
    · simpa [set_other hj, Ne.symm hj] using h j
  | fail i hi hv =>
    exact ⟨holder, by simp only [handovers, if_neg hv]; exact System.path_nil.mpr rfl,
      holds_set _ h hi (by decide) (by decide)⟩
  | inc i hi =>
    exact ⟨holder, System.path_nil.mpr rfl, holds_set _ h hi (by decide) (by decide)⟩
  | release i hi =>
    obtain rfl := (h i).mp hi
    refine ⟨none, System.path_single.mpr (by simp [exclusiveFile]), ?_⟩
    intro j
    by_cases hj : j = i
    · subst hj; simp [set_entry hi]
    · simpa [set_other hj, Ne.symm hj] using h j

/-- The successful opens and the releases of a run alternate as grants and returns of one
file, and the holder is the call whose open succeeded last and was not released. -/
theorem refines_exclusiveFile {es : List Event} {s : State} (h : atomicOpen.Trace es s)
    (hB : atomicOpen.Throughout Bounded es) :
    ∃ holder, exclusiveFile.Trace (atomicOpen.observe handovers es) holder ∧ Holds s holder :=
  h.simulate (B := fun u => Exclusive u ∧ Bounded u)
    (fun _ _ hpre hu => ⟨trace_exclusive hu (hB.mono hpre), hB _ _ hpre hu⟩)
    (fun i => by simp [atomicOpen, myMiscInit, exclusiveFile])
    fun hI _ hR hstep => handover_step hI.1 hI.2 hR (step_sound hstep)

theorem refines_exclusiveFile_handedOn :
    ∃ holder, exclusiveFile.Trace (atomicOpen.observe handovers [.call, .call, .decAndTest 0,
      .decAndTest 1, .release 0, .inc 1, .call, .decAndTest 2]) holder ∧
      Holds ⟨0, [.released, .refused, .opened]⟩ holder := by
  have hrun : atomicOpen.Trace [.call, .call, .decAndTest 0, .decAndTest 1, .release 0, .inc 1,
      .call, .decAndTest 2] ⟨0, [.released, .refused, .opened]⟩ := System.trace_of_run (by decide)
  exact refines_exclusiveFile hrun (short_bounded (by decide))

/-- Every refused call has, at some moment between its start and its return, another caller
in a position that the predicate names. The call started after `pre` is number
`p.calls.length`; `mid` is whatever happens until it returns. -/
def RefusalExplained (blocks : Call → Prop) : Prop :=
  ∀ pre mid p s, atomicOpen.Trace pre p →
    atomicOpen.Trace (pre ++ .call :: (mid ++ [.inc p.calls.length])) s →
    ∃ mid₁ mid₂ u j c, mid = mid₁ ++ mid₂ ∧ atomicOpen.Trace (pre ++ .call :: mid₁) u ∧
      j ≠ p.calls.length ∧ u.calls[j]? = some c ∧ blocks c

theorem step_to_failing {s t : State} {e : Event} {i : ℕ} (h : Step s e t)
    (hs : s.calls[i]? ≠ some .failing) (ht : t.calls[i]? = some .failing) :
    s.calls[i]? = some .entered ∧ s.v ≠ 1 := by
  cases h with
  | call =>
    rcases entry_of_spawn ht with ht | ⟨-, ht⟩
    · exact absurd ht hs
    · cases ht
  | fail k hk hv =>
    rcases entry_of_set ht with ⟨rfl, -⟩ | ⟨-, ht⟩
    · exact ⟨hk, hv⟩
    · exact absurd ht hs
  | _ =>
    rcases entry_of_set ht with ⟨-, ht⟩ | ⟨-, ht⟩
    · cases ht
    · exact absurd ht hs

/-- Where the counter is not 1, somebody holds a unit of it. This needs no bound. -/
theorem blocker_of_ne_one {s : State} (hb : Balanced s) (hv : s.v ≠ 1) :
    ∃ (j : ℕ) (c : Call), s.calls[j]? = some c ∧ (c = .opened ∨ c = .failing) := by
  have hpos : 0 < openFiles s.calls ∨ 0 < failing s.calls := by
    by_contra hz
    have hnone : openFiles s.calls + failing s.calls = 0 := by omega
    unfold Balanced at hb
    rw [hnone] at hb
    apply hv
    bv_omega
  rcases hpos with ho | hf
  · obtain ⟨j, c, hj, hc⟩ := exists_of_countP_pos ho
    exact ⟨j, c, hj, .inl (eq_of_beq hc)⟩
  · obtain ⟨j, c, hj, hc⟩ := exists_of_countP_pos hf
    exact ⟨j, c, hj, .inr (eq_of_beq hc)⟩

/-- A refused open met, at its test, an open file or another open that had failed and not
yet put back its unit. -/
theorem refusal_explained :
    RefusalExplained fun c => c = .opened ∨ c = .failing := by
  intro pre mid p s hp hs
  have hentered : atomicOpen.Trace (pre ++ [.call]) ⟨p.v, p.calls ++ [.entered]⟩ := .snoc hp rfl
  rw [List.append_cons, ← List.append_assoc] at hs
  obtain ⟨w, hw, hlast⟩ := hs.split
  obtain ⟨u₀, hu₀, hmid⟩ := hw.split
  obtain rfl := hu₀.functional hentered
  have hfailing : w.calls[p.calls.length]? = some .failing := by
    have hinc := System.path_single.mp hlast
    simp only [atomicOpen, step, Option.ite_none_right_eq_some] at hinc
    exact hinc.1
  obtain ⟨mid₁, e, mid₂, u, t, rfl, hu, hbefore, hstep, hafter⟩ :=
    hmid.exists_change (P := fun q => q.calls[p.calls.length]? ≠ some .failing)
      (by simp) (not_not.mpr hfailing)
  obtain ⟨hi, hv⟩ := step_to_failing (step_sound hstep) hbefore (not_not.mp hafter)
  have htrace := hentered.append hu
  obtain ⟨j, c, hj, hc⟩ := blocker_of_ne_one (trace_balanced htrace) hv
  refine ⟨mid₁, e :: mid₂, u, j, c, rfl, by simpa using htrace, ?_, hj, hc⟩
  rintro rfl
  rw [hi] at hj
  obtain rfl := Option.some.inj hj
  simp at hc

/-- Call 0 opens the file, call 1 fails its test, call 0 releases the file; call 2 starts
only now and is refused because call 1 has not yet undone its decrement. -/
theorem refused_without_holder : ¬ RefusalExplained fun c => c = .opened := by
  intro h
  have hpre : atomicOpen.Trace [.call, .decAndTest 0, .call, .decAndTest 1, .release 0]
      ⟨0, [.released, .failing]⟩ := System.trace_of_run (by decide)
  have hrun : atomicOpen.Trace [.call, .decAndTest 0, .call, .decAndTest 1, .release 0, .call,
      .decAndTest 2, .inc 2] ⟨0, [.released, .failing, .refused]⟩ :=
    System.trace_of_run (by decide)
  obtain ⟨mid₁, mid₂, u, j, c, hmid, hu, -, hj, rfl⟩ := h _ [.decAndTest 2] _ _ hpre hrun
  have hopen := List.mem_of_getElem? hj
  rcases List.cons_eq_append_iff.mp hmid with ⟨rfl, -⟩ | ⟨rest, rfl, hnil⟩
  · have hstart : atomicOpen.Trace [.call, .decAndTest 0, .call, .decAndTest 1, .release 0, .call]
        ⟨0, [.released, .failing, .entered]⟩ := System.trace_of_run (by decide)
    obtain rfl := hu.functional hstart
    simp at hopen
  · rcases List.append_eq_nil_iff.mp hnil.symm with ⟨rfl, -⟩
    have hend : atomicOpen.Trace [.call, .decAndTest 0, .call, .decAndTest 1, .release 0, .call,
        .decAndTest 2] ⟨-1, [.released, .failing, .failing]⟩ := System.trace_of_run (by decide)
    obtain rfl := hu.functional hend
    simp at hopen

end SyncAtomicOpen
