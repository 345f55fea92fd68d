import LinuxDriver.TransitionSystem
import LinuxDriver.CallPool
import LinuxDriver.KernelTypes
import LinuxDriver.InterruptLine

/-!
# irq: several drivers on the interrupt of one key

`irq_test.c`, `tasklet_test.c`, `workqueue_test.c` and `workqueue_thread_test.c` all ask for the
interrupt of GPIO 90, unshared, and free it under the cookie NULL. Any number of them is loaded
and unloaded here, the steps of their init and exit functions and the runs of the installed
handler in any order.
-/
namespace IrqSharedLine

open TransitionSystem CallPool KernelTypes InterruptLine

/-- What the drivers do differently: the cookie of the handler, whether init fails when the
request is refused, and whether a `destroy_workqueue(NULL)` waits on every way out. -/
structure Driver where
  cookie : Pointer
  checks : Bool
  destroysNull : Bool
  deriving DecidableEq, Repr

def irqTest : Driver := ⟨none, false, false⟩
def taskletTest : Driver := ⟨some 0, false, false⟩
def workqueueTest : Driver := ⟨none, true, true⟩
def workqueueThreadTest : Driver := ⟨none, true, false⟩

/-- `loaded` keeps the answer of `request_irq`; a driver that is `stuck` has crashed on its way
out and is still there. -/
inductive Phase where
  | out
  | requesting
  | loaded (ret : ℤ)
  | freeing
  | stuck
  deriving DecidableEq, Repr

structure Module where
  driver : Driver
  phase : Phase
  deriving DecidableEq, Repr

def Module.put (m : Module) (p : Phase) : Module := { m with phase := p }

def Module.leave (m : Module) : Module := m.put (if m.driver.destroysNull then .stuck else .out)

@[simp] theorem put_driver (m : Module) (p : Phase) : (m.put p).driver = m.driver := rfl
@[simp] theorem put_phase (m : Module) (p : Phase) : (m.put p).phase = p := rfl
@[simp] theorem leave_driver (m : Module) : m.leave.driver = m.driver := rfl

structure State where
  line : Line ℕ ℕ
  mods : List Module
  deriving DecidableEq, Repr

inductive Event where
  | load (i : ℕ)
  | requestIrq (i : ℕ) (ret : ℤ)
  | freeIrq (i : ℕ)
  | synchronizeIrq (i : ℕ)
  | raise
  | handlerReturn
  deriving DecidableEq, Repr

def State.set (s : State) (i : ℕ) (m : Module) : State := { s with mods := s.mods.set i m }

@[simp] theorem set_line (s : State) (i : ℕ) (m : Module) : (s.set i m).line = s.line := rfl
@[simp] theorem set_mods (s : State) (i : ℕ) (m : Module) :
    (s.set i m).mods = s.mods.set i m := rfl

/-- `free_irq(irq, NULL)` takes away the installed handler if it has no cookie, whoever has
installed it. -/
def freeNull (s : State) : Option (Line ℕ ℕ) :=
  s.line.action.bind fun j => s.mods[j]?.bind fun m =>
    if m.driver.cookie = none then s.line.detach j else none

def stepModule (s : State) (i : ℕ) (m : Module) : Phase → Event → Option State
  | .out, .load _ => some (s.set i (m.put .requesting))
  | .requesting, .requestIrq _ ret =>
    if ret = 0 then (s.line.request i).map fun l => { s.set i (m.put (.loaded 0)) with line := l }
    else some (s.set i (if m.driver.checks then m.leave else m.put (.loaded ret)))
  | .loaded _, .freeIrq _ =>
    match freeNull s with
    | some l => some { s.set i (m.put .freeing) with line := l }
    | none => some (s.set i m.leave)
  | .freeing, .synchronizeIrq _ =>
    if s.line.running = none then some (s.set i m.leave) else none
  | _, _ => none

def step (s : State) : Event → Option State
  | .raise => s.line.action.bind fun j => (s.line.raise j).map fun l => { s with line := l }
  | .handlerReturn =>
    if s.line.running.isSome then some { s with line := s.line.move none } else none
  | .load i => s.mods[i]?.bind fun m => stepModule s i m m.phase (.load i)
  | .requestIrq i ret => s.mods[i]?.bind fun m => stepModule s i m m.phase (.requestIrq i ret)
  | .freeIrq i => s.mods[i]?.bind fun m => stepModule s i m m.phase (.freeIrq i)
  | .synchronizeIrq i => s.mods[i]?.bind fun m => stepModule s i m m.phase (.synchronizeIrq i)

def initial (drivers : List Driver) : State := ⟨.empty, drivers.map (⟨·, .out⟩)⟩

def sharedLine (drivers : List Driver) : System State Event := ⟨initial drivers, step⟩

inductive Step : State → Event → State → Prop where
  | load (s i m) (hm : s.mods[i]? = some m) (hp : m.phase = .out) :
      Step s (.load i) (s.set i (m.put .requesting))
  | requestIrq (s i m) (hm : s.mods[i]? = some m) (hp : m.phase = .requesting)
      (hfree : s.line.action = none) :
      Step s (.requestIrq i 0)
        { s.set i (m.put (.loaded 0)) with line := ⟨some i, s.line.running⟩ }
  | refused (s i m ret) (hm : s.mods[i]? = some m) (hp : m.phase = .requesting) (hret : ret ≠ 0)
      (hchecks : m.driver.checks) : Step s (.requestIrq i ret) (s.set i m.leave)
  | ignored (s i m ret) (hm : s.mods[i]? = some m) (hp : m.phase = .requesting) (hret : ret ≠ 0)
      (hchecks : ¬ m.driver.checks) :
      Step s (.requestIrq i ret) (s.set i (m.put (.loaded ret)))
  | freeIrq (s i m ret j n) (hm : s.mods[i]? = some m) (hp : m.phase = .loaded ret)
      (ha : s.line.action = some j) (hn : s.mods[j]? = some n) (hnull : n.driver.cookie = none) :
      Step s (.freeIrq i) { s.set i (m.put .freeing) with line := ⟨none, s.line.running⟩ }
  | freeMisses (s i m ret) (hm : s.mods[i]? = some m) (hp : m.phase = .loaded ret)
      (hnone : freeNull s = none) : Step s (.freeIrq i) (s.set i m.leave)
  | synchronizeIrq (s i m) (hm : s.mods[i]? = some m) (hp : m.phase = .freeing)
      (hr : s.line.running = none) : Step s (.synchronizeIrq i) (s.set i m.leave)
  | raise (s j) (ha : s.line.action = some j) (hr : s.line.running = none) :
      Step s .raise { s with line := ⟨some j, some j⟩ }
  | handlerReturn (s j) (hr : s.line.running = some j) :
      Step s .handlerReturn { s with line := ⟨s.line.action, none⟩ }

theorem freeNull_eq_some {s : State} {l : Line ℕ ℕ} : freeNull s = some l ↔
    ∃ j n, s.line.action = some j ∧ s.mods[j]? = some n ∧ n.driver.cookie = none ∧
      l = ⟨none, s.line.running⟩ := by
  simp only [freeNull, Option.bind_eq_some_iff, Option.ite_none_right_eq_some,
    Line.detach_eq_some]
  constructor
  · rintro ⟨j, ha, n, hn, hnull, -, rfl⟩
    exact ⟨j, n, ha, hn, hnull, rfl⟩
  · rintro ⟨j, n, ha, hn, hnull, rfl⟩
    exact ⟨j, ha, n, hn, hnull, ha, rfl⟩

theorem freeNull_eq_none {s : State} (h : freeNull s = none) {j : ℕ} {n : Module}
    (ha : s.line.action = some j) (hn : s.mods[j]? = some n) : n.driver.cookie ≠ none := by
  intro hnull
  have hsome := freeNull_eq_some.mpr ⟨j, n, ha, hn, hnull, rfl⟩
  rw [h] at hsome
  cases hsome

theorem stepModule_sound {s t : State} {i : ℕ} {m : Module} {e : Event}
    (hm : s.mods[i]? = some m) (he : e = .load i ∨ (∃ ret, e = .requestIrq i ret) ∨
      e = .freeIrq i ∨ e = .synchronizeIrq i) (h : stepModule s i m m.phase e = some t) :
    Step s e t := by
  generalize hp : m.phase = p at h
  unfold stepModule at h
  split at h
  case h_1 k =>
    obtain rfl : k = i := by simpa using he
    exact Option.some.inj h ▸ .load s k m hm hp
  case h_2 k ret =>
    obtain rfl : k = i := by simpa using he
    split at h
    case isTrue hret =>
      obtain ⟨l, hl, rfl⟩ := Option.map_eq_some_iff.mp h
      obtain ⟨hfree, rfl⟩ := Line.request_eq_some.mp hl
      exact hret ▸ .requestIrq s k m hm hp hfree
    case isFalse hret =>
      split at h
      case isTrue hchecks => exact Option.some.inj h ▸ .refused s k m ret hm hp hret hchecks
      case isFalse hchecks => exact Option.some.inj h ▸ .ignored s k m ret hm hp hret hchecks
  case h_3 ret k =>
    obtain rfl : k = i := by simpa using he
    split at h
    case h_1 l hl =>
      obtain ⟨j, n, ha, hn, hnull, rfl⟩ := freeNull_eq_some.mp hl
      exact Option.some.inj h ▸ .freeIrq s k m ret j n hm hp ha hn hnull
    case h_2 hnone => exact Option.some.inj h ▸ .freeMisses s k m ret hm hp hnone
  case h_4 k =>
    obtain rfl : k = i := by simpa using he
    obtain ⟨hr, h⟩ := Option.ite_none_right_eq_some.mp h
    exact Option.some.inj h ▸ .synchronizeIrq s k m hm hp hr
  case h_5 => cases h

theorem step_sound {s t : State} {e : Event} (h : step s e = some t) : Step s e t := by
  cases e with
  | raise =>
    obtain ⟨j, ha, h⟩ := Option.bind_eq_some_iff.mp h
    obtain ⟨l, hl, rfl⟩ := Option.map_eq_some_iff.mp h
    obtain ⟨-, hr, rfl⟩ := Line.raise_eq_some.mp hl
    exact ha ▸ .raise s j ha hr
  | handlerReturn =>
    obtain ⟨hr, h⟩ := Option.ite_none_right_eq_some.mp h
    obtain ⟨j, hj⟩ := Option.isSome_iff_exists.mp hr
    exact Option.some.inj h ▸ .handlerReturn s j hj
  | load i | freeIrq i | synchronizeIrq i | requestIrq i ret =>
    obtain ⟨m, hm, h⟩ := Option.bind_eq_some_iff.mp h
    exact stepModule_sound hm (by simp) h

/-- A handler without a cookie belongs to a driver whose request has succeeded, and a run that
has lost its handler is waited for. -/
structure Owned (s : State) : Prop where
  known : ∀ j, s.line.action = some j → ∃ n, s.mods[j]? = some n
  loaded : ∀ j n, s.line.action = some j → s.mods[j]? = some n → n.driver.cookie = none →
    n.phase = .loaded 0
  waited : ∀ j, s.line.running = some j → s.line.action = some j ∨
    ∃ (k : ℕ) (n : Module), s.mods[k]? = some n ∧ n.phase = .freeing

section

variable {s t : State} {e : Event} {i : ℕ} {m m' : Module}

theorem known_set {j : ℕ} (h : ∃ n, s.mods[j]? = some n) : ∃ n, (s.set i m').mods[j]? = some n := by
  obtain ⟨n, hn⟩ := h
  have hlt : j < (s.set i m').mods.length := by
    rw [set_mods, List.length_set]
    exact lt_length hn
  exact ⟨_, List.getElem?_eq_getElem hlt⟩

theorem freeing_set (hm : s.mods[i]? = some m) (hp : m.phase ≠ .freeing)
    (h : ∃ (k : ℕ) (n : Module), s.mods[k]? = some n ∧ n.phase = .freeing) :
    ∃ (k : ℕ) (n : Module), (s.set i m').mods[k]? = some n ∧ n.phase = .freeing := by
  obtain ⟨k, n, hn, hfreeing⟩ := h
  have hne : k ≠ i := by
    rintro rfl
    obtain rfl := Option.some.inj (hm.symm.trans hn)
    exact hp hfreeing
  exact ⟨k, n, (set_other hne).trans hn, hfreeing⟩

theorem Owned.set (h : Owned s) (hm : s.mods[i]? = some m) (hp : m.phase ≠ .freeing)
    (hown : s.line.action = some i → m'.driver.cookie = none → m'.phase = .loaded 0) :
    Owned (s.set i m') := by
  constructor
  · intro j ha
    exact known_set (h.known j ha)
  · intro j n ha hn hnull
    rcases entry_of_set hn with ⟨rfl, rfl⟩ | ⟨-, hn⟩
    · exact hown ha hnull
    · exact h.loaded j n ha hn hnull
  · intro j hr
    exact (h.waited j hr).imp_right (freeing_set hm hp)

theorem Owned.not_owner (h : Owned s) (hm : s.mods[i]? = some m) (hp : m.phase ≠ .loaded 0)
    (hnull : m.driver.cookie = none) : s.line.action ≠ some i :=
  fun ha => hp (h.loaded i m ha hm hnull)

theorem owned_step (h : Owned s) (hstep : Step s e t) : Owned t := by
  cases hstep with
  | load i m hm hp =>
    exact h.set hm (by simp [hp]) fun ha hnull =>
      absurd ha (h.not_owner hm (by simp [hp]) hnull)
  | requestIrq i m hm hp hfree =>
    have hm' := set_entry (b := m.put (.loaded 0)) hm
    constructor
    · intro j ha
      obtain rfl := Option.some.inj ha
      exact ⟨_, hm'⟩
    · intro j n ha hn hnull
      obtain rfl := Option.some.inj ha
      obtain rfl := Option.some.inj (hm'.symm.trans hn)
      rfl
    · intro j hr
      have hwait := (h.waited j hr).resolve_left (by simp [hfree])
      exact .inr (freeing_set hm (by simp [hp]) hwait)
  | refused i m ret hm hp | ignored i m ret hm hp =>
    exact h.set hm (by simp [hp]) fun ha hnull =>
      absurd ha (h.not_owner hm (by simp [hp]) hnull)
  | freeIrq i m ret j n hm hp ha hn hnull =>
    have hm' := set_entry (b := m.put .freeing) hm
    exact ⟨by simp, by simp, fun k hr => .inr ⟨i, _, hm', rfl⟩⟩
  | freeMisses i m ret hm hp hnone =>
    have hcookie (ha : s.line.action = some i) : m.leave.driver.cookie ≠ none := by
      rw [leave_driver]
      exact freeNull_eq_none hnone ha hm
    exact h.set hm (by simp [hp]) fun ha hnull => absurd hnull (hcookie ha)
  | synchronizeIrq i m hm hp hr =>
    constructor
    · intro j ha
      exact known_set (h.known j ha)
    · intro j n ha hn hnull
      rcases entry_of_set hn with ⟨rfl, rfl⟩ | ⟨-, hn⟩
      · exact absurd ha (h.not_owner hm (by simp [hp]) hnull)
      · exact h.loaded j n ha hn hnull
    · intro j hrun
      rw [set_line, hr] at hrun
      cases hrun
  | raise j ha hr =>
    refine ⟨?_, ?_, fun k hrun => .inl hrun⟩
    · intro k hk
      exact h.known k (ha.trans hk)
    · intro k n hk hn hnull
      exact h.loaded k n (ha.trans hk) hn hnull
  | handlerReturn j hr => exact ⟨h.known, h.loaded, by simp⟩

theorem trace_owned {drivers : List Driver} {es : List Event}
    (h : (sharedLine drivers).Trace es s) : Owned s := by
  refine h.invariant ?_ fun hI hstep => owned_step hI (step_sound hstep)
  exact ⟨by simp [sharedLine, initial], by simp [sharedLine, initial],
    by simp [sharedLine, initial]⟩

/-- The installed handler and the one that is running belong to modules that are still there. -/
def Live (s : State) : Prop := ∀ j, s.line.action = some j ∨ s.line.running = some j →
  ∃ n, s.mods[j]? = some n ∧ n.phase ≠ .out

/-- Where `free_irq` finds no handler without a cookie, its caller goes at once, unless it crashes
in `destroy_workqueue(NULL)` and stays. -/
def Covered (s : State) : Event → Prop
  | .freeIrq i => freeNull s = none → (∃ m, s.mods[i]? = some m ∧ m.driver.destroysNull) ∨
      s.line.action ≠ some i ∧ s.line.running ≠ some i
  | _ => True

def Phase.settled : Phase → Bool
  | .loaded _ | .freeing | .stuck => true
  | _ => false

/-- In covered runs a handler has an owner that has not begun to leave, and a run has an owner
that has not left. -/
structure Settled (s : State) : Prop where
  owner : ∀ j, s.line.action = some j →
    ∃ n, s.mods[j]? = some n ∧ (n.phase = .loaded 0 ∨ n.phase = .stuck)
  runner : ∀ j, s.line.running = some j → ∃ n, s.mods[j]? = some n ∧ n.phase.settled

theorem settled_of_owner {p : Phase} (h : p = .loaded 0 ∨ p = .stuck) : p.settled := by
  rcases h with rfl | rfl
  · rfl
  · rfl

theorem Settled.live (h : Settled s) : Live s := by
  intro j hj
  have hsettled : ∃ n, s.mods[j]? = some n ∧ n.phase.settled := by
    rcases hj with ha | hr
    · obtain ⟨n, hn, hphase⟩ := h.owner j ha
      exact ⟨n, hn, settled_of_owner hphase⟩
    · exact h.runner j hr
  obtain ⟨n, hn, hphase⟩ := hsettled
  refine ⟨n, hn, ?_⟩
  intro hout
  rw [hout] at hphase
  cases hphase

theorem Settled.set (h : Settled s) (ha : s.line.action ≠ some i) (hr : s.line.running ≠ some i) :
    Settled (s.set i m') := by
  have hother {j : ℕ} (hne : j ≠ i) : (s.set i m').mods[j]? = s.mods[j]? := set_other hne
  constructor
  · intro j hj
    obtain ⟨n, hn, hphase⟩ := h.owner j hj
    exact ⟨n, (hother (by rintro rfl; exact ha hj)).trans hn, hphase⟩
  · intro j hj
    obtain ⟨n, hn, hphase⟩ := h.runner j hj
    exact ⟨n, (hother (by rintro rfl; exact hr hj)).trans hn, hphase⟩

theorem Settled.aside (h : Settled s) (hm : s.mods[i]? = some m) (hp : m.phase.settled = false) :
    s.line.action ≠ some i ∧ s.line.running ≠ some i := by
  constructor
  · intro ha
    obtain ⟨n, hn, hphase⟩ := h.owner i ha
    obtain rfl := Option.some.inj (hm.symm.trans hn)
    rw [settled_of_owner hphase] at hp
    cases hp
  · intro hr
    obtain ⟨n, hn, hphase⟩ := h.runner i hr
    obtain rfl := Option.some.inj (hm.symm.trans hn)
    rw [hphase] at hp
    cases hp

theorem Settled.runner_set (h : Settled s) (hm : s.mods[i]? = some m) (hsettled : m'.phase.settled)
    {j : ℕ} (hj : s.line.running = some j) :
    ∃ n, (s.set i m').mods[j]? = some n ∧ n.phase.settled := by
  by_cases hji : j = i
  · subst hji
    exact ⟨m', set_entry hm, hsettled⟩
  · obtain ⟨n, hn, hphase⟩ := h.runner j hj
    exact ⟨n, (set_other hji).trans hn, hphase⟩

theorem settled_step (hC : Covered s e) (h : Settled s) (hstep : Step s e t) : Settled t := by
  cases hstep with
  | load i m hm hp | refused i m ret hm hp | ignored i m ret hm hp =>
    have haside := h.aside hm (by simp [hp, Phase.settled])
    exact h.set haside.1 haside.2
  | requestIrq i m hm hp hfree =>
    constructor
    · intro j ha
      obtain rfl := Option.some.inj ha
      exact ⟨_, set_entry hm, .inl rfl⟩
    · intro j hr
      exact h.runner_set hm rfl hr
  | freeIrq i m ret j n hm hp ha hn hnull =>
    exact ⟨by simp, fun k hr => h.runner_set hm rfl hr⟩
  | freeMisses i m ret hm hp hnone =>
    rcases hC hnone with ⟨n, hn, hdestroys⟩ | haside
    · obtain rfl := Option.some.inj (hm.symm.trans hn)
      have hstuck : m.leave.phase = .stuck := by simp [Module.leave, hdestroys]
      constructor
      · intro j ha
        by_cases hji : j = i
        · subst hji
          exact ⟨_, set_entry hm, .inr hstuck⟩
        · obtain ⟨n, hn, hphase⟩ := h.owner j ha
          exact ⟨n, (set_other hji).trans hn, hphase⟩
      · intro j hr
        exact h.runner_set hm (by rw [hstuck]; rfl) hr
    · exact h.set haside.1 haside.2
  | synchronizeIrq i m hm hp hr =>
    apply h.set
    · intro ha
      obtain ⟨n, hn, hphase⟩ := h.owner i ha
      obtain rfl := Option.some.inj (hm.symm.trans hn)
      simp [hp] at hphase
    · simp [hr]
  | raise j ha hr =>
    constructor
    · intro k hk
      exact h.owner k (ha.trans hk)
    · intro k hk
      obtain ⟨n, hn, hphase⟩ := h.owner k (ha.trans hk)
      exact ⟨n, hn, settled_of_owner hphase⟩
  | handlerReturn j hr => exact ⟨h.owner, by simp⟩

theorem settled_initial (drivers : List Driver) : Settled (initial drivers) :=
  ⟨by simp [initial], by simp [initial]⟩

theorem covered_of_live (hlive : Live t) (hstep : Step s e t) : Covered s e := by
  cases hstep with
  | freeIrq i m ret j n hm hp ha hn hnull =>
    intro hnone
    exact absurd hnull (freeNull_eq_none hnone ha hn)
  | freeMisses i m ret hm hp hnone =>
    intro _
    by_cases hdestroys : m.driver.destroysNull
    · exact .inl ⟨m, hm, hdestroys⟩
    right
    have hgone : ∀ n, (s.set i m.leave).mods[i]? = some n → n.phase = .out := by
      intro n hn
      obtain rfl := Option.some.inj ((set_entry hm).symm.trans hn)
      simp [Module.leave, hdestroys]
    constructor
    · intro ha
      obtain ⟨n, hn, hphase⟩ := hlive i (.inl ha)
      exact hphase (hgone n hn)
    · intro hr
      obtain ⟨n, hn, hphase⟩ := hlive i (.inr hr)
      exact hphase (hgone n hn)
  | _ => trivial

end

/-- The interrupt leads into a module that is gone in exactly the runs in which some module finds
no handler to free while its own is still installed under a cookie or still running. The modules
that crash in `destroy_workqueue(NULL)` right after that are excepted: they never leave. -/
theorem handler_live_iff {drivers : List Driver} {es : List Event} {s : State}
    (h : (sharedLine drivers).Trace es s) :
    (sharedLine drivers).Throughout Live es ↔ (sharedLine drivers).EachStep Covered es := by
  constructor
  · intro hlive
    exact h.eachStep_of_throughout hlive fun _ _ hstep ht => covered_of_live ht (step_sound hstep)
  · intro hcovered pre s hpre hs
    have hsettled := hs.invariant_eachStep (hcovered.mono hpre) (settled_initial drivers)
      fun hC hI hstep => settled_step hC hI (step_sound hstep)
    exact hsettled.live

def takenOver : List Event :=
  [.load 0, .requestIrq 0 0, .load 1, .requestIrq 1 (-EBUSY), .raise, .freeIrq 1]

def afterTakenOver : State :=
  ⟨⟨none, some 0⟩, [⟨workqueueThreadTest, .loaded 0⟩, ⟨irqTest, .freeing⟩]⟩

theorem trace_takenOver :
    (sharedLine [workqueueThreadTest, irqTest]).Trace takenOver afterTakenOver :=
  System.trace_of_run (by decide)

instance : ∀ s e, Decidable (Covered s e)
  | s, .freeIrq i => by
    unfold Covered
    infer_instance
  | _, .load _ | _, .requestIrq _ _ | _, .synchronizeIrq _ | _, .raise | _, .handlerReturn =>
    isTrue trivial

theorem handler_live_takenOver :
    (sharedLine [workqueueThreadTest, irqTest]).Throughout Live takenOver :=
  (handler_live_iff trace_takenOver).mpr (System.eachStep_of_check (by decide))

/-- No other module is in the middle of its exit. -/
def Serial (s : State) : Event → Prop
  | .freeIrq _ => ∀ m ∈ s.mods, m.phase ≠ .freeing
  | _ => True

section

variable {drivers : List Driver} {es : List Event} {s t : State} {e : Event} {i : ℕ}
  {m : Module}

theorem drivers_step {P : Driver → Prop}
    (h : ∀ (j : ℕ) (n : Module), s.mods[j]? = some n → P n.driver) (hstep : Step s e t) :
    ∀ (j : ℕ) (n : Module), t.mods[j]? = some n → P n.driver := by
  have hset {i : ℕ} {m m' : Module} (hm : s.mods[i]? = some m) (hd : m'.driver = m.driver) :
      ∀ (j : ℕ) (n : Module), (s.mods.set i m')[j]? = some n → P n.driver := by
    intro j n hn
    obtain ⟨d, hd, hsame⟩ := alike_of_set hn hm hd
    exact hsame ▸ h j d hd
  cases hstep with
  | load i m hm | requestIrq i m hm | refused i m ret hm | ignored i m ret hm
  | freeIrq i m ret j n hm | freeMisses i m ret hm | synchronizeIrq i m hm =>
    exact hset hm rfl
  | raise | handlerReturn => exact h

theorem trace_drivers {P : Driver → Prop} (hP : ∀ d ∈ drivers, P d)
    (h : (sharedLine drivers).Trace es s) :
    ∀ (j : ℕ) (n : Module), s.mods[j]? = some n → P n.driver := by
  refine h.invariant ?_ fun hI hstep => drivers_step hI (step_sound hstep)
  intro j n hn
  obtain ⟨d, hd, rfl⟩ := List.mem_map.mp (List.mem_of_getElem? hn)
  exact hP d hd

theorem covered_of_serial (hnull : ∀ (j : ℕ) (n : Module), s.mods[j]? = some n →
    n.driver.cookie = none) (h : Owned s) (hserial : Serial s e) : Covered s e := by
  cases e with
  | freeIrq i =>
    intro hnone
    right
    have hfree : s.line.action = none := by
      by_contra ha
      obtain ⟨j, ha⟩ := Option.ne_none_iff_exists'.mp ha
      obtain ⟨n, hn⟩ := h.known j ha
      exact freeNull_eq_none hnone ha hn (hnull j n hn)
    constructor
    · simp [hfree]
    · intro hr
      obtain ⟨k, n, hn, hfreeing⟩ := (h.waited i hr).resolve_left (by simp [hfree])
      exact hserial n (List.mem_of_getElem? hn) hfreeing
  | _ => trivial

end

/-- Drivers that all use the cookie NULL leave no handler behind, as long as they are unloaded
one after the other; it does not matter whose handler a driver frees. -/
theorem serial_unloads_live {drivers : List Driver} (hnull : ∀ d ∈ drivers, d.cookie = none)
    {es : List Event} (hserial : (sharedLine drivers).EachStep Serial es) :
    (sharedLine drivers).Throughout Live es := by
  have hcovered : (sharedLine drivers).EachStep Covered es := by
    intro pre e u hpre hu
    exact covered_of_serial (trace_drivers hnull hu) (trace_owned hu) (hserial pre e u hpre hu)
  intro pre u hpre hu
  have hsettled := hu.invariant_eachStep (hcovered.mono hpre) (settled_initial drivers)
    fun hC hI hstep => settled_step hC hI (step_sound hstep)
  exact hsettled.live

instance : ∀ s e, Decidable (Serial s e)
  | s, .freeIrq _ => inferInstanceAs (Decidable (∀ m ∈ s.mods, m.phase ≠ .freeing))
  | _, .load _ | _, .requestIrq _ _ | _, .synchronizeIrq _ | _, .raise | _, .handlerReturn =>
    isTrue trivial

theorem serial_unloads_takenOver :
    (sharedLine [workqueueThreadTest, irqTest]).Throughout Live takenOver :=
  serial_unloads_live (by decide) (System.eachStep_of_check (by decide))

/-- A driver whose request has succeeded has the line until it leaves. -/
def Kept (s : State) : Prop :=
  ∀ (i : ℕ) (m : Module), s.mods[i]? = some m → m.phase = .loaded 0 → s.line.action = some i

/-- Nobody frees the handler of another module. -/
def FreesOwn (s : State) : Event → Prop
  | .freeIrq i => ∀ j n, s.line.action = some j → s.mods[j]? = some n →
      n.driver.cookie = none → j = i
  | _ => True

section

variable {s t : State} {e : Event} {i : ℕ} {m m' : Module}

theorem Kept.set (h : Kept s) (hp : m'.phase ≠ .loaded 0) : Kept (s.set i m') := by
  intro j n hn hphase
  rcases entry_of_set hn with ⟨rfl, rfl⟩ | ⟨-, hn⟩
  · exact absurd hphase hp
  · exact h j n hn hphase

theorem leave_ne_loaded (m : Module) : m.leave.phase ≠ .loaded 0 := by
  unfold Module.leave
  split
  · simp
  · simp

theorem kept_step (hC : FreesOwn s e) (h : Kept s) (hstep : Step s e t) : Kept t := by
  cases hstep with
  | load i m hm hp => exact h.set (by simp)
  | requestIrq i m hm hp hfree =>
    intro j n hn hphase
    rcases entry_of_set hn with ⟨rfl, -⟩ | ⟨-, hn⟩
    · rfl
    · have howner := h j n hn hphase
      rw [hfree] at howner
      cases howner
  | refused i m ret hm hp | freeMisses i m ret hm hp | synchronizeIrq i m hm hp =>
    exact h.set (leave_ne_loaded m)
  | ignored i m ret hm hp hret => exact h.set (by simpa using hret)
  | freeIrq i m ret j n hm hp ha hn hnull =>
    obtain rfl := hC j n ha hn hnull
    intro k d hd hphase
    rcases entry_of_set hd with ⟨-, rfl⟩ | ⟨hne, hd⟩
    · cases hphase
    · have howner := h k d hd hphase
      exact absurd (Option.some.inj (howner.symm.trans ha)) hne
  | raise j ha hr =>
    intro k n hn hphase
    exact ha.symm.trans (h k n hn hphase)
  | handlerReturn => exact h

theorem freesOwn_of_kept (howned : Owned s) (hkept : Kept t) (hstep : Step s e t) :
    FreesOwn s e := by
  cases hstep with
  | freeIrq i m ret j n hm hp ha hn hnull =>
    intro k d hk hd hd'
    by_contra hne
    have hloaded := howned.loaded k d hk hd hd'
    have hlost : (none : Option ℕ) = some k := hkept k d ((set_other hne).trans hd) hloaded
    cases hlost
  | freeMisses i m ret hm hp hnone =>
    intro k d hk hd hnull
    exact absurd hnull (freeNull_eq_none hnone hk hd)
  | _ => trivial

end

/-- A driver that has the line keeps it until its own exit in exactly the runs in which nobody
frees the handler of another one. -/
theorem handler_kept_iff {drivers : List Driver} {es : List Event} {s : State}
    (h : (sharedLine drivers).Trace es s) :
    (sharedLine drivers).Throughout Kept es ↔ (sharedLine drivers).EachStep FreesOwn es := by
  constructor
  · intro hkept
    exact h.eachStep_of_throughout hkept fun hs _ hstep ht =>
      freesOwn_of_kept (trace_owned hs) ht (step_sound hstep)
  · intro hown
    refine hown.throughout ?_ fun hC hI hstep => kept_step hC hI (step_sound hstep)
    intro i m hm hphase
    obtain ⟨d, -, rfl⟩ := List.mem_map.mp (List.mem_of_getElem? hm)
    cases hphase

instance : ∀ s e, Decidable (FreesOwn s e)
  | s, .freeIrq i =>
    match ha : s.line.action with
    | none => isTrue (by simp [FreesOwn, ha])
    | some j => decidable_of_iff (j = i ∨ ∀ n, s.mods[j]? = some n → n.driver.cookie ≠ none) (by
        constructor
        · rintro h k n hk hn hnull
          obtain rfl := Option.some.inj (ha.symm.trans hk)
          exact h.resolve_right fun hall => hall n hn hnull
        · intro h
          by_contra hno
          obtain ⟨hne, hsome⟩ := not_or.mp hno
          exact hsome fun n hn hnull => hne (h j n ha hn hnull))
  | _, .load _ | _, .requestIrq _ _ | _, .synchronizeIrq _ | _, .raise | _, .handlerReturn =>
    isTrue trivial

theorem handler_kept_patient : (sharedLine [workqueueThreadTest, irqTest]).Throughout Kept
    [.load 0, .requestIrq 0 0, .load 1, .requestIrq 1 (-EBUSY), .raise, .freeIrq 0,
      .handlerReturn, .synchronizeIrq 0, .freeIrq 1] := by
  have hrun : (sharedLine [workqueueThreadTest, irqTest]).Trace
      [.load 0, .requestIrq 0 0, .load 1, .requestIrq 1 (-EBUSY), .raise, .freeIrq 0,
        .handlerReturn, .synchronizeIrq 0, .freeIrq 1]
      ⟨.empty, [⟨workqueueThreadTest, .out⟩, ⟨irqTest, .out⟩]⟩ := System.trace_of_run (by decide)
  exact (handler_kept_iff hrun).mpr (System.eachStep_of_check (by decide))

/-- At most one of the drivers is loaded, it has the handler, and nothing of a driver that is
gone is left on the line. -/
structure Alone (s : State) : Prop where
  one : ∀ (i j : ℕ) (m n : Module) (r r' : ℤ), s.mods[i]? = some m → s.mods[j]? = some n →
    m.phase = .loaded r → n.phase = .loaded r' → i = j
  kept : Kept s
  live : Live s

section

variable {s t : State} {e : Event}

theorem granted_step (hchecks : ∀ (i : ℕ) (m : Module), s.mods[i]? = some m → m.driver.checks)
    (h : ∀ (i : ℕ) (m : Module) (r : ℤ), s.mods[i]? = some m → m.phase = .loaded r → r = 0)
    (hstep : Step s e t) :
    ∀ (i : ℕ) (m : Module) (r : ℤ), t.mods[i]? = some m → m.phase = .loaded r → r = 0 := by
  have hset {i : ℕ} {m' : Module} (hp : ∀ r, m'.phase = .loaded r → r = 0) :
      ∀ (j : ℕ) (n : Module) (r : ℤ), (s.mods.set i m')[j]? = some n → n.phase = .loaded r →
        r = 0 := by
    intro j n r hn hphase
    rcases entry_of_set hn with ⟨-, rfl⟩ | ⟨-, hn⟩
    · exact hp r hphase
    · exact h j n r hn hphase
  have hleave (m : Module) (r : ℤ) (hp : m.leave.phase = .loaded r) : r = 0 := by
    unfold Module.leave at hp
    split at hp
    · cases hp
    · cases hp
  cases hstep with
  | load i m hm hp | freeIrq i m ret j n hm hp ha hn hnull => exact hset (by simp)
  | requestIrq i m hm hp hfree => exact hset (by simp)
  | refused i m ret hm hp | freeMisses i m ret hm hp | synchronizeIrq i m hm hp =>
    exact hset (hleave m)
  | ignored i m ret hm hp hret hignores => exact absurd (hchecks i m hm) hignores
  | raise | handlerReturn => exact h

theorem frees_own_line
    (hgranted : ∀ (i : ℕ) (m : Module) (r : ℤ), s.mods[i]? = some m → m.phase = .loaded r → r = 0)
    (hnull : ∀ (i : ℕ) (m : Module), s.mods[i]? = some m → m.driver.cookie = none) (h : Kept s)
    (hstep : Step s e t) : FreesOwn s e ∧ Covered s e := by
  have howner {i : ℕ} {m : Module} {r : ℤ} (hm : s.mods[i]? = some m) (hp : m.phase = .loaded r) :
      s.line.action = some i := h i m hm (hgranted i m r hm hp ▸ hp)
  cases hstep with
  | freeIrq i m ret j n hm hp ha hn hcookie =>
    constructor
    · intro k d hk hd hd'
      exact Option.some.inj (hk.symm.trans (howner hm hp))
    · intro hnone
      exact absurd hcookie (freeNull_eq_none hnone ha hn)
  | freeMisses i m ret hm hp hnone =>
    exact absurd (hnull i m hm) (freeNull_eq_none hnone (howner hm hp) hm)
  | _ => exact ⟨trivial, trivial⟩

end

/-- Drivers that look at the result of their request and use the cookie NULL never meet on the
line: in every run one of them at most is loaded, and its handler is its own until it leaves. -/
theorem checking_drivers_alone {drivers : List Driver}
    (hdrivers : ∀ d ∈ drivers, d.checks ∧ d.cookie = none) {es : List Event} {s : State}
    (h : (sharedLine drivers).Trace es s) : Alone s := by
  have hboth : (∀ (i : ℕ) (m : Module) (r : ℤ), s.mods[i]? = some m → m.phase = .loaded r →
      r = 0) ∧ Kept s ∧ Settled s := by
    induction h with
    | nil =>
      have hout (i : ℕ) (m : Module) (hm : (initial drivers).mods[i]? = some m) :
          m.phase = .out := by
        obtain ⟨d, -, rfl⟩ := List.mem_map.mp (List.mem_of_getElem? hm)
        rfl
      refine ⟨?_, ?_, settled_initial drivers⟩
      · intro i m r hm hp
        rw [hout i m hm] at hp
        cases hp
      · intro i m hm hp
        rw [hout i m hm] at hp
        cases hp
    | snoc hs hstep ih =>
      obtain ⟨hgranted, hkept, hsettled⟩ := ih
      have hknown := trace_drivers hdrivers hs
      have hsound := step_sound hstep
      obtain ⟨hown, hcovered⟩ :=
        frees_own_line hgranted (fun i m hm => (hknown i m hm).2) hkept hsound
      exact ⟨granted_step (fun i m hm => (hknown i m hm).1) hgranted hsound,
        kept_step hown hkept hsound, settled_step hcovered hsettled hsound⟩
  obtain ⟨hgranted, hkept, hsettled⟩ := hboth
  refine ⟨?_, hkept, hsettled.live⟩
  intro i j m n r r' hm hn hp hp'
  have hi := hkept i m hm (hgranted i m r hm hp ▸ hp)
  have hj := hkept j n hn (hgranted j n r' hn hp' ▸ hp')
  exact Option.some.inj (hi.symm.trans hj)

theorem checking_drivers_alone_twice :
    Alone ⟨⟨some 1, some 1⟩, [⟨workqueueThreadTest, .out⟩, ⟨workqueueThreadTest, .loaded 0⟩]⟩ := by
  have hrun : (sharedLine [workqueueThreadTest, workqueueThreadTest]).Trace
      [.load 0, .requestIrq 0 0, .load 1, .requestIrq 1 (-EBUSY), .freeIrq 0, .synchronizeIrq 0,
        .load 1, .requestIrq 1 0, .raise]
      ⟨⟨some 1, some 1⟩, [⟨workqueueThreadTest, .out⟩, ⟨workqueueThreadTest, .loaded 0⟩]⟩ :=
    System.trace_of_run (by decide)
  exact checking_drivers_alone (by decide) hrun

end IrqSharedLine
