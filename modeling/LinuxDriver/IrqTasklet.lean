import LinuxDriver.TransitionSystem
import LinuxDriver.KernelTypes
import LinuxDriver.InterruptLine

/-!
# irq/tasklet_test: an interrupt that schedules a tasklet

Init installs the handler under the cookie `&lock` and looks at no result; exit frees the
interrupt under the cookie NULL. The tasklet is never killed. When exit has returned the code of
the module is freed.
-/
namespace IrqTasklet

open TransitionSystem KernelTypes InterruptLine

/-- The address of the global `lock`, the cookie of the handler and the data of the tasklet. -/
def lockAddress : Pointer := some 0

inductive HandlerPc where
  | toSchedule
  | toReturn
  deriving DecidableEq, Repr

/-- How far `task_main` has come. In `critical` it holds the lock, with its loop index. -/
inductive TaskPc where
  | entered
  | critical (i : ℕ)
  deriving DecidableEq, Repr

/-- In `oops` the processor has run into the code of a module that is gone. -/
inductive DriverPc where
  | start
  | taskletReady
  | lockReady
  | gpioRequested
  | gpioInput
  | loaded
  | freeing
  | exited
  | oops
  deriving DecidableEq, Repr

def DriverPc.gone : DriverPc → Bool
  | .exited | .oops => true
  | _ => false

/-- `scheduled` is the bit that `tasklet_schedule` sets, `softirq` the execution in progress,
`held` the spinlock and `cnt` the static of `critical`. -/
structure State where
  driver : DriverPc
  line : Line Pointer HandlerPc
  scheduled : Bool
  softirq : Option TaskPc
  held : Bool
  cnt : BitVec 32
  deriving DecidableEq, Repr

inductive Event where
  | taskletInit
  | spinLockInit
  | gpioRequest
  | gpioDirectionInput
  | requestIrq (ret : ℤ)
  | freeIrq
  | synchronizeIrq
  | raise
  | schedule
  | handlerReturn
  | taskMain
  | lock
  | print
  | unlock
  | execute
  deriving DecidableEq, Repr

def State.at (s : State) (pc : DriverPc) : State := { s with driver := pc }

@[simp] theorem at_driver (s : State) (pc : DriverPc) : (s.at pc).driver = pc := rfl
@[simp] theorem at_line (s : State) (pc : DriverPc) : (s.at pc).line = s.line := rfl

def stepDriver (s : State) : DriverPc → Event → Option State
  | .start, .taskletInit => some (s.at .taskletReady)
  | .taskletReady, .spinLockInit => some { s.at .lockReady with held := false }
  | .lockReady, .gpioRequest => some (s.at .gpioRequested)
  | .gpioRequested, .gpioDirectionInput => some (s.at .gpioInput)
  | .gpioInput, .requestIrq ret =>
    if ret = 0 then
      (s.line.request lockAddress).map fun l => { s.at .loaded with line := l }
    else some (s.at .loaded)
  | .loaded, .freeIrq =>
    -- without a handler of this cookie `free_irq` returns at once
    match s.line.detach none with
    | some l => some { s.at .freeing with line := l }
    | none => some (s.at .exited)
  | .freeing, .synchronizeIrq => if s.line.running = none then some (s.at .exited) else none
  | _, _ => none

def stepHandler (s : State) : HandlerPc → Event → Option State
  | .toSchedule, .schedule =>
    some { s with line := s.line.move (some .toReturn), scheduled := true }
  | .toReturn, .handlerReturn => some { s with line := s.line.move none }
  | _, _ => none

def stepTask (s : State) : Option TaskPc → Event → Option State
  | none, .taskMain =>
    if s.scheduled then some { s with scheduled := false, softirq := some .entered } else none
  | some .entered, .lock =>
    if s.held then none else some { s with held := true, softirq := some (.critical 0) }
  | some (.critical i), .print =>
    if i < 3 then some { s with softirq := some (.critical (i + 1)), cnt := s.cnt + 1 } else none
  | some (.critical i), .unlock =>
    if i < 3 then none else some { s with held := false, softirq := none }
  | _, _ => none

def stepPresent (s : State) : Event → Option State
  | .raise => (s.line.raise .toSchedule).map fun l => { s with line := l }
  | .schedule => s.line.running.bind fun pc => stepHandler s pc .schedule
  | .handlerReturn => s.line.running.bind fun pc => stepHandler s pc .handlerReturn
  | .taskMain => stepTask s s.softirq .taskMain
  | .lock => stepTask s s.softirq .lock
  | .print => stepTask s s.softirq .print
  | .unlock => stepTask s s.softirq .unlock
  | e => stepDriver s s.driver e

/-- A run of the handler or of the tasklet is in progress or scheduled. -/
def State.due (s : State) : Bool :=
  s.line.running.isSome || s.scheduled || s.softirq.isSome

/-- Interrupts still lead to a handler that is installed, and what is due no longer finds its
code. -/
def stepGone (s : State) : Event → Option State
  | .raise => (s.line.raise .toSchedule).map fun l => { s with line := l }
  | .execute => if s.due then some (s.at .oops) else none
  | _ => none

def step (s : State) (e : Event) : Option State :=
  match s.driver with
  | .oops => none
  | .exited => stepGone s e
  | _ => stepPresent s e

def initial : State := ⟨.start, .empty, false, none, false, 0⟩

def taskletTest : System State Event := ⟨initial, step⟩

inductive Step : State → Event → State → Prop where
  | taskletInit (s) (hpc : s.driver = .start) : Step s .taskletInit (s.at .taskletReady)
  | spinLockInit (s) (hpc : s.driver = .taskletReady) :
      Step s .spinLockInit { s.at .lockReady with held := false }
  | gpioRequest (s) (hpc : s.driver = .lockReady) : Step s .gpioRequest (s.at .gpioRequested)
  | gpioDirectionInput (s) (hpc : s.driver = .gpioRequested) :
      Step s .gpioDirectionInput (s.at .gpioInput)
  | requestIrq (s l) (hpc : s.driver = .gpioInput) (hl : s.line.request lockAddress = some l) :
      Step s (.requestIrq 0) { s.at .loaded with line := l }
  | requestFails (s ret) (hpc : s.driver = .gpioInput) (hret : ret ≠ 0) :
      Step s (.requestIrq ret) (s.at .loaded)
  | freeIrq (s l) (hpc : s.driver = .loaded) (hl : s.line.detach none = some l) :
      Step s .freeIrq { s.at .freeing with line := l }
  | freeMisses (s) (hpc : s.driver = .loaded) (hl : s.line.detach none = none) :
      Step s .freeIrq (s.at .exited)
  | synchronizeIrq (s) (hpc : s.driver = .freeing) (hr : s.line.running = none) :
      Step s .synchronizeIrq (s.at .exited)
  | raise (s l) (hl : s.line.raise .toSchedule = some l) (hpc : s.driver ≠ .oops) :
      Step s .raise { s with line := l }
  | schedule (s) (hr : s.line.running = some .toSchedule) (hpc : ¬ s.driver.gone) :
      Step s .schedule { s with line := s.line.move (some .toReturn), scheduled := true }
  | handlerReturn (s) (hr : s.line.running = some .toReturn) (hpc : ¬ s.driver.gone) :
      Step s .handlerReturn { s with line := s.line.move none }
  | taskMain (s) (hq : s.softirq = none) (hs : s.scheduled) (hpc : ¬ s.driver.gone) :
      Step s .taskMain { s with scheduled := false, softirq := some .entered }
  | lock (s) (hq : s.softirq = some .entered) (hl : ¬ s.held) (hpc : ¬ s.driver.gone) :
      Step s .lock { s with held := true, softirq := some (.critical 0) }
  | print (s i) (hq : s.softirq = some (.critical i)) (hi : i < 3) (hpc : ¬ s.driver.gone) :
      Step s .print { s with softirq := some (.critical (i + 1)), cnt := s.cnt + 1 }
  | unlock (s i) (hq : s.softirq = some (.critical i)) (hi : ¬ i < 3) (hpc : ¬ s.driver.gone) :
      Step s .unlock { s with held := false, softirq := none }
  | execute (s) (hpc : s.driver = .exited) (hdue : s.due) : Step s .execute (s.at .oops)

theorem stepDriver_sound {s t : State} {e : Event} (h : stepDriver s s.driver e = some t) :
    Step s e t := by
  generalize hpc : s.driver = pc at h
  unfold stepDriver at h
  split at h
  case h_1 => exact Option.some.inj h ▸ .taskletInit s hpc
  case h_2 => exact Option.some.inj h ▸ .spinLockInit s hpc
  case h_3 => exact Option.some.inj h ▸ .gpioRequest s hpc
  case h_4 => exact Option.some.inj h ▸ .gpioDirectionInput s hpc
  case h_5 ret =>
    split at h
    case isTrue hret =>
      rcases Option.map_eq_some_iff.mp h with ⟨l, hl, rfl⟩
      exact hret ▸ .requestIrq s l hpc hl
    case isFalse hret => exact Option.some.inj h ▸ .requestFails s ret hpc hret
  case h_6 =>
    split at h
    case h_1 l hl => exact Option.some.inj h ▸ .freeIrq s l hpc hl
    case h_2 hl => exact Option.some.inj h ▸ .freeMisses s hpc hl
  case h_7 =>
    rcases Option.ite_none_right_eq_some.mp h with ⟨hr, h⟩
    exact Option.some.inj h ▸ .synchronizeIrq s hpc hr
  case h_8 => cases h

theorem stepHandler_sound {s t : State} {e : Event} {pc : HandlerPc} (hpc : ¬ s.driver.gone)
    (hr : s.line.running = some pc) (h : stepHandler s pc e = some t) : Step s e t := by
  unfold stepHandler at h
  split at h
  · exact Option.some.inj h ▸ .schedule s hr hpc
  · exact Option.some.inj h ▸ .handlerReturn s hr hpc
  · cases h

theorem stepTask_sound {s t : State} {e : Event} (hpc : ¬ s.driver.gone)
    (h : stepTask s s.softirq e = some t) : Step s e t := by
  generalize hq : s.softirq = q at h
  unfold stepTask at h
  split at h
  · rcases Option.ite_none_right_eq_some.mp h with ⟨hs, h⟩
    exact Option.some.inj h ▸ .taskMain s hq hs hpc
  · rcases Option.ite_none_left_eq_some.mp h with ⟨hl, h⟩
    exact Option.some.inj h ▸ .lock s hq hl hpc
  · rcases Option.ite_none_right_eq_some.mp h with ⟨hi, h⟩
    exact Option.some.inj h ▸ .print s _ hq hi hpc
  · rcases Option.ite_none_left_eq_some.mp h with ⟨hi, h⟩
    exact Option.some.inj h ▸ .unlock s _ hq hi hpc
  · cases h

theorem stepPresent_sound {s t : State} {e : Event} (hpc : ¬ s.driver.gone)
    (h : stepPresent s e = some t) : Step s e t := by
  cases e with
  | raise =>
    rcases Option.map_eq_some_iff.mp h with ⟨l, hl, rfl⟩
    exact .raise s l hl fun hoops => hpc (by rw [hoops]; rfl)
  | schedule | handlerReturn =>
    rcases Option.bind_eq_some_iff.mp h with ⟨pc, hr, h⟩
    exact stepHandler_sound hpc hr h
  | taskMain | lock | print | unlock => exact stepTask_sound hpc h
  | _ => exact stepDriver_sound h

theorem step_present {s : State} {e : Event} (hpc : ¬ s.driver.gone) :
    step s e = stepPresent s e := by
  unfold step
  split
  case h_1 hoops => exact absurd (by rw [hoops]; rfl) hpc
  case h_2 hexited => exact absurd (by rw [hexited]; rfl) hpc
  case h_3 => rfl

theorem step_sound {s t : State} {e : Event} (h : step s e = some t) : Step s e t := by
  by_cases hgone : s.driver.gone
  case neg => exact stepPresent_sound hgone (step_present hgone ▸ h)
  unfold step at h
  split at h
  case h_1 => cases h
  case h_2 hexited =>
    cases e with
    | raise =>
      rcases Option.map_eq_some_iff.mp h with ⟨l, hl, rfl⟩
      exact .raise s l hl (by simp [hexited])
    | execute =>
      rcases Option.ite_none_right_eq_some.mp h with ⟨hdue, h⟩
      exact Option.some.inj h ▸ .execute s hexited hdue
    | _ => cases h
  case h_3 hoops hexited => cases hpc : s.driver <;> simp_all [DriverPc.gone]

structure Idle (s : State) : Prop where
  running : s.line.running = none
  scheduled : s.scheduled = false
  softirq : s.softirq = none

def QuietForever (s : State) : Prop := ∀ es t, taskletTest.Path s es t → Idle t

def requests (es : List Event) : List ℤ :=
  es.filterMap fun
    | .requestIrq ret => some ret
    | _ => none

@[simp] def afterRequest : DriverPc → Bool
  | .loaded | .freeing | .exited | .oops => true
  | _ => false

/-- The handler is installed exactly when the one call of `request_irq` succeeded, under a
cookie that exit never names. -/
structure Requested (rs : List ℤ) (s : State) : Prop where
  before : ¬ afterRequest s.driver → rs = [] ∧ s.line.action = none
  after : afterRequest s.driver → ∃ ret, rs = [ret] ∧
    s.line.action = if ret = 0 then some lockAddress else none

theorem Requested.action_ne {rs : List ℤ} {s : State} (h : Requested rs s) :
    s.line.action ≠ some none := by
  intro hnull
  by_cases hd : afterRequest s.driver
  · obtain ⟨ret, -, haction⟩ := h.after hd
    rw [hnull] at haction
    split at haction <;> cases haction
  · rw [(h.before hd).2] at hnull
    cases hnull

theorem requested_keep {rs ms : List ℤ} {s t : State} (h : Requested rs s) (hms : ms = [])
    (hd : afterRequest t.driver = afterRequest s.driver) (ha : t.line.action = s.line.action) :
    Requested (rs ++ ms) t := by
  rw [hms, List.append_nil]
  exact ⟨by rw [hd, ha]; exact h.before, by rw [hd, ha]; exact h.after⟩

theorem requested_step {rs : List ℤ} {s t : State} {e : Event} (h : Requested rs s)
    (hstep : Step s e t) : Requested (rs ++ requests [e]) t := by
  cases hstep with
  | requestIrq l hpc hl =>
    rcases Line.request_eq_some.mp hl with ⟨-, rfl⟩
    obtain ⟨rfl, -⟩ := h.before (by simp [hpc])
    exact ⟨by simp, fun _ => ⟨0, rfl, rfl⟩⟩
  | requestFails ret hpc hret =>
    obtain ⟨rfl, hnone⟩ := h.before (by simp [hpc])
    exact ⟨by simp, fun _ => ⟨ret, rfl, by simp [hret, hnone]⟩⟩
  | freeIrq l hpc hl => exact absurd (Line.detach_eq_some.mp hl).1 h.action_ne
  | raise l hl =>
    rcases Line.raise_eq_some.mp hl with ⟨-, -, rfl⟩
    exact requested_keep h rfl rfl rfl
  | taskletInit hpc | spinLockInit hpc | gpioRequest hpc | gpioDirectionInput hpc
  | freeMisses hpc | synchronizeIrq hpc | execute hpc =>
    exact requested_keep h rfl (by simp [hpc]) rfl
  | _ => exact requested_keep h rfl rfl rfl

theorem trace_requested {es : List Event} {s : State} (h : taskletTest.Trace es s) :
    Requested (requests es) s := by
  induction h with
  | nil => exact ⟨fun _ => ⟨rfl, rfl⟩, by simp [taskletTest, initial]⟩
  | @snoc es s e t hs hstep ih =>
    have happend : requests (es ++ [e]) = requests es ++ requests [e] := List.filterMap_append
    rw [happend]
    exact requested_step ih (step_sound hstep)

theorem idle_step {s t : State} {e : Event} (hcookie : s.line.action ≠ some none)
    (h : s.line.action = none → Idle s) (hstep : Step s e t) :
    t.line.action = none → Idle t := by
  cases hstep with
  | requestIrq l hpc hl =>
    rcases Line.request_eq_some.mp hl with ⟨-, rfl⟩
    intro hnone
    cases hnone
  | freeIrq l hpc hl => exact absurd (Line.detach_eq_some.mp hl).1 hcookie
  | raise l hl =>
    rcases Line.raise_eq_some.mp hl with ⟨hinst, -, rfl⟩
    intro hnone
    have hnone : s.line.action = none := hnone
    rw [hnone] at hinst
    cases hinst
  | schedule hr | handlerReturn hr =>
    intro hnone
    exact absurd (h hnone).running (by simp [hr])
  | taskMain hq hs =>
    intro hnone
    exact absurd (h hnone).scheduled (by simp [hs])
  | lock hq | print i hq | unlock i hq =>
    intro hnone
    exact absurd (h hnone).softirq (by simp [hq])
  | _ =>
    intro hnone
    exact ⟨(h hnone).running, (h hnone).scheduled, (h hnone).softirq⟩

theorem trace_idle {es : List Event} {s : State} (h : taskletTest.Trace es s) :
    s.line.action = none → Idle s := by
  induction h with
  | nil =>
    intro _
    exact ⟨rfl, rfl, rfl⟩
  | snoc hs hstep ih => exact idle_step (trace_requested hs).action_ne ih (step_sound hstep)

theorem gone_step {s t : State} {e : Event} (h : s.driver.gone ∧ s.line.action = none)
    (hstep : Step s e t) : t.driver.gone ∧ t.line.action = none := by
  obtain ⟨hd, ha⟩ := h
  cases hstep with
  | taskletInit hpc | spinLockInit hpc | gpioRequest hpc | gpioDirectionInput hpc
  | requestIrq l hpc | requestFails ret hpc | freeIrq l hpc | freeMisses hpc
  | synchronizeIrq hpc => simp [hpc, DriverPc.gone] at hd
  | execute => exact ⟨rfl, ha⟩
  | raise l hl =>
    rcases Line.raise_eq_some.mp hl with ⟨-, -, rfl⟩
    exact ⟨hd, ha⟩
  | _ => exact ⟨hd, ha⟩

theorem quiet_of_no_handler {es : List Event} {s : State} (h : taskletTest.Trace es s)
    (hd : s.driver = .exited) (ha : s.line.action = none) : QuietForever s := by
  intro fs t hpath
  have hlater := hpath.stable (I := fun s => s.driver.gone ∧ s.line.action = none)
    ⟨by rw [hd]; rfl, ha⟩ fun hI hstep => gone_step hI (step_sound hstep)
  exact trace_idle (h.append hpath) hlater.2

theorem not_quiet_of_handler {s : State} (hd : s.driver = .exited)
    (ha : s.line.action = some lockAddress) : ¬ QuietForever s := by
  intro hquiet
  have hidle := hquiet [] s (System.path_nil.mpr rfl)
  have hraise : taskletTest.step s .raise =
      some { s with line := ⟨some lockAddress, some .toSchedule⟩ } := by
    simp [taskletTest, step, stepGone, hd, Line.raise_of_installed ha hidle.running]
  have hlater := hquiet [.raise] _ (System.path_single.mpr hraise)
  exact absurd hlater.running (by simp)

/-- Exit leaves the driver quiet in exactly the runs in which the interrupt was refused. -/
theorem quiet_after_exit_iff {es : List Event} {s : State} (h : taskletTest.Trace es s)
    (hd : s.driver = .exited) : QuietForever s ↔ ∃ ret ∈ requests es, ret ≠ 0 := by
  obtain ⟨ret, hrs, haction⟩ := (trace_requested h).after (by simp [hd])
  rw [hrs]
  simp only [List.mem_singleton, exists_eq_left]
  constructor
  · rintro hquiet rfl
    exact not_quiet_of_handler hd haction hquiet
  · intro hret
    exact quiet_of_no_handler h hd (by rw [haction, if_neg hret])

theorem quiet_after_exit_iff_refused :
    QuietForever ⟨.exited, ⟨none, none⟩, false, none, false, 0⟩ := by
  have hrun : taskletTest.Trace [.taskletInit, .spinLockInit, .gpioRequest, .gpioDirectionInput,
      .requestIrq (-16), .freeIrq] ⟨.exited, ⟨none, none⟩, false, none, false, 0⟩ :=
    System.trace_of_run (by decide)
  exact (quiet_after_exit_iff hrun rfl).mpr ⟨-16, by decide⟩

/-- After a successful load the handler is still installed when exit has returned. -/
theorem handler_after_exit : ¬ ∀ es s, taskletTest.Trace es s → s.driver = .exited →
    QuietForever s := by
  intro h
  have hrun : taskletTest.Trace [.taskletInit, .spinLockInit, .gpioRequest, .gpioDirectionInput,
      .requestIrq 0, .freeIrq] ⟨.exited, ⟨some lockAddress, none⟩, false, none, false, 0⟩ :=
    System.trace_of_run (by decide)
  exact not_quiet_of_handler rfl rfl (h _ _ hrun rfl)

end IrqTasklet
