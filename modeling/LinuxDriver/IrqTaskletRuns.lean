import LinuxDriver.IrqTasklet
import LinuxDriver.SignalFlag
import LinuxDriver.Progress
import LinuxDriver.NumberedBlocks

/-!
# irq/tasklet_test: what interrupts and tasklet do

Interrupts that come before the tasklet has started share one execution, and every interrupt is
followed by one. The tasklet runs alone, so that the lock is never waited for and the counts of
two executions are never mixed.
-/
namespace IrqTaskletRuns

open TransitionSystem KernelTypes InterruptLine IrqTasklet SignalFlag Progress

@[simp] theorem at_scheduled (s : State) (pc : DriverPc) : (s.at pc).scheduled = s.scheduled := rfl
@[simp] theorem at_softirq (s : State) (pc : DriverPc) : (s.at pc).softirq = s.softirq := rfl

section

variable {s t : State} {e : Event}

theorem scheduled_step (hstep : Step s e t) (hset : e ≠ .schedule) (htake : e ≠ .taskMain) :
    t.scheduled = s.scheduled := by
  cases hstep with
  | schedule => exact absurd rfl hset
  | taskMain => exact absurd rfl htake
  | _ => rfl

theorem scheduled_set (hstep : Step s .schedule t) : t.scheduled = true := by
  cases hstep with
  | schedule => rfl

theorem scheduled_taken (hstep : Step s .taskMain t) :
    s.scheduled = true ∧ t.scheduled = false := by
  cases hstep with
  | taskMain hq hs => exact ⟨hs, rfl⟩

theorem flagged : Flagged taskletTest State.scheduled (· = .schedule) (· = .taskMain) where
  initial := rfl
  sets he hstep := scheduled_set (he ▸ step_sound hstep)
  takes he hstep := scheduled_taken (he ▸ step_sound hstep)
  keeps hset htake hstep := scheduled_step (step_sound hstep) hset htake

/-- After every interrupt the tasklet starts once more, unless it still waits to start, and
between two starts of it there is an interrupt. Starts and interrupts are those before the return
of exit; what is due then runs into code that is gone. -/
theorem interrupts_served {es : List Event} (h : taskletTest.Trace es s) :
    (∀ xs ys, es = xs ++ .schedule :: ys → .taskMain ∈ ys ∨ s.scheduled) ∧
      ∀ xs ys, es = xs ++ .taskMain :: ys →
        ∃ us vs, xs = us ++ .schedule :: vs ∧ .taskMain ∉ vs := by
  constructor
  · rintro xs ys rfl
    refine (flagged.taken_or_set h rfl).imp_left ?_
    rintro ⟨d, hd, rfl⟩
    exact hd
  · rintro xs ys rfl
    obtain ⟨us, d, vs, hxs, rfl, hvs⟩ := flagged.set_before_take h rfl
    exact ⟨us, vs, hxs, fun hmem => hvs _ hmem rfl⟩

def loading : List Event :=
  [.taskletInit, .spinLockInit, .gpioRequest, .gpioDirectionInput, .requestIrq 0]

def interrupt : List Event := [.raise, .schedule, .handlerReturn]

/-- The second interrupt shares the execution of the first, the third comes in the middle of it. -/
def threeInterrupts : List Event :=
  loading ++ interrupt ++ interrupt ++ [.taskMain, .lock, .print, .print] ++ interrupt ++
    [.print, .unlock, .taskMain]

theorem interrupts_served_three :
    ∃ us vs, loading ++ interrupt ++ interrupt ++ [.taskMain, .lock, .print, .print] ++ interrupt ++
      [.print, .unlock] = us ++ .schedule :: vs ∧ .taskMain ∉ vs := by
  have hrun : taskletTest.Trace threeInterrupts
      ⟨.loaded, ⟨some lockAddress, none⟩, false, some .entered, false, 3⟩ :=
    System.trace_of_run (by decide)
  exact (interrupts_served hrun).2 _ [] (by decide)

def ofTask : Event → Bool
  | .taskMain | .lock | .print | .unlock => true
  | _ => false

def taskEvents (es : List Event) : List Event := es.filter ofTask

def block : List Event := [.taskMain, .lock, .print, .print, .print, .unlock]

def position : Option TaskPc → ℕ
  | none => 0
  | some .entered => 1
  | some (.critical i) => i + 2

def progress : Option TaskPc → ℕ
  | some (.critical i) => i
  | _ => 0

def printed (s : State) : Event → List (BitVec 32)
  | .print => [s.cnt]
  | _ => []

/-- `n` executions of `task_main` are over, and the tasklet stands where it stands. -/
structure Executed (n : ℕ) (es : List Event) (prints : List (BitVec 32)) (s : State) : Prop where
  history : taskEvents es = (List.replicate n block).flatten ++ block.take (position s.softirq)
  counts : prints = (List.range (3 * n + progress s.softirq)).map (BitVec.ofNat 32)
  counter : s.cnt = BitVec.ofNat 32 (3 * n + progress s.softirq)
  held : s.held = true ↔ ∃ i, s.softirq = some (.critical i)
  loop : ∀ i, s.softirq = some (.critical i) → i ≤ 3

variable {n : ℕ} {es : List Event} {prints : List (BitVec 32)}

theorem taskEvents_snoc (es : List Event) (e : Event) :
    taskEvents (es ++ [e]) = taskEvents es ++ if ofTask e then [e] else [] := by
  rw [taskEvents, List.filter_append]
  cases h : ofTask e <;> simp [taskEvents, h]

theorem Executed.elsewhere (h : Executed n es prints s) (he : ¬ ofTask e)
    (hsoftirq : t.softirq = s.softirq) (hheld : t.held = s.held) (hcnt : t.cnt = s.cnt) :
    Executed n (es ++ [e]) (prints ++ printed s e) t := by
  have hprint : printed s e = [] := by cases e <;> simp_all [printed, ofTask]
  constructor
  · rw [taskEvents_snoc, if_neg he, List.append_nil, hsoftirq]
    exact h.history
  · rw [hprint, List.append_nil, hsoftirq]
    exact h.counts
  · rw [hcnt, hsoftirq]
    exact h.counter
  · rw [hheld, hsoftirq]
    exact h.held
  · rw [hsoftirq]
    exact h.loop

theorem history_next (h : Executed n es prints s) (he : ofTask e)
    (hnext : position t.softirq = position s.softirq + 1)
    (hblock : block[position s.softirq]? = some e) :
    taskEvents (es ++ [e]) =
      (List.replicate n block).flatten ++ block.take (position t.softirq) := by
  rw [taskEvents_snoc, if_pos he, h.history, hnext, List.take_add_one, hblock, List.append_assoc]
  rfl

theorem executed_taskMain (h : Executed n es prints s) (hq : s.softirq = none) :
    Executed n (es ++ [.taskMain]) (prints ++ [])
      { s with scheduled := false, softirq := some .entered } := by
  constructor
  · exact history_next h rfl (by simp [position, hq]) (by simp [position, hq, block])
  · simpa [hq, progress] using h.counts
  · simpa [hq, progress] using h.counter
  · simpa [hq] using h.held
  · simp

theorem executed_lock (h : Executed n es prints s) (hq : s.softirq = some .entered) :
    Executed n (es ++ [.lock]) (prints ++ [])
      { s with held := true, softirq := some (.critical 0) } := by
  constructor
  · exact history_next h rfl (by simp [position, hq]) (by simp [position, hq, block])
  · simpa [hq, progress] using h.counts
  · simpa [hq, progress] using h.counter
  · simp
  · rintro i hi
    cases hi
    exact Nat.zero_le 3

theorem executed_print {i : ℕ} (h : Executed n es prints s)
    (hq : s.softirq = some (.critical i)) (hi : i < 3) :
    Executed n (es ++ [.print]) (prints ++ [s.cnt])
      { s with softirq := some (.critical (i + 1)), cnt := s.cnt + 1 } := by
  have hcounts := h.counts
  have hcounter := h.counter
  simp only [hq, progress] at hcounts hcounter
  constructor
  · refine history_next h rfl (by simp [position, hq]) ?_
    obtain rfl | rfl | rfl : i = 0 ∨ i = 1 ∨ i = 2 := by omega
    all_goals simp [position, hq, block]
  · rw [hcounts, hcounter]
    simp only [progress]
    rw [← Nat.add_assoc, List.range_succ, List.map_append]
    rfl
  · rw [hcounter]
    exact (BitVec.ofNat_add _ _).symm
  · exact iff_of_true (h.held.mpr ⟨i, hq⟩) ⟨i + 1, rfl⟩
  · rintro j hj
    cases hj
    exact hi

theorem executed_unlock {i : ℕ} (h : Executed n es prints s)
    (hq : s.softirq = some (.critical i)) (hi : ¬ i < 3) :
    Executed (n + 1) (es ++ [.unlock]) (prints ++ [])
      { s with held := false, softirq := none } := by
  obtain rfl : i = 3 := Nat.le_antisymm (h.loop i hq) (Nat.not_lt.mp hi)
  have hcounts := h.counts
  have hcounter := h.counter
  simp only [hq, progress] at hcounts hcounter
  constructor
  · rw [taskEvents_snoc, h.history, hq, List.replicate_succ', List.flatten_append]
    simp [position, block, ofTask]
  · rw [List.append_nil, hcounts]
    rfl
  · exact hcounter
  · simp
  · simp

theorem executed_spinLockInit (hs : taskletTest.Trace es s) (h : Executed n es prints s)
    (hpc : s.driver = .taskletReady) :
    Executed n (es ++ [.spinLockInit]) (prints ++ []) { s.at .lockReady with held := false } := by
  have hidle := trace_idle hs ((trace_requested hs).before (by simp [hpc])).2
  have hfree : s.held = false := by
    by_contra hheld
    obtain ⟨i, hi⟩ := h.held.mp (eq_true_of_ne_false hheld)
    rw [hidle.softirq] at hi
    cases hi
  exact h.elsewhere (by simp [ofTask]) rfl hfree.symm rfl

theorem executed_step (hs : taskletTest.Trace es s) (h : Executed n es prints s)
    (hstep : Step s e t) : ∃ m, Executed m (es ++ [e]) (prints ++ printed s e) t := by
  cases hstep with
  | taskMain hq => exact ⟨n, executed_taskMain h hq⟩
  | lock hq => exact ⟨n, executed_lock h hq⟩
  | print i hq hi => exact ⟨n, executed_print h hq hi⟩
  | unlock i hq hi => exact ⟨n + 1, executed_unlock h hq hi⟩
  | spinLockInit hpc => exact ⟨n, executed_spinLockInit hs h hpc⟩
  | _ => exact ⟨n, h.elsewhere (by simp [ofTask]) rfl rfl rfl⟩

theorem trace_executed (h : taskletTest.Trace es s) :
    ∃ n, Executed n es (taskletTest.observe printed es) s := by
  induction h with
  | nil => exact ⟨0, rfl, rfl, rfl, by simp [taskletTest, initial], by simp [taskletTest, initial]⟩
  | snoc hs hstep ih =>
    obtain ⟨n, hn⟩ := ih
    rw [hs.observe_snoc]
    exact executed_step hs hn (step_sound hstep)

/-- The steps of the tasklet are whole executions and one that has come as far as the tasklet now
stands; the counts are consecutive, and the lock is held in the critical section only. There are no
steps after the return of exit, which frees the code: an unfinished execution stays so. -/
theorem executions_serial (h : taskletTest.Trace es s) :
    ∃ n, taskEvents es = (List.replicate n block).flatten ++ block.take (position s.softirq) ∧
      taskletTest.observe printed es =
        (List.range (3 * n + progress s.softirq)).map (BitVec.ofNat 32) ∧
      (s.held = true ↔ ∃ i, s.softirq = some (.critical i)) := by
  obtain ⟨n, hn⟩ := trace_executed h
  exact ⟨n, hn.history, hn.counts, hn.held⟩

theorem executions_serial_three :
    ∃ n, taskEvents threeInterrupts = (List.replicate n block).flatten ++ [.taskMain] ∧
      taskletTest.observe printed threeInterrupts = (List.range (3 * n)).map (BitVec.ofNat 32) ∧
      (false = true ↔ ∃ i, some TaskPc.entered = some (.critical i)) := by
  have hrun : taskletTest.Trace threeInterrupts
      ⟨.loaded, ⟨some lockAddress, none⟩, false, some .entered, false, 3⟩ :=
    System.trace_of_run (by decide)
  exact executions_serial hrun

def driverLeft : DriverPc → ℕ
  | .start => 7
  | .taskletReady => 6
  | .lockReady => 5
  | .gpioRequested => 4
  | .gpioInput => 3
  | .loaded => 2
  | .freeing => 1
  | .exited | .oops => 0

def handlerLeft : Option HandlerPc → ℕ
  | some .toSchedule => 8
  | some .toReturn => 1
  | none => 0

def taskLeft : Option TaskPc → ℕ
  | none => 0
  | some .entered => 5
  | some (.critical i) => 3 - i + 1

def workLeft (s : State) : ℕ :=
  driverLeft s.driver + handlerLeft s.line.running + 6 * s.scheduled.toNat + taskLeft s.softirq

/-- After a crash nothing goes on. -/
def left (s : State) : ℕ := if s.driver = .oops then 0 else workLeft s

/-- Exit has returned, and what the interrupts started is over. -/
structure Over (s : State) : Prop where
  driver : s.driver = .exited
  idle : Idle s

theorem due_iff : s.due ↔ ¬ Idle s := by
  have hidle : Idle s ↔ s.line.running = none ∧ s.scheduled = false ∧ s.softirq = none :=
    ⟨fun h => ⟨h.running, h.scheduled, h.softirq⟩, fun h => ⟨h.1, h.2.1, h.2.2⟩⟩
  rw [hidle, State.due]
  cases s.line.running <;> cases s.scheduled <;> cases s.softirq <;> simp

theorem workLeft_eq_zero (h : workLeft s = 0) : s.driver.gone ∧ Idle s := by
  unfold workLeft at h
  have hdriver : s.driver.gone := by
    cases hpc : s.driver <;> simp_all [driverLeft, DriverPc.gone]
  have hrunning : s.line.running = none := by
    rcases hr : s.line.running with _ | _ | _ <;> simp_all [handlerLeft]
  have hsoftirq : s.softirq = none := by
    rcases hq : s.softirq with _ | _ | _ <;> simp_all [taskLeft]
  have hscheduled : s.scheduled = false := by
    cases hs : s.scheduled <;> simp_all
  exact ⟨hdriver, hrunning, hscheduled, hsoftirq⟩

theorem workLeft_lt (hstep : Step s e t) (he : e ≠ .raise) (ht : t.driver ≠ .oops) :
    workLeft t < workLeft s := by
  unfold workLeft
  cases hstep with
  | raise => exact absurd rfl he
  | execute => exact absurd rfl ht
  | requestIrq l hpc hl =>
    obtain ⟨-, rfl⟩ := Line.request_eq_some.mp hl
    simp [hpc, driverLeft]
  | freeIrq l hpc hl =>
    obtain ⟨-, rfl⟩ := Line.detach_eq_some.mp hl
    simp [hpc, driverLeft]
  | schedule hr =>
    have hle := Bool.toNat_le s.scheduled
    simp [hr, handlerLeft]
    omega
  | handlerReturn hr => simp [hr, handlerLeft]
  | taskMain hq hs =>
    simp [hq, hs, taskLeft]
  | lock hq => simp [hq, taskLeft]
  | print i hq hi =>
    simp only [hq, taskLeft]
    omega
  | unlock i hq => simp [hq, taskLeft]
  | taskletInit hpc | spinLockInit hpc | gpioRequest hpc | gpioDirectionInput hpc
  | requestFails ret hpc | freeMisses hpc | synchronizeIrq hpc => simp [hpc, driverLeft]

theorem ne_oops_of_step (hstep : Step s e t) : s.driver ≠ .oops := by
  intro hoops
  cases hstep with
  | raise l hl hpc => exact hpc hoops
  | schedule hr hpc | handlerReturn hr hpc | taskMain hq hs hpc | lock hq hl hpc | print i hq hi hpc
  | unlock i hq hi hpc => simp [hoops, DriverPc.gone] at hpc
  | taskletInit hpc | spinLockInit hpc | gpioRequest hpc | gpioDirectionInput hpc
  | requestIrq l hpc | requestFails ret hpc | freeIrq l hpc | freeMisses hpc | synchronizeIrq hpc
  | execute hpc => simp [hoops] at hpc

theorem due_of_oops (hstep : Step s e t) (ht : t.driver = .oops) :
    s.driver = .exited ∧ ¬ Idle s := by
  have hs := ne_oops_of_step hstep
  cases hstep with
  | execute hpc hdue => exact ⟨hpc, due_iff.mp hdue⟩
  | requestIrq | requestFails | freeIrq | freeMisses | synchronizeIrq | taskletInit | spinLockInit
  | gpioRequest | gpioDirectionInput => cases ht
  | _ => exact absurd ht hs

theorem left_lt (hstep : Step s e t) (he : e ≠ .raise) : left t < left s := by
  rw [left, left, if_neg (ne_oops_of_step hstep)]
  split
  case isTrue ht =>
    apply Nat.pos_of_ne_zero
    intro hzero
    exact (due_of_oops hstep ht).2 (workLeft_eq_zero hzero).2
  case isFalse ht => exact workLeft_lt hstep he ht

def CanGo (s : State) : Prop := ∃ e t, e ≠ .raise ∧ taskletTest.step s e = some t

theorem canGo_present (hpc : ¬ s.driver.gone) (he : e ≠ .raise) (hstep : stepPresent s e = some t) :
    CanGo s := ⟨e, t, he, (step_present hpc).trans hstep⟩

theorem canGo_task {pc : TaskPc} (h : Executed n es prints s) (hpc : ¬ s.driver.gone)
    (hq : s.softirq = some pc) : CanGo s := by
  cases pc with
  | entered =>
    have hfree : s.held = false := by
      by_contra hheld
      obtain ⟨i, hi⟩ := h.held.mp (eq_true_of_ne_false hheld)
      rw [hq] at hi
      cases hi
    exact canGo_present hpc (e := .lock) (by simp) (by simp [stepPresent, stepTask, hq, hfree]; rfl)
  | critical i =>
    by_cases hi : i < 3
    · exact canGo_present hpc (e := .print) (by simp) (by simp [stepPresent, stepTask, hq, hi]; rfl)
    · exact canGo_present hpc (e := .unlock) (by simp)
        (by simp [stepPresent, stepTask, hq, hi]; rfl)

theorem canGo_handler {pc : HandlerPc} (hpc : ¬ s.driver.gone) (hr : s.line.running = some pc) :
    CanGo s := by
  cases pc with
  | toSchedule =>
    exact canGo_present hpc (e := .schedule) (by simp) (by simp [stepPresent, stepHandler, hr]; rfl)
  | toReturn =>
    exact canGo_present hpc (e := .handlerReturn) (by simp)
      (by simp [stepPresent, stepHandler, hr]; rfl)

theorem canGo_driver (hgone : ¬ s.driver.gone) (hr : s.line.running = none) : CanGo s := by
  cases hpc : s.driver with
  | start =>
    exact canGo_present hgone (e := .taskletInit) (by simp)
      (by simp [stepPresent, stepDriver, hpc]; rfl)
  | taskletReady =>
    exact canGo_present hgone (e := .spinLockInit) (by simp)
      (by simp [stepPresent, stepDriver, hpc]; rfl)
  | lockReady =>
    exact canGo_present hgone (e := .gpioRequest) (by simp)
      (by simp [stepPresent, stepDriver, hpc]; rfl)
  | gpioRequested =>
    exact canGo_present hgone (e := .gpioDirectionInput) (by simp)
      (by simp [stepPresent, stepDriver, hpc]; rfl)
  | gpioInput =>
    exact canGo_present hgone (e := .requestIrq (-16)) (by simp)
      (by simp [stepPresent, stepDriver, hpc]; rfl)
  | loaded =>
    cases hl : s.line.detach none with
    | some l =>
      exact canGo_present hgone (e := .freeIrq) (by simp)
        (by simp [stepPresent, stepDriver, hpc, hl]; rfl)
    | none =>
      exact canGo_present hgone (e := .freeIrq) (by simp)
        (by simp [stepPresent, stepDriver, hpc, hl]; rfl)
  | freeing =>
    exact canGo_present hgone (e := .synchronizeIrq) (by simp)
      (by simp [stepPresent, stepDriver, hpc, hr]; rfl)
  | exited | oops => exact absurd (by rw [hpc]; rfl) hgone

theorem canGo_exited (hpc : s.driver = .exited) (hdue : s.due) : CanGo s :=
  ⟨.execute, s.at .oops, by simp, by simp [taskletTest, step, hpc, stepGone, hdue]⟩

/-- At rest the module has gone and left nothing over, or the kernel has run into its code. -/
def Rest (s : State) : Prop := Over s ∨ s.driver = .oops

theorem rest_of_left (hleft : left s = 0) : Rest s := by
  by_cases hoops : s.driver = .oops
  · exact .inr hoops
  · rw [left, if_neg hoops] at hleft
    obtain ⟨hgone, hidle⟩ := workLeft_eq_zero hleft
    refine .inl ⟨?_, hidle⟩
    cases hpc : s.driver <;> simp_all [DriverPc.gone]

theorem canGo (h : taskletTest.Trace es s) (hleft : left s ≠ 0) : CanGo s := by
  have hoops : s.driver ≠ .oops := fun hoops => hleft (if_pos hoops)
  obtain ⟨n, hn⟩ := trace_executed h
  by_cases hgone : s.driver.gone
  · have hpc : s.driver = .exited := by cases hpc : s.driver <;> simp_all [DriverPc.gone]
    apply canGo_exited hpc
    rw [due_iff]
    rintro ⟨hr, hs, hq⟩
    simp [left, workLeft, hpc, hr, hs, hq, driverLeft, handlerLeft, taskLeft] at hleft
  · cases hq : s.softirq with
    | some pc => exact canGo_task hn hgone hq
    | none =>
      cases hs : s.scheduled with
      | true =>
        exact canGo_present hgone (e := .taskMain) (by simp)
          (by simp [stepPresent, stepTask, hq, hs]; rfl)
      | false =>
        cases hr : s.line.running with
        | some pc => exact canGo_handler hgone hr
        | none => exact canGo_driver hgone hr

/-- At some point of the run exit has returned and something is due. -/
def Outlived (es : List Event) : Prop :=
  ∃ pre u, pre <+: es ∧ taskletTest.Trace pre u ∧ u.driver = .exited ∧ ¬ Idle u

theorem outlived_of_oops (h : taskletTest.Trace es s) (hs : s.driver = .oops) : Outlived es := by
  cases h with
  | nil => cases hs
  | snoc hu hstep =>
    obtain ⟨hexited, hdue⟩ := due_of_oops (step_sound hstep) hs
    exact ⟨_, _, List.prefix_append _ _, hu, hexited, hdue⟩

theorem doomed_step (h : s.driver = .exited ∧ ¬ Idle s ∨ s.driver = .oops) (hstep : Step s e t) :
    t.driver = .exited ∧ ¬ Idle t ∨ t.driver = .oops := by
  rcases h with ⟨hd, hdue⟩ | hoops
  case inr => exact absurd hoops (ne_oops_of_step hstep)
  cases hstep with
  | raise l hl =>
    obtain ⟨-, -, rfl⟩ := Line.raise_eq_some.mp hl
    exact .inl ⟨hd, fun hidle => by simpa using hidle.running⟩
  | execute => exact .inr rfl
  | schedule hr hpc | handlerReturn hr hpc | taskMain hq hs hpc | lock hq hl hpc | print i hq hi hpc
  | unlock i hq hi hpc => simp [hd, DriverPc.gone] at hpc
  | taskletInit hpc | spinLockInit hpc | gpioRequest hpc | gpioDirectionInput hpc
  | requestIrq l hpc | requestFails ret hpc | freeIrq l hpc | freeMisses hpc
  | synchronizeIrq hpc => simp [hd] at hpc

theorem oops_of_outlived (h : taskletTest.Trace es s) (hout : Outlived es)
    (hstuck : ∀ e, e ≠ .raise → taskletTest.step s e = none) : s.driver = .oops := by
  obtain ⟨pre, u, ⟨rest, rfl⟩, hu, hd, hdue⟩ := hout
  obtain ⟨u', hu', hpath⟩ := h.split
  obtain rfl := hu.functional hu'
  have hdoomed := hpath.stable
    (I := fun s => s.driver = .exited ∧ ¬ Idle s ∨ s.driver = .oops) (.inl ⟨hd, hdue⟩)
    fun hI hstep => doomed_step hI (step_sound hstep)
  rcases hdoomed with ⟨hexited, hdue⟩ | hoops
  · obtain ⟨e, t, he, hstep⟩ := canGo_exited hexited (due_iff.mpr hdue)
    rw [hstuck e he] at hstep
    cases hstep
  · exact hoops

end

theorem drains : Drains taskletTest (fun s => ∃ es, taskletTest.Trace es s) (· ≠ .raise) left where
  keeps := by
    rintro s e t ⟨es, h⟩ - hstep
    exact ⟨_, h.snoc hstep⟩
  lowers _ he hstep := left_lt (step_sound hstep) he
  goes := by
    rintro s ⟨es, h⟩ hleft
    exact canGo h hleft

theorem left_le (s : State) : left s ≤ 26 := by
  have hdriver : driverLeft s.driver ≤ 7 := by cases s.driver <;> decide
  have hhandler : handlerLeft s.line.running ≤ 8 := by
    unfold handlerLeft
    split <;> decide
  have hscheduled := Bool.toNat_le s.scheduled
  have htask : taskLeft s.softirq ≤ 5 := by
    unfold taskLeft
    split
    · decide
    · decide
    · omega
  unfold left workLeft
  split <;> omega

/-- Without a further interrupt nothing goes on for more than 26 steps: the tasklet never waits
for its lock, exit returns, and no execution is left over. Where a run of the handler or of the
tasklet is due after the return of exit, and only there, the kernel crashes instead. -/
theorem unload_over {es : List Event} {s : State} (h : taskletTest.Trace es s) :
    ComesToRest taskletTest (· ≠ .raise) Rest 26 s ∧
      ∀ later t, taskletTest.Path s later t → (∀ e, e ≠ .raise → taskletTest.step t e = none) →
        (t.driver = .oops ↔ Outlived (es ++ later)) := by
  refine ⟨(drains.comesToRest (fun _ hleft => rest_of_left hleft) ⟨es, h⟩).mono (left_le s), ?_⟩
  intro later t hpath hstuck
  have hrun := h.append hpath
  exact ⟨outlived_of_oops hrun, fun hout => oops_of_outlived hrun hout hstuck⟩

theorem unload_over_three : ComesToRest taskletTest (· ≠ .raise) Rest 26
    ⟨.loaded, ⟨some lockAddress, none⟩, false, some .entered, false, 3⟩ := by
  have hrun : taskletTest.Trace threeInterrupts
      ⟨.loaded, ⟨some lockAddress, none⟩, false, some .entered, false, 3⟩ :=
    System.trace_of_run (by decide)
  exact (unload_over hrun).1

end IrqTaskletRuns
