import LinuxDriver.IrqWorkqueueRotation
import LinuxDriver.Progress

/-!
# irq/workqueue_thread_test: the exit comes to its end

`free_irq` waits for the handler and `destroy_workqueue` for the queued work. From the moment at
which the handler is detached nothing new can come, and what is there is bounded.
-/
namespace IrqWorkqueueProgress

open TransitionSystem CallPool KernelTypes InterruptLine IrqWorkqueue IrqWorkqueueLifecycle
  IrqWorkqueueRotation Progress

@[simp] theorem at_worker (s : State) (pc : DriverPc) : (s.at pc).worker = s.worker := rfl
@[simp] theorem goto_queue (s : State) (pc : Option HandlerPc) : (s.goto pc).queue = s.queue := rfl
@[simp] theorem goto_worker (s : State) (pc : Option HandlerPc) :
    (s.goto pc).worker = s.worker := rfl
@[simp] theorem setItem_worker (s : State) (k : ℕ) (item : Item) :
    (s.setItem k item).worker = s.worker := rfl

def driverLeft : DriverPc → ℕ
  | .freeing => 2
  | .freed => 1
  | _ => 0

/-- An item that is queued costs five steps: one to take it, three lines, one to finish it. -/
def handlerLeft : Option HandlerPc → ℕ
  | some .entered => 8
  | some .wrapped => 7
  | some (.queued _) => 1
  | none => 0

def workerLeft : Option Work → ℕ
  | some w => 3 - w.i + 1
  | none => 0

def left (s : State) : ℕ :=
  driverLeft s.driver + handlerLeft s.line.running + 5 * s.queue.length + workerLeft s.worker

@[simp] def leaving : DriverPc → Bool
  | .freeing | .freed | .exited => true
  | _ => false

structure Gone (s : State) : Prop where
  driver : s.driver = .exited
  stopped : Stopped s

def Leaving (s : State) : Prop :=
  (∃ es, workqueueTest.Trace es s) ∧ leaving s.driver

section

variable {s t : State} {e : Event}

theorem Leaving.action (h : Leaving s) : s.line.action = none := by
  obtain ⟨⟨es, h⟩, hd⟩ := h
  have hline := (trace_lineHeld h).action
  rw [hline, if_neg]
  intro hl
  simp [hl] at hd

theorem leaving_step (h : Leaving s) (hstep : Step s e t) :
    leaving t.driver ∧ left t < left s := by
  have hnone := h.action
  have hd := h.2
  unfold left
  cases hstep with
  | initWork _ hpc | createWorkqueue _ hpc | createFails _ hpc | gpioRequest hpc
  | gpioDirectionInput hpc | requestIrq _ hpc | requestFails _ hpc | destroyErr1 _ hpc
  | freeIrq _ hpc | freeMisses hpc => simp [hpc] at hd
  | synchronizeIrq hpc hr => simp [driverLeft, handlerLeft, hpc, hr]
  | destroyWorkqueue hpc hq hw => simp [driverLeft, hpc, hq, hw]
  | raise l hl =>
    obtain ⟨hinst, -, -⟩ := Line.raise_eq_some.mp hl
    rw [hnone] at hinst
    cases hinst
  | wrap hr | reject item hr | handlerReturn ok hr => simpa [handlerLeft, hr] using hd
  | accept item hr =>
    refine ⟨hd, ?_⟩
    simp [handlerLeft, hr]
    omega
  | take k rest item hw hq =>
    refine ⟨hd, ?_⟩
    simp [workerLeft, hw, hq]
    omega
  | print w hw hi =>
    refine ⟨hd, ?_⟩
    simp only [workerLeft, hw]
    omega
  | finish w hw hi => simpa [workerLeft, hw] using hd

theorem goes_worker {w : Work} (hw : s.worker = some w) :
    ∃ e t, workqueueTest.step s e = some t := by
  by_cases hi : w.i < 3
  · exact ⟨.print, _, by simp [workqueueTest, step, stepWorker, hw, hi]; rfl⟩
  · exact ⟨.finish, _, by simp [workqueueTest, step, stepWorker, hw, hi]; rfl⟩

theorem goes_queue {es : List Event} (h : workqueueTest.Trace es s) {k : ℕ} {rest : List ℕ}
    (hw : s.worker = none) (hq : s.queue = k :: rest) : ∃ e t, workqueueTest.step s e = some t := by
  have hmarked := trace_marked h
  have hk : k < s.t.length := by
    rw [hmarked.indexed.size]
    exact hmarked.lt k (by simp [hq])
  have hitem := List.getElem?_eq_getElem hk
  exact ⟨.take, _, by simp [workqueueTest, step, stepWorker, hw, hq, hitem]; rfl⟩

theorem goes_handler {es : List Event} (h : workqueueTest.Trace es s) {pc : HandlerPc}
    (hr : s.line.running = some pc) : ∃ e t, workqueueTest.step s e = some t := by
  cases pc with
  | entered => exact ⟨.wrap, _, by simp [workqueueTest, step, stepHandler, hr]; rfl⟩
  | wrapped =>
    obtain ⟨hwq, item, hitem, hready⟩ :=
      canQueue (trace_lineHeld h) (trace_wqHeld h) (trace_indexed h) hr
    by_cases hp : item.pending
    · exact ⟨.queueWork, _, by
        simp [workqueueTest, step, stepHandler, hr, queueWork, hitem, hwq, hready, hp]; rfl⟩
    · exact ⟨.queueWork, _, by
        simp [workqueueTest, step, stepHandler, hr, queueWork, hitem, hwq, hready, hp]; rfl⟩
  | queued ok => exact ⟨.handlerReturn, _, by simp [workqueueTest, step, stepHandler, hr]; rfl⟩

/-- The worker comes first, then the queue, then the handler; the driver waits for all three. -/
theorem goes (h : Leaving s) (hleft : left s ≠ 0) : ∃ e t, workqueueTest.step s e = some t := by
  obtain ⟨⟨es, h⟩, hd⟩ := h
  cases hw : s.worker with
  | some w => exact goes_worker hw
  | none =>
    cases hq : s.queue with
    | cons k rest => exact goes_queue h hw hq
    | nil =>
      cases hr : s.line.running with
      | some pc => exact goes_handler h hr
      | none =>
        cases hpc : s.driver with
        | freeing => exact ⟨.synchronizeIrq, _, by
            simp [workqueueTest, step, stepDriver, hpc, hr]; rfl⟩
        | freed => exact ⟨.destroyWorkqueue, _, by
            simp [workqueueTest, step, stepDriver, hpc, destroyWorkqueue, hq, hw]; rfl⟩
        | exited => simp [left, driverLeft, handlerLeft, workerLeft, hpc, hr, hq, hw] at hleft
        | _ => simp [hpc] at hd

theorem gone_of_left (h : Leaving s) (hleft : left s = 0) : Gone s := by
  have hd := h.2
  obtain ⟨es, h⟩ := h.1
  have hexited : s.driver = .exited := by
    cases hpc : s.driver <;> simp_all [left, driverLeft]
  exact ⟨hexited, stopped_of_unloaded (trace_lineHeld h) (trace_wqHeld h) (by simp [hexited])⟩

end

theorem drains : Drains workqueueTest Leaving (fun _ => True) left where
  keeps := by
    rintro s e t hs - hstep
    obtain ⟨es, h⟩ := hs.1
    exact ⟨⟨_, h.snoc hstep⟩, (leaving_step hs (step_sound hstep)).1⟩
  lowers hs _ hstep := (leaving_step hs (step_sound hstep)).2
  goes hs hleft := by
    obtain ⟨e, t, hstep⟩ := goes hs hleft
    exact ⟨e, t, trivial, hstep⟩

theorem handlerLeft_le (pc : Option HandlerPc) : handlerLeft pc ≤ 8 := by
  unfold handlerLeft
  split <;> decide

theorem workerLeft_le (w : Option Work) : workerLeft w ≤ 4 := by
  unfold workerLeft
  split
  · omega
  · decide

/-- Once `tasklet_test_exit` has detached the handler, nothing at all goes on for more than 24
steps and nothing gets stuck: exit returns, and all work that was queued has been done. -/
theorem unload_returns {es : List Event} {s : State} (h : workqueueTest.Trace es s)
    (hd : s.driver = .loaded) : ∃ t, workqueueTest.step s .freeIrq = some t ∧
      ComesToRest workqueueTest (fun _ => True) Gone 24 t := by
  have haction := (trace_lineHeld h).action
  rw [if_pos hd] at haction
  let t : State := { s.at .freeing with line := ⟨none, s.line.running⟩ }
  have hstep : workqueueTest.step s .freeIrq = some t := by
    simp [workqueueTest, step, stepDriver, hd, Line.detach, haction, t]
  have hleaving : Leaving t := ⟨⟨_, h.snoc hstep⟩, rfl⟩
  have hbound : left t ≤ 24 := by
    have hqueue : t.queue.length ≤ 2 := by
      obtain hq | ⟨k, -, hq⟩ | ⟨k, -, j, -, -, hq⟩ := (trace_marked h).queue_cases
      · simp [t, hq]
      · simp [t, hq]
      · simp [t, hq]
    have hhandler := handlerLeft_le t.line.running
    have hworker := workerLeft_le t.worker
    have hdriver : driverLeft t.driver = 2 := rfl
    unfold left
    omega
  exact ⟨t, hstep, (drains.comesToRest gone_of_left hleaving).mono hbound⟩

/-- The interrupt has just come, both items are queued and one of them is running. -/
theorem unload_returns_busy : ∃ t,
    workqueueTest.step ⟨.loaded, ⟨some none, some .entered⟩, .live, [⟨true, true⟩, ⟨true, true⟩], 1,
      [1, 0], some ⟨0, 1⟩, 1⟩ .freeIrq = some t ∧
    ComesToRest workqueueTest (fun _ => True) Gone 24 t := by
  have hrun : workqueueTest.Trace (loading ++ interrupt ++ [.take] ++ interrupt ++ interrupt ++
      [.print, .raise])
      ⟨.loaded, ⟨some none, some .entered⟩, .live, [⟨true, true⟩, ⟨true, true⟩], 1,
        [1, 0], some ⟨0, 1⟩, 1⟩ := System.trace_of_run (by decide)
  exact unload_returns hrun rfl

end IrqWorkqueueProgress
