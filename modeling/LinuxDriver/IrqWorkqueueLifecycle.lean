import LinuxDriver.IrqWorkqueue

/-!
# Loading and unloading around the interrupt

What the control point of init and exit says about the handler, the workqueue and the items,
for every interleaving with the interrupt and the worker.
-/
namespace IrqWorkqueueLifecycle

open TransitionSystem CallPool KernelTypes InterruptLine IrqWorkqueue

/-- The handler is installed exactly while the module is loaded, under the cookie that exit
will name, and no run of it outlives `free_irq`. -/
structure LineHeld (s : State) : Prop where
  action : s.line.action = if s.driver = .loaded then some none else none
  running : s.line.running ≠ none → s.driver = .loaded ∨ s.driver = .freeing

theorem LineHeld.silent {s : State} (h : LineHeld s) (hl : s.driver ≠ .loaded)
    (hf : s.driver ≠ .freeing) : s.line.Silent := by
  constructor
  · rw [h.action, if_neg hl]
  · by_contra hr
    exact (h.running hr).elim hl hf

theorem lineHeld_of_silent {s : State} (hs : s.line.Silent) (hl : s.driver ≠ .loaded) :
    LineHeld s :=
  ⟨by rw [hs.1, if_neg hl], fun hr => absurd hs.2 hr⟩

theorem lineHeld_move {s : State} {pc : HandlerPc} {next : Option HandlerPc} (h : LineHeld s)
    (hr : s.line.running = some pc) {t : State} (hd : t.driver = s.driver)
    (hl : t.line = s.line.move next) : LineHeld t := by
  constructor
  · rw [hl, hd]
    exact h.action
  · intro _
    rw [hd]
    exact h.running (by simp [hr])

theorem lineHeld_step {s t : State} {e : Event} (h : LineHeld s) (hstep : Step s e t) :
    LineHeld t := by
  cases hstep with
  | initWork i hpc | createWorkqueue i hpc | createFails i hpc | gpioRequest hpc
  | gpioDirectionInput hpc | requestFails ret hpc | destroyErr1 ret hpc | destroyWorkqueue hpc =>
    exact lineHeld_of_silent (h.silent (by simp [hpc]) (by simp [hpc])) (by simp)
  | requestIrq l hpc hl =>
    rcases Line.request_eq_some.mp hl with ⟨-, rfl⟩
    exact ⟨by simp, fun _ => .inl rfl⟩
  | freeIrq l hpc hl =>
    rcases Line.detach_eq_some.mp hl with ⟨-, rfl⟩
    exact ⟨by simp, fun _ => .inr rfl⟩
  | freeMisses hpc hl =>
    have haction := h.action
    rw [if_pos hpc] at haction
    simp [Line.detach, haction] at hl
  | synchronizeIrq hpc hr =>
    have haction := h.action
    rw [if_neg (by simp [hpc])] at haction
    exact lineHeld_of_silent ⟨haction, hr⟩ (by simp)
  | raise l hl =>
    rcases Line.raise_eq_some.mp hl with ⟨hinst, -, rfl⟩
    have hloaded : s.driver = .loaded := by
      by_contra hne
      rw [h.action, if_neg hne] at hinst
      cases hinst
    exact ⟨h.action, fun _ => .inl hloaded⟩
  | wrap hr => exact lineHeld_move h hr rfl rfl
  | reject item hr => exact lineHeld_move h hr rfl rfl
  | accept item hr => exact lineHeld_move h hr rfl rfl
  | handlerReturn ok hr => exact lineHeld_move h hr rfl rfl
  | take | print | finish => exact ⟨h.action, h.running⟩

@[simp] def hasWq : DriverPc → Bool
  | .wqCreated | .gpioRequested | .gpioInput | .err1 _ | .loaded | .freeing | .freed => true
  | _ => false

@[simp] def hasWork : DriverPc → Bool
  | .loaded | .freeing | .freed => true
  | _ => false

def readyUpTo : DriverPc → ℕ
  | .initWork i => i
  | _ => NUM

structure WqHeld (s : State) : Prop where
  live : hasWq s.driver → s.wq = .live
  idle : ¬ hasWork s.driver → s.queue = [] ∧ s.worker = none
  ready : ∀ (k : ℕ) (item : Item), s.t[k]? = some item → k < readyUpTo s.driver → item.ready

theorem live_step {s t : State} {e : Event} (h : hasWq s.driver → s.wq = .live)
    (hstep : Step s e t) : hasWq t.driver → t.wq = .live := by
  cases hstep with
  | initWork | createFails | destroyErr1 | destroyWorkqueue => simp
  | createWorkqueue =>
    intro _
    exact rfl
  | gpioRequest hpc | gpioDirectionInput hpc | requestIrq l hpc | requestFails ret hpc
  | freeIrq l hpc | freeMisses hpc | synchronizeIrq hpc =>
    intro _
    exact h (by simp [hpc])
  | _ => exact h

/-- Only a run of the handler queues work, and there is work only after that. -/
theorem idle_step {s t : State} {e : Event} (hline : LineHeld s)
    (h : ¬ hasWork s.driver → s.queue = [] ∧ s.worker = none) (hstep : Step s e t) :
    ¬ hasWork t.driver → t.queue = [] ∧ t.worker = none := by
  cases hstep with
  | initWork i hpc | createWorkqueue i hpc | createFails i hpc | gpioRequest hpc
  | gpioDirectionInput hpc | requestFails ret hpc =>
    intro _
    exact h (by simp [hpc])
  | requestIrq | freeIrq | freeMisses | synchronizeIrq => simp
  | destroyErr1 ret hpc hq hw | destroyWorkqueue hpc hq hw =>
    intro _
    exact ⟨hq, hw⟩
  | accept item hr =>
    intro hnone
    obtain hd | hd := hline.running (by simp [hr]) <;> simp [hd] at hnone
  | take k rest item hw hq =>
    intro hnone
    exact absurd (h hnone).1 (by simp [hq])
  | print w hw | finish w hw =>
    intro hnone
    exact absurd (h hnone).2 (by simp [hw])
  | raise | wrap | reject | handlerReturn => exact h

theorem ready_of_setPending {t : List Item} {k j n : ℕ} {old item : Item} {b : Bool}
    (h : ∀ (k : ℕ) (item : Item), t[k]? = some item → k < n → item.ready)
    (hk : t[k]? = some old) (hj : (t.set k { old with pending := b })[j]? = some item)
    (hn : j < n) : item.ready := by
  rcases entry_of_set hj with ⟨rfl, rfl⟩ | ⟨-, hj⟩
  · exact h j old hk hn
  · exact h j item hj hn

theorem ready_step {s t : State} {e : Event}
    (h : ∀ (k : ℕ) (item : Item), s.t[k]? = some item → k < readyUpTo s.driver → item.ready)
    (hstep : Step s e t) :
    ∀ (k : ℕ) (item : Item), t.t[k]? = some item → k < readyUpTo t.driver → item.ready := by
  cases hstep with
  | initWork i hpc hi =>
    intro k item hk hlt
    rcases entry_of_set hk with ⟨-, rfl⟩ | ⟨hne, hk⟩
    · rfl
    · exact h k item hk (by simp only [at_driver, readyUpTo, hpc] at hlt ⊢; omega)
  | createWorkqueue i hpc hi | createFails i hpc hi =>
    intro k item hk hlt
    exact h k item hk (by simp only [at_driver, readyUpTo, hpc] at hlt ⊢; omega)
  | gpioRequest hpc | gpioDirectionInput hpc | requestIrq l hpc | requestFails ret hpc
  | destroyErr1 ret hpc | freeIrq l hpc | freeMisses hpc | synchronizeIrq hpc
  | destroyWorkqueue hpc => simpa [readyUpTo, hpc] using h
  | accept item hr hi =>
    intro j it hj hlt
    exact ready_of_setPending h hi hj hlt
  | take k rest item hw hq hk =>
    intro j it hj hlt
    exact ready_of_setPending h hk hj hlt
  | raise | wrap | reject | handlerReturn | print | finish => exact h

theorem trace_lineHeld {es : List Event} {s : State} (h : workqueueTest.Trace es s) :
    LineHeld s :=
  h.invariant (lineHeld_of_silent ⟨rfl, rfl⟩ (by simp [workqueueTest, initial]))
    fun hI hstep => lineHeld_step hI (step_sound hstep)

theorem trace_wqHeld {es : List Event} {s : State} (h : workqueueTest.Trace es s) :
    WqHeld s := by
  have hboth := h.invariant (I := fun s => LineHeld s ∧ WqHeld s)
    ⟨trace_lineHeld .nil, by simp [workqueueTest, initial],
      fun _ => ⟨rfl, rfl⟩, by simp [workqueueTest, initial, readyUpTo]⟩
    fun hI hstep => ⟨lineHeld_step hI.1 (step_sound hstep),
      live_step hI.2.live (step_sound hstep), idle_step hI.1 hI.2.idle (step_sound hstep),
      ready_step hI.2.ready (step_sound hstep)⟩
  exact hboth.2

/-- The index stays in the array whenever `irq_handler` is about to use it. -/
structure Indexed (s : State) : Prop where
  size : s.t.length = NUM
  le : s.i ≤ NUM
  lt : s.line.running = some .wrapped → s.i < NUM

theorem indexed_step {s t : State} {e : Event} (h : Indexed s) (hstep : Step s e t) :
    Indexed t := by
  cases hstep with
  | initWork i hpc hi => exact ⟨by simpa [State.at, State.setItem] using h.size, h.le, h.lt⟩
  | requestIrq l hpc hl =>
    rcases Line.request_eq_some.mp hl with ⟨-, rfl⟩
    exact ⟨h.size, h.le, h.lt⟩
  | freeIrq l hpc hl =>
    rcases Line.detach_eq_some.mp hl with ⟨-, rfl⟩
    exact ⟨h.size, h.le, h.lt⟩
  | raise l hl =>
    rcases Line.raise_eq_some.mp hl with ⟨-, -, rfl⟩
    exact ⟨h.size, h.le, by simp⟩
  | wrap hr =>
    have hle := h.le
    have hlt : (if s.i = NUM then 0 else s.i) < NUM := by
      split
      · decide
      · omega
    exact ⟨h.size, Nat.le_of_lt hlt, fun _ => hlt⟩
  | reject item hr => exact ⟨h.size, h.lt hr, by simp⟩
  | accept item hr =>
    exact ⟨by simpa [State.goto, State.setItem] using h.size, h.lt hr, by simp⟩
  | handlerReturn ok hr => exact ⟨h.size, h.le, by simp⟩
  | take k rest item hw hq hk => exact ⟨by simpa [State.setItem] using h.size, h.le, h.lt⟩
  | _ => exact ⟨h.size, h.le, h.lt⟩

theorem trace_indexed {es : List Event} {s : State} (h : workqueueTest.Trace es s) :
    Indexed s :=
  h.invariant ⟨by simp [workqueueTest, initial], Nat.zero_le _, by simp [workqueueTest, initial]⟩
    fun hI hstep => indexed_step hI (step_sound hstep)

def CanQueue (s : State) : Prop :=
  s.wq = .live ∧ ∃ item, s.t[s.i]? = some item ∧ item.ready

/-- Nothing of the driver is in progress, pending or can start again. -/
structure Stopped (s : State) : Prop where
  line : s.line.Silent
  queue : s.queue = []
  worker : s.worker = none

@[simp] def unloaded : DriverPc → Bool
  | .exited | .failed _ => true
  | _ => false

structure SafeUnload (s : State) : Prop where
  queueing : s.line.running = some .wrapped → CanQueue s
  stopped : unloaded s.driver → ∀ es t, workqueueTest.Path s es t → Stopped t

theorem canQueue {s : State} (hline : LineHeld s) (hwq : WqHeld s) (hi : Indexed s)
    (hr : s.line.running = some .wrapped) : CanQueue s := by
  have hlt : s.i < s.t.length := hi.size ▸ hi.lt hr
  have hitem := List.getElem?_eq_getElem hlt
  obtain hd | hd := hline.running (by simp [hr]) <;>
    exact ⟨hwq.live (by simp [hd]), _, hitem,
      hwq.ready _ _ hitem (by simpa [readyUpTo, hd] using hi.lt hr)⟩

theorem stopped_of_unloaded {s : State} (hline : LineHeld s) (hwq : WqHeld s)
    (hd : unloaded s.driver) : Stopped s := by
  have hidle := hwq.idle (by cases hpc : s.driver <;> simp [hpc] at hd ⊢)
  constructor
  · apply hline.silent
    · intro hl
      simp [hl] at hd
    · intro hl
      simp [hl] at hd
  · exact hidle.1
  · exact hidle.2

theorem unloaded_step {s t : State} {e : Event} (h : unloaded s.driver) (hstep : Step s e t) :
    unloaded t.driver := by
  cases hstep with
  | raise | wrap | reject | accept | handlerReturn | take | print | finish => exact h
  | initWork _ hpc | createWorkqueue _ hpc | createFails _ hpc | gpioRequest hpc
  | gpioDirectionInput hpc | requestIrq _ hpc | requestFails _ hpc | destroyErr1 _ hpc
  | freeIrq _ hpc | freeMisses hpc | synchronizeIrq hpc | destroyWorkqueue hpc => simp [hpc] at h

/-- The interrupt never meets a workqueue or an item that is not there, and nothing is left
of the driver once exit has returned or init has failed. -/
theorem safe_loading_and_unloading {es : List Event} {s : State}
    (h : workqueueTest.Trace es s) : SafeUnload s := by
  constructor
  · exact canQueue (trace_lineHeld h) (trace_wqHeld h) (trace_indexed h)
  · intro hd xs t hpath
    have htrace := h.append hpath
    have hlater := hpath.stable (I := fun s => unloaded s.driver) hd
      fun hI hstep => unloaded_step hI (step_sound hstep)
    exact stopped_of_unloaded (trace_lineHeld htrace) (trace_wqHeld htrace) hlater

theorem safe_loading_and_unloading_late : SafeUnload
    ⟨.exited, ⟨none, none⟩, .destroyed, [⟨true, false⟩, ⟨true, false⟩], 1, [], none, 3⟩ := by
  have hrun : workqueueTest.Trace [.initWork, .initWork, .createWorkqueue true, .gpioRequest,
      .gpioDirectionInput, .requestIrq 0, .raise, .freeIrq, .wrap, .queueWork, .handlerReturn,
      .synchronizeIrq, .take, .print, .print, .print, .finish, .destroyWorkqueue]
      ⟨.exited, ⟨none, none⟩, .destroyed, [⟨true, false⟩, ⟨true, false⟩], 1, [], none, 3⟩ :=
    System.trace_of_run (by decide)
  exact safe_loading_and_unloading hrun

end IrqWorkqueueLifecycle
