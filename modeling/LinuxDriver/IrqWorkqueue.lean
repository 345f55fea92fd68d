import LinuxDriver.TransitionSystem
import LinuxDriver.CallPool
import LinuxDriver.KernelTypes
import LinuxDriver.InterruptLine

/-!
# irq/workqueue_thread_test: an interrupt that queues work for one thread

The handler rotates through the items `t[0]` and `t[1]`; the worker thread takes one item at
a time and prints three counts. Loading and unloading are steps of the same system, so that
an interrupt can fall between any two of them.
-/
namespace IrqWorkqueue

open TransitionSystem CallPool KernelTypes InterruptLine

def NUM : ℕ := 2

structure Item where
  ready : Bool
  pending : Bool
  deriving DecidableEq, Repr

inductive Wq where
  | null
  | live
  | destroyed
  deriving DecidableEq, Repr

/-- How far `irq_handler` has come. `queued` holds the result of `queue_work`. -/
inductive HandlerPc where
  | entered
  | wrapped
  | queued (ok : Bool)
  deriving DecidableEq, Repr

inductive DriverPc where
  | initWork (i : ℕ)
  | wqCreated
  | gpioRequested
  | gpioInput
  | err1 (ret : ℤ)
  | failed (ret : ℤ)
  | loaded
  | freeing
  | freed
  | exited
  deriving DecidableEq, Repr

structure Work where
  item : ℕ
  i : ℕ
  deriving DecidableEq, Repr

/-- `i` and `cnt` are the statics of `irq_handler` and of `work_main`. -/
structure State where
  driver : DriverPc
  line : Line Pointer HandlerPc
  wq : Wq
  t : List Item
  i : ℕ
  queue : List ℕ
  worker : Option Work
  cnt : BitVec 32
  deriving DecidableEq, Repr

inductive Event where
  | initWork
  | createWorkqueue (ok : Bool)
  | gpioRequest
  | gpioDirectionInput
  | requestIrq (ret : ℤ)
  | freeIrq
  | synchronizeIrq
  | destroyWorkqueue
  | raise
  | wrap
  | queueWork
  | handlerReturn
  | take
  | print
  | finish
  deriving DecidableEq, Repr

def State.at (s : State) (pc : DriverPc) : State := { s with driver := pc }

def State.goto (s : State) (pc : Option HandlerPc) : State := { s with line := s.line.move pc }

def State.setItem (s : State) (k : ℕ) (item : Item) : State := { s with t := s.t.set k item }

@[simp] theorem at_driver (s : State) (pc : DriverPc) : (s.at pc).driver = pc := rfl
@[simp] theorem at_line (s : State) (pc : DriverPc) : (s.at pc).line = s.line := rfl
@[simp] theorem at_t (s : State) (pc : DriverPc) : (s.at pc).t = s.t := rfl
@[simp] theorem at_queue (s : State) (pc : DriverPc) : (s.at pc).queue = s.queue := rfl
@[simp] theorem goto_line (s : State) (pc : Option HandlerPc) :
    (s.goto pc).line = s.line.move pc := rfl
@[simp] theorem goto_driver (s : State) (pc : Option HandlerPc) :
    (s.goto pc).driver = s.driver := rfl
@[simp] theorem setItem_line (s : State) (k : ℕ) (item : Item) :
    (s.setItem k item).line = s.line := rfl
@[simp] theorem setItem_driver (s : State) (k : ℕ) (item : Item) :
    (s.setItem k item).driver = s.driver := rfl

/-- `destroy_workqueue` returns when all queued work has run to its end. -/
def destroyWorkqueue (s : State) (pc : DriverPc) : Option State :=
  if s.queue = [] ∧ s.worker = none then some { s.at pc with wq := .destroyed } else none

def stepDriver (s : State) : DriverPc → Event → Option State
  | .initWork i, .initWork =>
    if i < NUM then some ((s.setItem i ⟨true, false⟩).at (.initWork (i + 1))) else none
  | .initWork i, .createWorkqueue ok =>
    if i < NUM then none
    else if ok then some { s.at .wqCreated with wq := .live }
    else some { s.at (.failed (-ENOMEM)) with wq := .null }
  | .wqCreated, .gpioRequest => some (s.at .gpioRequested)
  | .gpioRequested, .gpioDirectionInput => some (s.at .gpioInput)
  | .gpioInput, .requestIrq ret =>
    if ret = 0 then (s.line.request none).map fun l => { s.at .loaded with line := l }
    else some (s.at (.err1 ret))
  | .err1 ret, .destroyWorkqueue => destroyWorkqueue s (.failed ret)
  | .loaded, .freeIrq =>
    -- the cookie is NULL, as it was when the handler was installed
    match s.line.detach none with
    | some l => some { s.at .freeing with line := l }
    | none => some (s.at .freed)
  | .freeing, .synchronizeIrq => if s.line.running = none then some (s.at .freed) else none
  | .freed, .destroyWorkqueue => destroyWorkqueue s .exited
  | _, _ => none

/-- `queue_work(wq, &t[i++])` -/
def queueWork (s : State) : Option State :=
  s.t[s.i]?.bind fun item =>
    if s.wq = .live ∧ item.ready then
      if item.pending then some { s.goto (some (.queued false)) with i := s.i + 1 }
      else some { (s.setItem s.i { item with pending := true }).goto (some (.queued true)) with
        i := s.i + 1, queue := s.queue ++ [s.i] }
    else none

def stepHandler (s : State) : HandlerPc → Event → Option State
  | .entered, .wrap => some { s.goto (some .wrapped) with i := if s.i = NUM then 0 else s.i }
  | .wrapped, .queueWork => queueWork s
  | .queued _, .handlerReturn => some (s.goto none)
  | _, _ => none

/-- The steps of the worker thread and of `work_main`. -/
def stepWorker (s : State) : Option Work → Event → Option State
  | none, .take =>
    match s.queue with
    | k :: rest => s.t[k]?.map fun item =>
      { s.setItem k { item with pending := false } with queue := rest, worker := some ⟨k, 0⟩ }
    | [] => none
  | some w, .print =>
    if w.i < 3 then some { s with worker := some { w with i := w.i + 1 }, cnt := s.cnt + 1 }
    else none
  | some w, .finish => if w.i < 3 then none else some { s with worker := none }
  | _, _ => none

def step (s : State) : Event → Option State
  | .raise => (s.line.raise .entered).map fun l => { s with line := l }
  | .wrap => s.line.running.bind fun pc => stepHandler s pc .wrap
  | .queueWork => s.line.running.bind fun pc => stepHandler s pc .queueWork
  | .handlerReturn => s.line.running.bind fun pc => stepHandler s pc .handlerReturn
  | .take => stepWorker s s.worker .take
  | .print => stepWorker s s.worker .print
  | .finish => stepWorker s s.worker .finish
  | e => stepDriver s s.driver e

def initial : State :=
  ⟨.initWork 0, .empty, .null, List.replicate NUM ⟨false, false⟩, 0, [], none, 0⟩

def workqueueTest : System State Event := ⟨initial, step⟩

inductive Step : State → Event → State → Prop where
  | initWork (s i) (hpc : s.driver = .initWork i) (hi : i < NUM) :
      Step s .initWork ((s.setItem i ⟨true, false⟩).at (.initWork (i + 1)))
  | createWorkqueue (s i) (hpc : s.driver = .initWork i) (hi : ¬ i < NUM) :
      Step s (.createWorkqueue true) { s.at .wqCreated with wq := .live }
  | createFails (s i) (hpc : s.driver = .initWork i) (hi : ¬ i < NUM) :
      Step s (.createWorkqueue false) { s.at (.failed (-ENOMEM)) with wq := .null }
  | gpioRequest (s) (hpc : s.driver = .wqCreated) : Step s .gpioRequest (s.at .gpioRequested)
  | gpioDirectionInput (s) (hpc : s.driver = .gpioRequested) :
      Step s .gpioDirectionInput (s.at .gpioInput)
  | requestIrq (s l) (hpc : s.driver = .gpioInput) (hl : s.line.request none = some l) :
      Step s (.requestIrq 0) { s.at .loaded with line := l }
  | requestFails (s ret) (hpc : s.driver = .gpioInput) (hret : ret ≠ 0) :
      Step s (.requestIrq ret) (s.at (.err1 ret))
  | destroyErr1 (s ret) (hpc : s.driver = .err1 ret) (hq : s.queue = []) (hw : s.worker = none) :
      Step s .destroyWorkqueue { s.at (.failed ret) with wq := .destroyed }
  | freeIrq (s l) (hpc : s.driver = .loaded) (hl : s.line.detach none = some l) :
      Step s .freeIrq { s.at .freeing with line := l }
  | freeMisses (s) (hpc : s.driver = .loaded) (hl : s.line.detach none = none) :
      Step s .freeIrq (s.at .freed)
  | synchronizeIrq (s) (hpc : s.driver = .freeing) (hr : s.line.running = none) :
      Step s .synchronizeIrq (s.at .freed)
  | destroyWorkqueue (s) (hpc : s.driver = .freed) (hq : s.queue = []) (hw : s.worker = none) :
      Step s .destroyWorkqueue { s.at .exited with wq := .destroyed }
  | raise (s l) (hl : s.line.raise .entered = some l) : Step s .raise { s with line := l }
  | wrap (s) (hr : s.line.running = some .entered) :
      Step s .wrap { s.goto (some .wrapped) with i := if s.i = NUM then 0 else s.i }
  | reject (s item) (hr : s.line.running = some .wrapped) (hi : s.t[s.i]? = some item)
      (hp : item.pending) :
      Step s .queueWork { s.goto (some (.queued false)) with i := s.i + 1 }
  | accept (s item) (hr : s.line.running = some .wrapped) (hi : s.t[s.i]? = some item)
      (hp : ¬ item.pending) :
      Step s .queueWork
        { (s.setItem s.i { item with pending := true }).goto (some (.queued true)) with
          i := s.i + 1, queue := s.queue ++ [s.i] }
  | handlerReturn (s ok) (hr : s.line.running = some (.queued ok)) :
      Step s .handlerReturn (s.goto none)
  | take (s k rest item) (hw : s.worker = none) (hq : s.queue = k :: rest)
      (hk : s.t[k]? = some item) :
      Step s .take { s.setItem k { item with pending := false } with
        queue := rest, worker := some ⟨k, 0⟩ }
  | print (s w) (hw : s.worker = some w) (hi : w.i < 3) :
      Step s .print { s with worker := some { w with i := w.i + 1 }, cnt := s.cnt + 1 }
  | finish (s w) (hw : s.worker = some w) (hi : ¬ w.i < 3) :
      Step s .finish { s with worker := none }

theorem stepDriver_sound {s t : State} {e : Event} (h : stepDriver s s.driver e = some t) :
    Step s e t := by
  generalize hpc : s.driver = pc at h
  unfold stepDriver at h
  split at h
  case h_1 i =>
    rcases Option.ite_none_right_eq_some.mp h with ⟨hi, h⟩
    exact Option.some.inj h ▸ .initWork s i hpc hi
  case h_2 i ok =>
    rcases Option.ite_none_left_eq_some.mp h with ⟨hi, h⟩
    cases ok with
    | true => exact Option.some.inj h ▸ .createWorkqueue s i hpc hi
    | false => exact Option.some.inj h ▸ .createFails s i hpc hi
  case h_3 => exact Option.some.inj h ▸ .gpioRequest s hpc
  case h_4 => exact Option.some.inj h ▸ .gpioDirectionInput s hpc
  case h_5 ret =>
    split at h
    case isTrue hret =>
      rcases Option.map_eq_some_iff.mp h with ⟨l, hl, rfl⟩
      exact hret ▸ .requestIrq s l hpc hl
    case isFalse hret => exact Option.some.inj h ▸ .requestFails s ret hpc hret
  case h_6 ret =>
    rcases Option.ite_none_right_eq_some.mp h with ⟨⟨hq, hw⟩, h⟩
    exact Option.some.inj h ▸ .destroyErr1 s ret hpc hq hw
  case h_7 =>
    split at h
    case h_1 l hl => exact Option.some.inj h ▸ .freeIrq s l hpc hl
    case h_2 hl => exact Option.some.inj h ▸ .freeMisses s hpc hl
  case h_8 =>
    rcases Option.ite_none_right_eq_some.mp h with ⟨hr, h⟩
    exact Option.some.inj h ▸ .synchronizeIrq s hpc hr
  case h_9 =>
    rcases Option.ite_none_right_eq_some.mp h with ⟨⟨hq, hw⟩, h⟩
    exact Option.some.inj h ▸ .destroyWorkqueue s hpc hq hw
  case h_10 => cases h

theorem stepHandler_sound {s t : State} {e : Event} {pc : HandlerPc}
    (hr : s.line.running = some pc) (h : stepHandler s pc e = some t) : Step s e t := by
  unfold stepHandler at h
  split at h
  · exact Option.some.inj h ▸ .wrap s hr
  · rcases Option.bind_eq_some_iff.mp h with ⟨item, hi, h⟩
    rcases Option.ite_none_right_eq_some.mp h with ⟨-, h⟩
    split at h
    case isTrue hp => exact Option.some.inj h ▸ .reject s item hr hi hp
    case isFalse hp => exact Option.some.inj h ▸ .accept s item hr hi hp
  · exact Option.some.inj h ▸ .handlerReturn s _ hr
  · cases h

theorem stepWorker_sound {s t : State} {e : Event} (h : stepWorker s s.worker e = some t) :
    Step s e t := by
  generalize hw : s.worker = w at h
  unfold stepWorker at h
  split at h
  · split at h
    case h_1 k rest hq =>
      rcases Option.map_eq_some_iff.mp h with ⟨item, hk, rfl⟩
      exact .take s k rest item hw hq hk
    case h_2 => cases h
  · rcases Option.ite_none_right_eq_some.mp h with ⟨hi, h⟩
    exact Option.some.inj h ▸ .print s _ hw hi
  · rcases Option.ite_none_left_eq_some.mp h with ⟨hi, h⟩
    exact Option.some.inj h ▸ .finish s _ hw hi
  · cases h

theorem step_sound {s t : State} {e : Event} (h : step s e = some t) : Step s e t := by
  cases e with
  | raise =>
    rcases Option.map_eq_some_iff.mp h with ⟨l, hl, rfl⟩
    exact .raise s l hl
  | wrap | queueWork | handlerReturn =>
    rcases Option.bind_eq_some_iff.mp h with ⟨pc, hr, h⟩
    exact stepHandler_sound hr h
  | take | print | finish => exact stepWorker_sound h
  | _ => exact stepDriver_sound h

end IrqWorkqueue
