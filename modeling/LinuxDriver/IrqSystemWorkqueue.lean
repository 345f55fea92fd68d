import LinuxDriver.TransitionSystem
import LinuxDriver.CallPool
import LinuxDriver.KernelTypes
import LinuxDriver.InterruptLine

/-!
# irq/workqueue_test: an interrupt that hands work to the system workqueue

The handler rotates through the items as in `workqueue_thread_test.c`, but `schedule_work` gives
them to the workers of the kernel: the two items can be executed at the same time, each of them
once at a time, and share the static `cnt`. The global `wq` is destroyed but never created.
-/
namespace IrqSystemWorkqueue

open TransitionSystem CallPool KernelTypes InterruptLine

def NUM : ℕ := 2

/-- How far an execution of `work_main` has come; `cnt++` is a load and a store. -/
inductive WorkPc where
  | looping (i : ℕ)
  | loaded (i : ℕ) (old : BitVec 32)
  | stored (i : ℕ) (old : BitVec 32)
  deriving DecidableEq, Repr

structure Item where
  ready : Bool
  pending : Bool
  running : Option WorkPc
  deriving DecidableEq, Repr

inductive HandlerPc where
  | entered
  | wrapped
  | scheduled (ok : Bool)
  deriving DecidableEq, Repr

/-- `oops` is the crash of whoever uses a workqueue that is not there. -/
inductive DriverPc where
  | initWork (i : ℕ)
  | gpioRequested
  | gpioInput
  | err1 (ret : ℤ)
  | failed (ret : ℤ)
  | loaded
  | freeing
  | freed
  | exited
  | oops
  deriving DecidableEq, Repr

/-- `i` and `cnt` are the statics of `irq_handler` and of `work_main`. -/
structure State where
  driver : DriverPc
  line : Line Pointer HandlerPc
  wq : Pointer
  t : List Item
  i : ℕ
  cnt : BitVec 32
  log : List (BitVec 32)
  deriving DecidableEq, Repr

inductive Event where
  | initWork
  | gpioRequest
  | gpioDirectionInput
  | requestIrq (ret : ℤ)
  | freeIrq
  | synchronizeIrq
  | destroyWorkqueue
  | raise
  | wrap
  | scheduleWork
  | handlerReturn
  | start (k : ℕ)
  | load (k : ℕ)
  | store (k : ℕ)
  | print (k : ℕ)
  | finish (k : ℕ)
  deriving DecidableEq, Repr

def State.at (s : State) (pc : DriverPc) : State := { s with driver := pc }

def State.goto (s : State) (pc : Option HandlerPc) : State := { s with line := s.line.move pc }

def State.setItem (s : State) (k : ℕ) (item : Item) : State := { s with t := s.t.set k item }

@[simp] theorem at_driver (s : State) (pc : DriverPc) : (s.at pc).driver = pc := rfl
@[simp] theorem at_line (s : State) (pc : DriverPc) : (s.at pc).line = s.line := rfl
@[simp] theorem at_t (s : State) (pc : DriverPc) : (s.at pc).t = s.t := rfl
@[simp] theorem goto_line (s : State) (pc : Option HandlerPc) :
    (s.goto pc).line = s.line.move pc := rfl
@[simp] theorem goto_driver (s : State) (pc : Option HandlerPc) :
    (s.goto pc).driver = s.driver := rfl
@[simp] theorem goto_t (s : State) (pc : Option HandlerPc) : (s.goto pc).t = s.t := rfl
@[simp] theorem goto_i (s : State) (pc : Option HandlerPc) : (s.goto pc).i = s.i := rfl
@[simp] theorem setItem_t (s : State) (k : ℕ) (item : Item) :
    (s.setItem k item).t = s.t.set k item := rfl
@[simp] theorem setItem_line (s : State) (k : ℕ) (item : Item) :
    (s.setItem k item).line = s.line := rfl
@[simp] theorem setItem_driver (s : State) (k : ℕ) (item : Item) :
    (s.setItem k item).driver = s.driver := rfl
@[simp] theorem setItem_log (s : State) (k : ℕ) (item : Item) :
    (s.setItem k item).log = s.log := rfl
@[simp] theorem setItem_i (s : State) (k : ℕ) (item : Item) : (s.setItem k item).i = s.i := rfl

def destroyWorkqueue (s : State) (pc : DriverPc) : State :=
  if s.wq = none then s.at .oops else s.at pc

def stepDriver (s : State) : DriverPc → Event → Option State
  | .initWork i, .initWork =>
    if i < NUM then some ((s.setItem i ⟨true, false, none⟩).at (.initWork (i + 1))) else none
  | .initWork i, .gpioRequest => if i < NUM then none else some (s.at .gpioRequested)
  | .gpioRequested, .gpioDirectionInput => some (s.at .gpioInput)
  | .gpioInput, .requestIrq ret =>
    if ret = 0 then (s.line.request none).map fun l => { s.at .loaded with line := l }
    else some (s.at (.err1 ret))
  | .err1 ret, .destroyWorkqueue => some (destroyWorkqueue s (.failed ret))
  | .loaded, .freeIrq =>
    match s.line.detach none with
    | some l => some { s.at .freeing with line := l }
    | none => some (s.at .freed)
  | .freeing, .synchronizeIrq => if s.line.running = none then some (s.at .freed) else none
  | .freed, .destroyWorkqueue => some (destroyWorkqueue s .exited)
  | _, _ => none

/-- `schedule_work(&t[i++])` -/
def scheduleWork (s : State) : Option State :=
  s.t[s.i]?.bind fun item =>
    if item.ready then
      if item.pending then some { s.goto (some (.scheduled false)) with i := s.i + 1 }
      else some { (s.setItem s.i { item with pending := true }).goto (some (.scheduled true)) with
        i := s.i + 1 }
    else none

def stepHandler (s : State) : HandlerPc → Event → Option State
  | .entered, .wrap => some { s.goto (some .wrapped) with i := if s.i = NUM then 0 else s.i }
  | .wrapped, .scheduleWork => scheduleWork s
  | .scheduled _, .handlerReturn => some (s.goto none)
  | _, _ => none

/-- The steps of a worker with item `k`, and of `work_main`, which it calls. -/
def stepItem (s : State) (k : ℕ) (item : Item) : Option WorkPc → Event → Option State
  | none, .start _ =>
    if item.pending then
      some (s.setItem k { item with pending := false, running := some (.looping 0) })
    else none
  | some (.looping i), .load _ =>
    if i < 3 then some (s.setItem k { item with running := some (.loaded i s.cnt) }) else none
  | some (.loaded i old), .store _ =>
    some { s.setItem k { item with running := some (.stored i old) } with cnt := old + 1 }
  | some (.stored i old), .print _ =>
    some { s.setItem k { item with running := some (.looping (i + 1)) } with log := s.log ++ [old] }
  | some (.looping i), .finish _ =>
    if i < 3 then none else some (s.setItem k { item with running := none })
  | _, _ => none

def step (s : State) : Event → Option State
  | .raise => (s.line.raise .entered).map fun l => { s with line := l }
  | .wrap => s.line.running.bind fun pc => stepHandler s pc .wrap
  | .scheduleWork => s.line.running.bind fun pc => stepHandler s pc .scheduleWork
  | .handlerReturn => s.line.running.bind fun pc => stepHandler s pc .handlerReturn
  | .start k => s.t[k]?.bind fun item => stepItem s k item item.running (.start k)
  | .load k => s.t[k]?.bind fun item => stepItem s k item item.running (.load k)
  | .store k => s.t[k]?.bind fun item => stepItem s k item item.running (.store k)
  | .print k => s.t[k]?.bind fun item => stepItem s k item item.running (.print k)
  | .finish k => s.t[k]?.bind fun item => stepItem s k item item.running (.finish k)
  | e => stepDriver s s.driver e

def initial : State :=
  ⟨.initWork 0, .empty, none, List.replicate NUM ⟨false, false, none⟩, 0, 0, []⟩

def workqueueTest : System State Event := ⟨initial, step⟩

inductive Step : State → Event → State → Prop where
  | initWork (s i) (hpc : s.driver = .initWork i) (hi : i < NUM) :
      Step s .initWork ((s.setItem i ⟨true, false, none⟩).at (.initWork (i + 1)))
  | gpioRequest (s i) (hpc : s.driver = .initWork i) (hi : ¬ i < NUM) :
      Step s .gpioRequest (s.at .gpioRequested)
  | gpioDirectionInput (s) (hpc : s.driver = .gpioRequested) :
      Step s .gpioDirectionInput (s.at .gpioInput)
  | requestIrq (s l) (hpc : s.driver = .gpioInput) (hl : s.line.request none = some l) :
      Step s (.requestIrq 0) { s.at .loaded with line := l }
  | requestFails (s ret) (hpc : s.driver = .gpioInput) (hret : ret ≠ 0) :
      Step s (.requestIrq ret) (s.at (.err1 ret))
  | destroyErr1 (s ret) (hpc : s.driver = .err1 ret) :
      Step s .destroyWorkqueue (destroyWorkqueue s (.failed ret))
  | freeIrq (s l) (hpc : s.driver = .loaded) (hl : s.line.detach none = some l) :
      Step s .freeIrq { s.at .freeing with line := l }
  | freeMisses (s) (hpc : s.driver = .loaded) (hl : s.line.detach none = none) :
      Step s .freeIrq (s.at .freed)
  | synchronizeIrq (s) (hpc : s.driver = .freeing) (hr : s.line.running = none) :
      Step s .synchronizeIrq (s.at .freed)
  | destroyExit (s) (hpc : s.driver = .freed) :
      Step s .destroyWorkqueue (destroyWorkqueue s .exited)
  | raise (s l) (hl : s.line.raise .entered = some l) : Step s .raise { s with line := l }
  | wrap (s) (hr : s.line.running = some .entered) :
      Step s .wrap { s.goto (some .wrapped) with i := if s.i = NUM then 0 else s.i }
  | reject (s item) (hr : s.line.running = some .wrapped) (hi : s.t[s.i]? = some item)
      (hp : item.pending) :
      Step s .scheduleWork { s.goto (some (.scheduled false)) with i := s.i + 1 }
  | accept (s item) (hr : s.line.running = some .wrapped) (hi : s.t[s.i]? = some item)
      (hp : ¬ item.pending) :
      Step s .scheduleWork
        { (s.setItem s.i { item with pending := true }).goto (some (.scheduled true)) with
          i := s.i + 1 }
  | handlerReturn (s ok) (hr : s.line.running = some (.scheduled ok)) :
      Step s .handlerReturn (s.goto none)
  | start (s k item) (hk : s.t[k]? = some item) (hr : item.running = none) (hp : item.pending) :
      Step s (.start k)
        (s.setItem k { item with pending := false, running := some (.looping 0) })
  | load (s k item i) (hk : s.t[k]? = some item) (hr : item.running = some (.looping i))
      (hi : i < 3) :
      Step s (.load k) (s.setItem k { item with running := some (.loaded i s.cnt) })
  | store (s k item i old) (hk : s.t[k]? = some item)
      (hr : item.running = some (.loaded i old)) :
      Step s (.store k)
        { s.setItem k { item with running := some (.stored i old) } with cnt := old + 1 }
  | print (s k item i old) (hk : s.t[k]? = some item)
      (hr : item.running = some (.stored i old)) :
      Step s (.print k)
        { s.setItem k { item with running := some (.looping (i + 1)) } with log := s.log ++ [old] }
  | finish (s k item i) (hk : s.t[k]? = some item) (hr : item.running = some (.looping i))
      (hi : ¬ i < 3) : Step s (.finish k) (s.setItem k { item with running := none })

theorem stepDriver_sound {s t : State} {e : Event} (h : stepDriver s s.driver e = some t) :
    Step s e t := by
  generalize hpc : s.driver = pc at h
  unfold stepDriver at h
  split at h
  case h_1 i =>
    obtain ⟨hi, h⟩ := Option.ite_none_right_eq_some.mp h
    exact Option.some.inj h ▸ .initWork s i hpc hi
  case h_2 i =>
    obtain ⟨hi, h⟩ := Option.ite_none_left_eq_some.mp h
    exact Option.some.inj h ▸ .gpioRequest s i hpc hi
  case h_3 => exact Option.some.inj h ▸ .gpioDirectionInput s hpc
  case h_4 ret =>
    split at h
    case isTrue hret =>
      obtain ⟨l, hl, rfl⟩ := Option.map_eq_some_iff.mp h
      exact hret ▸ .requestIrq s l hpc hl
    case isFalse hret => exact Option.some.inj h ▸ .requestFails s ret hpc hret
  case h_5 ret => exact Option.some.inj h ▸ .destroyErr1 s ret hpc
  case h_6 =>
    split at h
    case h_1 l hl => exact Option.some.inj h ▸ .freeIrq s l hpc hl
    case h_2 hl => exact Option.some.inj h ▸ .freeMisses s hpc hl
  case h_7 =>
    obtain ⟨hr, h⟩ := Option.ite_none_right_eq_some.mp h
    exact Option.some.inj h ▸ .synchronizeIrq s hpc hr
  case h_8 => exact Option.some.inj h ▸ .destroyExit s hpc
  case h_9 => cases h

theorem stepHandler_sound {s t : State} {e : Event} {pc : HandlerPc}
    (hr : s.line.running = some pc) (h : stepHandler s pc e = some t) : Step s e t := by
  unfold stepHandler at h
  split at h
  · exact Option.some.inj h ▸ .wrap s hr
  · obtain ⟨item, hi, h⟩ := Option.bind_eq_some_iff.mp h
    obtain ⟨-, h⟩ := Option.ite_none_right_eq_some.mp h
    split at h
    case isTrue hp => exact Option.some.inj h ▸ .reject s item hr hi hp
    case isFalse hp => exact Option.some.inj h ▸ .accept s item hr hi hp
  · exact Option.some.inj h ▸ .handlerReturn s _ hr
  · cases h

theorem stepItem_sound {s t : State} {e : Event} {k : ℕ} {item : Item} (hk : s.t[k]? = some item)
    (he : e = .start k ∨ e = .load k ∨ e = .store k ∨ e = .print k ∨ e = .finish k)
    (h : stepItem s k item item.running e = some t) : Step s e t := by
  generalize hr : item.running = pc at h
  unfold stepItem at h
  split at h
  case h_1 j =>
    obtain rfl : j = k := by simpa using he
    obtain ⟨hp, h⟩ := Option.ite_none_right_eq_some.mp h
    exact Option.some.inj h ▸ .start s j item hk hr hp
  case h_2 i j =>
    obtain rfl : j = k := by simpa using he
    obtain ⟨hi, h⟩ := Option.ite_none_right_eq_some.mp h
    exact Option.some.inj h ▸ .load s j item i hk hr hi
  case h_3 i old j =>
    obtain rfl : j = k := by simpa using he
    exact Option.some.inj h ▸ .store s j item i old hk hr
  case h_4 i old j =>
    obtain rfl : j = k := by simpa using he
    exact Option.some.inj h ▸ .print s j item i old hk hr
  case h_5 i j =>
    obtain rfl : j = k := by simpa using he
    obtain ⟨hi, h⟩ := Option.ite_none_left_eq_some.mp h
    exact Option.some.inj h ▸ .finish s j item i hk hr hi
  case h_6 => cases h

theorem step_sound {s t : State} {e : Event} (h : step s e = some t) : Step s e t := by
  cases e with
  | raise =>
    obtain ⟨l, hl, rfl⟩ := Option.map_eq_some_iff.mp h
    exact .raise s l hl
  | wrap | scheduleWork | handlerReturn =>
    obtain ⟨pc, hr, h⟩ := Option.bind_eq_some_iff.mp h
    exact stepHandler_sound hr h
  | start k | load k | store k | print k | finish k =>
    obtain ⟨item, hk, h⟩ := Option.bind_eq_some_iff.mp h
    exact stepItem_sound hk (by simp) h
  | _ => exact stepDriver_sound h

end IrqSystemWorkqueue
