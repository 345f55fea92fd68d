import LinuxDriver.IrqWorkqueueLifecycle
import LinuxDriver.NumberedBlocks
import LinuxDriver.PendingQueue

/-!
# No work is lost, repeated or mixed

What the interrupt and the worker did is read off the steps of a run. The accepted work is
the work started so far followed by the queue, and the worker's history is a list of blocks,
one for each execution, the last one possibly cut short.
-/
namespace IrqWorkqueueConservation

open TransitionSystem CallPool KernelTypes InterruptLine IrqWorkqueue IrqWorkqueueLifecycle
  NumberedBlocks PendingQueue

/-- `message` is "work is already in the queue", and `called` a call of `work_main`. -/
inductive Note where
  | raised
  | accepted (k : ℕ)
  | message
  | called (k : ℕ)
  | printed (v : BitVec 32)
  | finished (k : ℕ)
  deriving DecidableEq, Repr

def notes (s : State) : Event → List Note
  | .raise => [.raised]
  | .queueWork => s.t[s.i]?.toList.flatMap fun item =>
    if item.pending then [] else [.accepted s.i]
  | .handlerReturn => if s.line.running = some (.queued false) then [.message] else []
  | .take => s.queue.head?.toList.map .called
  | .print => [.printed s.cnt]
  | .finish => s.worker.toList.map fun w => .finished w.item
  | _ => []

def accepted (ns : List Note) : List ℕ :=
  ns.filterMap fun
    | .accepted k => some k
    | _ => none

def called (ns : List Note) : List ℕ :=
  ns.filterMap fun
    | .called k => some k
    | _ => none

def finished (ns : List Note) : List ℕ :=
  ns.filterMap fun
    | .finished k => some k
    | _ => none

def printed (ns : List Note) : List (BitVec 32) :=
  ns.filterMap fun
    | .printed v => some v
    | _ => none

def ofWorker : Note → Bool
  | .called _ | .printed _ | .finished _ => true
  | _ => false

def workerNotes (ns : List Note) : List Note := ns.filter ofWorker

/-- The handler runs that have neither queued their item nor said that it is queued. -/
def undecided (s : State) : ℕ :=
  match s.line.running with
  | some .entered | some .wrapped | some (.queued false) => 1
  | _ => 0

def counts (n : ℕ) : List Note := triple .printed n

def execution (n k : ℕ) : List Note := .called k :: (counts n ++ [.finished k])

def executions (ks : List ℕ) : List Note := numbered execution 0 ks

def begun (n : ℕ) : Option Work → List Note
  | some w => .called w.item :: (counts n).take w.i
  | none => []

def progress : Option Work → ℕ
  | some w => w.i
  | none => 0

section Notes

variable (ns ms : List Note)

@[simp] theorem accepted_append : accepted (ns ++ ms) = accepted ns ++ accepted ms :=
  List.filterMap_append

@[simp] theorem finished_append : finished (ns ++ ms) = finished ns ++ finished ms :=
  List.filterMap_append

@[simp] theorem printed_append : printed (ns ++ ms) = printed ns ++ printed ms :=
  List.filterMap_append

@[simp] theorem workerNotes_append :
    workerNotes (ns ++ ms) = workerNotes ns ++ workerNotes ms :=
  List.filter_append ..

end Notes

theorem notes_reject {s : State} {item : Item} (hi : s.t[s.i]? = some item) (hp : item.pending) :
    notes s .queueWork = [] := by
  simp [notes, hi, hp]

theorem notes_accept {s : State} {item : Item} (hi : s.t[s.i]? = some item)
    (hp : ¬ item.pending) : notes s .queueWork = [.accepted s.i] := by
  simp [notes, hi, hp]

theorem notes_handlerReturn {s : State} {ok : Bool} (hr : s.line.running = some (.queued ok)) :
    notes s .handlerReturn = if ok then [] else [.message] := by
  cases ok <;> simp [notes, hr]

theorem notes_take {s : State} {k : ℕ} {rest : List ℕ} (hq : s.queue = k :: rest) :
    notes s .take = [.called k] := by
  simp [notes, hq]

theorem notes_finish {s : State} {w : Work} (hw : s.worker = some w) :
    notes s .finish = [.finished w.item] := by
  simp [notes, hw]

def RunsCounted (ns : List Note) (s : State) : Prop :=
  ns.count .raised = (accepted ns).length + ns.count .message + undecided s

theorem runs_step {ns : List Note} {s t : State} {e : Event} (h : RunsCounted ns s)
    (hstep : Step s e t) : RunsCounted (ns ++ notes s e) t := by
  unfold RunsCounted at h ⊢
  simp only [List.count_append, accepted_append, List.length_append]
  cases hstep with
  | requestIrq l hpc hl =>
    rcases Line.request_eq_some.mp hl with ⟨-, rfl⟩
    simpa [notes, accepted, undecided] using h
  | freeIrq l hpc hl =>
    rcases Line.detach_eq_some.mp hl with ⟨-, rfl⟩
    simpa [notes, accepted, undecided] using h
  | raise l hl =>
    rcases Line.raise_eq_some.mp hl with ⟨-, hr, rfl⟩
    simp only [undecided, hr] at h
    simp [notes, accepted, undecided] at h ⊢
    omega
  | wrap hr =>
    simp only [undecided, hr] at h
    simpa [notes, accepted, undecided] using h
  | reject item hr hi hp =>
    simp only [undecided, hr] at h
    simpa [notes_reject hi hp, accepted, undecided] using h
  | accept item hr hi hp =>
    simp only [undecided, hr] at h
    simp [notes_accept hi hp, accepted, undecided] at h ⊢
    omega
  | handlerReturn ok hr =>
    cases ok <;> simp only [undecided, hr] at h <;>
      simp [notes_handlerReturn hr, accepted, undecided] at h ⊢ <;> omega
  | take k rest item hw hq hk =>
    simpa [notes_take hq, accepted, undecided] using h
  | finish w hw hi => simpa [notes_finish hw, accepted, undecided] using h
  | _ => simpa [notes, accepted, undecided] using h

def Note.move : Note → Option (Move ℕ)
  | .accepted k => some (.accept k)
  | .called k => some (.start k)
  | .finished k => some (.finish k)
  | _ => none

def moves (ns : List Note) : List (Move ℕ) := ns.filterMap Note.move

theorem accepts_moves (ns : List Note) : accepts (moves ns) = accepted ns := by
  rw [accepts, moves, List.filterMap_filterMap]
  congr 1
  funext n
  cases n <;> rfl

theorem starts_moves (ns : List Note) : starts (moves ns) = called ns := by
  rw [starts, moves, List.filterMap_filterMap]
  congr 1
  funext n
  cases n <;> rfl

theorem finishes_moves (ns : List Note) : finishes (moves ns) = finished ns := by
  rw [finishes, moves, List.filterMap_filterMap]
  congr 1
  funext n
  cases n <;> rfl

/-- The pending bits mark the items that wait. -/
structure Represents (s : State) (q : Queue ℕ) : Prop where
  waiting : q.waiting = s.queue
  running : q.running = s.worker.map Work.item
  pending : ∀ (k : ℕ) (item : Item), s.t[k]? = some item → (item.pending ↔ k ∈ s.queue)

theorem represents_elsewhere {ns : List Note} {s t : State} {q : Queue ℕ}
    (h : Represents s q) (hns : moves ns = []) (ht : t.t = s.t) (hq : t.queue = s.queue)
    (hw : t.worker.map Work.item = s.worker.map Work.item) :
    ∃ r, pendingQueue.Path q (moves ns) r ∧ Represents t r := by
  refine ⟨q, by rw [hns]; exact System.path_nil.mpr rfl, ?_⟩
  constructor
  · rw [hq]
    exact h.waiting
  · rw [hw]
    exact h.running
  · rw [ht, hq]
    exact h.pending

theorem represents_accept {s : State} {q : Queue ℕ} {item : Item} (h : Represents s q)
    (hi : s.t[s.i]? = some item) (hp : ¬ item.pending) :
    ∃ r, pendingQueue.Path q [.accept s.i] r ∧ Represents
      { (s.setItem s.i { item with pending := true }).goto (some (.queued true)) with
        i := s.i + 1, queue := s.queue ++ [s.i] } r := by
  have hnew : s.i ∉ q.waiting := by
    intro hmem
    rw [h.waiting] at hmem
    exact hp ((h.pending _ _ hi).mpr hmem)
  refine ⟨⟨q.waiting ++ [s.i], q.running, nodup_append q.nodup hnew⟩, ?_, ?_⟩
  · exact System.path_single.mpr (by simp [pendingQueue, Queue.accept, hnew])
  · constructor
    · simp [h.waiting]
    · exact h.running
    · intro k it hk
      rcases entry_of_set hk with ⟨rfl, rfl⟩ | ⟨hne, hk⟩
      · simp
      · simpa [hne] using h.pending k it hk

theorem represents_take {s : State} {q : Queue ℕ} {k : ℕ} {rest : List ℕ} {item : Item}
    (h : Represents s q) (hw : s.worker = none) (hq : s.queue = k :: rest) :
    ∃ r, pendingQueue.Path q [.start k] r ∧ Represents
      { s.setItem k { item with pending := false } with
        queue := rest, worker := some ⟨k, 0⟩ } r := by
  have hwaiting : q.waiting = k :: rest := h.waiting.trans hq
  have hnodup : k ∉ rest ∧ rest.Nodup := List.nodup_cons.mp (hwaiting ▸ q.nodup)
  refine ⟨⟨rest, some k, hnodup.2⟩, ?_, ?_⟩
  · exact System.path_single.mpr (by simp [pendingQueue, Queue.start, hwaiting, h.running, hw])
  · constructor
    · rfl
    · rfl
    · intro j it hj
      rcases entry_of_set hj with ⟨rfl, rfl⟩ | ⟨hne, hj⟩
      · simpa using hnodup.1
      · simpa [hq, hne] using h.pending j it hj

theorem represents_finish {s : State} {q : Queue ℕ} {w : Work} (h : Represents s q)
    (hw : s.worker = some w) :
    ∃ r, pendingQueue.Path q [.finish w.item] r ∧ Represents { s with worker := none } r := by
  refine ⟨⟨q.waiting, none, q.nodup⟩, ?_, ⟨h.waiting, rfl, h.pending⟩⟩
  exact System.path_single.mpr (by simp [pendingQueue, Queue.finish, h.running, hw])

/-- The items are only set up again while nothing is queued. -/
theorem represents_initWork {s : State} {q : Queue ℕ} {i : ℕ} {pc : DriverPc}
    (h : Represents s q) (hq : s.queue = []) :
    Represents ((s.setItem i ⟨true, false⟩).at pc) q := by
  refine ⟨h.waiting, h.running, ?_⟩
  intro k item hk
  rcases entry_of_set hk with ⟨-, rfl⟩ | ⟨-, hk⟩
  · simp [State.setItem, hq]
  · exact h.pending k item hk

theorem represents_step {s t : State} {e : Event} {q : Queue ℕ} (hwq : WqHeld s)
    (h : Represents s q) (hstep : Step s e t) :
    ∃ r, pendingQueue.Path q (moves (notes s e)) r ∧ Represents t r := by
  cases hstep with
  | initWork i hpc hi =>
    have hidle := hwq.idle (by simp [hpc])
    exact ⟨q, System.path_nil.mpr rfl, represents_initWork h hidle.1⟩
  | reject item hr hi hp =>
    rw [notes_reject hi hp]
    exact represents_elsewhere h rfl rfl rfl rfl
  | accept item hr hi hp =>
    rw [notes_accept hi hp]
    exact represents_accept h hi hp
  | handlerReturn ok hr =>
    rw [notes_handlerReturn hr]
    cases ok <;> exact represents_elsewhere h rfl rfl rfl rfl
  | take k rest item hw hq hk =>
    rw [notes_take hq]
    exact represents_take h hw hq
  | print w hw hi => exact represents_elsewhere h rfl rfl rfl (by simp [hw])
  | finish w hw hi =>
    rw [notes_finish hw]
    exact represents_finish h hw
  | _ => exact represents_elsewhere h rfl rfl rfl rfl

theorem represents_initial : Represents initial ⟨[], none, List.nodup_nil⟩ := by
  refine ⟨rfl, rfl, ?_⟩
  intro k item hk
  obtain rfl := List.eq_of_mem_replicate (List.mem_of_getElem? hk)
  simp [initial]

/-- What interrupt and worker do to the items is a run of the queue. -/
theorem refines_pendingQueue {es : List Event} {s : State} (h : workqueueTest.Trace es s) :
    ∃ q, pendingQueue.Trace (moves (workqueueTest.observe notes es)) q ∧ Represents s q := by
  refine h.invariant_observed (I := fun ns s => ∃ q, pendingQueue.Trace (moves ns) q ∧
    Represents s q) ⟨_, .nil, represents_initial⟩ ?_
  rintro es s e t hs ⟨q, hq, hR⟩ hstep
  obtain ⟨r, hpath, hR⟩ := represents_step (trace_wqHeld hs) hR (step_sound hstep)
  refine ⟨r, ?_, hR⟩
  rw [moves, List.filterMap_append]
  exact hq.append hpath

def done (ns : List Note) (s : State) : ℕ := 3 * (finished ns).length + progress s.worker

structure Worked (ns : List Note) (s : State) : Prop where
  history : workerNotes ns = executions (finished ns) ++ begun (finished ns).length s.worker
  counter : s.cnt = BitVec.ofNat 32 (done ns s)
  counts : printed ns = (List.range (done ns s)).map (BitVec.ofNat 32)
  loop : ∀ w, s.worker = some w → w.i ≤ 3

theorem nothing_of_not_ofWorker {ms : List Note} (h : ∀ n ∈ ms, ¬ ofWorker n) :
    finished ms = [] ∧ printed ms = [] ∧ workerNotes ms = [] := by
  refine ⟨?_, ?_, by simpa [workerNotes] using h⟩
  · apply List.filterMap_eq_nil_iff.mpr
    intro n hn
    cases n with
    | finished k => exact absurd rfl (h _ hn)
    | _ => rfl
  · apply List.filterMap_eq_nil_iff.mpr
    intro n hn
    cases n with
    | printed v => exact absurd rfl (h _ hn)
    | _ => rfl

theorem worked_elsewhere {ns ms : List Note} {s t : State} (h : Worked ns s)
    (hms : ∀ n ∈ ms, ¬ ofWorker n) (hw : t.worker = s.worker) (hc : t.cnt = s.cnt) :
    Worked (ns ++ ms) t := by
  obtain ⟨hfinished, hprinted, hnotes⟩ := nothing_of_not_ofWorker hms
  have hdone : done (ns ++ ms) t = done ns s := by simp [done, hfinished, hw]
  constructor
  · simp [hnotes, hfinished, hw, h.history]
  · rw [hdone, hc, h.counter]
  · rw [hdone, printed_append, hprinted, List.append_nil, h.counts]
  · rw [hw]
    exact h.loop

theorem worked_take {ns : List Note} {s t : State} {k : ℕ} (h : Worked ns s)
    (hw : s.worker = none) (ht : t.worker = some ⟨k, 0⟩) (hc : t.cnt = s.cnt) :
    Worked (ns ++ [.called k]) t := by
  have hfinished : finished (ns ++ [.called k]) = finished ns := by simp [finished]
  have hdone : done (ns ++ [.called k]) t = done ns s := by
    simp [done, hfinished, ht, hw, progress]
  constructor
  · rw [workerNotes_append, h.history, hfinished, hw, ht]
    simp [begun, workerNotes, ofWorker]
  · rw [hdone, hc, h.counter]
  · rw [hdone, printed_append, h.counts]
    simp [printed]
  · simp [ht]

theorem worked_print {ns : List Note} {s : State} {w : Work} (h : Worked ns s)
    (hw : s.worker = some w) (hi : w.i < 3) :
    Worked (ns ++ [.printed s.cnt])
      { s with worker := some { w with i := w.i + 1 }, cnt := s.cnt + 1 } := by
  have hfinished : finished (ns ++ [.printed s.cnt]) = finished ns := by simp [finished]
  have hcnt : s.cnt = BitVec.ofNat 32 (3 * (finished ns).length + w.i) := by
    rw [h.counter, done, hw]
    rfl
  constructor
  · rw [workerNotes_append, h.history, hfinished, hw, hcnt]
    simp only [begun, counts, take_triple_succ _ _ hi]
    simp [workerNotes, ofWorker]
  · rw [done, hfinished, hcnt]
    exact (BitVec.ofNat_add _ _).symm
  · rw [printed_append, h.counts, done, done, hfinished, hw, hcnt]
    simp only [progress]
    rw [← Nat.add_assoc, List.range_succ, List.map_append]
    rfl
  · intro v hv
    obtain rfl := Option.some.inj hv
    exact hi

theorem worked_finish {ns : List Note} {s : State} {w : Work} (h : Worked ns s)
    (hw : s.worker = some w) (hi : ¬ w.i < 3) :
    Worked (ns ++ [.finished w.item]) { s with worker := none } := by
  have hthree : w.i = 3 := by
    have hle := h.loop w hw
    omega
  have hfinished : finished (ns ++ [.finished w.item]) = finished ns ++ [w.item] := by
    simp [finished]
  have hdone : done (ns ++ [.finished w.item]) { s with worker := none } = done ns s := by
    simp only [done, hfinished, hw, progress, hthree, List.length_append, List.length_singleton]
    omega
  constructor
  · rw [workerNotes_append, h.history, hfinished, hw, executions, executions, numbered_snoc]
    simp only [begun, counts, hthree, take_triple, execution]
    simp [workerNotes, ofWorker]
  · rw [hdone]
    exact h.counter
  · rw [hdone, printed_append, h.counts]
    simp [printed]
  · simp

theorem worked_step {ns : List Note} {s t : State} {e : Event} (h : Worked ns s)
    (hstep : Step s e t) : Worked (ns ++ notes s e) t := by
  cases hstep with
  | take k rest item hw hq hk =>
    rw [notes_take hq]
    exact worked_take h hw rfl rfl
  | print w hw hi => exact worked_print h hw hi
  | finish w hw hi =>
    rw [notes_finish hw]
    exact worked_finish h hw hi
  | reject item hr hi hp =>
    exact worked_elsewhere h (by simp [notes_reject hi hp]) rfl rfl
  | accept item hr hi hp =>
    exact worked_elsewhere h (by simp [notes_accept hi hp, ofWorker]) rfl rfl
  | handlerReturn ok hr =>
    refine worked_elsewhere h ?_ rfl rfl
    cases ok <;> simp [notes_handlerReturn hr, ofWorker]
  | raise => exact worked_elsewhere h (by simp [notes, ofWorker]) rfl rfl
  | _ => exact worked_elsewhere h (by simp [notes]) rfl rfl

structure WorkLaw (ns : List Note) (s : State) : Prop where
  index : s.line.running = some .wrapped → s.i < NUM
  runs : ns.count .raised = (accepted ns).length + ns.count .message + undecided s
  order : accepted ns = finished ns ++ (s.worker.map Work.item).toList ++ s.queue
  calls : called ns = finished ns ++ (s.worker.map Work.item).toList
  once : s.queue.Nodup
  pending : ∀ (k : ℕ) (item : Item), s.t[k]? = some item → (item.pending ↔ k ∈ s.queue)
  counts : printed ns = (List.range (done ns s)).map (BitVec.ofNat 32)
  history : workerNotes ns = executions (finished ns) ++ begun (finished ns).length s.worker

theorem worked_initial : Worked [] initial := ⟨rfl, rfl, rfl, by simp [initial]⟩

theorem trace_runs {es : List Event} {s : State} (h : workqueueTest.Trace es s) :
    RunsCounted (workqueueTest.observe notes es) s :=
  h.invariant_observed rfl fun _ hI hstep => runs_step hI (step_sound hstep)

theorem trace_worked {es : List Event} {s : State} (h : workqueueTest.Trace es s) :
    Worked (workqueueTest.observe notes es) s :=
  h.invariant_observed worked_initial fun _ hI hstep => worked_step hI (step_sound hstep)

/-- No interrupt is unaccounted for, and all accepted work is executed once, in order. -/
theorem work_conserved {es : List Event} {s : State} (h : workqueueTest.Trace es s) :
    WorkLaw (workqueueTest.observe notes es) s := by
  obtain ⟨q, hq, hR⟩ := refines_pendingQueue h
  obtain ⟨haccepted, hstarted⟩ := trace_inOrder hq
  rw [accepts_moves, starts_moves, hR.waiting] at haccepted
  rw [starts_moves, finishes_moves, hR.running] at hstarted
  have hw := trace_worked h
  constructor
  · exact (trace_indexed h).lt
  · exact trace_runs h
  · rw [haccepted, hstarted]
  · exact hstarted
  · exact hR.waiting ▸ q.nodup
  · exact hR.pending
  · exact hw.counts
  · exact hw.history

theorem work_conserved_twice : WorkLaw
    [.raised, .accepted 0, .called 0, .printed 0, .raised, .accepted 1, .printed 1, .printed 2,
      .finished 0]
    ⟨.loaded, ⟨some none, none⟩, .live, [⟨true, false⟩, ⟨true, true⟩], 2, [1], none, 3⟩ := by
  have hrun : workqueueTest.Trace [.initWork, .initWork, .createWorkqueue true, .gpioRequest,
      .gpioDirectionInput, .requestIrq 0, .raise, .wrap, .queueWork, .handlerReturn, .take, .print,
      .raise, .wrap, .queueWork, .print, .handlerReturn, .print, .finish]
      ⟨.loaded, ⟨some none, none⟩, .live, [⟨true, false⟩, ⟨true, true⟩], 2, [1], none, 3⟩ :=
    System.trace_of_run (by decide)
  exact work_conserved hrun

end IrqWorkqueueConservation
