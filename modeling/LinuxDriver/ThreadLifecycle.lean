import LinuxDriver.TransitionSystem
import LinuxDriver.CallPool
import LinuxDriver.KernelTypes

/-!
# thread: a kernel thread against its creator

`test_init` starts the thread with `kthread_run`, which wakes it up before the caller has stored
the result in `t`. The thread begins with a look at `t->pid`. `test_exit` asks it to stop and
waits for its end.
-/
namespace ThreadLifecycle

open TransitionSystem CallPool KernelTypes

/-- What `kthread_run` answers; the tasks are numbered. -/
inductive Kthread where
  | task (p : ℕ)
  | error (errno : ℕ)
  deriving DecidableEq, Repr

/-- How far a thread has come. In `new` it waits to be woken up, in `woken` it has not
entered `thread_main`, and `oops` has killed it. -/
inductive TaskPc where
  | new
  | woken
  | toReadPid
  | toTest
  | asleep
  | ended (ret : ℤ)
  | oops
  deriving DecidableEq, Repr

structure Task where
  pc : TaskPc
  stop : Bool
  deriving DecidableEq, Repr

namespace Task

def enter (c : Task) : Task :=
  { c with pc := if c.stop then .ended (-EINTR) else .toReadPid }

def readPid (c : Task) : Option Kthread → Task
  | some (.task _) => { c with pc := .toTest }
  | _ => { c with pc := .oops }

def test (c : Task) : Task := { c with pc := if c.stop then .ended 123 else .asleep }

/-- What a `kthread_stop` that has been waiting for the thread returns. -/
def exitCode (c : Task) : Option ℤ :=
  match c.pc with
  | .ended ret => some ret
  | _ => none

def Alive (c : Task) : Prop := c.exitCode = none ∧ c.pc ≠ .oops

def Running (c : Task) : Prop := c.pc = .toReadPid ∨ c.pc = .toTest ∨ c.pc = .asleep

instance (c : Task) : Decidable c.Alive := inferInstanceAs (Decidable (_ ∧ _))
instance (c : Task) : Decidable c.Running := inferInstanceAs (Decidable (_ ∨ _))

end Task

/-- In `created` and `woken` the result of `kthread_create` is still a local of `kthread_run`. In
`oops` the module has used a task that was gone. -/
inductive DriverPc where
  | unloaded
  | toCreate
  | created (k : Kthread)
  | woken (k : Kthread)
  | stored
  | loaded
  | failed (rc : ℤ)
  | stopping (p : ℕ)
  | stopped (ret : ℤ)
  | exited
  | oops
  deriving DecidableEq, Repr

def DriverPc.atRest : DriverPc → Bool
  | .unloaded | .failed _ | .exited => true
  | _ => false

/-- `t` is the global of the module; `tasks` are the threads of all its loads. -/
structure State where
  driver : DriverPc
  t : Option Kthread
  tasks : List Task
  deriving DecidableEq, Repr

/-- The number of `create` is 0 or that of the error. -/
inductive Event where
  | load
  | create (errno : ℕ)
  | wake
  | store
  | initReturn
  | stop
  | join
  | exitReturn
  | enter (p : ℕ)
  | readPid (p : ℕ)
  | test (p : ℕ)
  | awake (p : ℕ)
  deriving DecidableEq, Repr

def State.at (s : State) (pc : DriverPc) : State := { s with driver := pc }

def State.put (s : State) (p : ℕ) (c : Task) : State := { s with tasks := s.tasks.set p c }

def initReturn : Option Kthread → DriverPc
  | some (.error errno) => .failed (-errno)
  | _ => .loaded

/-- The steps of `test_init`, with those of `kthread_run`, and of `test_exit`. A load finds the
static `t` null. Nobody but `kthread_stop` has a reference to the task, so that a thread which was
killed before has been freed. -/
def stepDriver (s : State) : DriverPc → Event → Option State
  | .toCreate, .create 0 =>
    some ⟨.created (.task s.tasks.length), s.t, s.tasks ++ [⟨.new, false⟩]⟩
  | .toCreate, .create errno => some (s.at (.created (.error errno)))
  | .created (.task p), .wake =>
    s.tasks[p]?.map fun c => { s.put p { c with pc := .woken } with driver := .woken (.task p) }
  | .created (.error errno), .wake => some (s.at (.woken (.error errno)))
  | .woken k, .store => some { s.at .stored with t := some k }
  | .stored, .initReturn => some (s.at (initReturn s.t))
  | .loaded, .stop =>
    match s.t with
    | some (.task p) =>
      s.tasks[p]?.map fun c =>
        if c.pc = .oops then s.at .oops
        else { s.put p { c with stop := true } with driver := .stopping p }
    | _ => none
  | .stopping p, .join =>
    (s.tasks[p]?.bind Task.exitCode).map fun ret => s.at (.stopped ret)
  | .stopped _, .exitReturn => some (s.at .exited)
  | pc, .load => if pc.atRest then some { s.at .toCreate with t := none } else none
  | _, _ => none

def stepTask (s : State) (p : ℕ) (c : Task) : TaskPc → Event → Option State
  | .woken, .enter _ => some (s.put p c.enter)
  | .toReadPid, .readPid _ => some (s.put p (c.readPid s.t))
  | .toTest, .test _ => some (s.put p c.test)
  | .asleep, .awake _ => some (s.put p { c with pc := .toTest })
  | _, _ => none

def step (s : State) : Event → Option State
  | .enter p => s.tasks[p]?.bind fun c => stepTask s p c c.pc (.enter p)
  | .readPid p => s.tasks[p]?.bind fun c => stepTask s p c c.pc (.readPid p)
  | .test p => s.tasks[p]?.bind fun c => stepTask s p c c.pc (.test p)
  | .awake p => s.tasks[p]?.bind fun c => stepTask s p c c.pc (.awake p)
  | e => stepDriver s s.driver e

def unloaded : State := ⟨.unloaded, none, []⟩

def thread : System State Event := ⟨unloaded, step⟩

def Event.task : Event → Option ℕ
  | .enter p | .readPid p | .test p | .awake p => some p
  | _ => none

inductive Step : State → Event → State → Prop where
  | load (s) (hpc : s.driver.atRest) : Step s .load { s.at .toCreate with t := none }
  | create (s) (hpc : s.driver = .toCreate) :
      Step s (.create 0)
        ⟨.created (.task s.tasks.length), s.t, s.tasks ++ [⟨.new, false⟩]⟩
  | createFails (s errno) (hpc : s.driver = .toCreate) :
      Step s (.create errno) (s.at (.created (.error errno)))
  | wake (s p c) (hpc : s.driver = .created (.task p)) (hp : s.tasks[p]? = some c) :
      Step s .wake { s.put p { c with pc := .woken } with driver := .woken (.task p) }
  | wakeNone (s errno) (hpc : s.driver = .created (.error errno)) :
      Step s .wake (s.at (.woken (.error errno)))
  | store (s k) (hpc : s.driver = .woken k) : Step s .store { s.at .stored with t := some k }
  | initReturn (s) (hpc : s.driver = .stored) : Step s .initReturn (s.at (initReturn s.t))
  | stop (s p c) (hpc : s.driver = .loaded) (ht : s.t = some (.task p))
      (hp : s.tasks[p]? = some c) (hc : c.pc ≠ .oops) :
      Step s .stop { s.put p { c with stop := true } with driver := .stopping p }
  | stopGone (s p c) (hpc : s.driver = .loaded) (ht : s.t = some (.task p))
      (hp : s.tasks[p]? = some c) (hc : c.pc = .oops) : Step s .stop (s.at .oops)
  | join (s p c ret) (hpc : s.driver = .stopping p) (hp : s.tasks[p]? = some c)
      (hret : c.exitCode = some ret) : Step s .join (s.at (.stopped ret))
  | exitReturn (s ret) (hpc : s.driver = .stopped ret) : Step s .exitReturn (s.at .exited)
  | enter (s p c) (hp : s.tasks[p]? = some c) (hpc : c.pc = .woken) :
      Step s (.enter p) (s.put p c.enter)
  | readPid (s p c) (hp : s.tasks[p]? = some c) (hpc : c.pc = .toReadPid) :
      Step s (.readPid p) (s.put p (c.readPid s.t))
  | test (s p c) (hp : s.tasks[p]? = some c) (hpc : c.pc = .toTest) :
      Step s (.test p) (s.put p c.test)
  | awake (s p c) (hp : s.tasks[p]? = some c) (hpc : c.pc = .asleep) :
      Step s (.awake p) (s.put p { c with pc := .toTest })

theorem stepDriver_sound {s t : State} {e : Event} (h : stepDriver s s.driver e = some t) :
    Step s e t := by
  generalize hpc : s.driver = pc at h
  unfold stepDriver at h
  split at h
  · exact Option.some.inj h ▸ .create s hpc
  · exact Option.some.inj h ▸ .createFails s _ hpc
  · obtain ⟨c, hp, h⟩ := Option.map_eq_some_iff.mp h
    exact h ▸ .wake s _ c hpc hp
  · exact Option.some.inj h ▸ .wakeNone s _ hpc
  · exact Option.some.inj h ▸ .store s _ hpc
  · exact Option.some.inj h ▸ .initReturn s hpc
  · split at h
    case h_1 p ht =>
      obtain ⟨c, hp, h⟩ := Option.map_eq_some_iff.mp h
      split at h
      case isTrue hc => exact h ▸ .stopGone s p c hpc ht hp hc
      case isFalse hc => exact h ▸ .stop s p c hpc ht hp hc
    case h_2 => cases h
  · obtain ⟨ret, hret, h⟩ := Option.map_eq_some_iff.mp h
    obtain ⟨c, hp, hret⟩ := Option.bind_eq_some_iff.mp hret
    exact h ▸ .join s _ c ret hpc hp hret
  · exact Option.some.inj h ▸ .exitReturn s _ hpc
  · obtain ⟨hrest, h⟩ := Option.ite_none_right_eq_some.mp h
    exact Option.some.inj h ▸ .load s (hpc ▸ hrest)
  · cases h

theorem stepTask_sound {s t : State} {p : ℕ} {c : Task} {e : Event}
    (hp : s.tasks[p]? = some c) (he : e.task = some p)
    (h : stepTask s p c c.pc e = some t) : Step s e t := by
  generalize hpc : c.pc = pc at h
  unfold stepTask at h
  split at h
  · obtain rfl := Option.some.inj he
    exact Option.some.inj h ▸ .enter s _ c hp hpc
  · obtain rfl := Option.some.inj he
    exact Option.some.inj h ▸ .readPid s _ c hp hpc
  · obtain rfl := Option.some.inj he
    exact Option.some.inj h ▸ .test s _ c hp hpc
  · obtain rfl := Option.some.inj he
    exact Option.some.inj h ▸ .awake s _ c hp hpc
  · cases h

theorem step_sound {s t : State} {e : Event} (h : step s e = some t) : Step s e t := by
  cases e with
  | enter p | readPid p | test p | awake p =>
    obtain ⟨c, hp, h⟩ := Option.bind_eq_some_iff.mp h
    exact stepTask_sound hp rfl h
  | _ => exact stepDriver_sound h

def State.current (s : State) : Option ℕ :=
  match s.driver with
  | .created (.task p) | .woken (.task p) | .stopping p => some p
  | .stored | .loaded =>
    match s.t with
    | some (.task p) => some p
    | _ => none
  | _ => none

def DriverPc.unstored : DriverPc → Bool
  | .toCreate | .created _ | .woken _ => true
  | _ => false

structure Tracked (s : State) : Prop where
  only : ∀ (p : ℕ) (c : Task), s.tasks[p]? = some c → c.Alive → s.current = some p
  dormant : ∀ (p : ℕ) (c : Task) (k : Kthread), s.tasks[p]? = some c → c.Alive →
    s.driver = .created k → c.pc = .new
  null : s.driver.unstored → s.t = none
  target : ∀ p, s.driver = .stopping p → s.t = some (.task p)

section

variable {s t : State} {p : ℕ} {c d : Task}

theorem current_of_rest (h : s.driver.atRest) : s.current = none := by
  unfold State.current
  split <;> simp_all [DriverPc.atRest]

theorem initReturn_cases (k : Option Kthread) :
    initReturn k = .loaded ∨ ∃ rc, initReturn k = .failed rc := by
  unfold initReturn
  split
  · exact .inr ⟨_, rfl⟩
  · exact .inl rfl

theorem current_initReturn (h : s.driver = .stored) :
    (s.at (initReturn s.t)).current = s.current := by
  simp only [State.current, State.at, h]
  cases s.t with
  | none => rfl
  | some k =>
    cases k with
    | task p => rfl
    | error errno => rfl

theorem not_alive_of_none (h : Tracked s) (hs : s.current = none) (hp : s.tasks[p]? = some c) :
    ¬ c.Alive := by
  intro halive
  have hcurrent := h.only p c hp halive
  rw [hs] at hcurrent
  cases hcurrent

theorem not_alive_in_hand (h : Tracked s) (hs : s.current = some p) (hp : s.tasks[p]? = some c)
    (hc : ¬ c.Alive) (j : ℕ) (e : Task) (hj : s.tasks[j]? = some e) : ¬ e.Alive := by
  intro halive
  obtain rfl := Option.some.inj (hs.symm.trans (h.only j e hj halive))
  obtain rfl := Option.some.inj (hp.symm.trans hj)
  exact hc halive

theorem tracked_of_dead (ht : ∀ (p : ℕ) (c : Task), t.tasks[p]? = some c → ¬ c.Alive)
    (hnull : t.driver.unstored → t.t = none)
    (htarget : ∀ p, t.driver = .stopping p → t.t = some (.task p)) : Tracked t :=
  ⟨fun p c hp hc => absurd hc (ht p c hp), fun p c _ hp hc => absurd hc (ht p c hp), hnull, htarget⟩

theorem tracked_of_none (h : Tracked s) (hs : s.current = none) (htasks : t.tasks = s.tasks)
    (hnull : t.driver.unstored → t.t = none)
    (htarget : ∀ p, t.driver = .stopping p → t.t = some (.task p)) : Tracked t :=
  tracked_of_dead (fun _ _ hp => not_alive_of_none h hs (htasks ▸ hp)) hnull htarget

theorem tracked_of_only (honly : ∀ (p : ℕ) (c : Task), t.tasks[p]? = some c → c.Alive →
    t.current = some p) (hcreated : ∀ k, t.driver ≠ .created k)
    (hnull : t.driver.unstored → t.t = none)
    (htarget : ∀ p, t.driver = .stopping p → t.t = some (.task p)) : Tracked t :=
  ⟨honly, fun _ _ k _ _ hk => absurd hk (hcreated k), hnull, htarget⟩

theorem only_in_hand (h : Tracked s) (hs : s.current = some p) {pc : DriverPc}
    (ht : State.current { s.put p d with driver := pc } = some p) (j : ℕ) (e : Task)
    (hj : (s.put p d).tasks[j]? = some e) (he : e.Alive) :
    State.current { s.put p d with driver := pc } = some j := by
  rcases entry_of_set hj with ⟨rfl, -⟩ | ⟨-, hj⟩
  · exact ht
  · exact ht.trans (hs.symm.trans (h.only j e hj he))

theorem tracked_put (h : Tracked s) (hp : s.tasks[p]? = some c) (hc : c.Alive) (hpc : c.pc ≠ .new) :
    Tracked (s.put p d) := by
  constructor
  · intro j e hj he
    rcases entry_of_set hj with ⟨rfl, rfl⟩ | ⟨-, hj⟩
    · exact h.only j c hp hc
    · exact h.only j e hj he
  · intro j e k hj he hcreated
    exact absurd (h.dormant p c k hp hc hcreated) hpc
  · exact h.null
  · exact h.target

theorem tracked_step {e : Event} (h : Tracked s) (hstep : Step s e t) : Tracked t := by
  cases hstep with
  | load hpc =>
    exact tracked_of_none h (current_of_rest hpc) rfl (fun _ => rfl) (by simp [State.at])
  | create hpc =>
    have hnone : s.current = none := by simp [State.current, hpc]
    constructor
    · intro p c hp hc
      rcases entry_of_spawn hp with hp | ⟨rfl, -⟩
      · exact absurd hc (not_alive_of_none h hnone hp)
      · rfl
    · intro p c k hp hc _
      rcases entry_of_spawn hp with hp | ⟨-, rfl⟩
      · exact absurd hc (not_alive_of_none h hnone hp)
      · rfl
    · intro _
      exact h.null (by simp [hpc, DriverPc.unstored])
    · simp
  | createFails errno hpc | wakeNone errno hpc =>
    have hnone : s.current = none := by simp [State.current, hpc]
    have hnull : s.t = none := h.null (by simp [hpc, DriverPc.unstored])
    exact tracked_of_none h hnone rfl (fun _ => hnull) (by simp [State.at])
  | wake p c hpc hp =>
    have hcurrent : s.current = some p := by simp [State.current, hpc]
    have hnull : s.t = none := h.null (by simp [hpc, DriverPc.unstored])
    exact tracked_of_only (only_in_hand h hcurrent rfl) (by simp) (fun _ => hnull) (by simp)
  | store k hpc =>
    have hcurrent : State.current { s.at .stored with t := some k } = s.current := by
      cases k <;> simp [State.current, State.at, hpc]
    refine tracked_of_only ?_ (by simp [State.at]) (by simp [State.at, DriverPc.unstored])
      (by simp [State.at])
    intro p c hp hc
    exact hcurrent.trans (h.only p c hp hc)
  | initReturn hpc =>
    have hcurrent := current_initReturn hpc
    have honly : ∀ (p : ℕ) (c : Task), s.tasks[p]? = some c → c.Alive →
        (s.at (initReturn s.t)).current = some p := by
      intro p c hp hc
      exact hcurrent.trans (h.only p c hp hc)
    refine tracked_of_only honly ?_ ?_ ?_ <;>
      rcases initReturn_cases s.t with hret | ⟨rc, hret⟩ <;>
      simp [State.at, DriverPc.unstored, hret]
  | stop p c hpc ht hp hc =>
    have hcurrent : s.current = some p := by simp [State.current, hpc, ht]
    refine tracked_of_only (only_in_hand h hcurrent rfl) (by simp) (by simp [DriverPc.unstored]) ?_
    intro q hq
    obtain rfl : p = q := by simpa using hq
    exact ht
  | stopGone p c hpc ht hp hc =>
    have hcurrent : s.current = some p := by simp [State.current, hpc, ht]
    exact tracked_of_dead (not_alive_in_hand (s := s) h hcurrent hp fun halive => halive.2 hc)
      (by simp [State.at, DriverPc.unstored]) (by simp [State.at])
  | join p c ret hpc hp hret =>
    have hcurrent : s.current = some p := by simp [State.current, hpc]
    refine tracked_of_dead (not_alive_in_hand (s := s) h hcurrent hp ?_)
      (by simp [State.at, DriverPc.unstored]) (by simp [State.at])
    rintro ⟨hnone, -⟩
    rw [hret] at hnone
    cases hnone
  | exitReturn ret hpc =>
    have hnone : s.current = none := by simp [State.current, hpc]
    exact tracked_of_none h hnone rfl (by simp [State.at, DriverPc.unstored]) (by simp [State.at])
  | enter p c hp hpc | readPid p c hp hpc | test p c hp hpc | awake p c hp hpc =>
    exact tracked_put h hp (by simp [Task.Alive, Task.exitCode, hpc]) (by simp [hpc])

end

theorem trace_tracked {es : List Event} {s : State} (h : thread.Trace es s) : Tracked s := by
  refine h.invariant ?_ fun hI hstep => tracked_step hI (step_sound hstep)
  exact tracked_of_dead (by simp [thread, unloaded]) (by simp [thread, unloaded])
    (by simp [thread, unloaded])

/-- The thread in hand exists, and after `test_init` it is `t` and has been woken up. -/
structure Ready (s : State) : Prop where
  present : ∀ p, s.current = some p → p < s.tasks.length
  stored : s.driver = .stored → s.t ≠ none
  loaded : s.driver = .loaded → ∃ p, s.t = some (.task p)
  new : ∀ (p : ℕ) (c : Task), s.tasks[p]? = some c → c.pc = .new → s.driver = .created (.task p)

section

variable {s t : State} {p : ℕ} {c d : Task}

theorem ready_put (h : Ready s) (hd : d.pc ≠ .new) : Ready (s.put p d) := by
  constructor
  · intro q hq
    rw [State.put, List.length_set]
    exact h.present q hq
  · exact h.stored
  · exact h.loaded
  · intro j e hj he
    rcases entry_of_set hj with ⟨-, rfl⟩ | ⟨-, hj⟩
    · exact absurd he hd
    · exact h.new j e hj he

theorem ready_of_driver (h : Ready s) (htasks : t.tasks = s.tasks)
    (hcreated : ∀ k, s.driver ≠ .created (.task k))
    (hcurrent : ∀ p, t.current = some p → s.current = some p)
    (hstored : t.driver = .stored → t.t ≠ none)
    (hloaded : t.driver = .loaded → ∃ p, t.t = some (.task p)) : Ready t := by
  constructor
  · intro p hp
    rw [htasks]
    exact h.present p (hcurrent p hp)
  · exact hstored
  · exact hloaded
  · intro p c hp hc
    exact absurd (h.new p c (htasks ▸ hp) hc) (hcreated p)

theorem ready_in_hand (h : Ready s) (hp : s.tasks[p]? = some c) {pc : DriverPc}
    (ht : State.current { s.put p d with driver := pc } = some p)
    (hnew : d.pc ≠ .new) (hcreated : ∀ j, s.driver = .created (.task j) → j = p)
    (hstored : pc ≠ .stored) (hloaded : pc ≠ .loaded) :
    Ready { s.put p d with driver := pc } := by
  constructor
  · intro q hq
    obtain rfl := Option.some.inj (ht.symm.trans hq)
    simpa [State.put] using lt_length hp
  · intro hpc
    exact absurd hpc hstored
  · intro hpc
    exact absurd hpc hloaded
  · intro j e hj he
    rcases entry_of_set hj with ⟨-, rfl⟩ | ⟨hne, hj⟩
    · exact absurd he hnew
    · exact absurd (hcreated j (h.new j e hj he)) hne

theorem ready_step {e : Event} (h : Ready s) (hstep : Step s e t) : Ready t := by
  cases hstep with
  | load hpc =>
    have hrest {pc} (hne : pc.atRest = false) : s.driver ≠ pc := by
      rintro rfl
      rw [hpc] at hne
      cases hne
    exact ready_of_driver h rfl (fun k => hrest rfl) (by simp [State.current, State.at])
      (by simp [State.at]) (by simp [State.at])
  | create hpc =>
    constructor
    · intro p hp
      obtain rfl : s.tasks.length = p := by simpa [State.current] using hp
      simp
    · simp
    · simp
    · intro p c hp hc
      rcases entry_of_spawn hp with hp | ⟨rfl, -⟩
      · have hcreated := h.new p c hp hc
        rw [hpc] at hcreated
        cases hcreated
      · rfl
  | createFails errno hpc | wakeNone errno hpc | join _ _ _ hpc | exitReturn _ hpc
  | stopGone _ _ hpc =>
    exact ready_of_driver h rfl (by simp [hpc]) (by simp [State.current, State.at])
      (by simp [State.at]) (by simp [State.at])
  | wake p c hpc hp =>
    refine ready_in_hand h hp rfl (by simp) ?_ (by simp) (by simp)
    intro j hj
    rw [hpc] at hj
    cases hj
    rfl
  | store k hpc =>
    refine ready_of_driver h rfl (by simp [hpc]) ?_ (by simp [State.at]) (by simp [State.at])
    intro p hp
    cases k <;> simp_all [State.current, State.at]
  | initReturn hpc =>
    refine ready_of_driver h rfl (by simp [hpc]) ?_ ?_ ?_
    · intro p hp
      exact (current_initReturn hpc).symm.trans hp
    · intro hstored
      rcases initReturn_cases s.t with hret | ⟨rc, hret⟩ <;> simp [State.at, hret] at hstored
    · intro hloaded
      cases ht : s.t with
      | none => exact absurd ht (h.stored hpc)
      | some k =>
        cases k with
        | task p => exact ⟨p, ht⟩
        | error errno => simp [State.at, initReturn, ht] at hloaded
  | stop p c hpc ht hp hc =>
    have hcreated {j} : s.driver ≠ .created (.task j) := by simp [hpc]
    exact ready_in_hand h hp rfl (fun hnew => hcreated (h.new p c hp hnew))
      (fun j hj => absurd hj hcreated) (by simp) (by simp)
  | enter p c hp hpc =>
    apply ready_put h
    unfold Task.enter
    split <;> simp
  | readPid p c hp hpc =>
    apply ready_put h
    unfold Task.readPid
    split <;> simp
  | test p c hp hpc =>
    apply ready_put h
    unfold Task.test
    split <;> simp
  | awake p c hp hpc => exact ready_put h (by simp)

end

theorem trace_ready {es : List Event} {s : State} (h : thread.Trace es s) : Ready s := by
  refine h.invariant ?_ fun hI hstep => ready_step hI (step_sound hstep)
  constructor
  · simp [thread, unloaded, State.current]
  · simp [thread, unloaded]
  · simp [thread, unloaded]
  · simp [thread, unloaded]

/-- A thread that looks at `t->pid` finds itself there. -/
def OwnPid (s : State) : Event → Prop
  | .readPid p => s.t = some (.task p)
  | _ => True

/-- No thread is in `thread_main` any more when `test_exit` has returned. -/
def Joined (s : State) : Prop := s.driver = .exited → ∀ c ∈ s.tasks, ¬ c.Running

structure ThreadSafe (es : List Event) : Prop where
  ownPid : thread.EachStep OwnPid es
  joined : thread.Throughout Joined es

def DriverPc.storing : DriverPc → Bool
  | .woken _ => true
  | _ => false

/-- The thread does not overtake its creator on the way to the store. -/
def AfterStore (s : State) : Event → Prop
  | .readPid _ => s.driver.storing = false
  | _ => True

instance : ∀ s e, Decidable (AfterStore s e)
  | s, .readPid _ => inferInstanceAs (Decidable (s.driver.storing = false))
  | _, .load | _, .create _ | _, .wake | _, .store | _, .initReturn | _, .stop | _, .join
  | _, .exitReturn | _, .enter _ | _, .test _ | _, .awake _ => isTrue trivial

theorem alive_of_running {c : Task} (h : c.Running) : c.Alive := by
  rcases h with hpc | hpc | hpc
  · simp [Task.Alive, Task.exitCode, hpc]
  · simp [Task.Alive, Task.exitCode, hpc]
  · simp [Task.Alive, Task.exitCode, hpc]

theorem joined_of_tracked {s : State} (h : Tracked s) : Joined s := by
  intro hexit c hc hrun
  obtain ⟨p, hp⟩ := List.mem_iff_getElem?.mp hc
  have hnone : s.current = none := by simp [State.current, hexit]
  exact not_alive_of_none h hnone hp (alive_of_running hrun)

theorem t_of_current {s : State} {p : ℕ} (h : Tracked s) (hp : s.current = some p)
    (hcreated : ∀ k, s.driver ≠ .created k) (hstoring : s.driver.storing = false) :
    s.t = some (.task p) := by
  unfold State.current at hp
  split at hp
  case h_1 q hpc => exact absurd hpc (hcreated _)
  case h_2 q hpc => simp [hpc, DriverPc.storing] at hstoring
  case h_3 q hpc =>
    obtain rfl := Option.some.inj hp
    exact h.target q hpc
  case h_4 | h_5 =>
    split at hp
    case h_1 q ht =>
      obtain rfl := Option.some.inj hp
      exact ht
    case h_2 => cases hp
  case h_6 => cases hp

theorem null_of_storing {s : State} (h : Tracked s) (hstoring : s.driver.storing) : s.t = none := by
  apply h.null
  cases hpc : s.driver <;> simp_all [DriverPc.storing, DriverPc.unstored]

theorem ownPid_iff {s t : State} {e : Event} (h : Tracked s) (hstep : Step s e t) :
    OwnPid s e ↔ AfterStore s e := by
  cases hstep with
  | readPid p c hp hpc =>
    have halive : c.Alive := alive_of_running (.inl hpc)
    constructor
    · intro hown
      apply Bool.eq_false_iff.mpr
      intro hstoring
      have hnull := null_of_storing h hstoring
      rw [hown] at hnull
      cases hnull
    · intro hafter
      refine t_of_current h (h.only p c hp halive) ?_ hafter
      intro k hcreated
      have hnew := h.dormant p c k hp halive hcreated
      rw [hpc] at hnew
      cases hnew
  | _ => exact Iff.rfl

theorem throughout_joined (es : List Event) : thread.Throughout Joined es :=
  fun _ _ _ hs => joined_of_tracked (trace_tracked hs)

/-- In every run the thread is over when `test_exit` returns; it finds itself in `t` in exactly
the runs in which it does not overtake its creator. -/
theorem thread_safe_iff {es : List Event} {s : State} (h : thread.Trace es s) :
    ThreadSafe es ↔ thread.EachStep AfterStore es := by
  have hiff : thread.EachStep OwnPid es ↔ thread.EachStep AfterStore es :=
    h.eachStep_congr fun hs hstep => ownPid_iff (trace_tracked hs) (step_sound hstep)
  constructor
  · intro hsafe
    exact hiff.mp hsafe.ownPid
  · intro hafter
    exact ⟨hiff.mpr hafter, throughout_joined es⟩

theorem thread_safe_started : ThreadSafe [.load, .create 0, .wake, .enter 0, .store, .readPid 0,
    .test 0, .initReturn, .stop, .awake 0, .test 0, .join, .exitReturn] := by
  have hrun : thread.Trace [.load, .create 0, .wake, .enter 0, .store, .readPid 0, .test 0,
      .initReturn, .stop, .awake 0, .test 0, .join, .exitReturn]
      ⟨.exited, some (.task 0), [⟨.ended 123, true⟩]⟩ := System.trace_of_run (by decide)
  exact (thread_safe_iff hrun).mpr (System.eachStep_of_check (by decide))

/-- The thread is faster than the store of its creator and looks behind the null pointer. -/
theorem pid_read_too_early : ¬ ∀ es s, thread.Trace es s → ThreadSafe es := by
  intro h
  have hbefore : thread.Trace [.load, .create 0, .wake, .enter 0]
      ⟨.woken (.task 0), none, [⟨.toReadPid, false⟩]⟩ := System.trace_of_run (by decide)
  have hafter := hbefore.snoc (e := .readPid 0) rfl
  have hown : none = some (Kthread.task 0) := (h _ _ hafter).ownPid.last hbefore
  cases hown

end ThreadLifecycle
