import LinuxDriver.ThreadLifecycle
import LinuxDriver.Progress

/-!
# thread: the wait of `kthread_stop`

From the request on the thread has at most four steps left, wherever it is, and the value that
`test_exit` prints tells how far it came.
-/
namespace ThreadExit

open TransitionSystem CallPool KernelTypes ThreadLifecycle Progress

def taskLeft (c : Task) : ℕ :=
  match c.pc with
  | .woken | .toTest => 1
  | .toReadPid | .asleep => 2
  | _ => 0

def left (s : State) : ℕ :=
  match s.driver with
  | .stopping p => 2 + (s.tasks[p]?.map taskLeft).getD 0
  | .stopped _ => 1
  | _ => 0

@[simp] def leaving : DriverPc → Bool
  | .stopping _ | .stopped _ | .exited => true
  | _ => false

structure Over (s : State) : Prop where
  driver : s.driver = .exited
  dead : ∀ (p : ℕ) (c : Task), s.tasks[p]? = some c → ¬ c.Alive

def Unharmed (s : State) : Prop := ∀ (p : ℕ) (c : Task), s.tasks[p]? = some c → c.pc ≠ .oops

/-- The states that a run reaches while `test_exit` is on its way. -/
structure Leaving (s : State) : Prop where
  reached : ∃ es, thread.Trace es s
  driver : leaving s.driver
  unharmed : Unharmed s
  asked : ∀ (p : ℕ) (c : Task), s.tasks[p]? = some c → c.Alive → c.stop

def Works (e : Event) : Prop := e ≠ .load

theorem taskLeft_le (c : Task) : taskLeft c ≤ 2 := by
  unfold taskLeft
  split <;> decide

section

variable {s t : State} {e : Event} {p : ℕ} {c d : Task}

theorem Leaving.tracked (h : Leaving s) : Tracked s := by
  obtain ⟨es, hrun⟩ := h.reached
  exact trace_tracked hrun

theorem Leaving.ready (h : Leaving s) : Ready s := by
  obtain ⟨es, hrun⟩ := h.reached
  exact trace_ready hrun

theorem readPid_stored (h : Tracked s) (hp : s.tasks[p]? = some c) (hpc : c.pc = .toReadPid)
    (hafter : s.driver.storing = false) : c.readPid s.t = { c with pc := .toTest } := by
  have hown : s.t = some (.task p) := (ownPid_iff h (.readPid s p c hp hpc)).mpr hafter
  rw [hown, Task.readPid]

theorem unharmed_put (h : Unharmed s) (hd : d.pc ≠ .oops) : Unharmed (s.put p d) := by
  intro j e hj
  rcases entry_of_set hj with ⟨-, rfl⟩ | ⟨-, hj⟩
  · exact hd
  · exact h j e hj

theorem unharmed_step (h : Unharmed s) (htracked : Tracked s) (hstep : Step s e t)
    (hafter : AfterStore s e) : Unharmed t := by
  cases hstep with
  | create hpc =>
    intro p c hp
    rcases entry_of_spawn hp with hp | ⟨-, rfl⟩
    · exact h p c hp
    · simp
  | wake p c hpc hp => exact unharmed_put (s := s) h (by simp)
  | stop p c hpc ht hp hc => exact unharmed_put (s := s) h hc
  | enter p c hp hpc =>
    apply unharmed_put h
    unfold Task.enter
    split <;> simp
  | readPid p c hp hpc =>
    rw [readPid_stored htracked hp hpc hafter]
    exact unharmed_put h (by simp)
  | test p c hp hpc =>
    apply unharmed_put h
    unfold Task.test
    split <;> simp
  | awake p c hp hpc => exact unharmed_put h (by simp)
  | _ => exact h

theorem stopping_of_alive (h : Leaving s) (hp : s.tasks[p]? = some c) (hc : c.Alive) :
    s.driver = .stopping p := by
  have hcurrent := h.tracked.only p c hp hc
  have hd := h.driver
  unfold State.current at hcurrent
  split at hcurrent
  case h_3 q hpc =>
    obtain rfl := Option.some.inj hcurrent
    exact hpc
  case h_6 => cases hcurrent
  all_goals simp_all

theorem storing_of_leaving (h : Leaving s) : s.driver.storing = false := by
  have hd := h.driver
  cases hpc : s.driver <;> simp_all [DriverPc.storing]

theorem afterStore_of_storing (h : s.driver.storing = false) : AfterStore s e := by
  cases e with
  | readPid => exact h
  | _ => trivial

theorem leaving_put (h : Leaving s) (hp : s.tasks[p]? = some c) (hc : c.Alive)
    (hstop : d.stop = c.stop) (hlt : taskLeft d < taskLeft c) :
    (∀ (j : ℕ) (b : Task), (s.put p d).tasks[j]? = some b → b.Alive → b.stop) ∧
      left (s.put p d) < left s := by
  constructor
  · intro j b hj hb
    rcases entry_of_set hj with ⟨-, rfl⟩ | ⟨-, hj⟩
    · rw [hstop]
      exact h.asked p c hp hc
    · exact h.asked j b hj hb
  · have hpc := stopping_of_alive h hp hc
    have hd : (s.put p d).tasks[p]? = some d := set_entry hp
    have hput : (s.put p d).driver = .stopping p := hpc
    unfold left
    rw [hpc, hput]
    simpa [hp, hd] using hlt

/-- The steps that a thread has left become fewer, and nobody takes the request back. -/
theorem leaving_step (h : Leaving s) (hstep : Step s e t) (he : Works e) :
    leaving t.driver ∧ (∀ (j : ℕ) (b : Task), t.tasks[j]? = some b → b.Alive → b.stop) ∧
      left t < left s := by
  have hd := h.driver
  cases hstep with
  | load hpc => exact absurd rfl he
  | create hpc | createFails errno hpc | wake p c hpc hp | wakeNone errno hpc | store k hpc
  | initReturn hpc | stop p c hpc | stopGone p c hpc => simp [hpc] at hd
  | join p c ret hpc hp hret =>
    refine ⟨rfl, h.asked, ?_⟩
    simp only [left, hpc, State.at]
    omega
  | exitReturn ret hpc =>
    refine ⟨rfl, h.asked, ?_⟩
    simp [left, hpc, State.at]
  | enter p c hp hpc =>
    have hc : c.Alive := by simp [Task.Alive, Task.exitCode, hpc]
    have hstop := h.asked p c hp hc
    exact ⟨hd, leaving_put h hp hc rfl (by simp [taskLeft, Task.enter, hpc, hstop])⟩
  | readPid p c hp hpc =>
    have hc : c.Alive := alive_of_running (.inl hpc)
    rw [readPid_stored h.tracked hp hpc (storing_of_leaving h)]
    exact ⟨hd, leaving_put h hp hc rfl (by simp [taskLeft, hpc])⟩
  | test p c hp hpc =>
    have hc : c.Alive := alive_of_running (.inr (.inl hpc))
    have hstop := h.asked p c hp hc
    exact ⟨hd, leaving_put h hp hc rfl (by simp [taskLeft, Task.test, hpc, hstop])⟩
  | awake p c hp hpc =>
    have hc : c.Alive := alive_of_running (.inr (.inr hpc))
    exact ⟨hd, leaving_put h hp hc rfl (by simp [taskLeft, hpc])⟩

theorem goes_task (h : Leaving s) (hp : s.tasks[p]? = some c) (hc : c.Alive) :
    ∃ e t, Works e ∧ thread.step s e = some t := by
  have hstopping := stopping_of_alive h hp hc
  cases hpc : c.pc with
  | new =>
    have hcreated := h.ready.new p c hp hpc
    rw [hstopping] at hcreated
    cases hcreated
  | woken => exact ⟨.enter p, _, by simp [Works], by simp [thread, step, hp, stepTask, hpc]; rfl⟩
  | toReadPid =>
    exact ⟨.readPid p, _, by simp [Works], by simp [thread, step, hp, stepTask, hpc]; rfl⟩
  | toTest => exact ⟨.test p, _, by simp [Works], by simp [thread, step, hp, stepTask, hpc]; rfl⟩
  | asleep => exact ⟨.awake p, _, by simp [Works], by simp [thread, step, hp, stepTask, hpc]; rfl⟩
  | ended ret | oops => simp [Task.Alive, Task.exitCode, hpc] at hc

theorem goes (h : Leaving s) (hleft : left s ≠ 0) :
    ∃ e t, Works e ∧ thread.step s e = some t := by
  cases hpc : s.driver with
  | stopping p =>
    have hlt : p < s.tasks.length := h.ready.present p (by simp [State.current, hpc])
    have hp : s.tasks[p]? = some s.tasks[p] := List.getElem?_eq_getElem hlt
    cases hret : s.tasks[p].exitCode with
    | none => exact goes_task h hp ⟨hret, h.unharmed p _ hp⟩
    | some ret =>
      refine ⟨.join, s.at (.stopped ret), by simp [Works], ?_⟩
      simp [thread, step, stepDriver, hpc, hp, hret]
  | stopped ret =>
    refine ⟨.exitReturn, s.at .exited, by simp [Works], ?_⟩
    simp [thread, step, stepDriver, hpc]
  | _ => simp [left, hpc] at hleft

theorem over_of_left (h : Leaving s) (hleft : left s = 0) : Over s := by
  have hd := h.driver
  have hexited : s.driver = .exited := by
    cases hpc : s.driver <;> simp_all [left]
  have hnone : s.current = none := by simp [State.current, hexited]
  exact ⟨hexited, fun p c hp => not_alive_of_none h.tracked hnone hp⟩

end

theorem drains : Drains thread Leaving Works left where
  keeps := by
    intro s e t hs he hstep
    obtain ⟨es, hrun⟩ := hs.reached
    obtain ⟨hd, hasked, -⟩ := leaving_step hs (step_sound hstep) he
    have hafter : AfterStore s e := afterStore_of_storing (storing_of_leaving hs)
    have hunharmed := unharmed_step hs.unharmed hs.tracked (step_sound hstep) hafter
    exact ⟨⟨_, hrun.snoc hstep⟩, hd, hunharmed, hasked⟩
  lowers hs he hstep := (leaving_step hs (step_sound hstep) he).2.2
  goes hs hleft := goes hs hleft

theorem trace_unharmed {es : List Event} {s : State} (h : thread.Trace es s)
    (hafter : thread.EachStep AfterStore es) : Unharmed s := by
  induction h with
  | nil => simp [Unharmed, thread, unloaded]
  | snoc hs hstep ih =>
    have hbefore := ih (hafter.mono (List.prefix_append _ _))
    exact unharmed_step hbefore (trace_tracked hs) (step_sound hstep) (hafter.last hs)

/-- Where no thread has looked at `t` before the store, `kthread_stop` asks the thread of the load
in every state of it; whatever the schedule, the thread ends and `test_exit` returns after four
steps at most. -/
theorem stop_comes_to_rest {es : List Event} {s : State} (h : thread.Trace es s)
    (hafter : thread.EachStep AfterStore es) (hloaded : s.driver = .loaded) :
    ∃ t, thread.step s .stop = some t ∧ ComesToRest thread Works Over 4 t := by
  have hready := trace_ready h
  have hunharmed := trace_unharmed h hafter
  obtain ⟨p, ht⟩ := hready.loaded hloaded
  have hcurrent : s.current = some p := by simp [State.current, hloaded, ht]
  have hlt : p < s.tasks.length := hready.present p hcurrent
  have hp : s.tasks[p]? = some s.tasks[p] := List.getElem?_eq_getElem hlt
  have hlives := hunharmed p _ hp
  let d : Task := { s.tasks[p] with stop := true }
  let t : State := { s.put p d with driver := .stopping p }
  have hstep : thread.step s .stop = some t := by
    simp [thread, step, stepDriver, hloaded, ht, hp, hlives, t, d]
  have hasked : ∀ (j : ℕ) (b : Task), t.tasks[j]? = some b → b.Alive → b.stop := by
    intro j b hj hb
    rcases entry_of_set hj with ⟨-, rfl⟩ | ⟨hne, hj⟩
    · rfl
    · have honly := (trace_tracked h).only j b hj hb
      rw [hcurrent] at honly
      exact absurd (Option.some.inj honly).symm hne
  have hbound : left t ≤ 4 := by
    have hd : t.tasks[p]? = some d := set_entry hp
    have hle := taskLeft_le d
    have hleft : left t = 2 + (t.tasks[p]?.map taskLeft).getD 0 := rfl
    rw [hd] at hleft
    exact hleft ▸ Nat.add_le_add_left hle 2
  have hleaving : Leaving t :=
    ⟨⟨_, h.snoc hstep⟩, rfl, unharmed_put (s := s) hunharmed hlives, hasked⟩
  exact ⟨t, hstep, (drains.comesToRest over_of_left hleaving).mono hbound⟩

theorem stop_comes_to_rest_asleep : ∃ t,
    thread.step ⟨.loaded, some (.task 0), [⟨.asleep, false⟩]⟩ .stop = some t ∧
      ComesToRest thread Works Over 4 t := by
  have hrun : thread.Trace [.load, .create 0, .wake, .store, .enter 0, .readPid 0, .test 0,
      .initReturn] ⟨.loaded, some (.task 0), [⟨.asleep, false⟩]⟩ := System.trace_of_run (by decide)
  exact stop_comes_to_rest hrun (System.eachStep_of_check (by decide)) rfl

/-- The looks of the thread at `t->pid`: whether the result of `kthread_run` was still missing. -/
def looks (p : ℕ) (s : State) : Event → List Bool
  | .readPid q => if q = p then [s.driver.storing] else []
  | _ => []

/-- What `kthread_stop` returns for a thread with these looks. -/
def exitValue : List Bool → Option ℤ
  | [] => some (-EINTR)
  | false :: _ => some 123
  | true :: _ => none

def TaskPc.Shows (seen : List Bool) : TaskPc → Prop
  | .new | .woken | .toReadPid => seen = []
  | .toTest | .asleep => seen = [false]
  | .ended ret => exitValue seen = some ret
  | .oops => seen = [true]

structure Seen (p : ℕ) (seen : List Bool) (s : State) : Prop where
  unborn : s.tasks.length ≤ p → seen = []
  shows : ∀ c : Task, s.tasks[p]? = some c → TaskPc.Shows seen c.pc

def Fresh (s : State) : Prop :=
  ∀ (p : ℕ) (c : Task), s.driver = .created (.task p) → s.tasks[p]? = some c → c.pc = .new

/-- What has become of the thread that `t` refers to when `kthread_stop` is over. -/
structure Answered (s : State) : Prop where
  stopped : ∀ ret, s.driver = .stopped ret → ∃ p c, s.t = some (.task p) ∧
    s.tasks[p]? = some c ∧ c.exitCode = some ret
  oops : s.driver = .oops → ∃ p c, s.t = some (.task p) ∧ s.tasks[p]? = some c ∧ c.pc = .oops

section

variable {s t : State} {e : Event} {p q : ℕ} {c d : Task} {seen : List Bool}

theorem seen_of_tasks (h : Seen p seen s) (htasks : t.tasks = s.tasks) : Seen p seen t :=
  ⟨htasks ▸ h.unborn, fun c hp => h.shows c (htasks ▸ hp)⟩

theorem seen_put (h : Seen p seen s) (hq : s.tasks[q]? = some c) {more : List Bool}
    (hmore : q ≠ p → more = []) (hd : q = p → TaskPc.Shows (seen ++ more) d.pc) :
    Seen p (seen ++ more) (s.put q d) := by
  by_cases hqp : q = p
  · subst hqp
    constructor
    · intro hlen
      have hlt := lt_length hq
      simp only [State.put, List.length_set] at hlen
      omega
    · intro b hb
      rcases entry_of_set hb with ⟨-, rfl⟩ | ⟨hne, -⟩
      · exact hd rfl
      · exact absurd rfl hne
  · rw [hmore hqp, List.append_nil]
    constructor
    · intro hlen
      apply h.unborn
      simpa [State.put] using hlen
    · intro b hb
      rcases entry_of_set hb with ⟨hpq, -⟩ | ⟨-, hb⟩
      · exact absurd hpq.symm hqp
      · exact h.shows b hb

theorem seen_put_quiet (h : Seen p seen s) (hq : s.tasks[q]? = some c)
    (hd : TaskPc.Shows seen c.pc → TaskPc.Shows seen d.pc) : Seen p seen (s.put q d) := by
  have hput : Seen p (seen ++ []) (s.put q d) := by
    apply seen_put h hq
    · exact fun _ => rfl
    · rintro rfl
      rw [List.append_nil]
      exact hd (h.shows c hq)
  rwa [List.append_nil] at hput

/-- The look finds the thread itself once the result is stored, and kills it before. -/
theorem shows_readPid (h : Tracked s) (hq : s.tasks[q]? = some c) (hpc : c.pc = .toReadPid) :
    TaskPc.Shows [s.driver.storing] (c.readPid s.t).pc := by
  have hiff : s.t = some (.task q) ↔ s.driver.storing = false :=
    ownPid_iff h (.readPid s q c hq hpc)
  cases hstoring : s.driver.storing with
  | false => simp [hiff.mpr hstoring, Task.readPid, TaskPc.Shows]
  | true => simp [null_of_storing h hstoring, Task.readPid, TaskPc.Shows]

theorem ne_created (h : Tracked s) (hp : s.tasks[p]? = some c) (hc : c.Alive) (hpc : c.pc ≠ .new)
    (k : Kthread) : s.driver ≠ .created k :=
  fun hcreated => hpc (h.dormant p c k hp hc hcreated)

theorem initReturn_ne (k : Option Kthread) : (∀ j, initReturn k ≠ .created j) ∧
    (∀ ret, initReturn k ≠ .stopped ret) ∧ initReturn k ≠ .oops := by
  rcases initReturn_cases k with hinit | ⟨rc, hinit⟩ <;> simp [hinit]

theorem fresh_step (h : Tracked s) (hstep : Step s e t) : Fresh t := by
  intro p c hcreated hp
  cases hstep with
  | create hpc =>
    obtain rfl : s.tasks.length = p := by simpa using hcreated
    obtain rfl := Option.some.inj (spawn_entry.symm.trans hp)
    rfl
  | initReturn hpc => exact absurd hcreated ((initReturn_ne s.t).1 _)
  | load | createFails | wake | wakeNone | store | stop | stopGone | join | exitReturn =>
    simp [State.at] at hcreated
  | enter q d hq hpc | readPid q d hq hpc | test q d hq hpc | awake q d hq hpc =>
    have hd : d.Alive := by simp [Task.Alive, Task.exitCode, hpc]
    exact absurd hcreated (ne_created h hq hd (by simp [hpc]) _)

theorem seen_step (h : Seen p seen s) (hfresh : Fresh s) (htracked : Tracked s)
    (hstep : Step s e t) :
    Seen p (seen ++ looks p s e) t := by
  cases hstep with
  | create hpc =>
    simp only [looks, List.append_nil]
    constructor
    · intro hlen
      apply h.unborn
      simp only [List.length_append, List.length_singleton] at hlen
      omega
    · intro c hp
      rcases entry_of_spawn hp with hp | ⟨rfl, rfl⟩
      · exact h.shows c hp
      · exact h.unborn (Nat.le_refl _)
  | wake q c hpc hq =>
    simp only [looks, List.append_nil]
    have hnew : c.pc = .new := hfresh q c hpc hq
    have hput := seen_put_quiet (d := { c with pc := .woken }) h hq (by simp [TaskPc.Shows, hnew])
    exact seen_of_tasks hput rfl
  | stop q c hpc ht hq =>
    simp only [looks, List.append_nil]
    have hput := seen_put_quiet (d := { c with stop := true }) h hq id
    exact seen_of_tasks hput rfl
  | enter q c hq hpc =>
    simp only [looks, List.append_nil]
    apply seen_put_quiet h hq
    unfold Task.enter
    cases c.stop <;> simp +contextual [TaskPc.Shows, hpc, exitValue]
  | readPid q c hq hpc =>
    apply seen_put h hq
    · intro hqp
      exact if_neg hqp
    · rintro rfl
      have hnone : seen = [] := by simpa [TaskPc.Shows, hpc] using h.shows c hq
      rw [looks, if_pos rfl, hnone]
      exact shows_readPid htracked hq hpc
  | test q c hq hpc =>
    simp only [looks, List.append_nil]
    apply seen_put_quiet h hq
    unfold Task.test
    cases c.stop <;> simp +contextual [TaskPc.Shows, hpc, exitValue]
  | awake q c hq hpc =>
    simp only [looks, List.append_nil]
    exact seen_put_quiet h hq (by simp [TaskPc.Shows, hpc])
  | load | createFails | wakeNone | store | initReturn | stopGone | join | exitReturn =>
    simp only [looks, List.append_nil]
    exact seen_of_tasks h rfl

theorem exitValue_of_shows {ret : ℤ} (h : TaskPc.Shows seen c.pc) (hret : c.exitCode = some ret) :
    exitValue seen = some ret := by
  unfold Task.exitCode at hret
  split at hret
  case h_1 value hpc =>
    rw [hpc] at h
    obtain rfl := Option.some.inj hret
    exact h
  case h_2 => cases hret

theorem answered_of_driver (h : ∀ ret, t.driver ≠ .stopped ret) (hoops : t.driver ≠ .oops) :
    Answered t :=
  ⟨fun ret hpc => absurd hpc (h ret), fun hpc => absurd hpc hoops⟩

theorem answered_put (h : Answered s) (hp : s.tasks[p]? = some c) (hc : c.Alive) :
    Answered (s.put p d) := by
  have hother {q : ℕ} {b : Task} (hq : s.tasks[q]? = some b) (hb : ¬ b.Alive) :
      (s.put p d).tasks[q]? = some b := by
    have hne : q ≠ p := by
      rintro rfl
      obtain rfl := Option.some.inj (hp.symm.trans hq)
      exact hb hc
    exact (set_other hne).trans hq
  constructor
  · intro ret hpc
    obtain ⟨q, b, ht, hq, hret⟩ := h.stopped ret hpc
    exact ⟨q, b, ht, hother hq fun hb => by simp [hb.1] at hret, hret⟩
  · intro hpc
    obtain ⟨q, b, ht, hq, hb⟩ := h.oops hpc
    exact ⟨q, b, ht, hother hq fun halive => halive.2 hb, hb⟩

theorem answered_step (h : Answered s) (htracked : Tracked s) (hstep : Step s e t) :
    Answered t := by
  cases hstep with
  | join p c ret hpc hp hret =>
    refine ⟨fun value hvalue => ?_, fun hoops => by simp [State.at] at hoops⟩
    obtain rfl : ret = value := by simpa [State.at] using hvalue
    exact ⟨p, c, htracked.target p hpc, hp, hret⟩
  | stopGone p c hpc ht hp hc =>
    exact ⟨fun ret hret => by simp [State.at] at hret, fun _ => ⟨p, c, ht, hp, hc⟩⟩
  | initReturn hpc =>
    exact answered_of_driver (initReturn_ne s.t).2.1 (initReturn_ne s.t).2.2
  | load | create | createFails | wake | wakeNone | store | stop | exitReturn =>
    exact answered_of_driver (by simp [State.at]) (by simp [State.at])
  | enter p c hp hpc | readPid p c hp hpc | test p c hp hpc | awake p c hp hpc =>
    exact answered_put h hp (by simp [Task.Alive, Task.exitCode, hpc])

end

theorem trace_fresh {es : List Event} {s : State} (h : thread.Trace es s) : Fresh s := by
  cases h with
  | nil => simp [Fresh, thread, unloaded]
  | snoc hs hstep => exact fresh_step (trace_tracked hs) (step_sound hstep)

theorem trace_seen {es : List Event} {s : State} (p : ℕ) (h : thread.Trace es s) :
    Seen p (thread.observe (looks p) es) s := by
  refine h.invariant_observed ?_ fun hs hI hstep =>
    seen_step hI (trace_fresh hs) (trace_tracked hs) (step_sound hstep)
  exact ⟨fun _ => rfl, by simp [thread, unloaded]⟩

theorem trace_answered {es : List Event} {s : State} (h : thread.Trace es s) : Answered s := by
  induction h with
  | nil => exact answered_of_driver (by simp [thread, unloaded]) (by simp [thread, unloaded])
  | snoc hs hstep ih => exact answered_step ih (trace_tracked hs) (step_sound hstep)

/-- The value that `test_exit` prints tells whether the thread of the load has ever been in
`thread_main`. A thread whose look at `t` was too early is gone when `kthread_stop` asks for it, and
only such a thread is. -/
theorem stop_value {es : List Event} {s : State} (h : thread.Trace es s) :
    (∀ ret, s.driver = .stopped ret → ∃ p, s.t = some (.task p) ∧
      exitValue (thread.observe (looks p) es) = some ret) ∧
    (s.driver = .oops → ∃ p, s.t = some (.task p) ∧
      exitValue (thread.observe (looks p) es) = none) := by
  have hanswered := trace_answered h
  constructor
  · intro ret hpc
    obtain ⟨p, c, ht, hp, hret⟩ := hanswered.stopped ret hpc
    exact ⟨p, ht, exitValue_of_shows ((trace_seen p h).shows c hp) hret⟩
  · intro hpc
    obtain ⟨p, c, ht, hp, hc⟩ := hanswered.oops hpc
    have hshows := (trace_seen p h).shows c hp
    rw [hc] at hshows
    exact ⟨p, ht, by rw [show thread.observe (looks p) es = [true] from hshows]; rfl⟩

theorem stop_value_unstarted : ∃ p, some (Kthread.task 0) = some (.task p) ∧
    exitValue (thread.observe (looks p)
      [.load, .create 0, .wake, .store, .initReturn, .stop, .enter 0, .join]) = some (-EINTR) := by
  have hrun : thread.Trace [.load, .create 0, .wake, .store, .initReturn, .stop, .enter 0, .join]
      ⟨.stopped (-EINTR), some (.task 0), [⟨.ended (-EINTR), true⟩]⟩ :=
    System.trace_of_run (by decide)
  exact (stop_value hrun).1 _ rfl

end ThreadExit
