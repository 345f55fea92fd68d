import LinuxDriver.TransitionSystem
import LinuxDriver.KernelTimer

/-!
# timer/timer: a timer that is armed twice while the module is loaded

`test_init` arms the timer for three seconds, arms it again for one second and asks whether it
is pending; `test_exit` takes it off the list and waits for its function. Ticks, the softirq
that runs `timer_main` and the steps of the driver interleave freely, over any number of loads.
-/
namespace TimerCallback

open TransitionSystem KernelTimer

/-- The width of `unsigned long` and the ticks of a second. -/
structure Platform where
  bits : ℕ
  HZ : ℕ
  bits_pos : 0 < bits
  fits : 3 * HZ < 2 ^ (bits - 1)

structure Context where
  hardirq : Bool
  softirq : Bool
  deriving DecidableEq, Repr

def inInterrupt (c : Context) : Bool := c.hardirq || c.softirq
def inSoftirq (c : Context) : Bool := c.softirq
def inIrq (c : Context) : Bool := c.hardirq

def timerContext : Context := ⟨false, true⟩

inductive Line where
  | expire (data : ℕ)
  | inInterrupt
  | inSoftirq
  | inIrq
  | pending
  | notPending
  deriving DecidableEq, Repr

def timerMain (c : Context) (data : ℕ) : List Line :=
  .expire data :: ((if inInterrupt c then [.inInterrupt] else []) ++
    ((if inSoftirq c then [.inSoftirq] else []) ++ if inIrq c then [.inIrq] else []))

/-- How far `test_init` and `test_exit` have come; `first` and `second` hold the tick whose
`jiffies` the next call of `mod_timer` has been given. -/
inductive DriverPc where
  | unloaded
  | setUp
  | first (since : ℕ)
  | firstArmed
  | second (since : ℕ)
  | secondArmed
  | tested (pending : Bool)
  | loaded
  deriving DecidableEq, Repr

/-- A run of `timer_main` is the list of the lines that it has still to print. -/
structure State where
  now : ℕ
  driver : DriverPc
  timer : Timer (List Line)
  data : ℕ
  log : List Line
  deriving DecidableEq, Repr

inductive Event where
  | tick
  | setupTimer
  | readJiffies
  | modTimer
  | timerPending
  | printPending
  | delTimerSync
  | expire
  | print
  | ret
  deriving DecidableEq, Repr

def State.at (s : State) (pc : DriverPc) : State := { s with driver := pc }

@[simp] theorem at_driver (s : State) (pc : DriverPc) : (s.at pc).driver = pc := rfl
@[simp] theorem at_timer (s : State) (pc : DriverPc) : (s.at pc).timer = s.timer := rfl
@[simp] theorem at_now (s : State) (pc : DriverPc) : (s.at pc).now = s.now := rfl
@[simp] theorem at_log (s : State) (pc : DriverPc) : (s.at pc).log = s.log := rfl

/-- `mod_timer(&timer, jiffies + seconds * HZ)` with the `jiffies` of tick `since`. -/
def modTimer (K : Platform) (s : State) (seconds since : ℕ) (pc : DriverPc) : State :=
  let expires := counter K.bits since + BitVec.ofNat K.bits (seconds * K.HZ)
  { s.at pc with timer := s.timer.modify (dueAt s.now expires) }

def pendingLine (pending : Bool) : Line := if pending then .pending else .notPending

def stepDriver (K : Platform) (s : State) : DriverPc → Event → Option State
  | .unloaded, .setupTimer => some { s.at .setUp with data := 11223344 }
  | .setUp, .readJiffies => some (s.at (.first s.now))
  | .first since, .modTimer => some (modTimer K s 3 since .firstArmed)
  | .firstArmed, .readJiffies => some (s.at (.second s.now))
  | .second since, .modTimer => some (modTimer K s 1 since .secondArmed)
  | .secondArmed, .timerPending => some (s.at (.tested s.timer.pending))
  | .tested pending, .printPending =>
    some { s.at .loaded with log := s.log ++ [pendingLine pending] }
  | .loaded, .delTimerSync => s.timer.deleteSync.map fun u => { s.at .unloaded with timer := u }
  | _, _ => none

def stepCallback (s : State) : List Line → Event → Option State
  | l :: rest, .print =>
    some { s with timer := s.timer.move (some rest), log := s.log ++ [l] }
  | [], .ret => some { s with timer := s.timer.move none }
  | _, _ => none

def step (K : Platform) (s : State) : Event → Option State
  | .tick => some { s with now := s.now + 1 }
  | .expire => (s.timer.expire s.now (timerMain timerContext s.data)).map fun u =>
    { s with timer := u }
  | .print => s.timer.running.bind fun rest => stepCallback s rest .print
  | .ret => s.timer.running.bind fun rest => stepCallback s rest .ret
  | e => stepDriver K s s.driver e

def initial (now : ℕ) : State := ⟨now, .unloaded, .idle, 0, []⟩

def timerTest (K : Platform) (now : ℕ) : System State Event := ⟨initial now, step K⟩

inductive Step (K : Platform) : State → Event → State → Prop where
  | tick (s) : Step K s .tick { s with now := s.now + 1 }
  | setupTimer (s) (hpc : s.driver = .unloaded) :
      Step K s .setupTimer { s.at .setUp with data := 11223344 }
  | readFirst (s) (hpc : s.driver = .setUp) : Step K s .readJiffies (s.at (.first s.now))
  | modFirst (s since) (hpc : s.driver = .first since) :
      Step K s .modTimer (modTimer K s 3 since .firstArmed)
  | readSecond (s) (hpc : s.driver = .firstArmed) :
      Step K s .readJiffies (s.at (.second s.now))
  | modSecond (s since) (hpc : s.driver = .second since) :
      Step K s .modTimer (modTimer K s 1 since .secondArmed)
  | timerPending (s) (hpc : s.driver = .secondArmed) :
      Step K s .timerPending (s.at (.tested s.timer.pending))
  | printPending (s pending) (hpc : s.driver = .tested pending) :
      Step K s .printPending { s.at .loaded with log := s.log ++ [pendingLine pending] }
  | delTimerSync (s) (hpc : s.driver = .loaded) (hr : s.timer.running = none) :
      Step K s .delTimerSync { s.at .unloaded with timer := .idle }
  | expire (s due) (hdue : s.timer.due = some due) (hle : due ≤ s.now)
      (hr : s.timer.running = none) :
      Step K s .expire { s with timer := ⟨none, some (timerMain timerContext s.data)⟩ }
  | print (s l rest) (hr : s.timer.running = some (l :: rest)) :
      Step K s .print { s with timer := s.timer.move (some rest), log := s.log ++ [l] }
  | ret (s) (hr : s.timer.running = some []) :
      Step K s .ret { s with timer := s.timer.move none }

section

variable {K : Platform} {s t : State} {e : Event}

theorem stepDriver_sound (h : stepDriver K s s.driver e = some t) : Step K s e t := by
  generalize hpc : s.driver = pc at h
  unfold stepDriver at h
  split at h
  case h_1 => exact Option.some.inj h ▸ .setupTimer s hpc
  case h_2 => exact Option.some.inj h ▸ .readFirst s hpc
  case h_3 since => exact Option.some.inj h ▸ .modFirst s since hpc
  case h_4 => exact Option.some.inj h ▸ .readSecond s hpc
  case h_5 since => exact Option.some.inj h ▸ .modSecond s since hpc
  case h_6 => exact Option.some.inj h ▸ .timerPending s hpc
  case h_7 pending => exact Option.some.inj h ▸ .printPending s pending hpc
  case h_8 =>
    obtain ⟨u, hu, rfl⟩ := Option.map_eq_some_iff.mp h
    obtain ⟨hr, rfl⟩ := Timer.deleteSync_eq_some.mp hu
    exact .delTimerSync s hpc hr
  case h_9 => cases h

theorem stepCallback_sound {rest : List Line} (hr : s.timer.running = some rest)
    (h : stepCallback s rest e = some t) : Step K s e t := by
  unfold stepCallback at h
  split at h
  · exact Option.some.inj h ▸ .print s _ _ hr
  · exact Option.some.inj h ▸ .ret s hr
  · cases h

theorem step_sound (h : step K s e = some t) : Step K s e t := by
  cases e with
  | tick => exact Option.some.inj h ▸ .tick s
  | expire =>
    obtain ⟨u, hu, rfl⟩ := Option.map_eq_some_iff.mp h
    obtain ⟨due, hdue, hle, hr, rfl⟩ := Timer.expire_eq_some.mp hu
    exact .expire s due hdue hle hr
  | print | ret =>
    obtain ⟨rest, hr, h⟩ := Option.bind_eq_some_iff.mp h
    exact stepCallback_sound hr h
  | _ => exact stepDriver_sound h

end

/-- `armed` carries the seconds, the tick of its `jiffies`, the tick of the call and whether
the timer was pending. -/
inductive Note where
  | armed (seconds since now : ℕ) (pending : Bool)
  | fired (now : ℕ)
  | tested (pending : Bool)
  | deleted (pending : Bool)
  deriving DecidableEq, Repr

def notes (s : State) : Event → List Note
  | .modTimer =>
    match s.driver with
    | .first since => [.armed 3 since s.now s.timer.pending]
    | .second since => [.armed 1 since s.now s.timer.pending]
    | _ => []
  | .timerPending => [.tested s.timer.pending]
  | .delTimerSync => [.deleted s.timer.pending]
  | .expire => [.fired s.now]
  | _ => []

/-- What becomes of an arming at tick `armed` by the tick `stop`: the function has started once,
after the delay, or it has not started. -/
inductive Shot (delay since armed stop : ℕ) : List Note → Prop where
  | waits : Shot delay since armed stop []
  | fired (n : ℕ) (hdelay : since + delay ≤ n) (harmed : armed ≤ n) (hstop : n ≤ stop) :
      Shot delay since armed stop [.fired n]

/-- The timer during one load of the module. The second arming replaces the first one unless the
function has already run; the answer of the test and the end of the timer say the same of the
second. -/
inductive History (HZ : ℕ) : List Note → Prop where
  | mk {r₁ m₁ r₂ m₂ stop : ℕ} {one two three : List Note} (hm₁ : r₁ ≤ m₁) (hr₂ : m₁ ≤ r₂)
      (hm₂ : r₂ ≤ m₂) (h₁ : Shot (3 * HZ) r₁ m₁ m₂ one)
      (h₂ : Shot (1 * HZ) r₂ m₂ stop (two ++ three)) :
      History HZ (.armed 3 r₁ m₁ false :: (one ++ (.armed 1 r₂ m₂ one.isEmpty ::
        (two ++ (.tested two.isEmpty :: (three ++ [.deleted (two ++ three).isEmpty]))))))

theorem Shot.later {delay since armed stop stop' : ℕ} {b : List Note}
    (h : Shot delay since armed stop b) (hle : stop ≤ stop') : Shot delay since armed stop' b := by
  cases h with
  | waits => exact .waits
  | fired n hdelay harmed hstop => exact .fired n hdelay harmed (hstop.trans hle)

structure Armed (delay since armed : ℕ) (b : List Note) (s : State) : Prop where
  shot : Shot delay since armed s.now b
  armed_le : armed ≤ s.now
  waiting : b = [] → ∃ due, s.timer.due = some due ∧ since + delay ≤ due
  done : b ≠ [] → s.timer.due = none

section

variable {K : Platform} {now delay since armed : ℕ} {b : List Note} {s t : State} {e : Event}

theorem Armed.pending (h : Armed delay since armed b s) : s.timer.pending = b.isEmpty := by
  cases b with
  | nil =>
    obtain ⟨due, hdue, -⟩ := h.waiting rfl
    rw [Timer.pending, hdue]
    rfl
  | cons n b =>
    rw [Timer.pending, h.done (by simp)]
    rfl

theorem Armed.keep (h : Armed delay since armed b s) (hdue : t.timer.due = s.timer.due)
    (hnow : s.now ≤ t.now) : Armed delay since armed b t :=
  ⟨h.shot.later hnow, h.armed_le.trans hnow, hdue ▸ h.waiting, hdue ▸ h.done⟩

theorem Armed.expire {due : ℕ} (h : Armed delay since armed b s)
    (hdue : s.timer.due = some due) (hle : due ≤ s.now) (hnow : t.now = s.now)
    (ht : t.timer.due = none) : Armed delay since armed (b ++ [.fired s.now]) t := by
  have hb : b = [] := by
    by_contra hb
    rw [h.done hb] at hdue
    cases hdue
  subst hb
  obtain ⟨due', hdue', hdelay⟩ := h.waiting rfl
  obtain rfl := Option.some.inj (hdue.symm.trans hdue')
  constructor
  · exact .fired s.now (hdelay.trans hle) h.armed_le hnow.ge
  · exact h.armed_le.trans hnow.ge
  · intro hnil
    cases hnil
  · intro _
    exact ht

theorem armed_modTimer {seconds : ℕ} {pc : DriverPc} (hseconds : seconds ≤ 3)
    (hsince : since ≤ s.now) :
    Armed (seconds * K.HZ) since s.now [] (modTimer K s seconds since pc) := by
  have hfits : seconds * K.HZ < 2 ^ (K.bits - 1) :=
    (Nat.mul_le_mul_right K.HZ hseconds).trans_lt K.fits
  constructor
  · exact .waits
  · exact le_rfl
  · intro _
    exact ⟨_, rfl, le_dueAt K.bits_pos hsince hfits⟩
  · intro hnil
    exact absurd rfl hnil

def Current (HZ : ℕ) (b : List Note) (s : State) : Prop :=
  match s.driver with
  | .unloaded | .setUp => b = [] ∧ s.timer = .idle
  | .first r₁ => b = [] ∧ s.timer = .idle ∧ r₁ ≤ s.now
  | .firstArmed => ∃ r₁ m₁ one, b = .armed 3 r₁ m₁ false :: one ∧ r₁ ≤ m₁ ∧
      Armed (3 * HZ) r₁ m₁ one s
  | .second r₂ => ∃ r₁ m₁ one, b = .armed 3 r₁ m₁ false :: one ∧ r₁ ≤ m₁ ∧
      Armed (3 * HZ) r₁ m₁ one s ∧ m₁ ≤ r₂ ∧ r₂ ≤ s.now
  | .secondArmed => ∃ r₁ m₁ r₂ m₂ one two, b = .armed 3 r₁ m₁ false :: (one ++
      (.armed 1 r₂ m₂ one.isEmpty :: two)) ∧ r₁ ≤ m₁ ∧ m₁ ≤ r₂ ∧ r₂ ≤ m₂ ∧
      Shot (3 * HZ) r₁ m₁ m₂ one ∧ Armed (1 * HZ) r₂ m₂ two s
  | .tested _ | .loaded => ∃ r₁ m₁ r₂ m₂ one two three, b = .armed 3 r₁ m₁ false :: (one ++
      (.armed 1 r₂ m₂ one.isEmpty :: (two ++ (.tested two.isEmpty :: three)))) ∧ r₁ ≤ m₁ ∧
      m₁ ≤ r₂ ∧ r₂ ≤ m₂ ∧ Shot (3 * HZ) r₁ m₁ m₂ one ∧ Armed (1 * HZ) r₂ m₂ (two ++ three) s

theorem Current.keep {HZ : ℕ} (h : Current HZ b s) (hd : t.driver = s.driver)
    (hdue : t.timer.due = s.timer.due) (hnow : s.now ≤ t.now)
    (hidle : s.timer = .idle → t.timer = .idle) : Current HZ b t := by
  unfold Current at h ⊢
  rw [hd]
  split at h
  case h_1 | h_2 => exact ⟨h.1, hidle h.2⟩
  case h_3 => exact ⟨h.1, hidle h.2.1, h.2.2.trans hnow⟩
  case h_4 =>
    obtain ⟨r₁, m₁, one, hb, hm₁, harmed⟩ := h
    exact ⟨r₁, m₁, one, hb, hm₁, harmed.keep hdue hnow⟩
  case h_5 =>
    obtain ⟨r₁, m₁, one, hb, hm₁, harmed, hr₂, hle⟩ := h
    exact ⟨r₁, m₁, one, hb, hm₁, harmed.keep hdue hnow, hr₂, hle.trans hnow⟩
  case h_6 =>
    obtain ⟨r₁, m₁, r₂, m₂, one, two, hb, hm₁, hr₂, hm₂, hone, harmed⟩ := h
    exact ⟨r₁, m₁, r₂, m₂, one, two, hb, hm₁, hr₂, hm₂, hone, harmed.keep hdue hnow⟩
  case h_7 | h_8 =>
    obtain ⟨r₁, m₁, r₂, m₂, one, two, three, hb, hm₁, hr₂, hm₂, hone, harmed⟩ := h
    exact ⟨r₁, m₁, r₂, m₂, one, two, three, hb, hm₁, hr₂, hm₂, hone, harmed.keep hdue hnow⟩

theorem Current.expire {HZ due : ℕ} (h : Current HZ b s) (hdue : s.timer.due = some due)
    (hle : due ≤ s.now) (hd : t.driver = s.driver) (hnow : t.now = s.now)
    (ht : t.timer.due = none) : Current HZ (b ++ [.fired s.now]) t := by
  unfold Current at h ⊢
  rw [hd]
  split at h
  case h_1 | h_2 => simp [h.2] at hdue
  case h_3 => simp [h.2.1] at hdue
  case h_4 =>
    obtain ⟨r₁, m₁, one, rfl, hm₁, harmed⟩ := h
    exact ⟨r₁, m₁, _, rfl, hm₁, harmed.expire hdue hle hnow ht⟩
  case h_5 =>
    obtain ⟨r₁, m₁, one, rfl, hm₁, harmed, hr₂, hle'⟩ := h
    exact ⟨r₁, m₁, _, rfl, hm₁, harmed.expire hdue hle hnow ht, hr₂, hle'.trans hnow.ge⟩
  case h_6 =>
    obtain ⟨r₁, m₁, r₂, m₂, one, two, rfl, hm₁, hr₂, hm₂, hone, harmed⟩ := h
    exact ⟨r₁, m₁, r₂, m₂, one, _, by simp, hm₁, hr₂, hm₂, hone,
      harmed.expire hdue hle hnow ht⟩
  case h_7 | h_8 =>
    obtain ⟨r₁, m₁, r₂, m₂, one, two, three, rfl, hm₁, hr₂, hm₂, hone, harmed⟩ := h
    refine ⟨r₁, m₁, r₂, m₂, one, two, three ++ [.fired s.now], by simp, hm₁, hr₂, hm₂, hone, ?_⟩
    rw [← List.append_assoc]
    exact harmed.expire hdue hle hnow ht

/-- The notes of the loads that are over, and those of the load in progress. -/
def Recorded (HZ : ℕ) (ns : List Note) (s : State) : Prop :=
  ∃ (hs : List (List Note)) (b : List Note), ns = hs.flatten ++ b ∧
    (∀ h ∈ hs, History HZ h) ∧ Current HZ b s

theorem Recorded.more {HZ : ℕ} {ns ms : List Note} (h : Recorded HZ ns s)
    (hcurrent : ∀ b, Current HZ b s → Current HZ (b ++ ms) t) : Recorded HZ (ns ++ ms) t := by
  obtain ⟨hs, b, rfl, hall, hb⟩ := h
  exact ⟨hs, b ++ ms, List.append_assoc .., hall, hcurrent b hb⟩

theorem Recorded.same {HZ : ℕ} {ns : List Note} (h : Recorded HZ ns s)
    (hcurrent : ∀ b, Current HZ b s → Current HZ b t) : Recorded HZ (ns ++ []) t :=
  h.more fun b hb => (List.append_nil b).symm ▸ hcurrent b hb

theorem recorded_step {ns : List Note} (h : Recorded K.HZ ns s) (hstep : Step K s e t) :
    Recorded K.HZ (ns ++ notes s e) t := by
  cases hstep with
  | tick => exact h.same fun b hb => hb.keep rfl rfl (Nat.le_succ _) id
  | setupTimer hpc | readFirst hpc =>
    refine h.same fun b hb => ?_
    simp only [Current, hpc] at hb
    simpa [Current] using hb
  | modFirst since hpc =>
    simp only [notes, hpc]
    refine h.more fun b hb => ?_
    simp only [Current, hpc] at hb
    obtain ⟨rfl, hidle, hsince⟩ := hb
    refine ⟨since, s.now, [], ?_, hsince, armed_modTimer (Nat.le_refl 3) hsince⟩
    simp [hidle, Timer.pending]
  | readSecond hpc =>
    refine h.same fun b hb => ?_
    simp only [Current, hpc] at hb
    obtain ⟨r₁, m₁, one, rfl, hm₁, harmed⟩ := hb
    exact ⟨r₁, m₁, one, rfl, hm₁, harmed.keep rfl le_rfl, harmed.armed_le, le_rfl⟩
  | modSecond since hpc =>
    simp only [notes, hpc]
    refine h.more fun b hb => ?_
    simp only [Current, hpc] at hb
    obtain ⟨r₁, m₁, one, rfl, hm₁, harmed, hr₂, hsince⟩ := hb
    refine ⟨r₁, m₁, since, s.now, one, [], ?_, hm₁, hr₂, hsince, harmed.shot,
      armed_modTimer (by decide) hsince⟩
    simp [harmed.pending]
  | timerPending hpc =>
    refine h.more fun b hb => ?_
    simp only [Current, hpc] at hb
    obtain ⟨r₁, m₁, r₂, m₂, one, two, rfl, hm₁, hr₂, hm₂, hone, harmed⟩ := hb
    refine ⟨r₁, m₁, r₂, m₂, one, two, [], ?_, hm₁, hr₂, hm₂, hone, ?_⟩
    · simp [notes, harmed.pending]
    · rw [List.append_nil]
      exact harmed.keep rfl le_rfl
  | printPending pending hpc =>
    refine h.same fun b hb => ?_
    simp only [Current, hpc] at hb
    obtain ⟨r₁, m₁, r₂, m₂, one, two, three, rfl, hm₁, hr₂, hm₂, hone, harmed⟩ := hb
    exact ⟨r₁, m₁, r₂, m₂, one, two, three, rfl, hm₁, hr₂, hm₂, hone, harmed.keep rfl le_rfl⟩
  | delTimerSync hpc hr =>
    obtain ⟨hs, b, rfl, hall, hb⟩ := h
    simp only [Current, hpc] at hb
    obtain ⟨r₁, m₁, r₂, m₂, one, two, three, rfl, hm₁, hr₂, hm₂, hone, harmed⟩ := hb
    have hlast := History.mk hm₁ hr₂ hm₂ hone harmed.shot
    refine ⟨hs ++ [_], [], ?_,
      List.forall_mem_append.mpr ⟨hall, List.forall_mem_singleton.mpr hlast⟩, rfl, rfl⟩
    simp [notes, harmed.pending]
  | expire due hdue hle hr => exact h.more fun b hb => hb.expire hdue hle rfl rfl rfl
  | print l rest hr | ret hr =>
    refine h.same fun b hb => hb.keep rfl rfl le_rfl fun hidle => ?_
    rw [hidle] at hr
    cases hr

theorem trace_recorded {es : List Event} (h : (timerTest K now).Trace es s) :
    Recorded K.HZ ((timerTest K now).observe notes es) s := by
  refine h.invariant_observed ?_ fun _ hI hstep => recorded_step hI (step_sound hstep)
  exact ⟨[], [], rfl, by simp, rfl, rfl⟩

end

/-- Over any number of loads, each one that is over has one of the histories. -/
theorem load_histories (K : Platform) (now : ℕ) {es : List Event} {s : State}
    (h : (timerTest K now).Trace es s) (hd : s.driver = .unloaded) :
    ∃ hs : List (List Note), (timerTest K now).observe notes es = hs.flatten ∧
      ∀ b ∈ hs, History K.HZ b := by
  obtain ⟨hs, b, hns, hall, hb⟩ := trace_recorded h
  simp only [Current, hd] at hb
  refine ⟨hs, ?_, hall⟩
  rw [hns, hb.1, List.append_nil]

def oneHertz : Platform := ⟨32, 1, by decide, by decide⟩

/-- The function has run for the first arming before the second one comes, with a counter that
wraps around meanwhile. -/
def heldUp : List Event :=
  [.setupTimer, .readJiffies, .modTimer, .tick, .tick, .tick, .expire, .readJiffies, .modTimer,
    .timerPending, .print, .printPending, .print, .print, .ret, .tick, .expire, .print]

def afterHeldUp : State :=
  ⟨2 ^ 32 + 2, .loaded, ⟨none, some [.inInterrupt, .inSoftirq]⟩, 11223344,
    [.expire 11223344, .pending, .inInterrupt, .inSoftirq, .expire 11223344]⟩

theorem trace_heldUp : (timerTest oneHertz (2 ^ 32 - 2)).Trace heldUp afterHeldUp :=
  System.trace_of_run (by decide)

theorem load_histories_heldUp : ∃ hs : List (List Note),
    (timerTest oneHertz (2 ^ 32 - 2)).observe notes
      (heldUp ++ [.print, .print, .ret, .delTimerSync]) = hs.flatten ∧
    ∀ b ∈ hs, History 1 b := by
  have hexit : (timerTest oneHertz (2 ^ 32 - 2)).Trace
      (heldUp ++ [.print, .print, .ret, .delTimerSync])
      ⟨2 ^ 32 + 2, .unloaded, .idle, 11223344, afterHeldUp.log ++ [.inInterrupt, .inSoftirq]⟩ :=
    System.trace_of_run (by decide)
  exact load_histories oneHertz (2 ^ 32 - 2) hexit rfl

section

variable {K : Platform} {now : ℕ} {s t : State} {e : Event}

theorem idle_of_unloaded {es : List Event} (h : (timerTest K now).Trace es s)
    (hd : s.driver = .unloaded) : s.timer = .idle := by
  obtain ⟨hs, b, -, -, hb⟩ := trace_recorded h
  simp only [Current, hd] at hb
  exact hb.2

theorem unloaded_step (hd : s.driver = .unloaded) (hidle : s.timer = .idle)
    (he : e ≠ .setupTimer) (hstep : Step K s e t) : t.driver = .unloaded ∧ t.timer = .idle := by
  cases hstep with
  | tick => exact ⟨hd, hidle⟩
  | setupTimer => exact absurd rfl he
  | expire due hdue => simp [hidle] at hdue
  | print l rest hr | ret hr => simp [hidle] at hr
  | readFirst hpc | modFirst since hpc | readSecond hpc | modSecond since hpc
  | timerPending hpc | printPending pending hpc | delTimerSync hpc => simp [hd] at hpc

theorem callback_ends (rest : List Line) (hr : s.timer.running = some rest) :
    ∃ es t, (timerTest K now).Path s es t ∧ (∀ e ∈ es, e = .print ∨ e = .ret) ∧
      t.driver = s.driver ∧ t.timer = s.timer.move none ∧ t.log = s.log ++ rest := by
  induction rest generalizing s with
  | nil =>
    refine ⟨[.ret], { s with timer := s.timer.move none }, System.path_single.mpr ?_, by simp,
      rfl, rfl, (List.append_nil _).symm⟩
    simp [timerTest, step, hr, stepCallback]
  | cons l rest ih =>
    let u : State := { s with timer := s.timer.move (some rest), log := s.log ++ [l] }
    have hstep : (timerTest K now).step s .print = some u := by
      simp [timerTest, step, hr, stepCallback, u]
    obtain ⟨es, t, hpath, hes, hdriver, htimer, hlog⟩ := ih (s := u) rfl
    refine ⟨.print :: es, t, System.path_cons.mpr ⟨u, hstep, hpath⟩, ?_, hdriver, htimer, ?_⟩
    · intro e he
      rcases List.mem_cons.mp he with rfl | he
      · exact .inl rfl
      · exact hes e he
    · rw [hlog, List.append_assoc]
      rfl

end

/-- What `del_timer_sync` gives `test_exit`: it waits for nothing but the function, and once the
module is out the function neither runs nor will run before the next load. -/
structure SyncLaw (K : Platform) (now : ℕ) (s : State) : Prop where
  returns : s.driver = .loaded → ∃ es t, (∀ e ∈ es, e = .print ∨ e = .ret) ∧
    (timerTest K now).Path s (es ++ [.delTimerSync]) t ∧ t.driver = .unloaded
  quiet : s.driver = .unloaded → ∀ es t, .setupTimer ∉ es → (timerTest K now).Path s es t →
    t.timer = .idle

theorem exit_waits (K : Platform) (now : ℕ) {es : List Event} {s : State}
    (h : (timerTest K now).Trace es s) : SyncLaw K now s := by
  constructor
  · intro hd
    have hdelete {t : State} (ht : t.driver = .loaded) (hr : t.timer.running = none) :
        (timerTest K now).step t .delTimerSync = some { t.at .unloaded with timer := .idle } := by
      simp [timerTest, step, ht, stepDriver, Timer.deleteSync, hr]
    cases hr : s.timer.running with
    | none => exact ⟨[], _, by simp, System.path_single.mpr (hdelete hd hr), rfl⟩
    | some rest =>
      obtain ⟨fs, t, hpath, hfs, hdriver, htimer, -⟩ := callback_ends rest hr
      have hlast := hdelete (hdriver.trans hd) (by rw [htimer]; rfl)
      exact ⟨fs, _, hfs, System.path_append.mpr ⟨t, hpath, System.path_single.mpr hlast⟩, rfl⟩
  · intro hd fs t hfs hpath
    refine (hpath.stable_on (E := fun e => e ≠ .setupTimer)
      (I := fun s => s.driver = .unloaded ∧ s.timer = .idle) ?_ ⟨hd, idle_of_unloaded h hd⟩ ?_).2
    · intro e he heq
      exact hfs (heq ▸ he)
    · intro s e t he hI hstep
      exact unloaded_step hI.1 hI.2 he (step_sound hstep)

theorem exit_waits_heldUp : SyncLaw oneHertz (2 ^ 32 - 2) afterHeldUp :=
  exit_waits oneHertz (2 ^ 32 - 2) trace_heldUp

def ofDriver : Line → Bool
  | .pending | .notPending => true
  | _ => false

def fires (ns : List Note) : ℕ := ns.countP fun
  | .fired _ => true
  | _ => false

def State.lines (s : State) : List Line :=
  s.log.filter (fun l => !ofDriver l) ++ s.timer.running.getD []

section

variable {K : Platform} {now : ℕ} {s t : State} {e : Event}

theorem timerMain_lines (data : ℕ) :
    timerMain timerContext data = [.expire data, .inInterrupt, .inSoftirq] := rfl

theorem data_step (h : s.timer.due ≠ none ∨ s.driver ≠ .unloaded → s.data = 11223344)
    (hstep : Step K s e t) : t.timer.due ≠ none ∨ t.driver ≠ .unloaded → t.data = 11223344 := by
  cases hstep with
  | setupTimer hpc =>
    intro _
    rfl
  | readFirst hpc | modFirst since hpc | readSecond hpc | modSecond since hpc
  | timerPending hpc | printPending pending hpc =>
    intro _
    exact h (.inr (by simp [hpc]))
  | delTimerSync hpc hr => simp
  | expire due hdue =>
    intro _
    exact h (.inl (by simp [hdue]))
  | tick | print | ret => exact h

theorem trace_data {es : List Event} (h : (timerTest K now).Trace es s) :
    s.timer.due ≠ none ∨ s.driver ≠ .unloaded → s.data = 11223344 := by
  induction h with
  | nil => simp [timerTest, initial]
  | snoc hs hstep ih => exact data_step ih (step_sound hstep)

/-- What has been printed and what is still to be printed, one run after the other. -/
def Printed (ns : List Note) (s : State) : Prop :=
  s.lines = (List.replicate (fires ns) (timerMain timerContext 11223344)).flatten

theorem Printed.keep {ns ms : List Note} (h : Printed ns s) (hms : fires ms = 0)
    (ht : t.lines = s.lines) : Printed (ns ++ ms) t := by
  have hfires : fires (ns ++ ms) = fires ns := by
    rw [fires, List.countP_append]
    exact congrArg (fires ns + ·) hms
  rw [Printed, ht, hfires]
  exact h

theorem Printed.not_ofDriver {ns : List Note} {l : Line} (h : Printed ns s) (hl : l ∈ s.lines) :
    ofDriver l = false := by
  rw [h] at hl
  obtain ⟨b, hb, hmem⟩ := List.mem_flatten.mp hl
  rw [List.eq_of_mem_replicate hb, timerMain_lines] at hmem
  rcases List.mem_cons.mp hmem with rfl | hmem
  · rfl
  · rcases List.mem_pair.mp hmem with rfl | rfl
    · rfl
    · rfl

theorem printed_step {ns : List Note} (h : Printed ns s)
    (hdata : s.timer.due ≠ none ∨ s.driver ≠ .unloaded → s.data = 11223344)
    (hstep : Step K s e t) : Printed (ns ++ notes s e) t := by
  cases hstep with
  | modFirst since hpc | modSecond since hpc => exact h.keep (by simp [notes, hpc, fires]) rfl
  | printPending pending hpc =>
    refine h.keep rfl ?_
    cases pending <;> simp [State.lines, pendingLine, ofDriver]
  | delTimerSync hpc hr => exact h.keep rfl (by simp [State.lines, hr])
  | expire due hdue hle hr =>
    have hfires : fires (ns ++ notes s .expire) = fires ns + 1 := by
      simp [fires, notes]
    have hlines : s.log.filter (fun l => !ofDriver l) = s.lines := by simp [State.lines, hr]
    rw [Printed, hfires, List.replicate_succ', List.flatten_append, State.lines]
    rw [hdata (.inl (by simp [hdue])), hlines, h]
    simp
  | print l rest hr =>
    have hl : ofDriver l = false := h.not_ofDriver (by simp [State.lines, hr])
    exact h.keep rfl (by simp [State.lines, hr, hl])
  | ret hr => exact h.keep rfl (by simp [State.lines, hr])
  | tick | setupTimer | readFirst | readSecond | timerPending => exact h.keep rfl rfl

/-- Every start of the timer prints the same three lines in this order, with the data that was set
up and never from a hard interrupt. Lines of `test_init` and `test_exit` may come between them,
those of another start do not; only the last start may have lines to print yet. -/
theorem timerMain_printed (K : Platform) (now : ℕ) {es : List Event} {s : State}
    (h : (timerTest K now).Trace es s) :
    s.log.filter (fun l => !ofDriver l) ++ s.timer.running.getD [] =
      (List.replicate (fires ((timerTest K now).observe notes es))
        [.expire 11223344, .inInterrupt, .inSoftirq]).flatten := by
  have hprinted : Printed ((timerTest K now).observe notes es) s := by
    refine h.invariant_observed rfl fun hs hI hstep => ?_
    exact printed_step hI (trace_data hs) (step_sound hstep)
  rw [Printed, timerMain_lines] at hprinted
  exact hprinted

end

theorem timerMain_printed_heldUp :
    afterHeldUp.log.filter (fun l => !ofDriver l) ++ afterHeldUp.timer.running.getD [] =
      (List.replicate (fires ((timerTest oneHertz (2 ^ 32 - 2)).observe notes heldUp))
        [.expire 11223344, .inInterrupt, .inSoftirq]).flatten :=
  timerMain_printed oneHertz (2 ^ 32 - 2) trace_heldUp

end TimerCallback
