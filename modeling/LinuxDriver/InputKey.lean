import LinuxDriver.TransitionSystem
import LinuxDriver.CallPool
import LinuxDriver.KernelTypes
import LinuxDriver.InterruptLine

/-!
# input/my_key: a key interrupt and the input device that it reports to

`my_key_probe` installs the handler before there is a device, looks at no result but those of
the allocation and the registration, and leaves the handler installed on every way out;
`my_key_remove` does not remove it either. The handler uses the global `input` of the moment
at which it runs.
-/
namespace InputKey

open TransitionSystem CallPool KernelTypes InterruptLine

inductive Device where
  | allocated
  | registered
  | unregistered
  deriving DecidableEq, Repr

/-- The next step of `my_key_interrupt`; `state` is the inverted level. -/
inductive HandlerPc where
  | entered
  | toReport (state : Bool)
  | toSync
  deriving DecidableEq, Repr

inductive DriverPc where
  | unbound
  | gpioRequested
  | gpioInput
  | irqRequested
  | allocated
  | filled
  | bound
  | failed (ret : ℤ)
  | removed
  deriving DecidableEq, Repr

@[simp] def DriverPc.atRest : DriverPc → Bool
  | .unbound | .failed _ | .removed => true
  | _ => false

/-- `level` is the line itself, `latched` an edge that no handler has started for, and
`reported` the last value of `KEY_VOLUMEDOWN`. -/
structure State where
  line : Line Pointer HandlerPc
  driver : DriverPc
  input : Pointer
  devices : List Device
  level : Bool
  latched : Bool
  reported : Option Bool
  deriving DecidableEq, Repr

/-- The calls of probe and remove carry the results that the code looks at; `requestIrq`
carries its success, which the code does not look at. -/
inductive Event where
  | gpioRequest
  | gpioDirectionInput
  | requestIrq (ok : Bool)
  | allocate (ok : Bool)
  | setCapability
  | register (error : ℤ)
  | unregister
  | edge
  | raise
  | readLevel
  | report
  | sync
  deriving DecidableEq, Repr

def State.markInput (s : State) (d : Device) : List Device :=
  match s.input with
  | some p => s.devices.set p d
  | none => s.devices

def State.at (s : State) (pc : DriverPc) : State := { s with driver := pc }

@[simp] theorem at_driver (s : State) (pc : DriverPc) : (s.at pc).driver = pc := rfl
@[simp] theorem at_line (s : State) (pc : DriverPc) : (s.at pc).line = s.line := rfl

def stepDriver (s : State) : DriverPc → Event → Option State
  | .gpioRequested, .gpioDirectionInput => some (s.at .gpioInput)
  | .gpioInput, .requestIrq true =>
    (s.line.request none).map fun l => { s.at .irqRequested with line := l }
  | .gpioInput, .requestIrq false => some (s.at .irqRequested)
  | .irqRequested, .allocate true =>
    some { s.at .allocated with
      input := some s.devices.length, devices := s.devices ++ [.allocated] }
  | .irqRequested, .allocate false => some { s.at (.failed (-ENOMEM)) with input := none }
  | .allocated, .setCapability => some (s.at .filled)
  | .filled, .register error =>
    if error = 0 then some { s.at .bound with devices := s.markInput .registered }
    else some (s.at (.failed error))
  | .bound, .unregister => some { s.at .removed with devices := s.markInput .unregistered }
  | pc, .gpioRequest => if pc.atRest then some (s.at .gpioRequested) else none
  | _, _ => none

def stepHandler (s : State) : HandlerPc → Event → Option State
  | .entered, .readLevel => some { s with line := s.line.move (some (.toReport !s.level)) }
  | .toReport state, .report =>
    some { s with line := s.line.move (some .toSync), reported := some state }
  | .toSync, .sync => some { s with line := s.line.move none }
  | _, _ => none

def step (s : State) : Event → Option State
  | .edge => some { s with level := !s.level, latched := true }
  | .raise => (s.line.raise .entered).map fun l => { s with line := l, latched := false }
  | .readLevel => s.line.running.bind fun pc => stepHandler s pc .readLevel
  | .report => s.line.running.bind fun pc => stepHandler s pc .report
  | .sync => s.line.running.bind fun pc => stepHandler s pc .sync
  | e => stepDriver s s.driver e

def loaded (level : Bool) : State := ⟨.empty, .unbound, none, [], level, false, none⟩

def myKey (level : Bool) : System State Event := ⟨loaded level, step⟩

inductive Step : State → Event → State → Prop where
  | gpioRequest (s) (hpc : s.driver.atRest) : Step s .gpioRequest (s.at .gpioRequested)
  | gpioDirectionInput (s) (hpc : s.driver = .gpioRequested) :
      Step s .gpioDirectionInput (s.at .gpioInput)
  | requestIrq (s l) (hpc : s.driver = .gpioInput) (hl : s.line.request none = some l) :
      Step s (.requestIrq true) { s.at .irqRequested with line := l }
  | requestFails (s) (hpc : s.driver = .gpioInput) :
      Step s (.requestIrq false) (s.at .irqRequested)
  | allocate (s) (hpc : s.driver = .irqRequested) :
      Step s (.allocate true) { s.at .allocated with
        input := some s.devices.length, devices := s.devices ++ [.allocated] }
  | allocateFails (s) (hpc : s.driver = .irqRequested) :
      Step s (.allocate false) { s.at (.failed (-ENOMEM)) with input := none }
  | setCapability (s) (hpc : s.driver = .allocated) : Step s .setCapability (s.at .filled)
  | register (s) (hpc : s.driver = .filled) :
      Step s (.register 0) { s.at .bound with devices := s.markInput .registered }
  | registerFails (s error) (hpc : s.driver = .filled) (herror : error ≠ 0) :
      Step s (.register error) (s.at (.failed error))
  | unregister (s) (hpc : s.driver = .bound) :
      Step s .unregister { s.at .removed with devices := s.markInput .unregistered }
  | edge (s) : Step s .edge { s with level := !s.level, latched := true }
  | raise (s l) (hl : s.line.raise .entered = some l) :
      Step s .raise { s with line := l, latched := false }
  | readLevel (s) (hpc : s.line.running = some .entered) :
      Step s .readLevel { s with line := s.line.move (some (.toReport !s.level)) }
  | report (s state) (hpc : s.line.running = some (.toReport state)) :
      Step s .report { s with line := s.line.move (some .toSync), reported := some state }
  | sync (s) (hpc : s.line.running = some .toSync) :
      Step s .sync { s with line := s.line.move none }

theorem stepDriver_sound {s t : State} {e : Event} (h : stepDriver s s.driver e = some t) :
    Step s e t := by
  generalize hpc : s.driver = pc at h
  unfold stepDriver at h
  split at h
  · exact Option.some.inj h ▸ .gpioDirectionInput s hpc
  · rcases Option.map_eq_some_iff.mp h with ⟨l, hl, rfl⟩
    exact .requestIrq s l hpc hl
  · exact Option.some.inj h ▸ .requestFails s hpc
  · exact Option.some.inj h ▸ .allocate s hpc
  · exact Option.some.inj h ▸ .allocateFails s hpc
  · exact Option.some.inj h ▸ .setCapability s hpc
  · split at h
    case isTrue herror => exact herror ▸ Option.some.inj h ▸ .register s hpc
    case isFalse herror => exact Option.some.inj h ▸ .registerFails s _ hpc herror
  · exact Option.some.inj h ▸ .unregister s hpc
  · rcases Option.ite_none_right_eq_some.mp h with ⟨hrest, h⟩
    exact Option.some.inj h ▸ .gpioRequest s (hpc ▸ hrest)
  · cases h

theorem stepHandler_sound {s t : State} {e : Event} {pc : HandlerPc}
    (hpc : s.line.running = some pc) (h : stepHandler s pc e = some t) : Step s e t := by
  unfold stepHandler at h
  split at h
  · exact Option.some.inj h ▸ .readLevel s hpc
  · exact Option.some.inj h ▸ .report s _ hpc
  · exact Option.some.inj h ▸ .sync s hpc
  · cases h

theorem step_sound {s t : State} {e : Event} (h : step s e = some t) : Step s e t := by
  cases e with
  | edge => exact Option.some.inj h ▸ .edge s
  | raise =>
    rcases Option.map_eq_some_iff.mp h with ⟨l, hl, rfl⟩
    exact .raise s l hl
  | readLevel | report | sync =>
    rcases Option.bind_eq_some_iff.mp h with ⟨pc, hpc, h⟩
    exact stepHandler_sound hpc h
  | _ => exact stepDriver_sound h

def State.inputDevice (s : State) : Option Device := s.input.bind fun p => s.devices[p]?

def Live (s : State) : Prop := s.inputDevice = some .registered

def LiveWhileRunning (s : State) : Prop := s.line.running ≠ none → Live s

/-- The handler starts only on a bound device, and the device is not unregistered under a
handler that is running. -/
def Timely (s : State) : Event → Prop
  | .raise => s.driver = .bound
  | .unregister => s.line.running = none
  | _ => True

instance : ∀ s e, Decidable (Timely s e)
  | s, .raise => inferInstanceAs (Decidable (s.driver = .bound))
  | s, .unregister => inferInstanceAs (Decidable (s.line.running = none))
  | _, .gpioRequest | _, .gpioDirectionInput | _, .requestIrq _ | _, .allocate _
  | _, .setCapability | _, .register _ | _, .edge | _, .readLevel | _, .report | _, .sync =>
    isTrue trivial

structure Owned (s : State) : Prop where
  fresh : s.driver = .allocated ∨ s.driver = .filled → s.inputDevice = some .allocated
  live : Live s ↔ s.driver = .bound

theorem inputDevice_markInput {s : State} {d : Device} (h : s.inputDevice = some d)
    (d' : Device) (pc : DriverPc) :
    State.inputDevice { s.at pc with devices := s.markInput d' } = some d' := by
  rcases Option.bind_eq_some_iff.mp h with ⟨p, hp, hd⟩
  simp only [State.inputDevice, State.markInput, State.at, hp, Option.bind_some]
  exact set_entry hd

theorem owned_at {s t : State} (h : Owned s) (hs : s.driver ≠ .bound) (ht : t.driver ≠ .bound)
    (hfresh : t.driver = .allocated ∨ t.driver = .filled →
      s.driver = .allocated ∨ s.driver = .filled)
    (hinput : t.inputDevice = s.inputDevice) : Owned t := by
  refine ⟨fun hd => hinput.trans (h.fresh (hfresh hd)), ?_⟩
  rw [Live, hinput]
  exact iff_of_false (fun hlive => hs (h.live.mp hlive)) ht

theorem owned_step {s t : State} {e : Event} (h : Owned s) (hstep : Step s e t) : Owned t := by
  cases hstep with
  | gpioRequest hpc =>
    exact owned_at h (fun hb => by simp [hb] at hpc) (by simp) (by simp) rfl
  | gpioDirectionInput hpc | requestIrq l hpc hl | requestFails hpc | registerFails _ hpc =>
    exact owned_at h (by simp [hpc]) (by simp) (by simp) rfl
  | allocate hpc =>
    have hnew : State.inputDevice { s.at .allocated with
        input := some s.devices.length, devices := s.devices ++ [.allocated] } =
        some .allocated := spawn_entry
    refine ⟨fun _ => hnew, ?_⟩
    rw [Live, hnew]
    simp
  | allocateFails hpc => exact ⟨by simp, by simp [Live, State.inputDevice]⟩
  | setCapability hpc => exact owned_at h (by simp [hpc]) (by simp) (by simp [hpc]) rfl
  | register hpc =>
    have hmark := inputDevice_markInput (h.fresh (.inr hpc)) .registered .bound
    exact ⟨by simp, iff_of_true hmark rfl⟩
  | unregister hpc =>
    have hmark := inputDevice_markInput (h.live.mpr hpc) .unregistered .removed
    refine ⟨by simp, ?_⟩
    rw [Live, hmark]
    simp
  | _ => exact ⟨h.fresh, h.live⟩

theorem trace_owned {level : Bool} {es : List Event} {s : State}
    (h : (myKey level).Trace es s) : Owned s :=
  h.invariant ⟨by simp [myKey, loaded], by simp [Live, State.inputDevice, myKey, loaded]⟩
    fun hI hstep => owned_step hI (step_sound hstep)

theorem bound_step {s t : State} {e : Event} (hC : Timely s e)
    (h : s.line.running ≠ none → s.driver = .bound) (hstep : Step s e t) :
    t.line.running ≠ none → t.driver = .bound := by
  cases hstep with
  | edge => exact h
  | raise l hl =>
    intro _
    exact hC
  | readLevel hpc | report _ hpc =>
    intro _
    exact h (by simp [hpc])
  | sync hpc =>
    intro hne
    exact absurd rfl hne
  | unregister hpc =>
    intro hne
    exact absurd hC hne
  | gpioRequest hpc =>
    intro hne
    have hb := h hne
    simp [hb] at hpc
  | requestIrq l hpc hl =>
    rcases Line.request_eq_some.mp hl with ⟨-, rfl⟩
    intro hne
    have hb := h hne
    simp [hb] at hpc
  | gpioDirectionInput hpc | requestFails hpc | allocate hpc | allocateFails hpc
  | setCapability hpc | register hpc | registerFails _ hpc =>
    intro hne
    have hb := h hne
    simp [hb] at hpc

theorem live_of_timely {level : Bool} {es : List Event}
    (hC : (myKey level).EachStep Timely es) : (myKey level).Throughout LiveWhileRunning es := by
  intro pre s hpre hs hrun
  have hbound := hs.invariant_eachStep (hC.mono hpre)
    (I := fun s => s.line.running ≠ none → s.driver = .bound)
    (fun hne => absurd rfl hne) fun hC hI hstep => bound_step hC hI (step_sound hstep)
  exact (trace_owned hs).live.mpr (hbound hrun)

theorem timely_of_live {level : Bool} {es : List Event} {s : State}
    (h : (myKey level).Trace es s) (hL : (myKey level).Throughout LiveWhileRunning es) :
    (myKey level).EachStep Timely es := by
  rintro pre e p ⟨rest, rfl⟩ hp
  rw [List.append_assoc] at h
  obtain ⟨p', q, hp', hstep, hq, -⟩ := h.split_at
  obtain rfl := hp.functional hp'
  have hlive : LiveWhileRunning q := hL _ _ ⟨rest, by simp⟩ hq
  have howned := (trace_owned hq).live
  have hsound : Step p e q := step_sound hstep
  cases hsound with
  | raise l hl =>
    rcases Line.raise_eq_some.mp hl with ⟨-, -, rfl⟩
    exact howned.mp (hlive (by simp))
  | unregister hpc =>
    by_contra hne
    have hb := howned.mp (hlive hne)
    simp at hb
  | _ => trivial

/-- The handler always runs on a live device in exactly the timely runs. -/
theorem handler_on_live_device {level : Bool} {es : List Event} {s : State}
    (h : (myKey level).Trace es s) :
    (myKey level).Throughout LiveWhileRunning es ↔ (myKey level).EachStep Timely es :=
  ⟨timely_of_live h, live_of_timely⟩

def onePress : List Event :=
  [.gpioRequest, .gpioDirectionInput, .requestIrq true, .allocate true, .setCapability,
    .register 0, .edge, .raise, .readLevel, .report, .sync, .unregister]

theorem handler_on_live_device_pressed :
    (myKey true).Throughout LiveWhileRunning onePress := by
  have hrun : (myKey true).Trace onePress
      ⟨⟨some none, none⟩, .removed, some 0, [.unregistered], false, false, some true⟩ :=
    System.trace_of_run (by decide)
  exact (handler_on_live_device hrun).mpr (System.eachStep_of_check (by decide))

/-- The handler can start as soon as it is installed, and `input` is still NULL. -/
theorem handler_without_device :
    ¬ ∀ level es s, (myKey level).Trace es s → (myKey level).Throughout LiveWhileRunning es := by
  intro h
  have hrun : (myKey true).Trace [.gpioRequest, .gpioDirectionInput, .requestIrq true, .raise]
      ⟨⟨some none, some .entered⟩, .irqRequested, none, [], true, false, none⟩ :=
    System.trace_of_run (by decide)
  have hlive := (h _ _ _ hrun).last hrun (by simp)
  simp [Live, State.inputDevice] at hlive

def State.announced (s : State) : Option Bool :=
  match s.line.running with
  | some .entered => some !s.level
  | some (.toReport state) => some state
  | _ => s.reported

/-- A change of the line that is not announced has left the latch set. -/
def Current (s : State) : Prop := s.latched ∨ s.announced = some !s.level

theorem current_elsewhere {s t : State} (h : Current s) (hrun : t.line.running = s.line.running)
    (hlevel : t.level = s.level) (hlatch : t.latched = s.latched)
    (hrep : t.reported = s.reported) : Current t := by
  unfold Current State.announced at h ⊢
  rwa [hrun, hlevel, hlatch, hrep]

theorem current_step {s t : State} {e : Event} (h : Current s) (hstep : Step s e t) :
    Current t := by
  cases hstep with
  | edge => exact .inl rfl
  | raise l hl =>
    rcases Line.raise_eq_some.mp hl with ⟨-, -, rfl⟩
    exact .inr rfl
  | readLevel hpc => exact .inr rfl
  | report state hpc | sync hpc =>
    rcases h with hlatch | hsaid
    · exact .inl hlatch
    · rw [State.announced, hpc] at hsaid
      exact .inr hsaid
  | requestIrq l hpc hl =>
    rcases Line.request_eq_some.mp hl with ⟨-, rfl⟩
    exact current_elsewhere h rfl rfl rfl rfl
  | _ => exact current_elsewhere h rfl rfl rfl rfl

theorem trace_current {level : Bool} {es : List Event} {s : State}
    (h : (myKey level).Trace es s) (hedge : .edge ∈ es) : Current s := by
  obtain ⟨before, after, rfl⟩ := List.append_of_mem hedge
  obtain ⟨p, q, -, hstep, -, hpath⟩ := h.split_at
  have hq : Current q := by
    obtain rfl := Option.some.inj hstep
    exact .inl rfl
  exact hpath.stable hq fun hI hstep => current_step hI (step_sound hstep)

/-- After a successful probe and an edge, whenever no interrupt is latched and no handler is
running, the last report says that the key is down exactly when the line is low. -/
theorem report_follows_line {level : Bool} {probe later : List Event} {s : State}
    (h : (myKey level).Trace (probe ++ .register 0 :: later) s) (hedge : .edge ∈ later)
    (hlatch : s.latched = false) (hidle : s.line.running = none) :
    s.reported = some !s.level := by
  have hcurrent := trace_current h (by simp [hedge])
  rw [Current, hlatch, State.announced, hidle] at hcurrent
  exact hcurrent.resolve_left Bool.false_ne_true

theorem report_follows_line_bouncing :
    (⟨⟨some none, none⟩, .bound, some 0, [.registered], false, false, some true⟩ :
      State).reported = some true := by
  have hrun : (myKey true).Trace ([.gpioRequest, .gpioDirectionInput, .requestIrq true,
      .allocate true, .setCapability] ++ .register 0 :: [.edge, .raise, .readLevel, .edge, .edge,
      .report, .sync, .raise, .edge, .readLevel, .report, .edge, .sync, .raise, .readLevel,
      .report, .sync])
      ⟨⟨some none, none⟩, .bound, some 0, [.registered], false, false, some true⟩ :=
    System.trace_of_run (by decide)
  exact report_follows_line hrun (by simp) rfl rfl

end InputKey
