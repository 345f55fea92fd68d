import LinuxDriver.ChardevTexts
import LinuxDriver.CallPool

/-!
# Attribute handlers against loading and unloading

`my_chrdev_init` of my_create_group_attr, with all its kernel calls succeeding, publishes the
attributes before it allocates and fills the private data and before it sets the driver data
of the device; `my_chrdev_exit` removes the attributes first and frees the data last. A
handler can start as long as the attributes are there, and their removal waits for it.
-/
namespace ChardevAttributeLife

open TransitionSystem CallPool CMemory KernelTypes ChardevAttributes ChardevTexts

inductive Life where
  | allocated
  | initialised
  | freed
  deriving DecidableEq, Repr

structure Object where
  data : PrivateData
  life : Life
  deriving DecidableEq, Repr

/-- A run of a handler; `bound` holds what `dev_get_drvdata` returned. -/
inductive HandlerPc where
  | entered
  | bound (data : Pointer)
  | returned (reply : Reply)
  | oops
  deriving DecidableEq, Repr

structure Handler where
  call : Call
  pc : HandlerPc
  deriving DecidableEq, Repr

/-- A handler that the kernel has stopped at a bad pointer never leaves. -/
def Handler.inProgress (r : Handler) : Bool :=
  match r.pc with
  | .returned _ => false
  | _ => true

inductive DriverPc where
  | unloaded
  | regionRegistered
  | cdevAllocated
  | cdevAdded
  | classCreated
  | deviceCreated
  | groupCreated
  | allocated
  | sized
  | cleared
  | filled
  | loaded
  | groupRemoved
  | deviceDestroyed
  | classDestroyed
  | cdevDeleted
  | regionReleased
  deriving DecidableEq, Repr

@[simp] def DriverPc.published : DriverPc → Bool
  | .groupCreated | .allocated | .sized | .cleared | .filled | .loaded => true
  | _ => false

/-- The device is there, and its driver data has not been set. -/
@[simp] def DriverPc.unset : DriverPc → Bool
  | .deviceCreated | .groupCreated | .allocated | .sized | .cleared | .filled => true
  | _ => false

/-- What `pdata` points to. -/
@[simp] def DriverPc.life : DriverPc → Option Life
  | .allocated | .sized | .cleared => some .allocated
  | .filled | .loaded | .groupRemoved | .deviceDestroyed | .classDestroyed | .cdevDeleted
  | .regionReleased => some .initialised
  | _ => none

structure State where
  driver : DriverPc
  drvdata : Pointer
  pdata : Pointer
  objects : List Object
  handlers : List Handler
  deriving DecidableEq, Repr

inductive Event where
  | registerRegion
  | cdevAlloc
  | cdevAdd
  | classCreate
  | deviceCreate
  | createGroup
  | kzalloc (beyond : List UInt8)
  | setSize
  | clear
  | fill
  | setDrvdata
  | removeGroup
  | deviceDestroy
  | classDestroy
  | cdevDel
  | unregisterRegion
  | kfree
  | call (c : Call)
  | getDrvdata (i : ℕ)
  | access (i : ℕ)
  deriving DecidableEq, Repr

def State.at (s : State) (pc : DriverPc) : State := { s with driver := pc }

@[simp] theorem at_driver (s : State) (pc : DriverPc) : (s.at pc).driver = pc := rfl
@[simp] theorem at_handlers (s : State) (pc : DriverPc) : (s.at pc).handlers = s.handlers := rfl

def zeroed (beyond : List UInt8) : PrivateData :=
  ⟨0, List.replicate bufferSize 0 ++ beyond, le_length_zeros bufferSize beyond⟩

def State.update (s : State) (f : Object → Object) : State :=
  match s.pdata with
  | some k => { s with objects := s.objects.modify k f }
  | none => s

def stepDriver (s : State) : DriverPc → Event → Option State
  | .unloaded, .registerRegion => some (s.at .regionRegistered)
  | .regionRegistered, .cdevAlloc => some (s.at .cdevAllocated)
  | .cdevAllocated, .cdevAdd => some (s.at .cdevAdded)
  | .cdevAdded, .classCreate => some (s.at .classCreated)
  | .classCreated, .deviceCreate => some { s.at .deviceCreated with drvdata := none }
  | .deviceCreated, .createGroup => some (s.at .groupCreated)
  | .groupCreated, .kzalloc beyond =>
    some { s.at .allocated with
      pdata := some s.objects.length, objects := s.objects ++ [⟨zeroed beyond, .allocated⟩] }
  | .allocated, .setSize =>
    some ((s.update fun o => { o with data := { o.data with size := 100 } }).at .sized)
  | .sized, .clear =>
    some ((s.update fun o => { o with data := o.data.write (memset 0 0 bufferSize) }).at .cleared)
  | .cleared, .fill =>
    some ((s.update fun o =>
      ⟨o.data.write (memcpy 0 myCreateGroupAttr.copied), .initialised⟩).at .filled)
  | .filled, .setDrvdata => some { s.at .loaded with drvdata := s.pdata }
  | .loaded, .removeGroup =>
    if s.handlers.any Handler.inProgress then none else some (s.at .groupRemoved)
  | .groupRemoved, .deviceDestroy => some (s.at .deviceDestroyed)
  | .deviceDestroyed, .classDestroy => some (s.at .classDestroyed)
  | .classDestroyed, .cdevDel => some (s.at .cdevDeleted)
  | .cdevDeleted, .unregisterRegion => some (s.at .regionReleased)
  | .regionReleased, .kfree =>
    some ((s.update fun o => { o with life := .freed }).at .unloaded)
  | _, _ => none

def State.handler (s : State) (i : ℕ) (r : Handler) : State :=
  { s with handlers := s.handlers.set i r }

/-- What a handler does with the private data behind its pointer. -/
def accessObject (s : State) (i : ℕ) (c : Call) : Pointer → State
  | none => s.handler i ⟨c, .oops⟩
  | some k =>
    match s.objects[k]? with
    | some ⟨data, .allocated⟩ | some ⟨data, .initialised⟩ =>
      let served := serve myCreateGroupAttr data c
      { s.handler i ⟨c, .returned served.1⟩ with
        objects := s.objects.modify k fun o => { o with data := served.2 } }
    | _ => s.handler i ⟨c, .oops⟩

def stepHandler (s : State) (i : ℕ) (r : Handler) : Event → HandlerPc → Option State
  | .getDrvdata _, .entered => some (s.handler i { r with pc := .bound s.drvdata })
  | .access _, .bound data => some (accessObject s i r.call data)
  | _, _ => none

def step (s : State) : Event → Option State
  | .call c =>
    if s.driver.published then some { s with handlers := s.handlers ++ [⟨c, .entered⟩] } else none
  | .getDrvdata i => s.handlers[i]?.bind fun r => stepHandler s i r (.getDrvdata i) r.pc
  | .access i => s.handlers[i]?.bind fun r => stepHandler s i r (.access i) r.pc
  | e => stepDriver s s.driver e

def initial : State := ⟨.unloaded, none, none, [], []⟩

def attributeLife : System State Event := ⟨initial, step⟩

inductive DriverStep (s : State) : Event → State → Prop where
  | registerRegion (hpc : s.driver = .unloaded) :
      DriverStep s .registerRegion (s.at .regionRegistered)
  | cdevAlloc (hpc : s.driver = .regionRegistered) :
      DriverStep s .cdevAlloc (s.at .cdevAllocated)
  | cdevAdd (hpc : s.driver = .cdevAllocated) : DriverStep s .cdevAdd (s.at .cdevAdded)
  | classCreate (hpc : s.driver = .cdevAdded) : DriverStep s .classCreate (s.at .classCreated)
  | deviceCreate (hpc : s.driver = .classCreated) :
      DriverStep s .deviceCreate { s.at .deviceCreated with drvdata := none }
  | createGroup (hpc : s.driver = .deviceCreated) : DriverStep s .createGroup (s.at .groupCreated)
  | kzalloc (hpc : s.driver = .groupCreated) (beyond) :
      DriverStep s (.kzalloc beyond)
        { s.at .allocated with
          pdata := some s.objects.length, objects := s.objects ++ [⟨zeroed beyond, .allocated⟩] }
  | setSize (hpc : s.driver = .allocated) :
      DriverStep s .setSize
        ((s.update fun o => { o with data := { o.data with size := 100 } }).at .sized)
  | clear (hpc : s.driver = .sized) :
      DriverStep s .clear
        ((s.update fun o => { o with data := o.data.write (memset 0 0 bufferSize) }).at .cleared)
  | fill (hpc : s.driver = .cleared) :
      DriverStep s .fill ((s.update fun o =>
        ⟨o.data.write (memcpy 0 myCreateGroupAttr.copied), .initialised⟩).at .filled)
  | setDrvdata (hpc : s.driver = .filled) :
      DriverStep s .setDrvdata { s.at .loaded with drvdata := s.pdata }
  | removeGroup (hpc : s.driver = .loaded) (hidle : ∀ r ∈ s.handlers, ¬ r.inProgress) :
      DriverStep s .removeGroup (s.at .groupRemoved)
  | deviceDestroy (hpc : s.driver = .groupRemoved) :
      DriverStep s .deviceDestroy (s.at .deviceDestroyed)
  | classDestroy (hpc : s.driver = .deviceDestroyed) :
      DriverStep s .classDestroy (s.at .classDestroyed)
  | cdevDel (hpc : s.driver = .classDestroyed) : DriverStep s .cdevDel (s.at .cdevDeleted)
  | unregisterRegion (hpc : s.driver = .cdevDeleted) :
      DriverStep s .unregisterRegion (s.at .regionReleased)
  | kfree (hpc : s.driver = .regionReleased) :
      DriverStep s .kfree ((s.update fun o => { o with life := .freed }).at .unloaded)

theorem driver_sound {s t : State} {e : Event} (h : stepDriver s s.driver e = some t) :
    DriverStep s e t := by
  generalize hpc : s.driver = pc at h
  unfold stepDriver at h
  split at h
  case h_12 =>
    obtain ⟨hidle, h⟩ := Option.ite_none_left_eq_some.mp h
    have hidle : ∀ r ∈ s.handlers, ¬ r.inProgress := by simpa using hidle
    exact Option.some.inj h ▸ .removeGroup hpc hidle
  case h_18 => cases h
  all_goals
    obtain rfl := Option.some.inj h
    constructor
    exact hpc

inductive HandlerStep : State → Event → State → Prop where
  | call (s c) (hpub : s.driver.published) :
      HandlerStep s (.call c) { s with handlers := s.handlers ++ [⟨c, .entered⟩] }
  | getDrvdata (s i r) (hi : s.handlers[i]? = some r) (hpc : r.pc = .entered) :
      HandlerStep s (.getDrvdata i) (s.handler i { r with pc := .bound s.drvdata })
  | access (s i r data) (hi : s.handlers[i]? = some r) (hpc : r.pc = .bound data) :
      HandlerStep s (.access i) (accessObject s i r.call data)

theorem step_sound {s t : State} {e : Event} (h : step s e = some t) :
    HandlerStep s e t ∨ DriverStep s e t := by
  cases e with
  | call c =>
    rcases Option.ite_none_right_eq_some.mp h with ⟨hpub, h⟩
    exact .inl (Option.some.inj h ▸ .call s c hpub)
  | getDrvdata i =>
    rcases Option.bind_eq_some_iff.mp h with ⟨r, hi, h⟩
    generalize hpc : r.pc = pc at h
    cases pc <;> simp only [stepHandler, reduceCtorEq] at h
    exact .inl (Option.some.inj h ▸ .getDrvdata s i r hi hpc)
  | access i =>
    rcases Option.bind_eq_some_iff.mp h with ⟨r, hi, h⟩
    generalize hpc : r.pc = pc at h
    cases pc <;> simp only [stepHandler, reduceCtorEq] at h
    exact .inl (Option.some.inj h ▸ .access s i r _ hi hpc)
  | _ => exact .inr (driver_sound h)

def State.object (s : State) : Option Object := s.pdata.bind fun k => s.objects[k]?

theorem object_update (s : State) (f : Object → Object) :
    (s.update f).object = s.object.map f := by
  unfold State.update State.object
  cases hp : s.pdata with
  | none => simp [hp]
  | some k => simp

theorem update_frame (s : State) (f : Object → Object) : (s.update f).driver = s.driver ∧
    (s.update f).drvdata = s.drvdata ∧ (s.update f).pdata = s.pdata ∧
      (s.update f).handlers = s.handlers := by
  unfold State.update
  split <;> simp

structure Owned (s : State) : Prop where
  object : ∀ l, s.driver.life = some l → s.object.map Object.life = some l
  unset : s.driver.unset → s.drvdata = none
  set : s.driver = .loaded → s.drvdata = s.pdata
  busy : ∀ r ∈ s.handlers, r.inProgress → s.driver.published

theorem owned_at {s t : State} (h : Owned s) (hhandlers : t.handlers = s.handlers)
    (hobject : ∀ l, t.driver.life = some l → t.object.map Object.life = some l)
    (hunset : t.driver.unset → t.drvdata = none)
    (hset : t.driver = .loaded → t.drvdata = t.pdata)
    (hpub : s.driver.published → t.driver.published) : Owned t :=
  ⟨hobject, hunset, hset, fun r hr hprogress => hpub (h.busy r (hhandlers ▸ hr) hprogress)⟩

theorem owned_move {s : State} {pc : DriverPc} (h : Owned s)
    (hlife : ∀ l, pc.life = some l → s.driver.life = some l)
    (hunset : pc.unset → s.driver.unset) (hset : pc ≠ .loaded)
    (hpub : s.driver.published → pc.published) : Owned (s.at pc) :=
  owned_at h rfl (fun l hl => h.object l (hlife l hl)) (fun hu => h.unset (hunset hu))
    (fun hl => absurd hl hset) hpub

theorem owned_update {s : State} {pc : DriverPc} {f : Object → Object} (h : Owned s)
    (hf : ∀ l, pc.life = some l → ∃ l', s.driver.life = some l' ∧ ∀ o, o.life = l' → (f o).life = l)
    (hunset : pc.unset → s.driver.unset) (hset : pc ≠ .loaded)
    (hpub : s.driver.published → pc.published) : Owned ((s.update f).at pc) := by
  obtain ⟨-, hdrv, -, hhandlers⟩ := update_frame s f
  refine owned_at h hhandlers ?_ (fun hu => hdrv.trans (h.unset (hunset hu)))
    (fun hl => absurd hl hset) hpub
  intro l hl
  obtain ⟨l', hl', hlife⟩ := hf l hl
  obtain ⟨o, ho, hol⟩ := Option.map_eq_some_iff.mp (h.object l' hl')
  have hobject : (s.update f).object = some (f o) := by rw [object_update, ho]; rfl
  exact Option.map_eq_some_iff.mpr ⟨f o, hobject, hlife o hol⟩

theorem owned_driver {s t : State} {e : Event} (h : Owned s) (hstep : DriverStep s e t) :
    Owned t := by
  cases hstep with
  | deviceCreate hpc =>
    exact owned_at h rfl (by simp) (fun _ => rfl) (by simp) (by simp [hpc])
  | kzalloc hpc beyond =>
    refine owned_at h rfl ?_ (fun _ => h.unset (by simp [hpc])) (by simp) (by simp [hpc])
    rintro l ⟨⟩
    simp [State.object]
  | setSize hpc | clear hpc | fill hpc | kfree hpc =>
    exact owned_update h (by simp [hpc]) (by simp [hpc]) (by simp) (by simp [hpc])
  | setDrvdata hpc =>
    refine owned_at h rfl ?_ (by simp) (fun _ => rfl) (by simp [hpc])
    intro l hl
    exact h.object l (by simpa [hpc] using hl)
  | removeGroup hpc hidle =>
    refine ⟨fun l hl => h.object l (by simpa [hpc] using hl), by simp, by simp, ?_⟩
    intro r hr hprogress
    exact absurd hprogress (hidle r hr)
  | registerRegion hpc | cdevAlloc hpc | cdevAdd hpc | classCreate hpc | createGroup hpc
  | deviceDestroy hpc | classDestroy hpc | cdevDel hpc | unregisterRegion hpc =>
    exact owned_move h (by simp [hpc]) (by simp [hpc]) (by simp) (by simp [hpc])

/-- An access changes what the data hold and nothing else that the driver relies on. -/
theorem access_frame (s : State) (i : ℕ) (c : Call) (data : Pointer) :
    (accessObject s i c data).driver = s.driver ∧
    (accessObject s i c data).drvdata = s.drvdata ∧
    (accessObject s i c data).pdata = s.pdata ∧
    (∀ k : ℕ, (accessObject s i c data).objects[k]?.map Object.life = s.objects[k]?.map Object.life) ∧
    ∃ pc, (∀ p, pc ≠ .bound p) ∧
      (accessObject s i c data).handlers = s.handlers.set i ⟨c, pc⟩ := by
  unfold accessObject
  split
  · exact ⟨rfl, rfl, rfl, fun k => rfl, _, by simp, rfl⟩
  · split
    case h_1 | h_2 =>
      refine ⟨rfl, rfl, rfl, fun k => ?_, _, by simp, rfl⟩
      simp only [List.getElem?_modify]
      cases s.objects[k]? <;> simp
      split <;> rfl
    case h_3 => exact ⟨rfl, rfl, rfl, fun k => rfl, _, by simp, rfl⟩

theorem owned_handler {s t : State} {e : Event} (h : Owned s) (hstep : HandlerStep s e t) :
    Owned t := by
  cases hstep with
  | call c hpub =>
    exact ⟨h.object, h.unset, h.set, fun _ _ _ => hpub⟩
  | getDrvdata i r hi hpc =>
    refine ⟨h.object, h.unset, h.set, fun q hq hprogress => ?_⟩
    rcases List.mem_or_eq_of_mem_set hq with hq | rfl
    · exact h.busy q hq hprogress
    · exact h.busy r (List.mem_of_getElem? hi) (by simp [Handler.inProgress, hpc])
  | access i r data hi hpc =>
    obtain ⟨hdriver, hdrv, hp, hlife, pc, -, hhandlers⟩ := access_frame s i r.call data
    constructor
    · intro l hl
      have hobject := h.object l (hdriver ▸ hl)
      simp only [State.object, hp] at hobject ⊢
      cases hk : s.pdata with
      | none => simp [hk] at hobject
      | some k =>
        simp only [hk, Option.bind_some] at hobject ⊢
        rw [hlife k, hobject]
    · rw [hdriver, hdrv]
      exact h.unset
    · rw [hdriver, hdrv, hp]
      exact h.set
    · intro q hq hprogress
      rw [hhandlers] at hq
      rw [hdriver]
      rcases List.mem_or_eq_of_mem_set hq with hq | rfl
      · exact h.busy q hq hprogress
      · exact h.busy r (List.mem_of_getElem? hi) (by simp [Handler.inProgress, hpc])

theorem trace_owned {es : List Event} {s : State} (h : attributeLife.Trace es s) : Owned s :=
  h.invariant ⟨by simp [attributeLife, initial], by simp [attributeLife, initial],
    by simp [attributeLife, initial], by simp [attributeLife, initial]⟩
    fun hI hstep => (step_sound hstep).elim (owned_handler hI) (owned_driver hI)

def Finds (s : State) (data : Pointer) : Prop :=
  ∃ (k : ℕ) (o : Object), data = some k ∧ s.objects[k]? = some o ∧ o.life = .initialised

/-- Every handler in progress has found initialised private data that are still there. -/
def Sound (s : State) : Prop := ∀ r ∈ s.handlers, ∀ data, r.pc = .bound data → Finds s data

/-- A handler asks for the driver data only after init has set them. -/
def Timely (s : State) : Event → Prop
  | .getDrvdata _ => s.driver = .loaded
  | _ => True

instance : ∀ s e, Decidable (Timely s e)
  | s, .getDrvdata _ => inferInstanceAs (Decidable (s.driver = .loaded))
  | _, .registerRegion | _, .cdevAlloc | _, .cdevAdd | _, .classCreate | _, .deviceCreate
  | _, .createGroup | _, .kzalloc _ | _, .setSize | _, .clear | _, .fill | _, .setDrvdata
  | _, .removeGroup | _, .deviceDestroy | _, .classDestroy | _, .cdevDel
  | _, .unregisterRegion | _, .kfree | _, .call _ | _, .access _ => isTrue trivial

def BoundWhileLoaded (s : State) : Prop :=
  ∀ r ∈ s.handlers, ∀ data, r.pc = .bound data → s.driver = .loaded ∧ data = s.drvdata

theorem sound_of_bound {s : State} (h : Owned s) (hb : BoundWhileLoaded s) : Sound s := by
  intro r hr data hdata
  obtain ⟨hloaded, rfl⟩ := hb r hr data hdata
  obtain ⟨o, ho, hlife⟩ := Option.map_eq_some_iff.mp (h.object .initialised (by simp [hloaded]))
  rcases Option.bind_eq_some_iff.mp ho with ⟨k, hk, hobject⟩
  exact ⟨k, o, (h.set hloaded).trans hk, hobject, hlife⟩

theorem driver_handlers {s t : State} {e : Event} (h : DriverStep s e t) :
    t.handlers = s.handlers ∧ (s.driver = .loaded → ∀ r ∈ s.handlers, ¬ r.inProgress) := by
  cases h with
  | removeGroup hpc hidle => exact ⟨rfl, fun _ => hidle⟩
  | setSize hpc | clear hpc | fill hpc | kfree hpc =>
    exact ⟨(update_frame s _).2.2.2, by simp [hpc]⟩
  | _ hpc => exact ⟨rfl, by simp [hpc]⟩

theorem bound_step {s t : State} {e : Event} (hC : Timely s e) (h : BoundWhileLoaded s)
    (hstep : HandlerStep s e t ∨ DriverStep s e t) : BoundWhileLoaded t := by
  intro q hq data hdata
  rcases hstep with hstep | hstep
  · cases hstep with
    | call c hpub =>
      rcases List.mem_append.mp hq with hq | hq
      · exact h q hq data hdata
      · rw [List.mem_singleton.mp hq] at hdata
        cases hdata
    | getDrvdata i r hi hpc =>
      rcases List.mem_or_eq_of_mem_set hq with hq | rfl
      · exact h q hq data hdata
      · obtain rfl : s.drvdata = data := by simpa using hdata
        exact ⟨hC, rfl⟩
    | access i r p hi hpc =>
      obtain ⟨hdriver, hdrv, -, -, pc, hbound, hhandlers⟩ := access_frame s i r.call p
      rw [hhandlers] at hq
      rw [hdriver, hdrv]
      rcases List.mem_or_eq_of_mem_set hq with hq | rfl
      · exact h q hq data hdata
      · exact absurd hdata (hbound data)
  · obtain ⟨hhandlers, hnone⟩ := driver_handlers hstep
    rw [hhandlers] at hq
    have hloaded := (h q hq data hdata).1
    exact absurd (by simp [Handler.inProgress, hdata]) (hnone hloaded q hq)

theorem sound_of_timely {es : List Event} (hC : attributeLife.EachStep Timely es) :
    attributeLife.Throughout Sound es := by
  intro pre s hpre hs
  have hbound : BoundWhileLoaded s := hs.invariant_eachStep (hC.mono hpre)
    (by simp [BoundWhileLoaded, attributeLife, initial])
    fun hC hI hstep => bound_step hC hI (step_sound hstep)
  exact sound_of_bound (trace_owned hs) hbound

theorem timely_of_sound {es : List Event} {s : State} (h : attributeLife.Trace es s)
    (hS : attributeLife.Throughout Sound es) : attributeLife.EachStep Timely es := by
  rintro pre e p ⟨rest, rfl⟩ hp
  rw [List.append_assoc] at h
  obtain ⟨p', q, hp', hstep, hq, -⟩ := h.split_at
  obtain rfl := hp.functional hp'
  have hsound : Sound q := hS _ _ ⟨rest, by simp⟩ hq
  have howned := trace_owned hp
  rcases step_sound hstep with hhandler | hdriver
  · cases hhandler with
    | getDrvdata i r hi hpc =>
      obtain ⟨k, o, hk, -⟩ := hsound _ (List.mem_of_getElem? (set_entry hi)) _ rfl
      have hpub := howned.busy r (List.mem_of_getElem? hi) (by simp [Handler.inProgress, hpc])
      have hset : ¬ p.driver.unset := by
        intro hunset
        rw [howned.unset hunset] at hk
        cases hk
      show p.driver = .loaded
      cases hd : p.driver <;> simp [hd] at hpub hset ⊢
    | _ => trivial
  · cases hdriver <;> trivial

/-- Every handler finds live data in exactly the runs whose handlers all ask late enough. -/
theorem handler_finds_data {es : List Event} {s : State} (h : attributeLife.Trace es s) :
    attributeLife.Throughout Sound es ↔ attributeLife.EachStep Timely es :=
  ⟨timely_of_sound h, sound_of_timely⟩

def loadEvents : List Event :=
  [.registerRegion, .cdevAlloc, .cdevAdd, .classCreate, .deviceCreate, .createGroup]

def fillEvents : List Event := [.kzalloc [], .setSize, .clear, .fill, .setDrvdata]

def patientRead : List Event :=
  loadEvents ++ [.call .bufferShow] ++ fillEvents ++ [.getDrvdata 0, .call .sizeShow, .access 0,
    .getDrvdata 1, .access 1, .removeGroup, .deviceDestroy, .classDestroy, .cdevDel,
    .unregisterRegion, .kfree]

theorem handler_finds_data_patient : attributeLife.Throughout Sound patientRead := by
  have hall : (attributeLife.run patientRead).isSome := by decide
  obtain ⟨s, hs⟩ := Option.isSome_iff_exists.mp hall
  exact (handler_finds_data (System.trace_of_run hs)).mpr (System.eachStep_of_check (by decide))

/-- The attributes are published six steps before the driver data are set. -/
theorem handler_finds_null :
    ¬ ∀ es s, attributeLife.Trace es s → attributeLife.Throughout Sound es := by
  intro h
  have hrun : attributeLife.Trace (loadEvents ++ [.call .sizeShow, .getDrvdata 0])
      ⟨.groupCreated, none, none, [], [⟨.sizeShow, .bound none⟩]⟩ :=
    System.trace_of_run (by decide)
  have hsound := (h _ _ hrun).last hrun
  obtain ⟨k, o, hk, -⟩ := hsound ⟨.sizeShow, .bound none⟩ List.mem_cons_self none rfl
  cases hk

end ChardevAttributeLife
