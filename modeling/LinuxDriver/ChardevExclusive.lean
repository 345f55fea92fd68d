import LinuxDriver.ChardevSleepyLoading
import LinuxDriver.ModuleRuns

/-!
# chardev: four drivers for one device number

`my_chrdev.c`, `my_create_attr.c`, `my_create_group_attr.c` and `sleepy.c` all ask for the number
(255, 0) and go on when it is refused.
-/
namespace ChardevExclusive

open KernelTypes KernelResources ChrdevCreation ChardevLoading ChardevSleepyLoading
  TransitionSystem ModuleRuns

inductive Chardev where
  | chrdev
  | createAttr
  | createGroupAttr
  | sleepy
  deriving DecidableEq, Repr

def Answers : Chardev → Type
  | .chrdev => Calls Unit
  | .createAttr => Calls (Status × Status)
  | .createGroupAttr => Calls Status
  | .sleepy => Outcomes

def Kept : Chardev → Type
  | .chrdev | .createAttr | .createGroupAttr => Globals
  | .sleepy => SleepyGlobals

def chardevs : ∀ i, Loadable Kernel (Answers i) (Kept i)
  | .chrdev => ⟨myChrdev.init, myChrdev.exit⟩
  | .createAttr => ⟨myCreateAttr.init, myCreateAttr.exit⟩
  | .createGroupAttr => ⟨myCreateGroupAttr.init, myCreateGroupAttr.exit⟩
  | .sleepy => ⟨ChardevSleepyLoading.sleepy.init, ChardevSleepyLoading.sleepy.exit⟩

def AllGranted : ∀ i, Answers i → Kernel → Prop
  | .chrdev => Calls.Granted noAttributes
  | .createAttr => Calls.Granted attributeFiles
  | .createGroupAttr => Calls.Granted attributeGroup
  | .sleepy => SleepyGranted

def remainder : Remainder Kernel := ⟨Kernel.misuses, Leaked, .refl, .trans⟩

structure Taken (k : Kernel) : Prop where
  region : .region devno ∈ k.held
  device : k.has (·.isDeviceNumbered devno)

section

variable {A : Type} {V : Attributes A} {k t : Kernel} {rc : ℤ} {c : Chrdev}

theorem taken_of_complete {name : String} {o : Outcomes} (hC : Created o devno name k c t)
    (hc : c.Complete) : Taken t := by
  obtain ⟨q, hq⟩ := Option.isSome_iff_exists.mp hc.cls
  obtain ⟨p, hp⟩ := Option.isSome_iff_exists.mp hc.dev
  have hregion : c.Owns devno name (.region devno) := ⟨hc.rc, rfl⟩
  have hdevice : c.Owns devno name (.device p q devno) := ⟨hp, hq, rfl⟩
  refine ⟨(hC.held _).mpr (.inr hregion),
    Kernel.has_iff.mpr ⟨_, (hC.held _).mpr (.inr hdevice), ?_⟩⟩
  simp [Resource.isDeviceNumbered]

theorem Taken.mono (h : Taken k) (hsub : k.held ⊆ t.held) : Taken t := by
  obtain ⟨r, hr, hdevice⟩ := Kernel.has_iff.mp h.device
  exact ⟨hsub h.region, Kernel.has_iff.mpr ⟨r, hsub hr, hdevice⟩⟩

theorem chrdev_taken {o : Calls A} {g : Globals} (hgranted : o.Granted V k)
    (h : chrdevInit V o k = some ((rc, g), t)) : Taken t := by
  obtain ⟨c, k₁, k₂, hcreate, hattrs, hnew, -⟩ := chrdevInit_inv h
  obtain ⟨-, hC⟩ := createChrdev_created hcreate
  have hc := hC.complete.mpr hgranted.chrdev
  have hsub : k₂.held ⊆ t.held := fun x hx => (hnew.held x).mpr (.inl hx)
  exact (taken_of_complete hC hc).mono ((V.grows hattrs).held.trans hsub)

theorem sleepy_taken {o : Outcomes} {g : SleepyGlobals} (hgranted : SleepyGranted o k)
    (h : sleepyInit o k = some ((rc, g), t)) : Taken t := by
  obtain ⟨c, hcreate, -, -⟩ := sleepyInit_inv h
  obtain ⟨-, hC⟩ := createChrdev_created hcreate
  exact taken_of_complete hC (hC.complete.mpr hgranted)

theorem createChrdev_second {o : Outcomes} {name : String} (htaken : Taken k)
    (h : createChrdev o devno name k = some (c, t)) :
    c.rc ≠ 0 ∧ c.dev = none ∧ ∃ a, .cdev a .default ∈ t.held ∧ .cdev a .default ∉ k.held := by
  obtain ⟨-, hC⟩ := createChrdev_created h
  obtain ⟨a, ha⟩ := Option.isSome_iff_exists.mp hC.cdev
  have hown : c.Owns devno name (.cdev a .default) := ⟨ha, rfl⟩
  refine ⟨?_, ?_, a, (hC.held _).mpr (.inr hown), hC.new _ hown⟩
  · intro hrc
    exact hC.new (.region devno) ⟨hrc, rfl⟩ htaken.region
  · obtain ⟨rc, k₁, hregion, h⟩ := bind_inv h
    obtain ⟨cdev, k₂, halloc, h⟩ := bind_inv h
    obtain ⟨b, k₂', hderef, h⟩ := bind_inv h
    obtain ⟨_, k₂'', hinit, h⟩ := bind_inv h
    obtain ⟨added, k₃, hadd, h⟩ := bind_inv h
    obtain ⟨cls, k₄, hclass, h⟩ := bind_inv h
    obtain ⟨dev, k₅, hdevice, h⟩ := bind_inv h
    obtain ⟨rfl, rfl⟩ := Prod.mk.inj (Option.some.inj h)
    cases cdev with
    | none => cases hderef
    | some p =>
      obtain ⟨rfl, rfl⟩ := Prod.mk.inj (Option.some.inj hderef)
      have hP := prepared_of_calls hregion halloc hinit hadd hclass
      have hplaced := (deviceCreate_placed hdevice).placed
      by_contra hdev
      exact (hplaced.mp (Option.ne_none_iff_isSome.mp hdev)).2.2 (hP.node.mpr htaken.device)

/-- `my_chrdev_init` and `sleepy_init` return the refusal, with the cdev left behind. -/
def Refused (rc : ℤ) (k t : Kernel) : Prop :=
  rc ≠ 0 ∧ ∃ a, .cdev a .default ∈ t.held ∧ .cdev a .default ∉ k.held

theorem myChrdev_second {o : Calls Unit} {g : Globals} (htaken : Taken k)
    (h : myChrdev.init o k = some ((rc, g), t)) : Refused rc k t := by
  refine ⟨?_, cdev_of_init h⟩
  obtain ⟨c, k₁, k₂, hcreate, hattrs, -⟩ := chrdevInit_inv h
  obtain ⟨hrc, -⟩ := createChrdev_second htaken hcreate
  obtain ⟨rfl, -⟩ := Prod.mk.inj (Option.some.inj hattrs)
  exact hrc

theorem sleepy_second {o : Outcomes} {g : SleepyGlobals} (htaken : Taken k)
    (h : sleepyInit o k = some ((rc, g), t)) : Refused rc k t := by
  obtain ⟨c, hcreate, rfl, -⟩ := sleepyInit_inv h
  obtain ⟨hrc, -, a, ha, hnew⟩ := createChrdev_second htaken hcreate
  exact ⟨hrc, a, ha, hnew⟩

theorem chrdev_crashes (hV : ∀ a rc k, V.create a rc none k = none) (htaken : Taken k)
    (o : Calls A) : chrdevInit V o k = none := by
  by_contra hsome
  obtain ⟨⟨⟨rc, g⟩, t⟩, h⟩ := Option.ne_none_iff_exists'.mp hsome
  obtain ⟨c, k₁, k₂, hcreate, hattrs, -⟩ := chrdevInit_inv h
  obtain ⟨-, hdev, -⟩ := createChrdev_second htaken hcreate
  rw [hdev, hV] at hattrs
  cases hattrs

theorem excluding : Excluding chardevs remainder AllGranted Taken where
  cycle {i o k} h := by
    cases i with
    | chrdev | createAttr | createGroupAttr =>
      obtain ⟨g, t, u, hinit, hmisuses, -, hrest⟩ := chrdev_iff.mpr h
      exact ⟨g, t, u, hinit, hmisuses, hrest⟩
    | sleepy =>
      obtain ⟨g, t, u, hinit, hmisuses, -, hrest⟩ := sleepy_iff.mpr h
      exact ⟨g, t, u, hinit, hmisuses, hrest⟩
  busy {i o k g t} h hinit := by
    cases i with
    | chrdev | createAttr | createGroupAttr => exact chrdev_taken h hinit
    | sleepy => exact sleepy_taken h hinit
  excludes {i o k} htaken h := by
    cases i with
    | chrdev | createAttr | createGroupAttr => exact h.chrdev.regionFree htaken.region
    | sleepy => exact h.regionFree htaken.region

/-- What another load comes to: the two drivers with attribute files crash, and the others, where
they return, return an error and leave a cdev behind. -/
structure SecondLoad (k : Kernel) : Prop where
  createAttr : ∀ o, myCreateAttr.init o k = none
  createGroupAttr : ∀ o, myCreateGroupAttr.init o k = none
  chrdev : ∀ o rc g t, myChrdev.init o k = some ((rc, g), t) → Refused rc k t
  sleepy : ∀ o rc g t, ChardevSleepyLoading.sleepy.init o k = some ((rc, g), t) → Refused rc k t

theorem secondLoad_of_taken (htaken : Taken k) : SecondLoad k where
  createAttr := chrdev_crashes (V := attributeFiles) (fun _ _ _ => rfl) htaken
  createGroupAttr := chrdev_crashes (V := attributeGroup) (fun _ _ _ => rfl) htaken
  chrdev _ _ _ _ := myChrdev_second htaken
  sleepy _ _ _ _ := sleepy_second htaken

theorem allGranted_of_leaked {i : Chardev} {o : Answers i} {n : ℕ} (ht : Leaked n k t)
    (h : AllGranted i o k) : AllGranted i o t := by
  cases i with
  | chrdev | createAttr | createGroupAttr => exact Calls.Granted.of_leaked ht h
  | sleepy => exact Granted.of_leaked h ht

end

/-- In every order of loads and unloads in which the calls of each init are granted, one of the
four drivers is loaded at most, and its exit gives back everything but the structure of the cdev:
the kernel holds one for each load so far. Then any of them can follow. No second one can be loaded
beside it. -/
theorem one_chardev_loaded {k : Kernel} {es : List (ModuleRuns.Event Answers)}
    {s : ModuleRuns.State Kernel Kept} (h : (modules chardevs k).Trace es s)
    (hgranted : (modules chardevs k).EachStep (Allowed AllGranted) es) :
    Alone chardevs remainder Taken (loads es) k s ∧
      (∀ i, (s.loaded i).isSome → SecondLoad s.kernel) ∧
      ((∀ i, s.loaded i = none) → ∀ i o, AllGranted i o k → AllGranted i o s.kernel) := by
  have halone := trace_alone excluding h hgranted
  refine ⟨halone, fun i hi => secondLoad_of_taken (halone.busy i hi), ?_⟩
  intro hnone i o
  exact allGranted_of_leaked (halone.left hnone)

def loadChrdev : ModuleRuns.Event Answers :=
  .load .chrdev (⟨.allSucceed, (), .success⟩ : Calls Unit)

def unloadChrdev : ModuleRuns.Event Answers := .unload .chrdev

def loadSleepy : ModuleRuns.Event Answers := .load .sleepy Outcomes.allSucceed

/-- `my_chrdev` is loaded and unloaded, and `sleepy` takes its place. -/
theorem one_chardev_loaded_inTurn : ∃ s, (modules chardevs .empty).run
    [loadChrdev, unloadChrdev, loadSleepy] = some s ∧ SecondLoad s.kernel := by
  obtain ⟨t, ht⟩ : ∃ t, (modules chardevs .empty).run [loadChrdev] = some t := ⟨_, rfl⟩
  obtain ⟨u, hu⟩ : ∃ u, (modules chardevs .empty).run [loadChrdev, unloadChrdev] = some u :=
    ⟨_, rfl⟩
  obtain ⟨s, hs⟩ : ∃ s, (modules chardevs .empty).run
    [loadChrdev, unloadChrdev, loadSleepy] = some s := ⟨_, rfl⟩
  have hnil : (modules chardevs .empty).EachStep (Allowed AllGranted) [] := by
    intro pre e v hpre
    simp at hpre
  have hfirst : (modules chardevs .empty).EachStep (Allowed AllGranted) [loadChrdev] :=
    hnil.snoc .nil ⟨by constructor <;> decide, trivial, rfl⟩
  have hsecond := hfirst.snoc (e := unloadChrdev) (System.trace_of_run ht) trivial
  have hthird := hsecond.snoc (e := loadSleepy) (System.trace_of_run hu) (by
    obtain rfl := Option.some.inj hu
    constructor <;> decide)
  have hsleepy : (s.loaded .sleepy).isSome := by
    obtain rfl := Option.some.inj hs
    rfl
  exact ⟨s, hs, (one_chardev_loaded (System.trace_of_run hs) hthird).2.1 .sleepy hsleepy⟩

end ChardevExclusive
