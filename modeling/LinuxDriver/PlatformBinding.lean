import LinuxDriver.PlatformProbe
import LinuxDriver.TransitionSystem
import LinuxDriver.CallPool

/-!
# platform: binding and unbinding devices

Each device has driver data of its own, while the class pointer and the device number are
globals of the module that every probe overwrites. A binding keeps, beside what the driver
stores in it, which resources its probe has acquired.
-/
namespace PlatformBinding

open TransitionSystem CallPool KernelTypes KernelResources ChrdevCreation PlatformProbe

/-- A platform device that has been bound: its driver data, and for the accounting the
resources that its probe has acquired and whether it is still bound. -/
structure Device where
  binding : Binding
  acquired : Finset Resource
  bound : Bool

structure State where
  kernel : Kernel
  devno : ℕ
  myClass : Pointer
  devices : List Device

inductive Event where
  | probe (o : Calls) (node : Option Node) (beyond : List UInt8)
  | remove (i : ℕ)

def myPlatformRemove (devno : ℕ) (myClass : Pointer) (b : Binding) : KernelM Unit := do
  classDestroy myClass
  cdevDel b.data.cdev
  unregisterChrdevRegion devno
  kfree (some b.drvdata)

/-- Only probes that return 0 bind a device. -/
def stepProbe (s : State) (r : Result) (t : Kernel) : Option State :=
  if r.rc = 0 then
    r.binding.map fun b => ⟨t, MKDEV cdevMajor cdevMinor, b.chrdev.cls,
      s.devices ++ [⟨b, t.held \ s.kernel.held, true⟩]⟩
  else none

def stepRemove (s : State) (i : ℕ) (d : Device) : Option State :=
  if d.bound then
    (myPlatformRemove s.devno s.myClass d.binding s.kernel).map fun r =>
      { s with kernel := r.2, devices := s.devices.set i { d with bound := false } }
  else none

def step (s : State) : Event → Option State
  | .probe o node beyond =>
    (myPlatformProbe o node beyond s.kernel).bind fun r => stepProbe s r.1 r.2
  | .remove i => s.devices[i]?.bind fun d => stepRemove s i d

def platform (k : Kernel) : System State Event := ⟨⟨k, 0, none, []⟩, step⟩

def Owns (b : Binding) : Resource → Prop
  | .memory p => p = b.drvdata
  | x => b.chrdev.Owns (MKDEV cdevMajor cdevMinor) className x

def Touches (b : Binding) : Resource → Prop
  | .memory p => p = b.drvdata
  | .cdev p _ | .chrdev p _ => b.data.cdev = some p
  | .cls p _ => b.chrdev.cls = some p
  | _ => False

structure Acquired (k : Kernel) (b : Binding) (t : Kernel) : Prop where
  cdev : b.data.cdev = b.chrdev.cdev ∧ b.data.cdev.isSome
  node : b.chrdev.dev.isSome → b.chrdev.cls.isSome
  held : ∀ x, x ∈ t.held ↔ x ∈ k.held ∨ Owns b x
  new : ∀ x, Touches b x ∨ Owns b x → x ∉ k.held

theorem probe_acquired {o : Calls} {node : Option Node} {beyond : List UInt8} {k t : Kernel}
    {r : Result} (h : myPlatformProbe o node beyond k = some (r, t)) (hrc : r.rc = 0) :
    ∃ b, r.binding = some b ∧ Acquired k b t := by
  obtain ⟨data, c, hcreate, hb⟩ := probe_zero h hrc
  obtain ⟨-, hC⟩ := createChrdev_created hcreate
  refine ⟨_, hb, ⟨rfl, hC.cdev⟩, hC.node, fun x => ?_, fun x hx => ?_⟩
  · rw [hC.held, Kernel.mem_hold]
    cases x <;> simp [Owns, Chrdev.Owns, or_comm]
  · have habove {p : ℕ} (hp : c.cdev = some p ∨ c.cls = some p ∨ c.dev = some p) :
        k.next ≤ p := Kernel.next_le_hold.trans (hC.addresses p hp)
    have hnew (hown : c.Owns (MKDEV cdevMajor cdevMinor) className x) : x ∉ k.held := fun hk =>
      hC.new x hown (Kernel.mem_hold.mpr (.inr hk))
    cases x with
    | memory p => exact Kernel.notMem_of_next_le (or_self_iff.mp hx).ge rfl
    | cdev p ktype => exact Kernel.notMem_of_next_le (habove (.inl (hx.elim id (·.1)))) rfl
    | chrdev p d => exact Kernel.notMem_of_next_le (habove (.inl (hx.elim id (·.2.1)))) rfl
    | cls p n => exact Kernel.notMem_of_next_le (habove (.inr (.inl (hx.elim id (·.1))))) rfl
    | device p q d => exact hnew (hx.resolve_left id)
    | misc p n => exact (hx.elim id id).elim
    | attr p n => exact (hx.elim id id).elim
    | region d => exact hnew (hx.resolve_left id)

theorem step_cases {s t : State} {e : Event} (h : step s e = some t) :
    (∃ o node beyond b, e = .probe o node beyond ∧ Acquired s.kernel b t.kernel ∧
      t.devno = MKDEV cdevMajor cdevMinor ∧ t.myClass = b.chrdev.cls ∧
      t.devices = s.devices ++ [⟨b, t.kernel.held \ s.kernel.held, true⟩]) ∨
    (∃ i d, e = .remove i ∧ s.devices[i]? = some d ∧ d.bound ∧
      myPlatformRemove s.devno s.myClass d.binding s.kernel = some ((), t.kernel) ∧
      t.devno = s.devno ∧ t.devices = s.devices.set i { d with bound := false }) := by
  cases e with
  | probe o node beyond =>
    obtain ⟨⟨r, k⟩, hprobe, h⟩ := Option.bind_eq_some_iff.mp h
    obtain ⟨hrc, h⟩ := Option.ite_none_right_eq_some.mp h
    obtain ⟨b, hb, hA⟩ := probe_acquired hprobe hrc
    obtain ⟨b', hb', rfl⟩ := Option.map_eq_some_iff.mp h
    obtain rfl := Option.some.inj (hb.symm.trans hb')
    exact .inl ⟨o, node, beyond, b, rfl, hA, rfl, rfl, rfl⟩
  | remove i =>
    obtain ⟨d, hd, h⟩ := Option.bind_eq_some_iff.mp h
    obtain ⟨hbound, h⟩ := Option.ite_none_right_eq_some.mp h
    obtain ⟨⟨⟨⟩, k⟩, hrun, rfl⟩ := Option.map_eq_some_iff.mp h
    exact .inr ⟨i, d, rfl, hd, hbound, hrun, rfl, rfl⟩

def Released (devno : ℕ) (myClass : Pointer) (b : Binding) : Resource → Prop
  | .memory p => p = b.drvdata
  | .cdev p ktype => b.data.cdev = some p ∧ ktype = .dynamic
  | .chrdev p _ => b.data.cdev = some p
  | .cls p _ => myClass = some p
  | .region d => d = devno
  | _ => False

structure Present (myClass : Pointer) (b : Binding) (k : Kernel) : Prop where
  cls : ∀ m, myClass = some m → k.has (·.isClass m)
  cdev : ∀ a, b.data.cdev = some a → k.has (·.isCdev a)
  drvdata : .memory b.drvdata ∈ k.held

theorem remove_releases (devno : ℕ) (myClass : Pointer) {b : Binding} (k : Kernel)
    (hcdev : b.data.cdev.isSome) :
    ∃ t, myPlatformRemove devno myClass b k = some ((), t) ∧
      (∀ x, x ∈ t.held ↔ x ∈ k.held ∧ ¬ Released devno myClass b x) ∧
      (t.misuses = k.misuses ↔ Present myClass b k) := by
  obtain ⟨a, ha⟩ := Option.isSome_iff_exists.mp hcdev
  obtain ⟨k₁, hrun₁, h₁⟩ := classDestroy_took myClass k
  obtain ⟨k₂, hrun₂, h₂⟩ := cdevDel_took a k₁
  obtain ⟨k₃, hrun₃, h₃⟩ := unregisterChrdevRegion_took devno k₂
  obtain ⟨k₄, hrun₄, h₄⟩ := kfree_took b.drvdata k₃
  refine ⟨k₄, ?_, fun x => ?_, ?_⟩
  · refine (bind_some hrun₁).trans ?_
    rw [ha]
    exact (bind_some hrun₂).trans ((bind_some hrun₃).trans hrun₄)
  · rw [h₄.held, h₃.held, h₂.held, h₁.held]
    cases x <;> simp [Released, Resource.isClass, ha]
    case cdev p ktype => simp [eq_comm]
    case chrdev p d => exact fun _ => not_congr eq_comm
  · have hall : k₄.misuses = k.misuses ↔ k₄.misuses = k₃.misuses ∧ k₂.misuses = k₁.misuses ∧
        k₁.misuses = k.misuses := by
      have hsame := h₃.misuses_eq.mpr trivial
      have hle₁ := h₁.misuses_le
      have hle₂ := h₂.misuses_le
      have hle₄ := h₄.misuses_le
      omega
    have hdrvdata : .memory b.drvdata ∈ k₃.held ↔ .memory b.drvdata ∈ k.held := by
      rw [h₃.held, h₂.held, h₁.held]
      simp [Resource.isClass]
    have hdevice : k₁.has (·.isCdev a) ↔ k.has (·.isCdev a) := by
      simp only [Kernel.has_iff, h₁.held]
      refine exists_congr fun x => ?_
      cases x <;> simp [Resource.isCdev, Resource.isClass]
    rw [hall, h₄.misuses_eq, h₂.misuses_eq, h₁.misuses_eq, hdrvdata, hdevice]
    constructor
    · rintro ⟨hmem, hcd, hcl⟩
      exact ⟨hcl, fun p hp => Option.some.inj (ha.symm.trans hp) ▸ hcd, hmem⟩
    · exact fun hP => ⟨hP.drvdata, hP.cdev a ha, hP.cls⟩

/-- What the probe has acquired but for the structure of the cdev. -/
def Device.rest (d : Device) : Finset Resource := d.acquired.filter fun x => ¬ x.isStray

/-- A remove gives back exactly these resources of its device, and uses nothing that is not
there. -/
def Releases (resources : Device → Finset Resource) (s : State) : Event → Prop
  | .remove i => ∀ d ∈ s.devices[i]?, d.bound →
    ∃ t, myPlatformRemove s.devno s.myClass d.binding s.kernel = some ((), t) ∧
      d.acquired ⊆ s.kernel.held ∧ t.held = s.kernel.held \ resources d ∧
      t.misuses = s.kernel.misuses
  | _ => True

def NothingKept (k : Kernel) (s : State) : Prop :=
  (∀ d ∈ s.devices, ¬ d.bound) → s.kernel.held = k.held

/-- Every remove releases what its own probe acquired, and an idle driver holds nothing. -/
def OwnershipKept (k : Kernel) (es : List Event) : Prop :=
  (platform k).EachStep (Releases Device.acquired) es ∧ (platform k).Throughout (NothingKept k) es

/-- While no device is bound, there is one more cdev for each that has been. -/
def CdevsKept (k : Kernel) (s : State) : Prop :=
  (∀ d ∈ s.devices, ¬ d.bound) → Leaked s.devices.length k s.kernel

/-- The same but for the structures of the cdevs. -/
def RestKept (k : Kernel) (es : List Event) : Prop :=
  (platform k).EachStep (Releases Device.rest) es ∧ (platform k).Throughout (CdevsKept k) es

/-- The device to be removed got no device node, the class pointer is still the one that its
own probe left there, and the device number is its own or nobody's. -/
def Mirrored (s : State) : Event → Prop
  | .remove i => ∀ d ∈ s.devices[i]?, d.bound →
    d.binding.chrdev.dev = none ∧ s.myClass = d.binding.chrdev.cls ∧
      (d.binding.chrdev.rc = 0 ∨ .region s.devno ∉ s.kernel.held)
  | _ => True

instance (s : State) : (e : Event) → Decidable (Mirrored s e)
  | .probe _ _ _ => .isTrue trivial
  | .remove i => inferInstanceAs (Decidable (∀ d ∈ s.devices[i]?, _))

structure Known (d : Device) : Prop where
  cdev : d.binding.data.cdev = d.binding.chrdev.cdev ∧ d.binding.data.cdev.isSome
  node : d.binding.chrdev.dev.isSome → d.binding.chrdev.cls.isSome
  acquired : ∀ x, x ∈ d.acquired ↔ Owns d.binding x

/-- The resources of a bound device are held, were not there before the module, and nothing
else lives at their addresses. -/
structure Secure (k : Kernel) (s : State) (d : Device) : Prop where
  held : d.acquired ⊆ s.kernel.held
  new : ∀ x ∈ d.acquired, x ∉ k.held
  sole : ∀ x ∈ s.kernel.held, Touches d.binding x → x ∈ d.acquired

/-- Whose each resource is, in a run whose removes all release the rest of their own. -/
structure Accounted (k : Kernel) (s : State) : Prop where
  devno : s.devices ≠ [] → s.devno = MKDEV cdevMajor cdevMinor
  kept : k.held ⊆ s.kernel.held
  owned : ∀ x ∈ s.kernel.held, x ∈ k.held ∨ x.isStray ∨ ∃ d ∈ s.devices, d.bound ∧ x ∈ d.acquired
  strays : s.kernel.strays = k.strays + s.devices.length
  bound : ∀ d ∈ s.devices, d.bound → Secure k s d
  apart : ∀ (i j : ℕ) (d e : Device), s.devices[i]? = some d → s.devices[j]? = some e →
    d.bound → e.bound → i ≠ j → ∀ x ∈ d.acquired, x ∉ e.acquired

section

variable {k : Kernel} {s t : State} {b : Binding} {d : Device} {i : ℕ}

theorem Known.drvdata (h : Known d) : .memory d.binding.drvdata ∈ d.acquired :=
  (h.acquired _).mpr rfl

theorem Known.cls {q : ℕ} (h : Known d) (hq : d.binding.chrdev.cls = some q) :
    .cls q className ∈ d.acquired := (h.acquired _).mpr ⟨hq, rfl⟩

theorem Known.chardev {a : ℕ} (h : Known d) (ha : d.binding.data.cdev = some a) :
    .cdev a .default ∈ d.acquired := (h.acquired _).mpr ⟨h.cdev.1.symm.trans ha, rfl⟩

theorem mem_rest {x : Resource} : x ∈ d.rest ↔ x ∈ d.acquired ∧ ¬ x.isStray := by
  simp [Device.rest]

theorem known_step {e : Event} (h : ∀ d ∈ s.devices, Known d) (hstep : step s e = some t) :
    ∀ d ∈ t.devices, Known d := by
  intro d hd
  obtain ⟨o, node, beyond, b, rfl, hA, -, -, ht⟩ | ⟨i, e, rfl, hi, -, -, -, ht⟩ :=
    step_cases hstep
  · rw [ht] at hd
    rcases List.mem_append.mp hd with hd | hd
    · exact h d hd
    · obtain rfl := List.mem_singleton.mp hd
      refine ⟨hA.cdev, hA.node, fun x => ?_⟩
      rw [Finset.mem_sdiff, hA.held]
      exact ⟨fun hx => hx.1.resolve_left hx.2, fun hx => ⟨.inr hx, hA.new x (.inr hx)⟩⟩
  · rw [ht] at hd
    rcases List.mem_or_eq_of_mem_set hd with hd | rfl
    · exact h d hd
    · have hknown := h e (List.mem_of_getElem? hi)
      exact ⟨hknown.cdev, hknown.node, hknown.acquired⟩

theorem trace_known {es : List Event} (h : (platform k).Trace es s) : ∀ d ∈ s.devices, Known d :=
  h.invariant (by simp [platform]) known_step

theorem released_iff (hk : Known d) (hs : Secure k s d)
    (hdevno : s.devno = MKDEV cdevMajor cdevMinor) (hdev : d.binding.chrdev.dev = none)
    (hcls : s.myClass = d.binding.chrdev.cls)
    (hregion : d.binding.chrdev.rc = 0 ∨ .region s.devno ∉ s.kernel.held) {x : Resource}
    (hx : x ∈ s.kernel.held) : Released s.devno s.myClass d.binding x ↔ x ∈ d.rest := by
  rw [mem_rest]
  have htouch (hstray : ¬ x.isStray)
      (hT : Released s.devno s.myClass d.binding x → Touches d.binding x)
      (hO : Owns d.binding x → Released s.devno s.myClass d.binding x) :
      Released s.devno s.myClass d.binding x ↔ x ∈ d.acquired ∧ ¬ x.isStray :=
    ⟨fun h => ⟨hs.sole x hx (hT h), hstray⟩, fun h => hO ((hk.acquired x).mp h.1)⟩
  cases x with
  | memory p => exact htouch Bool.false_ne_true id id
  | cdev p ktype =>
    cases ktype with
    | dynamic => exact htouch Bool.false_ne_true (·.1) fun h => absurd h.2 (by decide)
    | default => exact iff_of_false (fun h => absurd h.2 (by decide)) fun h => h.2 rfl
  | chrdev p n => exact htouch Bool.false_ne_true id fun h => hk.cdev.1.trans h.2.1
  | cls p n => exact htouch Bool.false_ne_true (fun h => hcls.symm.trans h) fun h => hcls.trans h.1
  | device p q n =>
    refine htouch Bool.false_ne_true False.elim fun h => ?_
    have hp := h.1
    rw [hdev] at hp
    cases hp
  | misc p n => exact htouch Bool.false_ne_true False.elim False.elim
  | attr p n => exact htouch Bool.false_ne_true False.elim False.elim
  | region n =>
    constructor
    · rintro rfl
      have hrc := hregion.resolve_right fun hno => hno hx
      exact ⟨(hk.acquired _).mpr ⟨hrc, hdevno⟩, Bool.false_ne_true⟩
    · intro h
      exact ((hk.acquired _).mp h.1).2.trans hdevno.symm

theorem releases_of_mirrored {e : Event} (h : Accounted k s) (hknown : ∀ d ∈ s.devices, Known d)
    (hm : Mirrored s e) : Releases Device.rest s e := by
  cases e with
  | probe => trivial
  | remove i =>
    intro d hd hbound
    have hmem := List.mem_of_getElem? hd
    have hk := hknown d hmem
    have hs := h.bound d hmem hbound
    have hdevno := h.devno (List.ne_nil_of_mem hmem)
    obtain ⟨hdev, hcls, hregion⟩ := hm d hd hbound
    obtain ⟨t, hrun, hheld, hmisuses⟩ :=
      remove_releases s.devno s.myClass s.kernel hk.cdev.2
    refine ⟨t, hrun, hs.held, ?_, hmisuses.mpr ⟨?_, ?_, hs.held hk.drvdata⟩⟩
    · ext x
      rw [hheld, Finset.mem_sdiff]
      exact and_congr_right fun hx =>
        not_congr (released_iff hk hs hdevno hdev hcls hregion hx)
    · intro m hclass
      have hown := hs.held (hk.cls (hcls.symm.trans hclass))
      exact Kernel.has_iff.mpr ⟨_, hown, by simp [Resource.isClass]⟩
    · exact fun a ha => Kernel.has_iff.mpr ⟨_, hs.held (hk.chardev ha), by simp [Resource.isCdev]⟩

theorem node_none_of_exact (hk : Known d) (hs : Secure k s d)
    (hexact : ∀ x ∈ s.kernel.held, Released s.devno s.myClass d.binding x ↔ x ∈ d.rest) :
    d.binding.chrdev.dev = none := by
  cases hdev : d.binding.chrdev.dev with
  | none => rfl
  | some p =>
    obtain ⟨q, hq⟩ := Option.isSome_iff_exists.mp (hk.node (by rw [hdev]; rfl))
    have hown : .device p q (MKDEV cdevMajor cdevMinor) ∈ d.acquired :=
      (hk.acquired _).mpr ⟨hdev, hq, rfl⟩
    exact ((hexact _ (hs.held hown)).mpr (mem_rest.mpr ⟨hown, Bool.false_ne_true⟩)).elim

theorem cls_eq_of_exact (hk : Known d) (hs : Secure k s d)
    (hexact : ∀ x ∈ s.kernel.held, Released s.devno s.myClass d.binding x ↔ x ∈ d.rest)
    (hheld : ∀ m, s.myClass = some m → s.kernel.has (·.isClass m)) :
    s.myClass = d.binding.chrdev.cls := by
  cases hclass : s.myClass with
  | none =>
    cases hq : d.binding.chrdev.cls with
    | none => rfl
    | some q =>
      have hown := hk.cls hq
      have hrel := (hexact _ (hs.held hown)).mpr (mem_rest.mpr ⟨hown, Bool.false_ne_true⟩)
      exact absurd (hclass.symm.trans hrel) (by simp)
  | some m =>
    obtain ⟨x, hx, hxm⟩ := Kernel.has_iff.mp (hheld m hclass)
    cases x with
    | cls p n =>
      obtain rfl : p = m := of_decide_eq_true hxm
      have hown := (hk.acquired _).mp (mem_rest.mp ((hexact _ hx).mp hclass)).1
      exact hown.1.symm
    | _ => cases hxm

theorem mirrored_of_releases {e : Event} (h : Accounted k s) (hknown : ∀ d ∈ s.devices, Known d)
    (hr : Releases Device.rest s e) : Mirrored s e := by
  cases e with
  | probe => trivial
  | remove i =>
    intro d hd hbound
    have hmem := List.mem_of_getElem? hd
    have hk := hknown d hmem
    have hs := h.bound d hmem hbound
    obtain ⟨t, hrun, -, hown, hmis⟩ := hr d hd hbound
    obtain ⟨t', hrun', hheld, hmisuses⟩ :=
      remove_releases s.devno s.myClass s.kernel hk.cdev.2
    obtain ⟨-, rfl⟩ := Prod.mk.inj (Option.some.inj (hrun.symm.trans hrun'))
    have hP := hmisuses.mp hmis
    have hexact : ∀ x ∈ s.kernel.held,
        Released s.devno s.myClass d.binding x ↔ x ∈ d.rest := by
      intro x hx
      have hx' := hheld x
      rw [hown, Finset.mem_sdiff] at hx'
      simpa [hx, not_iff_not] using hx'.symm
    refine ⟨node_none_of_exact hk hs hexact, cls_eq_of_exact hk hs hexact hP.cls, ?_⟩
    by_cases hregion : .region s.devno ∈ s.kernel.held
    · exact .inl ((hk.acquired _).mp (mem_rest.mp ((hexact _ hregion).mp rfl)).1).1
    · exact .inr hregion

theorem untouched {x : Resource} (hk : Known d) (hs : Secure k s d)
    (hA : Acquired s.kernel b t.kernel) (hown : Owns b x) (hx : x ∉ s.kernel.held) :
    ¬ Touches d.binding x := by
  intro htouch
  cases x with
  | memory p => exact hx (hs.held ((hk.acquired _).mpr htouch))
  | cdev p ktype =>
    obtain rfl : ktype = .default := hown.2
    exact hx (hs.held (hk.chardev htouch))
  | chrdev p n =>
    exact hA.new (.cdev p .default) (.inr ⟨hown.2.1, rfl⟩) (hs.held (hk.chardev htouch))
  | cls p n =>
    obtain rfl : n = className := hown.2
    exact hx (hs.held (hk.cls htouch))
  | _ => exact htouch.elim

theorem strays_probe (hA : Acquired s.kernel b t.kernel) :
    t.kernel.strays = s.kernel.strays + 1 := by
  obtain ⟨a, ha⟩ := Option.isSome_iff_exists.mp hA.cdev.2
  have hown : Owns b (.cdev a .default) := ⟨hA.cdev.1.symm.trans ha, rfl⟩
  refine strays_insert (x := .cdev a .default) rfl (hA.new _ (.inr hown)) fun y hy => ?_
  rw [hA.held, or_comm]
  refine or_congr_left ⟨fun h => ?_, fun h => h ▸ hown⟩
  cases y with
  | cdev p ktype =>
    obtain ⟨hp, rfl⟩ : b.chrdev.cdev = some p ∧ ktype = .default := h
    rw [← hA.cdev.1, ha] at hp
    rw [Option.some.inj hp]
  | _ => cases hy

theorem accounted_probe (h : Accounted k s) (hknown : ∀ d ∈ s.devices, Known d)
    (hA : Acquired s.kernel b t.kernel) (hdevno : t.devno = MKDEV cdevMajor cdevMinor)
    (ht : t.devices = s.devices ++ [⟨b, t.kernel.held \ s.kernel.held, true⟩]) :
    Accounted k t := by
  have hgrow : s.kernel.held ⊆ t.kernel.held := fun x hx => (hA.held x).mpr (.inl hx)
  constructor
  case devno => exact fun _ => hdevno
  case kept => exact h.kept.trans hgrow
  case strays =>
    rw [strays_probe hA, h.strays, ht]
    simp [Nat.add_assoc]
  case owned =>
    intro x hx
    by_cases hold : x ∈ s.kernel.held
    · rcases h.owned x hold with hk | hstray | ⟨d, hd, hown⟩
      · exact .inl hk
      · exact .inr (.inl hstray)
      · rw [ht]
        exact .inr (.inr ⟨d, List.mem_append_left _ hd, hown⟩)
    · refine .inr (.inr ⟨⟨b, _, true⟩, ?_, rfl, Finset.mem_sdiff.mpr ⟨hx, hold⟩⟩)
      rw [ht]
      exact List.mem_append_right _ (List.mem_singleton_self _)
  case bound =>
    intro d hd hbound
    rw [ht] at hd
    rcases List.mem_append.mp hd with hd | hd
    · have hs := h.bound d hd hbound
      refine ⟨hs.held.trans hgrow, hs.new, fun x hx htouch => ?_⟩
      by_cases hold : x ∈ s.kernel.held
      · exact hs.sole x hold htouch
      · have hown := ((hA.held x).mp hx).resolve_left hold
        exact absurd htouch (untouched (hknown d hd) hs hA hown hold)
    · obtain rfl := List.mem_singleton.mp hd
      refine ⟨Finset.sdiff_subset, fun x hx => ?_, fun x hx htouch => ?_⟩
      · exact fun hk => (Finset.mem_sdiff.mp hx).2 (h.kept hk)
      · exact Finset.mem_sdiff.mpr ⟨hx, hA.new x (.inl htouch)⟩
  case apart =>
    intro i j d e hi hj hd he hij x hxd hxe
    rw [ht] at hi hj
    rcases entry_of_spawn hi with hi | ⟨rfl, rfl⟩ <;>
      rcases entry_of_spawn hj with hj | ⟨rfl, rfl⟩
    · exact h.apart i j d e hi hj hd he hij x hxd hxe
    · have hs := h.bound d (List.mem_of_getElem? hi) hd
      exact (Finset.mem_sdiff.mp hxe).2 (hs.held hxd)
    · have hs := h.bound e (List.mem_of_getElem? hj) he
      exact (Finset.mem_sdiff.mp hxd).2 (hs.held hxe)
    · exact hij rfl

theorem accounted_remove (h : Accounted k s) (hi : s.devices[i]? = some d)
    (hbound : d.bound) (hheld : t.kernel.held = s.kernel.held \ d.rest)
    (hdevno : t.devno = s.devno) (ht : t.devices = s.devices.set i { d with bound := false }) :
    Accounted k t := by
  have hmem := List.mem_of_getElem? hi
  have hs := h.bound d hmem hbound
  have hsub : t.kernel.held ⊆ s.kernel.held := hheld ▸ Finset.sdiff_subset
  constructor
  case devno => exact fun _ => hdevno.trans (h.devno (List.ne_nil_of_mem hmem))
  case kept =>
    intro x hx
    rw [hheld, Finset.mem_sdiff]
    exact ⟨h.kept hx, fun hown => hs.new x (mem_rest.mp hown).1 hx⟩
  case strays =>
    have hstrays : t.kernel.held.filter (·.isStray) = s.kernel.held.filter (·.isStray) := by
      ext x
      rw [hheld, Finset.mem_filter, Finset.mem_filter, Finset.mem_sdiff, mem_rest]
      tauto
    rw [ht, List.length_set, ← h.strays, Kernel.strays, Kernel.strays, hstrays]
  case owned =>
    intro x hx
    rw [hheld, Finset.mem_sdiff] at hx
    by_cases hstray : x.isStray
    · exact .inr (.inl hstray)
    rcases h.owned x hx.1 with hk | hstray' | ⟨e, he, hebound, hxe⟩
    · exact .inl hk
    · exact absurd hstray' hstray
    · obtain ⟨j, hj⟩ := List.mem_iff_getElem?.mp he
      have hij : j ≠ i := by
        rintro rfl
        obtain rfl := Option.some.inj (hi.symm.trans hj)
        exact hx.2 (mem_rest.mpr ⟨hxe, hstray⟩)
      rw [ht]
      exact .inr (.inr ⟨e, List.mem_of_getElem? ((set_other hij).trans hj), hebound, hxe⟩)
  case bound =>
    intro e he hebound
    rw [ht] at he
    obtain ⟨j, hj⟩ := List.mem_iff_getElem?.mp he
    rcases entry_of_set hj with ⟨rfl, rfl⟩ | ⟨hij, hj⟩
    · cases hebound
    · have hother := h.bound e (List.mem_of_getElem? hj) hebound
      refine ⟨fun x hx => ?_, hother.new, fun x hx => hother.sole x (hsub hx)⟩
      rw [hheld, Finset.mem_sdiff]
      refine ⟨hother.held hx, fun hrest => ?_⟩
      exact h.apart j i e d hj hi hebound hbound hij x hx (mem_rest.mp hrest).1
  case apart =>
    intro j l e f hj hl he hf hjl
    rw [ht] at hj hl
    rcases entry_of_set hj with ⟨rfl, rfl⟩ | ⟨-, hj⟩
    · cases he
    · rcases entry_of_set hl with ⟨rfl, rfl⟩ | ⟨-, hl⟩
      · cases hf
      · exact h.apart j l e f hj hl he hf hjl

theorem accounted_step {e : Event} (h : Accounted k s) (hknown : ∀ d ∈ s.devices, Known d)
    (hr : Releases Device.rest s e) (hstep : step s e = some t) : Accounted k t := by
  obtain ⟨o, node, beyond, b, rfl, hA, hdevno, -, ht⟩ | ⟨i, d, rfl, hi, hbound, hrun, hdevno, ht⟩ :=
    step_cases hstep
  · exact accounted_probe h hknown hA hdevno ht
  · obtain ⟨u, hrun', -, hheld, -⟩ := hr d hi hbound
    obtain ⟨-, rfl⟩ := Prod.mk.inj (Option.some.inj (hrun'.symm.trans hrun))
    exact accounted_remove h hi hbound hheld hdevno ht

theorem accounted_initial (k : Kernel) : Accounted k (platform k).initial :=
  ⟨by simp [platform], Finset.Subset.rfl, fun x hx => .inl hx, rfl, by simp [platform],
    by simp [platform]⟩

theorem cdevsKept_of_accounted (h : Accounted k s) : CdevsKept k s := by
  refine fun hidle => ⟨h.kept, fun x hx hno => ?_, h.strays⟩
  rcases h.owned x hx with hk | hstray | ⟨d, hd, hbound, -⟩
  · exact absurd hk hno
  · exact hstray
  · exact absurd hbound (hidle d hd)

theorem accounted_of_eachStep {C : State → Event → Prop} {es : List Event}
    (hC : ∀ {u e}, Accounted k u → (∀ d ∈ u.devices, Known d) → C u e → Releases Device.rest u e)
    (h : (platform k).Trace es s) (hes : (platform k).EachStep C es) : Accounted k s := by
  refine (h.invariant_eachStep (I := fun s => (∀ d ∈ s.devices, Known d) ∧ Accounted k s) hes
    ⟨by simp [platform], accounted_initial k⟩ fun hc hI hstep => ?_).2
  exact ⟨known_step hI.1 hstep, accounted_step hI.2 hI.1 (hC hI.2 hI.1 hc) hstep⟩

theorem not_releases (hk : Known d) (hi : s.devices[i]? = some d) (hbound : d.bound) :
    ¬ Releases Device.acquired s (.remove i) := by
  intro hr
  obtain ⟨t, hrun, hsub, hheld, -⟩ := hr d hi hbound
  obtain ⟨t', hrun', hheld', -⟩ := remove_releases s.devno s.myClass s.kernel hk.cdev.2
  obtain ⟨-, rfl⟩ := Prod.mk.inj (Option.some.inj (hrun.symm.trans hrun'))
  obtain ⟨a, ha⟩ := Option.isSome_iff_exists.mp hk.cdev.2
  have hown := hk.chardev ha
  have hstays : .cdev a .default ∈ t.held := (hheld' _).mpr ⟨hsub hown, by simp [Released]⟩
  rw [hheld, Finset.mem_sdiff] at hstays
  exact hstays.2 hown

end

theorem restKept_iff (k : Kernel) (es : List Event) :
    RestKept k es ↔ (platform k).EachStep Mirrored es := by
  constructor
  · intro h pre e s hpre hs
    have hbefore := h.1.mono ((List.prefix_append pre [e]).trans hpre)
    have haccounted := accounted_of_eachStep (fun _ _ hr => hr) hs hbefore
    exact mirrored_of_releases haccounted (trace_known hs) (h.1 pre e s hpre hs)
  · intro h
    have haccounted {pre : List Event} {s : State} (hpre : pre <+: es)
        (hs : (platform k).Trace pre s) : Accounted k s :=
      accounted_of_eachStep releases_of_mirrored hs (h.mono hpre)
    constructor
    · intro pre e s hpre hs
      have hbefore := haccounted ((List.prefix_append pre [e]).trans hpre) hs
      exact releases_of_mirrored hbefore (trace_known hs) (h pre e s hpre hs)
    · exact fun pre s hpre hs => cdevsKept_of_accounted (haccounted hpre hs)

section

variable {k : Kernel} {es : List Event} {s : State}

theorem no_remove_of_ownershipKept (h : (platform k).Trace es s) (hkept : OwnershipKept k es)
    (i : ℕ) : .remove i ∉ es := by
  intro hmem
  obtain ⟨xs, ys, rfl⟩ := List.append_of_mem hmem
  obtain ⟨u, v, hu, hstep, -⟩ := h.split_at
  have hr : Releases Device.acquired u (.remove i) := hkept.1 xs _ u ⟨ys, by simp⟩ hu
  change step u (.remove i) = some v at hstep
  obtain ⟨_, _, _, _, hne, -⟩ | ⟨j, d, heq, hi, hbound, -⟩ := step_cases hstep
  · cases hne
  · obtain rfl := Event.remove.inj heq
    exact not_releases (trace_known hu d (List.mem_of_getElem? hi)) hi hbound hr

theorem bound_of_no_remove (h : (platform k).Trace es s) (hno : ∀ i, .remove i ∉ es) :
    (∀ d ∈ s.devices, d.bound) ∧ (s.devices = [] → s.kernel = k) := by
  induction h with
  | nil => simp [platform]
  | @snoc es s e t hs hstep ih =>
    obtain ⟨hall, -⟩ := ih fun i hi => hno i (List.mem_append_left _ hi)
    obtain ⟨o, node, beyond, b, rfl, -, -, -, ht⟩ | ⟨i, d, rfl, -⟩ := step_cases hstep
    · rw [ht]
      refine ⟨fun d hd => ?_, by simp⟩
      rcases List.mem_append.mp hd with hd | hd
      · exact hall d hd
      · rw [List.mem_singleton.mp hd]
    · exact absurd (List.mem_append_right _ (List.mem_singleton_self _)) (hno i)

theorem ownershipKept_of_no_remove (hno : ∀ i, .remove i ∉ es) : OwnershipKept k es := by
  refine ⟨fun pre e s hpre _ => ?_, fun pre s hpre hs hidle => ?_⟩
  · cases e with
    | probe => trivial
    | remove i => exact absurd (hpre.subset (by simp)) (hno i)
  · obtain ⟨hall, hempty⟩ := bound_of_no_remove hs fun i hi => hno i (hpre.subset hi)
    rw [hempty (List.eq_nil_iff_forall_not_mem.mpr fun d hd => hidle d hd (hall d hd))]

/-- Every remove leaves the structure of its cdev. The rest is kept in exactly the runs whose
removes all mirror their probes. -/
theorem ownership_kept_iff (h : (platform k).Trace es s) :
    (OwnershipKept k es ↔ ∀ i, .remove i ∉ es) ∧
      (RestKept k es ↔ (platform k).EachStep Mirrored es) :=
  ⟨⟨no_remove_of_ownershipKept h, ownershipKept_of_no_remove⟩, restKept_iff k es⟩

end

def parsed : Option Node := some ⟨.ok 7, .ok [97, 0]⟩

theorem ownership_kept_iff_nodeless :
    ∃ es : List Event, es.length = 4 ∧ ¬ OwnershipKept .empty es ∧ RestKept .empty es := by
  let calls : Calls := ⟨.success, { Outcomes.allSucceed with device := .failure 11 }⟩
  let es : List Event :=
    [.probe calls parsed [], .remove 0, .probe calls parsed [], .remove 1]
  have hrun : ((platform .empty).run es).isSome := by decide
  obtain ⟨s, hs⟩ := Option.isSome_iff_exists.mp hrun
  obtain ⟨hown, hrest⟩ := ownership_kept_iff (System.trace_of_run hs)
  exact ⟨es, rfl, fun h => hown.mp h 0 (by simp [es]),
    hrest.mpr (System.eachStep_of_check (by decide))⟩

/-- A device whose probe went well keeps its cdev and its node when it is removed. -/
theorem node_leaked :
    ¬ ∀ k es s, (platform k).Trace es s → OwnershipKept k es := by
  intro h
  let es : List Event := [.probe ⟨.success, .allSucceed⟩ parsed [], .remove 0]
  have hrun : ((platform .empty).run es).isSome := by decide
  obtain ⟨s, hs⟩ := Option.isSome_iff_exists.mp hrun
  have htrace := System.trace_of_run hs
  exact no_remove_of_ownershipKept htrace (h _ _ s htrace) 0 (by simp [es])

end PlatformBinding
