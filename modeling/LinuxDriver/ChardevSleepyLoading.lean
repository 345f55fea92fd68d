import LinuxDriver.ChardevLoading

/-!
# chardev/sleepy: loading and unloading

`sleepy_init` goes on when the device number is refused and returns the refusal at its end, when
it has set up everything else. The number is the one that the other character drivers use.
-/
namespace ChardevSleepyLoading

open KernelTypes KernelResources ChrdevCreation ChardevLoading

def sleepyMajor : ℕ := 255

structure SleepyGlobals where
  devno : ℕ
  cdev : Pointer
  myClass : Pointer
  deriving DecidableEq, Repr

def sleepyInit (o : Outcomes) : KernelM (ℤ × SleepyGlobals) := do
  let devno := MKDEV sleepyMajor 0
  let c ← createChrdev o devno "sleepy"
  return (c.rc, ⟨devno, c.cdev, c.cls⟩)

def sleepyCleanup (g : SleepyGlobals) : KernelM Unit := do
  deviceDestroy g.myClass (MKDEV sleepyMajor 0)
  classDestroy g.myClass
  cdevDel g.cdev
  unregisterChrdevRegion g.devno

def sleepy : Driver Outcomes SleepyGlobals := ⟨sleepyInit, sleepyCleanup⟩

def devno : ℕ := MKDEV sleepyMajor 0

abbrev SleepyGranted (o : Outcomes) (k : Kernel) : Prop := Granted o devno "sleepy" k

section

variable {o : Outcomes} {k t : Kernel} {c : Chrdev} {a q p : ℕ}

theorem sleepyInit_inv {rc : ℤ} {g : SleepyGlobals}
    (h : sleepyInit o k = some ((rc, g), t)) : ∃ c, createChrdev o devno "sleepy" k = some (c, t) ∧
      rc = c.rc ∧ g = ⟨devno, c.cdev, c.cls⟩ := by
  obtain ⟨c, u, hcreate, h⟩ := bind_inv h
  obtain ⟨heq, rfl⟩ := Prod.mk.inj (Option.some.inj h)
  obtain ⟨rfl, rfl⟩ := Prod.mk.inj heq
  exact ⟨c, hcreate, rfl, rfl⟩

theorem sleepyGranted_of_failures {rc : ℤ} {g : SleepyGlobals}
    (h : sleepyInit o k = some ((rc, g), t)) (hfailures : t.failures = k.failures) :
    SleepyGranted o k := by
  obtain ⟨c, hcreate, rfl, rfl⟩ := sleepyInit_inv h
  obtain ⟨-, hC⟩ := createChrdev_created hcreate
  exact hC.complete.mp (hC.failures_eq.mp hfailures)

/-- The cleanup gives back what a complete init has acquired but for the structure of the cdev,
and nothing else. -/
theorem sleepyCleanup_leaves (hC : Created o devno "sleepy" k c t) (hc : c.Complete)
    (ha : c.cdev = some a) (hq : c.cls = some q) :
    ∃ u, sleepyCleanup ⟨devno, some a, some q⟩ t = some ((), u) ∧
      u.held = insert (.cdev a .default) k.held ∧ u.misuses = t.misuses := by
  obtain ⟨p, hp⟩ := Option.isSome_iff_exists.mp hc.dev
  have hgranted := hC.complete.mp hc
  have howned {x : Resource} (hx : c.Owns devno "sleepy" x) : x ∈ t.held :=
    (hC.held x).mpr (.inr hx)
  have hclass : t.has (·.isClass q) :=
    Kernel.has_iff.mpr ⟨.cls q "sleepy", howned ⟨hq, rfl⟩, by simp [Resource.isClass]⟩
  obtain ⟨k₁, k₂, k₃, u, hrun₁, hrun₂, hrun₃, hrun₄, hu, hmisuses⟩ :=
    takeDown_releases devno hclass (howned (x := .cdev a .default) ⟨ha, rfl⟩)
  have hrun : sleepyCleanup ⟨devno, some a, some q⟩ t = some ((), u) :=
    (bind_some hrun₁).trans ((bind_some hrun₂).trans ((bind_some hrun₃).trans hrun₄))
  have hnext : k.next ≤ a ∧ k.next ≤ q ∧ k.next ≤ p :=
    ⟨hC.addresses a (.inl ha), hC.addresses q (.inr (.inl hq)), hC.addresses p (.inr (.inr hp))⟩
  have hheld (x : Resource) : x ∈ t.held ↔ x ∈ k.held ∨ c.Owns devno "sleepy" x ∨ False := by
    rw [hC.held, or_false]
  have hleft (x : Resource) :
      x ∈ u.held ↔ x ∈ t.held ∧ ¬ (TakenDown q a devno t x ∨ False) := by
    rw [hu, or_false]
  refine ⟨u, hrun, ?_, hmisuses⟩
  exact leaves_cdev ha hq hp hnext hgranted.regionFree hgranted.deviceFree hheld hleft
    (fun _ => False.elim) (fun _ => False.elim) (fun _ => id) id

theorem leavesCdev_of_sleepyGranted (h : SleepyGranted o k) : sleepy.LeavesCdev o k := by
  obtain ⟨c, t, hcreate⟩ := createChrdev_returns devno "sleepy" k h.cdev
  obtain ⟨-, hC⟩ := createChrdev_created hcreate
  have hc := hC.complete.mpr h
  obtain ⟨a, ha⟩ := Option.isSome_iff_exists.mp hC.cdev
  obtain ⟨q, hq⟩ := Option.isSome_iff_exists.mp hc.cls
  have hinit : sleepyInit o k = some ((0, ⟨devno, some a, some q⟩), t) := by
    refine (bind_some hcreate).trans ?_
    rw [hc.rc, ha, hq]
    rfl
  have hmisuses := hC.misuses hc.cls
  obtain ⟨u, hexit, hu, humis⟩ := sleepyCleanup_leaves hC hc ha hq
  have hnew := Kernel.notMem_of_next_le (r := .cdev a .default) (hC.addresses a (.inl ha)) rfl
  exact ⟨_, t, u, hinit, hmisuses, hC.failures_eq.mpr hc, hexit, humis.trans hmisuses,
    .of_insert rfl hnew hu⟩

theorem sleepy_iff : sleepy.LeavesCdev o k ↔ SleepyGranted o k := by
  constructor
  · rintro ⟨g, t, u, hinit, -, hfailures, -⟩
    exact sleepyGranted_of_failures hinit hfailures
  · exact leavesCdev_of_sleepyGranted

end

end ChardevSleepyLoading
