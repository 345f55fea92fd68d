import LinuxDriver.KernelResources
import LinuxDriver.ModuleRuns

/-!
# sync: loading and unloading the five drivers

All of them register a misc device of the same name, so that at most one of them can be loaded.
The others are refused and leave nothing behind.
-/
namespace SyncLoading

open KernelTypes KernelResources TransitionSystem ModuleRuns

def deviceName : String := "my_misc"

/-- `my_misc_init` and `my_misc_exit`, which the five drivers share but for their lock. -/
def miscDriver (name : String) : Loadable Kernel Status Pointer where
  init o := miscRegister o name
  exit _ := miscDeregister name

def atomicTest : Loadable Kernel Status Pointer := miscDriver deviceName
def completionTest : Loadable Kernel Status Pointer := miscDriver deviceName
def mutexTest : Loadable Kernel Status Pointer := miscDriver deviceName
def semaphoreTest : Loadable Kernel Status Pointer := miscDriver deviceName
def spinlockTest : Loadable Kernel Status Pointer := miscDriver deviceName

inductive Test where
  | atomic
  | completion
  | mutex
  | semaphore
  | spinlock
  deriving DecidableEq, Repr

def tests : Test → Loadable Kernel Status Pointer
  | .atomic => atomicTest
  | .completion => completionTest
  | .mutex => mutexTest
  | .semaphore => semaphoreTest
  | .spinlock => spinlockTest

/-- The name is taken once at most, by a device without attribute files. -/
structure Single (k : Kernel) : Prop where
  eq : ∀ p q, .misc p deviceName ∈ k.held → .misc q deviceName ∈ k.held → p = q
  bare : ∀ p n, .misc p deviceName ∈ k.held → .attr p n ∉ k.held

def account : Account Kernel Resource where
  held k := k.held
  misuses := Kernel.misuses
  parent _ := none
  Good := Single

def owner : Owner Pointer Resource where
  Valid dev := dev.isSome
  own dev := {r | ∃ p, dev = some p ∧ r = .misc p deviceName}

section

variable {o : Status} {k t : Kernel} {rc : ℤ} {p : ℕ} {dev : Pointer}

theorem closed_all (S : Set Resource) : account.Closed S := fun _ _ _ hp => by cases hp

theorem taken_iff : k.has (·.isMiscNamed deviceName) ↔ ∃ p, .misc p deviceName ∈ k.held := by
  rw [Kernel.has_iff]
  constructor
  · rintro ⟨r, hr, hname⟩
    cases r with
    | misc p n =>
      obtain rfl : n = deviceName := by simpa [Resource.isMiscNamed] using hname
      exact ⟨p, hr⟩
    | _ => cases hname
  · rintro ⟨p, hp⟩
    exact ⟨_, hp, by simp [Resource.isMiscNamed]⟩

theorem miscRegister_cases (o : Status) (k : Kernel) :
    (¬ k.has (·.isMiscNamed deviceName) ∧ miscRegister o deviceName k =
      some ((0, some k.next), k.hold (.misc k.next deviceName))) ∨
    ∃ rc, rc ≠ 0 ∧ miscRegister o deviceName k = some ((rc, none), k.fail) := by
  by_cases htaken : k.has (·.isMiscNamed deviceName)
  · refine .inr ⟨-EEXIST, by decide, ?_⟩
    simp [miscRegister, request, htaken, EEXIST]
  · by_cases hrc : o.rc = 0
    · refine .inl ⟨htaken, ?_⟩
      simp [miscRegister, request, htaken, hrc]
    · refine .inr ⟨o.rc, hrc, ?_⟩
      simp [miscRegister, request, htaken, hrc]

theorem single_hold (hfree : ¬ k.has (·.isMiscNamed deviceName)) :
    Single (k.hold (.misc k.next deviceName)) := by
  have hnone (q : ℕ) : .misc q deviceName ∉ k.held := fun hq => hfree (taken_iff.mpr ⟨q, hq⟩)
  have honly {q : ℕ} (hq : .misc q deviceName ∈ (k.hold (.misc k.next deviceName)).held) :
      q = k.next := by
    rcases Kernel.mem_hold.mp hq with heq | hq
    · exact (Resource.misc.inj heq).1
    · exact absurd hq (hnone q)
  constructor
  · intro p q hp hq
    rw [honly hp, honly hq]
  · intro q n hq hattr
    rcases Kernel.mem_hold.mp hattr with heq | hattr
    · cases heq
    · rw [honly hq] at hattr
      exact Kernel.notMem_of_next_le le_rfl rfl hattr

theorem miscDeregister_took (h : Single k) (hp : .misc p deviceName ∈ k.held) :
    ∃ t, miscDeregister deviceName k = some ((), t) ∧ t.misuses = k.misuses ∧
      ∀ r, r ∈ t.held ↔ r ∈ k.held ∧ r ≠ .misc p deviceName := by
  refine ⟨_, rfl, ?_, fun r => ?_⟩
  · exact Kernel.misuses_expect_iff.mpr (taken_iff.mpr ⟨p, hp⟩)
  · rw [Kernel.mem_drop, Kernel.held_expect]
    refine and_congr_right fun hr => ?_
    cases r with
    | misc q n =>
      simp only [decide_eq_true_eq, ne_eq, Resource.misc.injEq, not_and]
      constructor
      · exact fun hne _ => hne
      · rintro hne rfl
        exact hne (h.eq q p hr hp) rfl
    | attr q n =>
      have hbare : .misc q deviceName ∉ k.held := fun hq => h.bare q n hq hr
      simp [hbare]
    | _ => simp

theorem tidy_miscDriver : Tidy (miscDriver deviceName) account (fun _ _ => True) owner where
  init {k o} hgood _ := by
    obtain ⟨hfree, hrun⟩ | ⟨rc, hrc, hrun⟩ := miscRegister_cases o k
    · refine ⟨0, some k.next, _, hrun, single_hold hfree, rfl, fun hrc => absurd rfl hrc,
        fun _ => ⟨?_, ?_, closed_all _, rfl⟩⟩
      · ext r
        simp [account, owner, or_comm]
      · rw [Set.disjoint_right]
        rintro r ⟨p, -, rfl⟩ hr
        exact hfree (taken_iff.mpr ⟨p, hr⟩)
    · exact ⟨rc, none, k.fail, hrun, ⟨hgood.eq, hgood.bare⟩, rfl, fun _ => rfl,
        fun h0 => absurd h0 hrc⟩
  exit {k g} hgood hvalid hown _ := by
    obtain ⟨p, rfl⟩ := Option.isSome_iff_exists.mp hvalid
    have hp : .misc p deviceName ∈ k.held := hown ⟨p, rfl, rfl⟩
    obtain ⟨t, hrun, hmisuses, hheld⟩ := miscDeregister_took hgood hp
    refine ⟨t, hrun, ?_, hmisuses, ?_⟩
    · exact ⟨fun a b ha hb => hgood.eq a b ((hheld _).mp ha).1 ((hheld _).mp hb).1,
        fun a n ha hn => hgood.bare a n ((hheld _).mp ha).1 ((hheld _).mp hn).1⟩
    · ext r
      simp [account, owner, hheld]

theorem tidy_tests (i : Test) : Tidy (tests i) account (fun _ _ => True) owner := by
  cases i <;> exact tidy_miscDriver

end

/-- In every order of loads and unloads at most one of the five drivers is loaded, its device is
the only one of the name, and the others can be loaded again as soon as it is gone. -/
theorem one_driver_loaded {k : Kernel} {es : List (ModuleRuns.Event fun _ : Test => Status)}
    {s : ModuleRuns.State Kernel fun _ : Test => Pointer} (hsingle : Single k)
    (h : (modules tests k).Trace es s) :
    Balanced account (fun _ => owner) k s ∧
      (∀ i j, (s.loaded i).isSome → (s.loaded j).isSome → i = j) ∧
      (∀ i, (s.loaded i).isSome → ∀ j o, ∃ rc, rc ≠ 0 ∧
        (tests j).init o s.kernel = some ((rc, none), s.kernel.fail)) ∧
      ((∀ i, s.loaded i = none) → s.kernel.held = k.held) := by
  have hbalanced : Balanced account (fun _ => owner) k s :=
    trace_balanced tidy_tests hsingle (closed_all _) h fun _ e _ _ _ => by
      cases e <;> trivial
  have hdevice {i : Test} (hi : (s.loaded i).isSome) :
      ∃ p, .misc p deviceName ∈ s.kernel.held ∧
        .misc p deviceName ∈ owned (fun _ => owner) s i := by
    obtain ⟨g, hg⟩ := Option.isSome_iff_exists.mp hi
    obtain ⟨p, rfl⟩ := Option.isSome_iff_exists.mp (hbalanced.valid i g hg)
    have howned : .misc p deviceName ∈ owned (fun _ => owner) s i := by
      simp only [owned, hg]
      exact ⟨p, rfl, rfl⟩
    exact ⟨p, owned_subset hbalanced i howned, howned⟩
  refine ⟨hbalanced, ?_, ?_, fun hnone => Finset.coe_injective (hbalanced.restored hnone)⟩
  · intro i j hi hj
    by_contra hij
    obtain ⟨p, hp, hpi⟩ := hdevice hi
    obtain ⟨q, hq, hqj⟩ := hdevice hj
    obtain rfl := hbalanced.good.eq p q hp hq
    exact Set.disjoint_left.mp (hbalanced.apart i j hij) hpi hqj
  · intro i hi j o
    obtain ⟨p, hp, -⟩ := hdevice hi
    have hdriver : tests j = miscDriver deviceName := by cases j <;> rfl
    rw [hdriver]
    obtain ⟨hfree, -⟩ | hrefused := miscRegister_cases o s.kernel
    · exact absurd (taken_iff.mpr ⟨p, hp⟩) hfree
    · exact hrefused

/-- The second driver is refused while the first is loaded, and loaded after it is gone. -/
theorem one_driver_loaded_twice : ∃ s, (modules tests .empty).run [.load .atomic .success,
    .load .mutex .success, .unload .atomic, .load .mutex .success] = some s ∧
    (∀ i, (s.loaded i).isSome → i = .mutex) := by
  obtain ⟨s, hs⟩ : ∃ s, (modules tests .empty).run [.load .atomic .success,
    .load .mutex .success, .unload .atomic, .load .mutex .success] = some s := ⟨_, rfl⟩
  have hmutex : (s.loaded .mutex).isSome := by
    obtain rfl := Option.some.inj hs
    rfl
  have hempty : Single .empty := ⟨fun p q hp => (by cases hp), fun p n hp => (by cases hp)⟩
  exact ⟨s, hs, fun i hi =>
    (one_driver_loaded hempty (System.trace_of_run hs)).2.1 i .mutex hi hmutex⟩

end SyncLoading
