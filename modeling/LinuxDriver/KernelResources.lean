import LinuxDriver.KernelTypes
import Mathlib.Data.Finset.Insert
import Mathlib.Data.Finset.Filter
import Mathlib.Order.Interval.Finset.Nat

/-!
# Kernel resources that drivers acquire and release

The state records what is held, by whomever, and counts the calls that failed and the
uses of something that is not there. A call can fail for a reason of its own, which its
`Status` gives, or because a name or number is taken. Dereferencing a pointer that is
null or an error value ends the run: the monad answers `none`.
-/
namespace KernelResources

open KernelTypes

/-- What a kernel call answers where nothing stands in its way: 0 or a negative error. -/
structure Status where
  rc : ℤ
  nonpos : rc ≤ 0
  deriving DecidableEq

def Status.success : Status := ⟨0, le_rfl⟩

def Status.failure (errno : ℕ) : Status := ⟨-(errno + 1), by omega⟩

theorem Status.eq_success {o : Status} (h : o.rc = 0) : o = .success := by
  cases o
  cases h
  rfl

/-- Where a cdev comes from decides what its release does: that of `cdev_alloc` frees the
structure, that of `cdev_init` leaves it to whoever has embedded it. -/
inductive CdevType where
  | dynamic
  | default
  deriving DecidableEq, Repr

/-- Objects with an address of their own come first; a live character device, a device node
and an attribute file name the address of the object that they belong to. -/
inductive Resource where
  | memory (p : ℕ)
  | cdev (p : ℕ) (ktype : CdevType)
  | cls (p : ℕ) (name : String)
  | device (p cls dev : ℕ)
  | misc (p : ℕ) (name : String)
  | chrdev (p dev : ℕ)
  | attr (p : ℕ) (name : String)
  | region (dev : ℕ)
  deriving DecidableEq, Repr

namespace Resource

def bound : Resource → ℕ
  | memory p | cdev p _ | cls p _ | device p _ _ | misc p _ | chrdev p _ | attr p _ => p + 1
  | region _ => 0

def isCdev (q : ℕ) : Resource → Bool
  | cdev p _ => p = q
  | _ => false

/-- The structure of a cdev that no release frees. -/
def isStray : Resource → Bool
  | cdev _ .default => true
  | _ => false

def isClass (q : ℕ) : Resource → Bool
  | cls p _ => p = q
  | _ => false

def isClassNamed (name : String) : Resource → Bool
  | cls _ n => n = name
  | _ => false

def isDeviceNumbered (dev : ℕ) : Resource → Bool
  | device _ _ d => d = dev
  | _ => false

def isMiscNamed (name : String) : Resource → Bool
  | misc _ n => n = name
  | _ => false

end Resource

/-- New objects get the address `next`, which nothing that is held uses. -/
structure Kernel where
  held : Finset Resource
  next : ℕ
  failures : ℕ
  misuses : ℕ
  fresh : ∀ r ∈ held, r.bound ≤ next

namespace Kernel

def empty : Kernel := ⟨∅, 0, 0, 0, fun _ hr => absurd hr (Finset.notMem_empty _)⟩

def hold (k : Kernel) (r : Resource) : Kernel where
  held := insert r k.held
  next := max k.next r.bound
  failures := k.failures
  misuses := k.misuses
  fresh := by
    intro x hx
    rcases Finset.mem_insert.mp hx with rfl | hx
    · exact le_max_right _ _
    · exact (k.fresh x hx).trans (le_max_left _ _)

def drop (k : Kernel) (p : Resource → Bool) : Kernel where
  held := k.held.filter fun r => ¬ p r
  next := k.next
  failures := k.failures
  misuses := k.misuses
  fresh r hr := k.fresh r (Finset.mem_filter.mp hr).1

def fail (k : Kernel) : Kernel := { k with failures := k.failures + 1 }

def misuse (k : Kernel) : Kernel := { k with misuses := k.misuses + 1 }

def has (k : Kernel) (p : Resource → Bool) : Bool := decide (∃ r ∈ k.held, p r)

def expect (k : Kernel) (p : Resource → Bool) : Kernel := if k.has p then k else k.misuse

section

variable {k : Kernel} {r x : Resource} {p : Resource → Bool}

@[simp] theorem mem_hold : x ∈ (k.hold r).held ↔ x = r ∨ x ∈ k.held := Finset.mem_insert

@[simp] theorem mem_drop : x ∈ (k.drop p).held ↔ x ∈ k.held ∧ ¬ p x := by simp [drop]

@[simp] theorem held_fail : k.fail.held = k.held := rfl

@[simp] theorem held_misuse : k.misuse.held = k.held := rfl

@[simp] theorem held_expect : (k.expect p).held = k.held := by
  unfold expect
  split <;> rfl

@[simp] theorem failures_fail : k.fail.failures = k.failures + 1 := rfl

@[simp] theorem failures_misuse : k.misuse.failures = k.failures := rfl

@[simp] theorem misuses_drop : (k.drop p).misuses = k.misuses := rfl

theorem next_le_hold : k.next ≤ (k.hold r).next := le_max_left _ _

theorem has_iff : k.has p ↔ ∃ r ∈ k.held, p r := decide_eq_true_iff

theorem has_congr {t : Kernel} (h : t.held = k.held) : t.has p = k.has p := by
  unfold has
  rw [h]

theorem misuses_le_expect : k.misuses ≤ (k.expect p).misuses := by
  unfold expect
  split
  · exact le_rfl
  · exact Nat.le_succ _

theorem misuses_expect_iff : (k.expect p).misuses = k.misuses ↔ k.has p := by
  unfold expect
  split
  case isTrue h => exact iff_of_true rfl h
  case isFalse h => exact iff_of_false (Nat.succ_ne_self _) h

@[simp] theorem has_eq : k.has (· = r) ↔ r ∈ k.held := by simp [has]

theorem notMem_of_next_le {a : ℕ} (h : k.next ≤ a) (hr : r.bound = a + 1) : r ∉ k.held := by
  intro hheld
  have hle := k.fresh r hheld
  omega

end

end Kernel

abbrev KernelM := StateT Kernel Option

section

variable {α β : Type} {x : KernelM α} {f : α → KernelM β} {k t : Kernel} {a : α} {b : β}

theorem bind_some (h : x k = some (a, t)) : (x >>= f) k = f a t := by
  change (x k).bind _ = _
  rw [h]
  rfl

theorem bind_inv (h : (x >>= f) k = some (b, t)) :
    ∃ a u, x k = some (a, u) ∧ f a u = some (b, t) := by
  obtain ⟨⟨a, u⟩, hx, hf⟩ := Option.bind_eq_some_iff.mp (show (x k).bind _ = some (b, t) from h)
  exact ⟨a, u, hx, hf⟩

@[simp] theorem pure_run : (pure a : KernelM α) k = some (a, k) := rfl

end

def Returns {α : Type} (x : KernelM α) (k : Kernel) : Prop := ∃ a t, x k = some (a, t)

theorem Returns.bind {α β : Type} {x : KernelM α} {f : α → KernelM β} {k : Kernel}
    (hx : Returns x k) (hf : ∀ a t, x k = some (a, t) → Returns (f a) t) :
    Returns (x >>= f) k := by
  obtain ⟨a, t, hx⟩ := hx
  obtain ⟨b, u, hfa⟩ := hf a t hx
  exact ⟨b, u, (bind_some hx).trans hfa⟩

def deref (p : Pointer) : KernelM ℕ := fun k => p.map fun a => (a, k)

@[simp] theorem deref_some (a : ℕ) (k : Kernel) : deref (some a) k = some (a, k) := rfl

/-- A request is refused where what it asks for is taken or the call itself fails. -/
def request (taken : Bool) (errno : ℤ) (o : Status) (grant : Kernel → Kernel) (k : Kernel) :
    ℤ × Kernel :=
  if taken then (-errno, k.fail)
  else if o.rc = 0 then (0, grant k)
  else (o.rc, k.fail)

def create (taken : Bool) (errno : ℤ) (o : Status) (r : ℕ → Resource) (k : Kernel) :
    Pointer × Kernel :=
  let answer := request taken errno o (·.hold (r k.next)) k
  (if answer.1 = 0 then some k.next else none, answer.2)

def registerChrdevRegion (o : Status) (dev : ℕ) : KernelM ℤ := fun k =>
  some (request (.region dev ∈ k.held) EBUSY o (·.hold (.region dev)) k)

def cdevAlloc (o : Status) : KernelM Pointer := fun k =>
  some (create false ENOMEM o (.cdev · .dynamic) k)

/-- Clears the structure and makes it one that its owner frees, whoever has allocated it. -/
def cdevInit (cdev : Pointer) : KernelM Unit := do
  let p ← deref cdev
  fun k => some ((), if k.has (·.isCdev p) then (k.drop (·.isCdev p)).hold (.cdev p .default)
    else k.misuse)

def cdevAdd (o : Status) (cdev : Pointer) (dev : ℕ) : KernelM ℤ := do
  let p ← deref cdev
  fun k => some (request false ENOMEM o (·.hold (.chrdev p dev)) k)

def classCreate (o : Status) (name : String) : KernelM Pointer := fun k =>
  some (create (k.has (·.isClassNamed name)) EEXIST o (.cls · name) k)

/-- The error value of a class that could not be created is recognised and refused. -/
def deviceCreate (o : Status) (cls : Pointer) (dev : ℕ) : KernelM Pointer := fun k =>
  match cls with
  | none => some (none, k.misuse.fail)
  | some c => some (create (k.has (·.isDeviceNumbered dev)) EEXIST o (.device · c dev) k)

def deviceCreateFile (o : Status) (dev : Pointer) (name : String) : KernelM ℤ := do
  let p ← deref dev
  fun k => some (request false ENOMEM o (·.hold (.attr p name)) k)

def sysfsCreateGroup (o : Status) (dev : Pointer) (names : List String) : KernelM ℤ := do
  let p ← deref dev
  fun k => some (request false ENOMEM o
    (fun k => names.foldl (fun k name => k.hold (.attr p name)) k) k)

def kzalloc (o : Status) : KernelM Pointer := fun k => some (create false ENOMEM o .memory k)

/-- Answers with the code and the device that the kernel has put into the structure. -/
def miscRegister (o : Status) (name : String) : KernelM (ℤ × Pointer) := fun k =>
  let answer := request (k.has (·.isMiscNamed name)) EEXIST o (·.hold (.misc k.next name)) k
  some ((answer.1, if answer.1 = 0 then some k.next else none), answer.2)

/-- What a request for the resource `r` does to the state. -/
structure Answered (granted : Prop) (r : Resource) (k t : Kernel) : Prop where
  held : ∀ x, x ∈ t.held ↔ x ∈ k.held ∨ granted ∧ x = r
  kept : granted → t.failures = k.failures
  failed : ¬ granted → t.failures = k.failures + 1
  misuses : t.misuses = k.misuses
  next : k.next ≤ t.next

section

variable {taken : Bool} {errno : ℤ} {o : Status} {r : Resource} {k t : Kernel} {rc : ℤ}
  {dev : ℕ} {name : String} {p q : Pointer} {a : ℕ}

theorem Answered.failures_le {granted : Prop} (h : Answered granted r k t) :
    k.failures ≤ t.failures := by
  by_cases hg : granted
  · exact (h.kept hg).ge
  · exact (h.failed hg).ge.trans' (Nat.le_succ _)

theorem Answered.failures_eq_iff {granted : Prop} (h : Answered granted r k t) :
    t.failures = k.failures ↔ granted := by
  constructor
  · intro heq
    by_contra hg
    have hmore := h.failed hg
    omega
  · exact h.kept

theorem Answered.has_iff {granted : Prop} {f : Resource → Bool} (h : Answered granted r k t)
    (hr : f r = false) : t.has f ↔ k.has f := by
  rw [Kernel.has_iff, Kernel.has_iff]
  constructor
  · rintro ⟨x, hx, hfx⟩
    rcases (h.held x).mp hx with hx | ⟨-, rfl⟩
    · exact ⟨x, hx, hfx⟩
    · simp [hr] at hfx
  · rintro ⟨x, hx, hfx⟩
    exact ⟨x, (h.held x).mpr (.inl hx), hfx⟩

theorem request_answered (herrno : 0 < errno)
    (h : request taken errno o (·.hold r) k = (rc, t)) :
    Answered (o.rc = 0 ∧ ¬ taken) r k t ∧ (rc = 0 ↔ o.rc = 0 ∧ ¬ taken) ∧ rc ≤ 0 := by
  have hfail (hno : ¬ (o.rc = 0 ∧ ¬ taken)) : Answered (o.rc = 0 ∧ ¬ taken) r k k.fail :=
    ⟨fun x => ⟨.inl, fun hx => hx.elim id fun hg => absurd hg.1 hno⟩, fun hg => absurd hg hno,
      fun _ => rfl, rfl, le_rfl⟩
  unfold request at h
  split at h
  case isTrue htaken =>
    obtain ⟨rfl, rfl⟩ := Prod.mk.inj h
    have hno : ¬ (o.rc = 0 ∧ ¬ taken) := fun hg => hg.2 htaken
    exact ⟨hfail hno, iff_of_false (by omega) hno, by omega⟩
  case isFalse htaken =>
    split at h
    case isTrue hok =>
      obtain ⟨rfl, rfl⟩ := Prod.mk.inj h
      have hg : o.rc = 0 ∧ ¬ taken := ⟨hok, htaken⟩
      exact ⟨⟨by simp [hg, or_comm], fun _ => rfl, fun hno => absurd hg hno, rfl,
        Kernel.next_le_hold⟩, iff_of_true rfl hg, le_rfl⟩
    case isFalse hbad =>
      obtain ⟨rfl, rfl⟩ := Prod.mk.inj h
      have hno : ¬ (o.rc = 0 ∧ ¬ taken) := fun hg => hbad hg.1
      exact ⟨hfail hno, iff_of_false hbad hno, o.nonpos⟩

theorem create_answered {r : ℕ → Resource} (herrno : 0 < errno)
    (h : create taken errno o r k = (p, t)) :
    Answered (o.rc = 0 ∧ ¬ taken) (r k.next) k t ∧
      (p = some k.next ∧ o.rc = 0 ∧ ¬ taken ∨ p = none ∧ ¬ (o.rc = 0 ∧ ¬ taken)) := by
  obtain ⟨hp, ht⟩ := Prod.mk.inj h
  obtain ⟨hanswer, hiff, -⟩ := request_answered herrno
    (Prod.mk.eta (p := request taken errno o (·.hold (r k.next)) k)).symm
  rw [ht] at hanswer
  refine ⟨hanswer, ?_⟩
  by_cases hg : o.rc = 0 ∧ ¬ taken
  · rw [if_pos (hiff.mpr hg)] at hp
    exact .inl ⟨hp.symm, hg⟩
  · rw [if_neg (fun hrc => hg (hiff.mp hrc))] at hp
    exact .inr ⟨hp.symm, hg⟩

theorem registerChrdevRegion_answered (h : registerChrdevRegion o dev k = some (rc, t)) :
    Answered (o.rc = 0 ∧ .region dev ∉ k.held) (.region dev) k t ∧
      (rc = 0 ↔ o.rc = 0 ∧ .region dev ∉ k.held) ∧ rc ≤ 0 := by
  simpa using request_answered (by decide) (Option.some.inj h)

theorem cdevAlloc_answered (h : cdevAlloc o k = some (p, t)) :
    Answered (o.rc = 0) (.cdev k.next .dynamic) k t ∧
      (p = some k.next ∧ o.rc = 0 ∨ p = none ∧ o.rc ≠ 0) := by
  simpa using create_answered (by decide) (Option.some.inj h)

theorem cdevInit_answered (h : cdevAlloc o k = some (some a, t)) :
    o.rc = 0 ∧ a = k.next ∧
      ∃ u, cdevInit (some a) t = some ((), u) ∧ Answered (o.rc = 0) (.cdev a .default) k u := by
  obtain ⟨ha, ⟨hp, hok⟩ | ⟨hp, -⟩⟩ := cdevAlloc_answered h
  case inr => cases hp
  obtain rfl := Option.some.inj hp
  have hhas : t.has (·.isCdev k.next) :=
    Kernel.has_iff.mpr ⟨.cdev k.next .dynamic, (ha.held _).mpr (.inr ⟨hok, rfl⟩), by
      simp [Resource.isCdev]⟩
  have hnew (x : Resource) (hx : x ∈ k.held) : x.isCdev k.next = false := by
    by_contra hcdev
    cases x with
    | cdev p ktype =>
      obtain rfl : p = k.next := by simpa [Resource.isCdev] using hcdev
      exact Kernel.notMem_of_next_le le_rfl rfl hx
    | _ => exact hcdev rfl
  refine ⟨hok, rfl, _, congrArg (fun u => some ((), u)) (if_pos hhas), ?_, ?_, ?_, ha.misuses, ?_⟩
  · intro x
    rw [Kernel.mem_hold, Kernel.mem_drop, ha.held]
    constructor
    · rintro (rfl | ⟨hx | ⟨-, rfl⟩, hno⟩)
      · exact .inr ⟨hok, rfl⟩
      · exact .inl hx
      · simp [Resource.isCdev] at hno
    · rintro (hx | ⟨-, rfl⟩)
      · exact .inr ⟨.inl hx, by simp [hnew x hx]⟩
      · exact .inl rfl
  · exact ha.kept
  · exact fun hno => absurd hok hno
  · exact ha.next.trans Kernel.next_le_hold

theorem cdevAdd_answered (h : cdevAdd o (some a) dev k = some (rc, t)) :
    Answered (o.rc = 0) (.chrdev a dev) k t ∧ (rc = 0 ↔ o.rc = 0) := by
  obtain ⟨hanswer, hiff, -⟩ := request_answered (by decide) (Option.some.inj h)
  exact ⟨by simpa using hanswer, by simpa using hiff⟩

theorem classCreate_answered (h : classCreate o name k = some (p, t)) :
    Answered (o.rc = 0 ∧ ¬ k.has (·.isClassNamed name)) (.cls k.next name) k t ∧
      (p = some k.next ∧ o.rc = 0 ∧ ¬ k.has (·.isClassNamed name) ∨
        p = none ∧ ¬ (o.rc = 0 ∧ ¬ k.has (·.isClassNamed name))) :=
  create_answered (by decide) (Option.some.inj h)

/-- What `device_create` does for any class pointer. -/
structure Placed (o : Status) (cls : Pointer) (dev : ℕ) (k : Kernel) (p : Pointer) (t : Kernel) :
    Prop where
  placed : p.isSome ↔ cls.isSome ∧ o.rc = 0 ∧ ¬ k.has (·.isDeviceNumbered dev)
  address : ∀ q, p = some q → k.next ≤ q
  held : ∀ x, x ∈ t.held ↔ x ∈ k.held ∨ ∃ q c, p = some q ∧ cls = some c ∧ x = .device q c dev
  failures_le : k.failures ≤ t.failures
  failures_eq : t.failures = k.failures ↔ p.isSome
  misuses : cls.isSome → t.misuses = k.misuses
  next : k.next ≤ t.next

theorem deviceCreate_placed {cls : Pointer} (h : deviceCreate o cls dev k = some (p, t)) :
    Placed o cls dev k p t := by
  cases cls with
  | none =>
    obtain ⟨rfl, rfl⟩ := Prod.mk.inj (Option.some.inj h)
    exact ⟨by simp, by simp, by simp, Nat.le_succ _, by simp, by simp, le_rfl⟩
  | some c =>
    obtain ⟨hanswer, ⟨rfl, hg⟩ | ⟨rfl, hno⟩⟩ := create_answered (by decide) (Option.some.inj h)
    · refine ⟨by simp [hg], fun q hq => (Option.some.inj hq).le, fun x => ?_,
        hanswer.failures_le, iff_of_true (hanswer.kept hg) rfl, fun _ => hanswer.misuses,
        hanswer.next⟩
      rw [hanswer.held]
      simp [hg]
    · refine ⟨?_, by simp, fun x => ?_, hanswer.failures_le, ?_, fun _ => hanswer.misuses,
        hanswer.next⟩
      · exact iff_of_false (by simp) fun hg => hno hg.2
      · rw [hanswer.held, eq_false hno]
        simp
      · rw [hanswer.failures_eq_iff]
        exact iff_of_false hno (by simp)

theorem deviceCreateFile_answered (h : deviceCreateFile o (some a) name k = some (rc, t)) :
    Answered (o.rc = 0) (.attr a name) k t ∧ (rc = 0 ↔ o.rc = 0) := by
  obtain ⟨hanswer, hiff, -⟩ := request_answered (by decide) (Option.some.inj h)
  exact ⟨by simpa using hanswer, by simpa using hiff⟩

theorem kzalloc_null (ho : o.rc ≠ 0) : kzalloc o k = some (none, k.fail) := by
  simp [kzalloc, create, request, ho]

theorem kzalloc_some (ho : o.rc = 0) :
    kzalloc o k = some (some k.next, k.hold (.memory k.next)) := by
  simp [kzalloc, create, request, ho]

theorem kzalloc_answered (h : kzalloc o k = some (p, t)) :
    Answered (o.rc = 0) (.memory k.next) k t ∧
      (p = some k.next ∧ o.rc = 0 ∨ p = none ∧ o.rc ≠ 0) := by
  simpa using create_answered (by decide) (Option.some.inj h)

end

/-- A device goes with the attribute files in its directory. -/
def deviceDestroy (cls : Pointer) (dev : ℕ) : KernelM Unit := do
  let c ← deref cls
  fun k => some ((), (k.expect (·.isClass c)).drop fun r => match r with
    | .device _ c' d => c' = c ∧ d = dev
    | .attr p _ => .device p c dev ∈ k.held
    | _ => false)

/-- Nothing happens where the pointer is null or an error value. -/
def classDestroy : Pointer → KernelM Unit
  | none => pure ()
  | some c => fun k => some ((), (k.expect (·.isClass c)).drop (·.isClass c))

/-- Takes the device off the system; the structure goes with it only if its release frees it. -/
def cdevDel (cdev : Pointer) : KernelM Unit := do
  let p ← deref cdev
  fun k => some ((), (k.expect (·.isCdev p)).drop fun r => match r with
    | .cdev q ktype => q = p ∧ ktype = .dynamic
    | .chrdev q _ => q = p
    | _ => false)

/-- Nothing happens where the numbers are not registered. -/
def unregisterChrdevRegion (dev : ℕ) : KernelM Unit := fun k =>
  some ((), k.drop (· = .region dev))

def kfree : Pointer → KernelM Unit
  | none => pure ()
  | some p => fun k => some ((), (k.expect (· = .memory p)).drop (· = .memory p))

def sysfsRemoveGroup (dev : Pointer) (names : List String) : KernelM Unit := do
  let p ← deref dev
  fun k => some ((), k.drop fun r => match r with
    | .attr q name => q = p ∧ name ∈ names
    | _ => false)

def miscDeregister (name : String) : KernelM Unit := fun k =>
  some ((), (k.expect (·.isMiscNamed name)).drop fun r => match r with
    | .misc _ n => n = name
    | .attr p _ => .misc p name ∈ k.held
    | _ => false)

/-- What a release does that runs to its end: it takes away what `gone` says, and it is in
order where `present` holds. -/
structure Took (gone : Resource → Prop) (present : Prop) (k t : Kernel) : Prop where
  held : ∀ x, x ∈ t.held ↔ x ∈ k.held ∧ ¬ gone x
  misuses_le : k.misuses ≤ t.misuses
  misuses_eq : t.misuses = k.misuses ↔ present

theorem classDestroy_took (cls : Pointer) (k : Kernel) :
    ∃ t, classDestroy cls k = some ((), t) ∧
      Took (fun x => ∃ m, cls = some m ∧ x.isClass m)
        (∀ m, cls = some m → k.has (·.isClass m)) k t := by
  cases cls with
  | none => exact ⟨k, rfl, by simp, le_rfl, by simp⟩
  | some c =>
    exact ⟨_, rfl, by simp, Kernel.misuses_le_expect, by simp [Kernel.misuses_expect_iff]⟩

theorem deviceDestroy_took (c dev : ℕ) (k : Kernel) :
    ∃ t, deviceDestroy (some c) dev k = some ((), t) ∧
      Took (fun x => (∃ p, x = .device p c dev) ∨
          ∃ p name, x = .attr p name ∧ .device p c dev ∈ k.held)
        (k.has (·.isClass c)) k t := by
  refine ⟨_, rfl, fun x => ?_, Kernel.misuses_le_expect, by simp [Kernel.misuses_expect_iff]⟩
  cases x <;> simp

theorem cdevDel_took (a : ℕ) (k : Kernel) : ∃ t, cdevDel (some a) k = some ((), t) ∧
    Took (fun x => x = .cdev a .dynamic ∨ ∃ d, x = .chrdev a d) (k.has (·.isCdev a)) k t := by
  refine ⟨_, rfl, fun x => ?_, Kernel.misuses_le_expect, by simp [Kernel.misuses_expect_iff]⟩
  cases x <;> simp

theorem unregisterChrdevRegion_took (dev : ℕ) (k : Kernel) :
    ∃ t, unregisterChrdevRegion dev k = some ((), t) ∧ Took (· = .region dev) True k t :=
  ⟨_, rfl, by simp, le_rfl, by simp⟩

theorem kfree_took (p : ℕ) (k : Kernel) : ∃ t, kfree (some p) k = some ((), t) ∧
    Took (· = .memory p) (.memory p ∈ k.held) k t :=
  ⟨_, rfl, by simp, Kernel.misuses_le_expect, by simp [Kernel.misuses_expect_iff]⟩

theorem kfree_latest (k : Kernel) : ∃ t, kfree (some k.next) (k.hold (.memory k.next)) =
    some ((), t) ∧ t.held = k.held := by
  obtain ⟨t, hrun, ht⟩ := kfree_took k.next (k.hold (.memory k.next))
  have hnew : Resource.memory k.next ∉ k.held := Kernel.notMem_of_next_le le_rfl rfl
  refine ⟨t, hrun, ?_⟩
  ext x
  rw [ht.held, Kernel.mem_hold]
  constructor
  · rintro ⟨hx | hx, hne⟩
    · exact absurd hx hne
    · exact hx
  · exact fun hx => ⟨.inr hx, fun heq => hnew (heq ▸ hx)⟩

def Kernel.strays (k : Kernel) : ℕ := (k.held.filter (·.isStray)).card

/-- What `t` holds more than `k` are the structures of `n` cdevs. -/
structure Leaked (n : ℕ) (k t : Kernel) : Prop where
  kept : k.held ⊆ t.held
  stray : ∀ x ∈ t.held, x ∉ k.held → x.isStray
  count : t.strays = k.strays + n

section

variable {k t u : Kernel} {m n : ℕ}

theorem Leaked.refl (k : Kernel) : Leaked 0 k k :=
  ⟨Finset.Subset.rfl, fun _ hx hno => absurd hx hno, rfl⟩

theorem Leaked.trans (h : Leaked m k t) (h' : Leaked n t u) : Leaked (m + n) k u := by
  refine ⟨h.kept.trans h'.kept, fun x hx hno => ?_, ?_⟩
  · by_cases ht : x ∈ t.held
    · exact h.stray x ht hno
    · exact h'.stray x hx ht
  · rw [h'.count, h.count, Nat.add_assoc]

theorem strays_insert {x : Resource} (hx : x.isStray) (hnew : x ∉ k.held)
    (ht : ∀ y, y.isStray → (y ∈ t.held ↔ y = x ∨ y ∈ k.held)) : t.strays = k.strays + 1 := by
  have hfilter : t.held.filter (·.isStray) = insert x (k.held.filter (·.isStray)) := by
    ext y
    by_cases hy : y.isStray
    · simp [ht y hy, hy]
    · have hne : y ≠ x := by
        rintro rfl
        exact hy hx
      simp [hy, hne]
  rw [Kernel.strays, hfilter, Finset.card_insert_of_notMem (by simp [hnew])]
  rfl

theorem Leaked.of_insert {x : Resource} (hx : x.isStray) (hnew : x ∉ k.held)
    (ht : t.held = insert x k.held) : Leaked 1 k t := by
  refine ⟨ht ▸ Finset.subset_insert x _, fun y hy hno => ?_, ?_⟩
  · rw [ht, Finset.mem_insert] at hy
    exact hy.resolve_right hno ▸ hx
  · exact strays_insert hx hnew fun y _ => by rw [ht, Finset.mem_insert]

theorem Leaked.mem_iff (h : Leaked n k t) {x : Resource} (hx : x.isStray = false) :
    x ∈ t.held ↔ x ∈ k.held := by
  refine ⟨fun ht => ?_, fun hk => h.kept hk⟩
  by_contra hk
  rw [h.stray x ht hk] at hx
  cases hx

theorem Leaked.has_iff (h : Leaked n k t) {p : Resource → Bool}
    (hp : ∀ x, p x → x.isStray = false) : t.has p ↔ k.has p := by
  simp only [Kernel.has_iff]
  constructor
  · rintro ⟨x, hx, hpx⟩
    exact ⟨x, (h.mem_iff (hp x hpx)).mp hx, hpx⟩
  · rintro ⟨x, hx, hpx⟩
    exact ⟨x, h.kept hx, hpx⟩

end

end KernelResources
