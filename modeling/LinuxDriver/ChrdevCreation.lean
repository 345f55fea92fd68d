import LinuxDriver.KernelResources
import Mathlib.Tactic.MkIffOfInductiveProp

/-!
# From a device number to a device node

The steps by which the character drivers and the platform driver set up their device:
register the number, allocate and add the `cdev`, create the class and the node. Only the
code of the first is kept by the callers; the others go unchecked.
-/
namespace ChrdevCreation

open KernelTypes KernelResources

def MKDEV (ma mi : ℕ) : ℕ := ma * 2 ^ 20 + mi

structure Outcomes where
  region : Status
  cdev : Status
  added : Status
  cls : Status
  device : Status

def Outcomes.allSucceed : Outcomes := ⟨.success, .success, .success, .success, .success⟩

/-- `rc` and `added` are the codes of the first call and of `cdev_add`. -/
structure Chrdev where
  rc : ℤ
  added : ℤ
  cdev : Pointer
  cls : Pointer
  dev : Pointer
  deriving DecidableEq, Repr

/-- `cdev->owner = THIS_MODULE` and `cdev_init` write through the pointer unchecked, and
`cdev_init` turns the structure of `cdev_alloc` into one that `cdev_del` does not free. -/
def createChrdev (o : Outcomes) (devno : ℕ) (name : String) : KernelM Chrdev := do
  let rc ← registerChrdevRegion o.region devno
  let cdev ← cdevAlloc o.cdev
  let _ ← deref cdev
  cdevInit cdev
  let added ← cdevAdd o.added cdev devno
  let cls ← classCreate o.cls name
  let dev ← deviceCreate o.device cls devno
  return ⟨rc, added, cdev, cls, dev⟩

namespace Chrdev

def Owns (c : Chrdev) (devno : ℕ) (name : String) : Resource → Prop
  | .region d => c.rc = 0 ∧ d = devno
  | .cdev p ktype => c.cdev = some p ∧ ktype = .default
  | .chrdev p d => c.added = 0 ∧ c.cdev = some p ∧ d = devno
  | .cls p n => c.cls = some p ∧ n = name
  | .device p q d => c.dev = some p ∧ c.cls = some q ∧ d = devno
  | _ => False

theorem owns_iff {c : Chrdev} {devno : ℕ} {name : String} {x : Resource} :
    c.Owns devno name x ↔ c.rc = 0 ∧ x = .region devno ∨
      (∃ p, c.cdev = some p ∧ x = .cdev p .default) ∨
      (∃ p, c.cdev = some p ∧ c.added = 0 ∧ x = .chrdev p devno) ∨
      (∃ p, c.cls = some p ∧ x = .cls p name) ∨
      ∃ p q, c.dev = some p ∧ c.cls = some q ∧ x = .device p q devno := by
  cases x <;> simp [Owns]
  case chrdev p d => exact ⟨fun ⟨ha, hp, hd⟩ => ⟨hp, ha, hd⟩, fun ⟨hp, ha, hd⟩ => ⟨ha, hp, hd⟩⟩

@[mk_iff]
structure Complete (c : Chrdev) : Prop where
  rc : c.rc = 0
  added : c.added = 0
  cls : c.cls.isSome
  dev : c.dev.isSome

end Chrdev

/-- The calls themselves succeed, and number, class name and node are free. -/
structure Granted (o : Outcomes) (devno : ℕ) (name : String) (k : Kernel) : Prop where
  region : o.region.rc = 0
  cdev : o.cdev.rc = 0
  added : o.added.rc = 0
  cls : o.cls.rc = 0
  device : o.device.rc = 0
  regionFree : .region devno ∉ k.held
  clsFree : ¬ k.has (·.isClassNamed name)
  deviceFree : ¬ k.has (·.isDeviceNumbered devno)

theorem granted_iff_of_answered {o : Outcomes} {devno : ℕ} {name : String} {k t : Kernel}
    {g : Prop} {r : Resource} (h : Answered g r k t) (hregion : r ≠ .region devno)
    (hcls : r.isClassNamed name = false) (hdevice : r.isDeviceNumbered devno = false) :
    Granted o devno name t ↔ Granted o devno name k := by
  have hfree : .region devno ∈ t.held ↔ .region devno ∈ k.held := by
    rw [h.held]
    exact or_iff_left fun hg => hregion hg.2.symm
  have hname := h.has_iff (f := (·.isClassNamed name)) hcls
  have hnode := h.has_iff (f := (·.isDeviceNumbered devno)) hdevice
  constructor
  · rintro ⟨h₁, h₂, h₃, h₄, h₅, h₆, h₇, h₈⟩
    exact ⟨h₁, h₂, h₃, h₄, h₅, mt hfree.mpr h₆, mt hname.mpr h₇, mt hnode.mpr h₈⟩
  · rintro ⟨h₁, h₂, h₃, h₄, h₅, h₆, h₇, h₈⟩
    exact ⟨h₁, h₂, h₃, h₄, h₅, mt hfree.mp h₆, mt hname.mp h₇, mt hnode.mp h₈⟩

theorem Granted.of_leaked {o : Outcomes} {devno n : ℕ} {name : String} {k t : Kernel}
    (h : Granted o devno name k) (hleaked : Leaked n k t) : Granted o devno name t := by
  have hnamed (x : Resource) (hx : x.isClassNamed name) : x.isStray = false := by
    cases x <;> simp_all [Resource.isClassNamed, Resource.isStray]
  have hnumbered (x : Resource) (hx : x.isDeviceNumbered devno) : x.isStray = false := by
    cases x <;> simp_all [Resource.isDeviceNumbered, Resource.isStray]
  obtain ⟨hr, hc, ha, hl, hd, hregion, hcls, hdevice⟩ := h
  exact ⟨hr, hc, ha, hl, hd, mt (hleaked.mem_iff rfl).mp hregion,
    mt (hleaked.has_iff hnamed).mp hcls, mt (hleaked.has_iff hnumbered).mp hdevice⟩

/-- What a creation that comes to its end has done. -/
structure Created (o : Outcomes) (devno : ℕ) (name : String) (k : Kernel) (c : Chrdev)
    (t : Kernel) : Prop where
  nonpos : c.rc ≤ 0
  cdev : c.cdev.isSome
  complete : c.Complete ↔ Granted o devno name k
  held : ∀ x, x ∈ t.held ↔ x ∈ k.held ∨ c.Owns devno name x
  new : ∀ x, c.Owns devno name x → x ∉ k.held
  failures_le : k.failures ≤ t.failures
  failures_eq : t.failures = k.failures ↔ c.Complete
  misuses : c.cls.isSome → t.misuses = k.misuses
  next : k.next ≤ t.next
  addresses : ∀ p, c.cdev = some p ∨ c.cls = some p ∨ c.dev = some p → k.next ≤ p
  node : c.dev.isSome → c.cls.isSome

section

variable {o : Outcomes} {devno : ℕ} {name : String} {k t : Kernel} {c : Chrdev}

theorem new_of_addresses (hrc : c.rc = 0 → .region devno ∉ k.held)
    (haddr : ∀ p, c.cdev = some p ∨ c.cls = some p ∨ c.dev = some p → k.next ≤ p) (x : Resource)
    (hx : c.Owns devno name x) : x ∉ k.held := by
  have above {p : ℕ} (hp : c.cdev = some p ∨ c.cls = some p ∨ c.dev = some p)
      (hbound : x.bound = p + 1) : x ∉ k.held :=
    Kernel.notMem_of_next_le (haddr p hp) hbound
  cases x with
  | region d => exact hx.2 ▸ hrc hx.1
  | cdev p ktype => exact above (.inl hx.1) rfl
  | chrdev p d => exact above (.inl hx.2.1) rfl
  | cls p n => exact above (.inr (.inl hx.1)) rfl
  | device p q d => exact above (.inr (.inr hx.1)) rfl
  | memory | misc | attr => exact hx.elim

structure Prepared (o : Outcomes) (devno : ℕ) (name : String) (k : Kernel) (c : Chrdev)
    (t : Kernel) : Prop where
  rc : c.rc = 0 ↔ o.region.rc = 0 ∧ .region devno ∉ k.held
  nonpos : c.rc ≤ 0
  cdev : o.cdev.rc = 0
  added : c.added = 0 ↔ o.added.rc = 0
  cls : c.cls.isSome ↔ o.cls.rc = 0 ∧ ¬ k.has (·.isClassNamed name)
  held : ∀ x, x ∈ t.held ↔ x ∈ k.held ∨ c.Owns devno name x
  failures_le : k.failures ≤ t.failures
  failures_eq : t.failures = k.failures ↔ c.rc = 0 ∧ c.added = 0 ∧ c.cls.isSome
  misuses : t.misuses = k.misuses
  next : k.next ≤ t.next
  addresses : ∀ p, c.cdev = some p ∨ c.cls = some p → k.next ≤ p
  node : t.has (·.isDeviceNumbered devno) ↔ k.has (·.isDeviceNumbered devno)

theorem prepared_of_calls {k₁ k₁' k₂ k₃ : Kernel} {rc added : ℤ} {a : ℕ} {cls : Pointer}
    (hregion : registerChrdevRegion o.region devno k = some (rc, k₁))
    (halloc : cdevAlloc o.cdev k₁ = some (some a, k₁'))
    (hinit : cdevInit (some a) k₁' = some ((), k₂))
    (hadd : cdevAdd o.added (some a) devno k₂ = some (added, k₃))
    (hclass : classCreate o.cls name k₃ = some (cls, t)) :
    Prepared o devno name k ⟨rc, added, some a, cls, none⟩ t := by
  obtain ⟨hr, hrc, hnonpos⟩ := registerChrdevRegion_answered hregion
  obtain ⟨hok, haddr, u, hinit', ha⟩ := cdevInit_answered halloc
  obtain ⟨-, rfl⟩ := Prod.mk.inj (Option.some.inj (hinit'.symm.trans hinit))
  obtain ⟨hd, hadded⟩ := cdevAdd_answered hadd
  obtain ⟨hc, hptr⟩ := classCreate_answered hclass
  have hnamed : k₃.has (·.isClassNamed name) ↔ k.has (·.isClassNamed name) :=
    ((hd.has_iff rfl).trans (ha.has_iff rfl)).trans (hr.has_iff rfl)
  have hcls : cls.isSome ↔ o.cls.rc = 0 ∧ ¬ k₃.has (·.isClassNamed name) := by
    obtain ⟨rfl, hg⟩ | ⟨rfl, hno⟩ := hptr
    · exact iff_of_true rfl hg
    · exact iff_of_false (by simp) hno
  have hq : ∀ q, cls = some q ↔ cls.isSome ∧ q = k₃.next := by
    obtain ⟨rfl, -⟩ | ⟨rfl, -⟩ := hptr <;> simp [eq_comm]
  have hnext := hr.next.trans (ha.next.trans hd.next)
  refine ⟨hrc, hnonpos, hok, hadded, hcls.trans (and_congr_right' (not_congr hnamed)), ?_,
    hr.failures_le.trans (ha.failures_le.trans (hd.failures_le.trans hc.failures_le)), ?_, ?_,
    hnext.trans hc.next, ?_, ?_⟩
  · intro x
    rw [hc.held, hd.held, ha.held, hr.held, ← hrc, ← hadded, ← hcls, Chrdev.owns_iff]
    simp [hok, hq, or_assoc]
  · have hr := And.intro hr.failures_le hr.failures_eq_iff
    have hd := And.intro hd.failures_le hd.failures_eq_iff
    have hc := And.intro hc.failures_le hc.failures_eq_iff
    have hsame := ha.kept hok
    simp only [hrc, hadded, hcls]
    rw [← hr.2, ← hd.2, ← hc.2]
    omega
  · rw [hc.misuses, hd.misuses, ha.misuses, hr.misuses]
  · rintro p (hp | hp)
    · obtain rfl := Option.some.inj hp
      exact haddr ▸ hr.next
    · exact ((hq p).mp hp).2 ▸ hnext
  · exact (((hc.has_iff rfl).trans (hd.has_iff rfl)).trans (ha.has_iff rfl)).trans (hr.has_iff rfl)

theorem created_of_placed {u : Kernel} {rc added : ℤ} {a : ℕ} {cls dev : Pointer}
    (hP : Prepared o devno name k ⟨rc, added, some a, cls, none⟩ u)
    (hv : Placed o.device cls devno u dev t) :
    Created o devno name k ⟨rc, added, some a, cls, dev⟩ t := by
  have hnode : dev.isSome → cls.isSome := fun hdev => (hv.placed.mp hdev).1
  have hcomplete : Chrdev.Complete ⟨rc, added, some a, cls, dev⟩ ↔
      (rc = 0 ∧ added = 0 ∧ cls.isSome) ∧ dev.isSome := by
    simp only [Chrdev.complete_iff, and_assoc]
  have haddr : ∀ p, some a = some p ∨ cls = some p ∨ dev = some p → k.next ≤ p := by
    rintro p (hp | hp | hp)
    · exact hP.addresses p (.inl hp)
    · exact hP.addresses p (.inr hp)
    · exact hP.next.trans (hv.address p hp)
  refine ⟨hP.nonpos, rfl, ?_, fun x => ?_, new_of_addresses (fun h0 => (hP.rc.mp h0).2) haddr,
    hP.failures_le.trans hv.failures_le, ?_, fun hc => (hv.misuses hc).trans hP.misuses,
    hP.next.trans hv.next, haddr, hnode⟩
  · rw [hcomplete, hv.placed]
    constructor
    · rintro ⟨⟨hr, ha, hc⟩, -, hd⟩
      exact ⟨(hP.rc.mp hr).1, hP.cdev, hP.added.mp ha, (hP.cls.mp hc).1, hd.1, (hP.rc.mp hr).2,
        (hP.cls.mp hc).2, mt hP.node.mpr hd.2⟩
    · intro hg
      have hc := hP.cls.mpr ⟨hg.cls, hg.clsFree⟩
      exact ⟨⟨hP.rc.mpr ⟨hg.region, hg.regionFree⟩, hP.added.mpr hg.added, hc⟩, hc, hg.device,
        mt hP.node.mp hg.deviceFree⟩
  · rw [hv.held, hP.held, Chrdev.owns_iff, Chrdev.owns_iff]
    simp [or_assoc]
  · have hle := hP.failures_le
    have hle' := hv.failures_le
    rw [hcomplete, ← hP.failures_eq, ← hv.failures_eq]
    omega

theorem createChrdev_created (h : createChrdev o devno name k = some (c, t)) :
    o.cdev.rc = 0 ∧ Created o devno name k c t := by
  obtain ⟨rc, k₁, hregion, h⟩ := bind_inv h
  obtain ⟨cdev, k₂, halloc, h⟩ := bind_inv h
  obtain ⟨a, k₂', hderef, h⟩ := bind_inv h
  obtain ⟨_, k₂'', hinit, h⟩ := bind_inv h
  obtain ⟨added, k₃, hadd, h⟩ := bind_inv h
  obtain ⟨cls, k₄, hclass, h⟩ := bind_inv h
  obtain ⟨dev, k₅, hdevice, h⟩ := bind_inv h
  obtain ⟨rfl, rfl⟩ := Prod.mk.inj (Option.some.inj h)
  cases cdev with
  | none => cases hderef
  | some p =>
    obtain ⟨rfl, rfl⟩ := Prod.mk.inj (Option.some.inj hderef)
    have hP := prepared_of_calls hregion halloc hinit hadd hclass
    exact ⟨hP.cdev, created_of_placed hP (deviceCreate_placed hdevice)⟩

theorem createChrdev_returns (devno : ℕ) (name : String) (k : Kernel) (h : o.cdev.rc = 0) :
    Returns (createChrdev o devno name) k := by
  refine .bind ⟨_, _, rfl⟩ fun rc k₁ _ => .bind ⟨_, _, rfl⟩ fun cdev k₂ halloc => ?_
  obtain ⟨-, ⟨rfl, -⟩ | ⟨-, hbad⟩⟩ := cdevAlloc_answered halloc
  · refine .bind ⟨_, _, rfl⟩ fun _ _ _ => .bind ⟨_, _, rfl⟩ fun _ k₂ _ => ?_
    refine .bind ⟨_, _, rfl⟩ fun added k₃ _ => ?_
    refine .bind ⟨_, _, rfl⟩ fun cls k₄ _ => ?_
    cases cls <;> exact ⟨_, _, rfl⟩
  · exact absurd h hbad

end

theorem restored {K A B : Prop} (hAB : A → B) (hB : B → ¬ K) : (K ∨ A) ∧ ¬ B ↔ K := by
  constructor
  · rintro ⟨hK | hA, hnB⟩
    · exact hK
    · exact absurd (hAB hA) hnB
  · exact fun hK => ⟨.inl hK, fun h => hB h hK⟩

/-- What the four calls that undo a creation release of what is held, whoever holds it. -/
def TakenDown (q a devno : ℕ) (t : Kernel) : Resource → Prop
  | .cdev b ktype => b = a ∧ ktype = .dynamic
  | .chrdev b _ => b = a
  | .cls b _ => b = q
  | .device _ c d => c = q ∧ d = devno
  | .attr b _ => .device b q devno ∈ t.held
  | .region d => d = devno
  | .memory _ | .misc _ _ => False

theorem takeDown_releases {t : Kernel} {q a : ℕ} (devno : ℕ) (hcls : t.has (·.isClass q))
    (hcdev : .cdev a .default ∈ t.held) :
    ∃ k₁ k₂ k₃ u, deviceDestroy (some q) devno t = some ((), k₁) ∧
      classDestroy (some q) k₁ = some ((), k₂) ∧ cdevDel (some a) k₂ = some ((), k₃) ∧
      unregisterChrdevRegion devno k₃ = some ((), u) ∧
      (∀ x, x ∈ u.held ↔ x ∈ t.held ∧ ¬ TakenDown q a devno t x) ∧ u.misuses = t.misuses := by
  obtain ⟨k₁, hrun₁, h₁⟩ := deviceDestroy_took q devno t
  obtain ⟨k₂, hrun₂, h₂⟩ := classDestroy_took (some q) k₁
  obtain ⟨k₃, hrun₃, h₃⟩ := cdevDel_took a k₂
  obtain ⟨u, hrun₄, h₄⟩ := unregisterChrdevRegion_took devno k₃
  refine ⟨k₁, k₂, k₃, u, hrun₁, hrun₂, hrun₃, hrun₄, fun x => ?_, ?_⟩
  · rw [h₄.held, h₃.held, h₂.held, h₁.held]
    cases x <;> simp [TakenDown, Resource.isClass, eq_comm]
  · have hcls₁ : k₁.has (·.isClass q) := by
      obtain ⟨x, hx, hq⟩ := Kernel.has_iff.mp hcls
      refine Kernel.has_iff.mpr ⟨x, (h₁.held x).mpr ⟨hx, ?_⟩, hq⟩
      rintro (⟨b, rfl⟩ | ⟨b, n, rfl, -⟩) <;> cases hq
    have hcdev₂ : k₂.has (·.isCdev a) := by
      refine Kernel.has_iff.mpr ⟨.cdev a .default, ?_, by simp [Resource.isCdev]⟩
      rw [h₂.held, h₁.held]
      simp [hcdev, Resource.isClass]
    calc u.misuses = k₃.misuses := h₄.misuses_eq.mpr trivial
      _ = k₂.misuses := h₃.misuses_eq.mpr hcdev₂
      _ = k₁.misuses := h₂.misuses_eq.mpr fun r hr => Option.some.inj hr ▸ hcls₁
      _ = t.misuses := h₁.misuses_eq.mpr hcls

section

variable {devno : ℕ} {name : String} {k t u : Kernel} {c : Chrdev} {a q p : ℕ} {x : Resource}
  {more gone : Resource → Prop}

theorem takenDown_of_owns (ha : c.cdev = some a) (hq : c.cls = some q)
    (hx : c.Owns devno name x) (hne : x ≠ .cdev a .default) : TakenDown q a devno t x := by
  cases x with
  | region d => exact hx.2
  | cdev b ktype =>
    obtain ⟨hb, rfl⟩ := hx
    obtain rfl := Option.some.inj (ha.symm.trans hb)
    exact absurd rfl hne
  | chrdev b d => exact Option.some.inj (hx.2.1.symm.trans ha)
  | cls b n => exact Option.some.inj (hx.1.symm.trans hq)
  | device b r d => exact ⟨Option.some.inj (hx.2.1.symm.trans hq), hx.2.2⟩
  | memory | misc | attr => exact hx.elim

theorem new_of_takenDown (hnext : k.next ≤ a ∧ k.next ≤ q) (hregion : .region devno ∉ k.held)
    (hnode : ¬ k.has (·.isDeviceNumbered devno))
    (hdevice : ∀ b, .device b q devno ∈ t.held → .device b q devno ∉ k.held → k.next ≤ b)
    (hx : TakenDown q a devno t x) : x ∉ k.held := by
  have hfree {y : Resource} (hy : y.isDeviceNumbered devno) : y ∉ k.held :=
    fun hk => hnode (Kernel.has_iff.mpr ⟨y, hk, hy⟩)
  cases x with
  | cdev b ktype => exact Kernel.notMem_of_next_le (hx.1 ▸ hnext.1) rfl
  | chrdev b d => exact Kernel.notMem_of_next_le (hx ▸ hnext.1) rfl
  | cls b n => exact Kernel.notMem_of_next_le (hx ▸ hnext.2) rfl
  | device b r d => exact hfree (by simp [Resource.isDeviceNumbered, hx.2])
  | attr b n =>
    have hnew := hdevice b hx (hfree (by simp [Resource.isDeviceNumbered]))
    exact Kernel.notMem_of_next_le hnew rfl
  | region d => exact hx ▸ hregion
  | memory | misc => exact hx.elim

/-- Taking down a complete creation, and what has come with it, leaves the structure of the cdev
and nothing else. -/
theorem leaves_cdev (ha : c.cdev = some a) (hq : c.cls = some q) (hp : c.dev = some p)
    (hnext : k.next ≤ a ∧ k.next ≤ q ∧ k.next ≤ p) (hregion : .region devno ∉ k.held)
    (hnode : ¬ k.has (·.isDeviceNumbered devno))
    (ht : ∀ x, x ∈ t.held ↔ x ∈ k.held ∨ c.Owns devno name x ∨ more x)
    (hu : ∀ x, x ∈ u.held ↔ x ∈ t.held ∧ ¬ (TakenDown q a devno t x ∨ gone x))
    (hmore : ∀ x, more x → TakenDown q a devno t x ∨ gone x)
    (hgone : ∀ x, gone x → x ∉ k.held) (hnodes : ∀ b, ¬ more (.device b q devno))
    (hstays : ¬ gone (.cdev a .default)) : u.held = insert (.cdev a .default) k.held := by
  have hdevice (b : ℕ) (hb : .device b q devno ∈ t.held) (hk : .device b q devno ∉ k.held) :
      k.next ≤ b := by
    obtain ⟨hdev, -⟩ := (((ht _).mp hb).resolve_left hk).resolve_right (hnodes b)
    obtain rfl := Option.some.inj (hp.symm.trans hdev)
    exact hnext.2.2
  ext x
  rw [hu, ht, Finset.mem_insert]
  by_cases hx : x = .cdev a .default
  · subst hx
    refine iff_of_true ⟨.inr (.inl ⟨ha, rfl⟩), ?_⟩ (.inl rfl)
    rintro (hdown | hg)
    · cases hdown.2
    · exact hstays hg
  · rw [or_iff_right hx]
    apply restored
    · rintro (hown | hm)
      · exact .inl (takenDown_of_owns ha hq hown hx)
      · exact hmore x hm
    · rintro (hdown | hg)
      · exact new_of_takenDown ⟨hnext.1, hnext.2.1⟩ hregion hnode hdevice hdown
      · exact hgone x hg

end

end ChrdevCreation
