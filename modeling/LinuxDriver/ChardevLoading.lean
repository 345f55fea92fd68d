import LinuxDriver.ChrdevCreation

/-!
# chardev: loading and unloading the drivers

`my_chrdev.c`, `my_create_attr.c` and `my_create_group_attr.c` share their init function
but for the attribute files, and `my_misc.c` registers a misc device. None of them undoes
what it has acquired when a later call fails.
-/
namespace ChardevLoading

open KernelTypes KernelResources ChrdevCreation

/-- A module: what its init function returns and leaves in the globals, and its exit
function on these globals. -/
structure Driver (O G : Type) where
  init : O → KernelM (ℤ × G)
  exit : G → KernelM Unit

namespace Driver

variable {O G : Type} (D : Driver O G)

/-- Where init fails it leaves nothing behind; where it returns 0 no call has failed, and
exit gives everything back. The run comes to its end and uses no failed result. -/
def AllOrNothing (o : O) (k : Kernel) : Prop :=
  ∃ rc g t, D.init o k = some ((rc, g), t) ∧ t.misuses = k.misuses ∧
    (rc ≠ 0 → t.held = k.held) ∧
    (rc = 0 → t.failures = k.failures ∧
      ∃ u, D.exit g t = some ((), u) ∧ u.held = k.held ∧ u.misuses = k.misuses)

/-- No call of init fails, and exit gives back everything but the structure of the cdev. -/
def LeavesCdev (o : O) (k : Kernel) : Prop :=
  ∃ g t u, D.init o k = some ((0, g), t) ∧ t.misuses = k.misuses ∧ t.failures = k.failures ∧
    D.exit g t = some ((), u) ∧ u.misuses = k.misuses ∧ Leaked 1 k u

def cycle (o : O) : KernelM Unit := do
  let (rc, g) ← D.init o
  if rc = 0 then D.exit g else pure ()

def cycles : List O → KernelM Unit
  | [] => pure ()
  | o :: os => do
    D.cycle o
    cycles os

theorem not_allOrNothing {D : Driver O G} {o : O} {k : Kernel} (h : D.LeavesCdev o k) :
    ¬ D.AllOrNothing o k := by
  obtain ⟨g, t, u, hinit, -, -, hexit, -, hleaked⟩ := h
  rintro ⟨rc, g', t', hinit', -, -, hloaded⟩
  obtain ⟨heq, rfl⟩ := Prod.mk.inj (Option.some.inj (hinit.symm.trans hinit'))
  obtain ⟨rfl, rfl⟩ := Prod.mk.inj heq
  obtain ⟨-, v, hexit', hheld, -⟩ := hloaded rfl
  obtain ⟨-, rfl⟩ := Prod.mk.inj (Option.some.inj (hexit.symm.trans hexit'))
  have hcount := hleaked.count
  simp [Kernel.strays, hheld] at hcount

end Driver

structure Globals where
  devno : ℕ
  cdev : Pointer
  cls : Pointer
  dev : Pointer
  pdata : Pointer
  deriving DecidableEq, Repr

/-- `t` has the attribute files of device `p` in addition. -/
structure Furnished (p : ℕ) (names : List String) (k t : Kernel) : Prop where
  held : ∀ x, x ∈ t.held ↔ x ∈ k.held ∨ ∃ name ∈ names, x = .attr p name
  failures : t.failures = k.failures
  misuses : t.misuses = k.misuses
  next : k.next ≤ t.next

structure Grows (granted : Prop) (k t : Kernel) : Prop where
  held : k.held ⊆ t.held
  failures : k.failures ≤ t.failures
  next : k.next ≤ t.next
  granted : t.failures = k.failures → granted

theorem Grows.of_answered {granted : Prop} {r : Resource} {k t : Kernel}
    (h : Answered granted r k t) : Grows granted k t :=
  ⟨fun x hx => (h.held x).mpr (.inl hx), h.failures_le, h.next, h.failures_eq_iff.mp⟩

theorem Grows.trans {g g' : Prop} {k t u : Kernel} (h : Grows g k t) (h' : Grows g' t u) :
    Grows (g ∧ g') k u := by
  have hle := h.failures
  have hle' := h'.failures
  exact ⟨h.held.trans h'.held, hle.trans hle', h.next.trans h'.next, fun heq =>
    ⟨h.granted (by omega), h'.granted (by omega)⟩⟩

theorem furnished_foldl (p : ℕ) (names : List String) (k : Kernel) :
    Furnished p names k (names.foldl (fun k name => k.hold (.attr p name)) k) := by
  induction names generalizing k with
  | nil => exact ⟨by simp, rfl, rfl, le_rfl⟩
  | cons name names ih =>
    have h := ih (k.hold (.attr p name))
    refine ⟨fun x => ?_, h.failures, h.misuses, Kernel.next_le_hold.trans h.next⟩
    rw [List.foldl_cons, h.held, Kernel.mem_hold, List.exists_mem_cons_iff, or_assoc,
      or_left_comm]

/-- How a driver creates its attribute files on a device, binds the private data to the
device, and removes the files; `create` gets the code that init has so far. -/
structure Attributes (A : Type) where
  names : List String
  create : A → ℤ → Pointer → KernelM ℤ
  setDrvdata : Pointer → KernelM Unit
  remove : Pointer → KernelM Unit
  Granted : A → Prop
  grows : ∀ {a rc dev k rc' t}, create a rc dev k = some (rc', t) → Grows (Granted a) k t
  created : ∀ {a p k}, Granted a →
    ∃ t, create a 0 (some p) k = some (0, t) ∧ Furnished p names k t
  bound : ∀ {p k}, setDrvdata (some p) k = some ((), k)
  boundOnly : ∀ {dev k t}, setDrvdata dev k = some ((), t) → t = k
  removed : ∀ {p k}, ∃ t, remove (some p) k = some ((), t) ∧ t.misuses = k.misuses ∧
    t.held ⊆ k.held ∧ ∀ x ∈ k.held, (∀ name, x ≠ .attr p name) → x ∈ t.held

/-- `my_chrdev.c` has no attribute files and binds nothing to the device. -/
def noAttributes : Attributes Unit where
  names := []
  create _ rc _ := pure rc
  setDrvdata _ := pure ()
  remove _ := pure ()
  Granted _ := True
  grows h := by
    obtain ⟨-, rfl⟩ := Prod.mk.inj (Option.some.inj h)
    exact ⟨Finset.Subset.rfl, le_rfl, le_rfl, fun _ => trivial⟩
  created _ := ⟨_, rfl, ⟨by simp, rfl, rfl, le_rfl⟩⟩
  bound := rfl
  boundOnly h := (Prod.mk.inj (Option.some.inj h)).2.symm
  removed := ⟨_, rfl, rfl, Finset.Subset.rfl, fun _ hx _ => hx⟩

def setDrvdata (dev : Pointer) : KernelM Unit := do
  let _ ← deref dev
  return ()

theorem setDrvdata_only {dev : Pointer} {k t : Kernel} (h : setDrvdata dev k = some ((), t)) :
    t = k := by
  cases dev with
  | none => cases h
  | some p => exact (Prod.mk.inj (Option.some.inj h)).2.symm

def createFiles (o : Status × Status) (_ : ℤ) (dev : Pointer) : KernelM ℤ := do
  let _ ← deviceCreateFile o.1 dev "size"
  deviceCreateFile o.2 dev "buffer"

theorem createFiles_grows {o : Status × Status} {rc rc' : ℤ} {dev : Pointer} {k t : Kernel}
    (h : createFiles o rc dev k = some (rc', t)) : Grows (o.1.rc = 0 ∧ o.2.rc = 0) k t := by
  obtain ⟨rc₁, k₁, hsize, hbuffer⟩ := bind_inv h
  cases dev with
  | none => cases hsize
  | some p =>
    have hs := Grows.of_answered (deviceCreateFile_answered hsize).1
    exact hs.trans (.of_answered (deviceCreateFile_answered hbuffer).1)

theorem createFiles_created {o : Status × Status} {p : ℕ} {k : Kernel}
    (ho : o.1.rc = 0 ∧ o.2.rc = 0) : ∃ t, createFiles o 0 (some p) k = some (0, t) ∧
      Furnished p ["size", "buffer"] k t := by
  have hrun : createFiles o 0 (some p) k =
      some (0, (k.hold (.attr p "size")).hold (.attr p "buffer")) := by
    simp [createFiles, deviceCreateFile, request, ho, StateT.bind, bind]
  exact ⟨_, hrun, furnished_foldl p ["size", "buffer"] k⟩

def attributeFiles : Attributes (Status × Status) where
  names := ["size", "buffer"]
  create := createFiles
  setDrvdata := setDrvdata
  remove _ := pure ()
  Granted o := o.1.rc = 0 ∧ o.2.rc = 0
  grows := createFiles_grows
  created := createFiles_created
  bound := rfl
  boundOnly := setDrvdata_only
  removed := ⟨_, rfl, rfl, Finset.Subset.rfl, fun _ hx _ => hx⟩

theorem sysfsCreateGroup_some (o : Status) (p : ℕ) (names : List String) (k : Kernel) :
    sysfsCreateGroup o (some p) names k = some (if o.rc = 0
      then (0, names.foldl (fun k name => k.hold (.attr p name)) k) else (o.rc, k.fail)) := rfl

theorem sysfsCreateGroup_grows {o : Status} {names : List String} {rc : ℤ} {dev : Pointer}
    {k t : Kernel} (h : sysfsCreateGroup o dev names k = some (rc, t)) :
    Grows (o.rc = 0) k t := by
  cases dev with
  | none => cases h
  | some p =>
    rw [sysfsCreateGroup_some] at h
    have hF := furnished_foldl p names k
    split at h
    · obtain ⟨-, rfl⟩ := Prod.mk.inj (Option.some.inj h)
      exact ⟨fun x hx => (hF.held x).mpr (.inl hx), hF.failures.ge, hF.next, fun _ => by assumption⟩
    · obtain ⟨-, rfl⟩ := Prod.mk.inj (Option.some.inj h)
      exact ⟨Finset.Subset.rfl, Nat.le_succ _, le_rfl, fun heq => by simp at heq⟩

def attributeGroup : Attributes Status where
  names := ["size", "buffer"]
  create o _ dev := sysfsCreateGroup o dev ["size", "buffer"]
  setDrvdata := setDrvdata
  remove dev := sysfsRemoveGroup dev ["size", "buffer"]
  Granted o := o.rc = 0
  grows := sysfsCreateGroup_grows
  created {o p k} ho := by
    refine ⟨_, ?_, furnished_foldl p ["size", "buffer"] k⟩
    rw [sysfsCreateGroup_some, if_pos ho]
  bound := rfl
  boundOnly := setDrvdata_only
  removed {p k} := by
    refine ⟨_, rfl, rfl, Finset.filter_subset _ _, fun x hx hno => Kernel.mem_drop.mpr ⟨hx, ?_⟩⟩
    cases x with
    | attr q name =>
      have hne : q ≠ p := fun heq => hno name (heq ▸ rfl)
      simp [hne]
    | _ => simp

def cdevMajor : ℕ := 255

structure Calls (A : Type) where
  chrdev : Outcomes
  attrs : A
  pdata : Status

variable {A : Type}

/-- `my_chrdev_init`; the stores into `pdata` go through the pointer unchecked. -/
def chrdevInit (V : Attributes A) (o : Calls A) : KernelM (ℤ × Globals) := do
  let devno := MKDEV cdevMajor 0
  let c ← createChrdev o.chrdev devno "chardev0"
  let rc ← V.create o.attrs c.rc c.dev
  let pdata ← kzalloc o.pdata
  let _ ← deref pdata
  V.setDrvdata c.dev
  return (rc, ⟨devno, c.cdev, c.cls, c.dev, pdata⟩)

def chrdevExit (V : Attributes A) (g : Globals) : KernelM Unit := do
  V.remove g.dev
  deviceDestroy g.cls (MKDEV cdevMajor 0)
  classDestroy g.cls
  cdevDel g.cdev
  unregisterChrdevRegion g.devno
  kfree g.pdata

def chrdev (V : Attributes A) : Driver (Calls A) Globals := ⟨chrdevInit V, chrdevExit V⟩

def myChrdev : Driver (Calls Unit) Globals := chrdev noAttributes
def myCreateAttr : Driver (Calls (Status × Status)) Globals := chrdev attributeFiles
def myCreateGroupAttr : Driver (Calls Status) Globals := chrdev attributeGroup

structure Calls.Granted (V : Attributes A) (o : Calls A) (k : Kernel) : Prop where
  chrdev : ChrdevCreation.Granted o.chrdev (MKDEV cdevMajor 0) "chardev0" k
  attrs : V.Granted o.attrs
  pdata : o.pdata.rc = 0

section

variable {V : Attributes A} {o : Calls A} {k t : Kernel} {rc : ℤ} {g : Globals}

theorem chrdevInit_inv (h : chrdevInit V o k = some ((rc, g), t)) :
    ∃ c k₁ k₂, createChrdev o.chrdev (MKDEV cdevMajor 0) "chardev0" k = some (c, k₁) ∧
      V.create o.attrs c.rc c.dev k₁ = some (rc, k₂) ∧
      Answered (o.pdata.rc = 0) (.memory k₂.next) k₂ t ∧ o.pdata.rc = 0 := by
  obtain ⟨c, k₁, hcreate, h⟩ := bind_inv h
  obtain ⟨rc', k₂, hattrs, h⟩ := bind_inv h
  obtain ⟨pdata, k₃, hpdata, h⟩ := bind_inv h
  obtain ⟨p, k₄, hderef, h⟩ := bind_inv h
  obtain ⟨_, k₅, hdata, h⟩ := bind_inv h
  obtain ⟨heq, rfl⟩ := Prod.mk.inj (Option.some.inj h)
  obtain ⟨rfl, -⟩ := Prod.mk.inj heq
  obtain rfl := V.boundOnly hdata
  obtain ⟨hnew, ⟨rfl, hok⟩ | ⟨rfl, -⟩⟩ := kzalloc_answered hpdata
  · obtain ⟨-, rfl⟩ := Prod.mk.inj (Option.some.inj hderef)
    exact ⟨c, k₁, k₂, hcreate, hattrs, hnew, hok⟩
  · cases hderef

theorem granted_of_failures (h : chrdevInit V o k = some ((rc, g), t))
    (hfailures : t.failures = k.failures) : o.Granted V k := by
  obtain ⟨c, k₁, k₂, hcreate, hattrs, hnew, hok⟩ := chrdevInit_inv h
  obtain ⟨-, hC⟩ := createChrdev_created hcreate
  have hgrows := V.grows hattrs
  have h₁ := hC.failures_le
  have h₂ := hgrows.failures
  have h₃ := hnew.failures_le
  exact ⟨hC.complete.mp (hC.failures_eq.mp (by omega)), hgrows.granted (by omega), hok⟩

theorem cdev_of_init (h : chrdevInit V o k = some ((rc, g), t)) :
    ∃ a, .cdev a .default ∈ t.held ∧ .cdev a .default ∉ k.held := by
  obtain ⟨c, k₁, k₂, hcreate, hattrs, hnew, -⟩ := chrdevInit_inv h
  obtain ⟨-, hC⟩ := createChrdev_created hcreate
  obtain ⟨a, ha⟩ := Option.isSome_iff_exists.mp hC.cdev
  have hown : c.Owns (MKDEV cdevMajor 0) "chardev0" (.cdev a .default) := ⟨ha, rfl⟩
  have hin := (V.grows hattrs).held ((hC.held _).mpr (.inr hown))
  exact ⟨a, (hnew.held _).mpr (.inl hin), hC.new _ hown⟩

theorem chrdevExit_releases {a q p m : ℕ}
    (hdev : .device p q (MKDEV cdevMajor 0) ∈ t.held) (hcls : t.has (·.isClass q))
    (hcdev : .cdev a .default ∈ t.held) (hpdata : .memory m ∈ t.held) :
    ∃ u, chrdevExit V ⟨MKDEV cdevMajor 0, some a, some q, some p, some m⟩ t = some ((), u) ∧
      (∀ x, x ∈ u.held ↔
        x ∈ t.held ∧ ¬ (TakenDown q a (MKDEV cdevMajor 0) t x ∨ x = .memory m)) ∧
      u.misuses = t.misuses := by
  obtain ⟨k₀, hrun₀, hmis₀, hsub, hkeep⟩ := V.removed (p := p) (k := t)
  have hkept {x : Resource} (hx : ∀ name, x ≠ .attr p name) : x ∈ k₀.held ↔ x ∈ t.held :=
    ⟨fun h => hsub h, fun h => hkeep x h hx⟩
  have hcls₀ : k₀.has (·.isClass q) := by
    obtain ⟨x, hx, hq⟩ := Kernel.has_iff.mp hcls
    refine Kernel.has_iff.mpr ⟨x, (hkept ?_).mpr hx, hq⟩
    rintro name rfl
    cases hq
  obtain ⟨k₁, k₂, k₃, k₄, hrun₁, hrun₂, hrun₃, hrun₄, hheld, hmis₄⟩ :=
    takeDown_releases (MKDEV cdevMajor 0) hcls₀ ((hkept (by simp)).mpr hcdev)
  have hpdata₄ : .memory m ∈ k₄.held := (hheld _).mpr ⟨(hkept (by simp)).mpr hpdata, id⟩
  obtain ⟨u, hrun₅, h₅⟩ := kfree_took m k₄
  refine ⟨u, ?_, fun x => ?_, (h₅.misuses_eq.mpr hpdata₄).trans (hmis₄.trans hmis₀)⟩
  · refine (bind_some hrun₀).trans ((bind_some hrun₁).trans ((bind_some hrun₂).trans ?_))
    exact (bind_some hrun₃).trans ((bind_some hrun₄).trans hrun₅)
  · rw [h₅.held, hheld, and_assoc, ← not_or]
    cases x with
    | attr b n =>
      -- The files of the node go with the node if exit has not removed them before.
      by_cases hb : b = p
      · subst hb
        simp [TakenDown, hkept, hdev]
      · simp [TakenDown, hkept, hb]
    | _ => simp [TakenDown, hkept]

/-- Exit gives back what init has acquired but for the structure of the cdev, and nothing else. -/
theorem chrdevExit_leaves {c : Chrdev} {a q p m : ℕ}
    (hcdev : c.cdev = some a) (hcls : c.cls = some q) (hdev : c.dev = some p)
    (hheld : ∀ x, x ∈ t.held ↔ x ∈ k.held ∨ c.Owns (MKDEV cdevMajor 0) "chardev0" x ∨
      (∃ name ∈ V.names, x = .attr p name) ∨ x = .memory m)
    (hnext : k.next ≤ a ∧ k.next ≤ q ∧ k.next ≤ p ∧ k.next ≤ m)
    (hregion : .region (MKDEV cdevMajor 0) ∉ k.held)
    (hnode : ¬ k.has (·.isDeviceNumbered (MKDEV cdevMajor 0))) :
    ∃ u, chrdevExit V ⟨MKDEV cdevMajor 0, some a, some q, some p, some m⟩ t = some ((), u) ∧
      u.held = insert (.cdev a .default) k.held ∧ u.misuses = t.misuses := by
  have howned {x : Resource} (hx : c.Owns (MKDEV cdevMajor 0) "chardev0" x) : x ∈ t.held :=
    (hheld x).mpr (.inr (.inl hx))
  have hdevice : .device p q (MKDEV cdevMajor 0) ∈ t.held := howned ⟨hdev, hcls, rfl⟩
  have hclass : t.has (·.isClass q) :=
    Kernel.has_iff.mpr ⟨.cls q "chardev0", howned ⟨hcls, rfl⟩, by simp [Resource.isClass]⟩
  obtain ⟨u, hrun, hu, hmisuses⟩ := chrdevExit_releases (V := V) hdevice hclass
    (howned (x := .cdev a .default) ⟨hcdev, rfl⟩) ((hheld _).mpr (.inr (.inr (.inr rfl))))
  have hback (x : Resource) (hx : (∃ name ∈ V.names, x = .attr p name) ∨ x = .memory m) :
      TakenDown q a (MKDEV cdevMajor 0) t x ∨ x = .memory m := by
    refine hx.imp_left ?_
    rintro ⟨name, -, rfl⟩
    exact hdevice
  have hnew (x : Resource) (hx : x = .memory m) : x ∉ k.held :=
    hx ▸ Kernel.notMem_of_next_le hnext.2.2.2 rfl
  refine ⟨u, hrun, ?_, hmisuses⟩
  exact leaves_cdev hcdev hcls hdev ⟨hnext.1, hnext.2.1, hnext.2.2.1⟩ hregion hnode hheld hu
    hback hnew (by simp) (by simp)

theorem leavesCdev_of_granted (h : o.Granted V k) : (chrdev V).LeavesCdev o k := by
  obtain ⟨c, k₁, hcreate⟩ :=
    createChrdev_returns (MKDEV cdevMajor 0) "chardev0" k h.chrdev.cdev
  obtain ⟨-, hC⟩ := createChrdev_created hcreate
  have hcomplete := hC.complete.mpr h.chrdev
  obtain ⟨a, ha⟩ := Option.isSome_iff_exists.mp hC.cdev
  obtain ⟨q, hq⟩ := Option.isSome_iff_exists.mp hcomplete.cls
  obtain ⟨p, hp⟩ := Option.isSome_iff_exists.mp hcomplete.dev
  obtain ⟨k₂, hattrs, hF⟩ := V.created (p := p) (k := k₁) h.attrs
  obtain ⟨k₃, hpdata, hm⟩ : ∃ t, kzalloc o.pdata k₂ = some (some k₂.next, t) ∧
      Answered (o.pdata.rc = 0) (.memory k₂.next) k₂ t := by
    obtain ⟨hm, ⟨hsome, -⟩ | ⟨-, hbad⟩⟩ := kzalloc_answered (o := o.pdata) (k := k₂) rfl
    · exact ⟨_, congrArg (fun ptr => some (ptr, _)) hsome, hm⟩
    · exact absurd h.pdata hbad
  have hinit : (chrdev V).init o k =
      some ((0, ⟨MKDEV cdevMajor 0, some a, some q, some p, some k₂.next⟩), k₃) := by
    refine (bind_some hcreate).trans ?_
    rw [hcomplete.rc, ha, hq, hp]
    refine (bind_some hattrs).trans ((bind_some hpdata).trans ?_)
    exact (bind_some (deref_some _ _)).trans ((bind_some V.bound).trans rfl)
  have hheld (x : Resource) : x ∈ k₃.held ↔ x ∈ k.held ∨
      c.Owns (MKDEV cdevMajor 0) "chardev0" x ∨ (∃ name ∈ V.names, x = .attr p name) ∨
      x = .memory k₂.next := by
    rw [hm.held, hF.held, hC.held, or_assoc, or_assoc]
    simp [h.pdata]
  have hnext : k.next ≤ a ∧ k.next ≤ q ∧ k.next ≤ p ∧ k.next ≤ k₂.next :=
    ⟨hC.addresses a (.inl ha), hC.addresses q (.inr (.inl hq)), hC.addresses p (.inr (.inr hp)),
      hC.next.trans hF.next⟩
  have hmisuses : k₃.misuses = k.misuses := by
    rw [hm.misuses, hF.misuses, hC.misuses hcomplete.cls]
  obtain ⟨u, hexit, hu, humis⟩ := chrdevExit_leaves (V := V) ha hq hp hheld hnext
    h.chrdev.regionFree h.chrdev.deviceFree
  refine ⟨_, k₃, u, hinit, hmisuses, ?_, hexit, humis.trans hmisuses, ?_⟩
  · rw [hm.kept h.pdata, hF.failures, hC.failures_eq.mpr hcomplete]
  · exact .of_insert (x := .cdev a .default) rfl (Kernel.notMem_of_next_le hnext.1 rfl) hu

theorem chrdev_iff : (chrdev V).LeavesCdev o k ↔ o.Granted V k := by
  constructor
  · rintro ⟨g, t, u, hinit, -, hfailures, -⟩
    exact granted_of_failures hinit hfailures
  · exact leavesCdev_of_granted

theorem chrdev_never : ¬ (chrdev V).AllOrNothing o k := by
  intro h
  obtain ⟨rc, g, t, hinit, -, hfailed, hloaded⟩ := id h
  by_cases hrc : rc = 0
  · have hgranted := granted_of_failures hinit (hloaded hrc).1
    exact Driver.not_allOrNothing (leavesCdev_of_granted hgranted) h
  · obtain ⟨a, hin, hnew⟩ := cdev_of_init hinit
    rw [hfailed hrc] at hin
    exact hnew hin

end

structure MiscCalls where
  misc : Status
  group : Status
  pdata : Status

def furnishMisc (o : MiscCalls) (dev : Pointer) : KernelM (ℤ × Pointer) := do
  let rc ← sysfsCreateGroup o.group dev ["size", "buffer"]
  if rc ≠ 0 then
    return (rc, none)
  else
    let pdata ← kzalloc o.pdata
    let _ ← deref pdata
    setDrvdata dev
    return (rc, pdata)

/-- `my_misc_init`; its labels `err` and `err_reg` undo nothing. -/
def myMiscInit (o : MiscCalls) : KernelM (ℤ × Pointer) := do
  let (rc, dev) ← miscRegister o.misc "my_misc"
  if rc < 0 then
    return (rc, none)
  else
    furnishMisc o dev

def myMiscExit (_ : Pointer) : KernelM Unit := miscDeregister "my_misc"

def myMisc : Driver MiscCalls Pointer := ⟨myMiscInit, myMiscExit⟩

def MiscCalls.Registered (o : MiscCalls) (k : Kernel) : Prop :=
  o.misc.rc = 0 ∧ ¬ k.has (·.isMiscNamed "my_misc")

section

variable {o : MiscCalls} {k : Kernel}

theorem myMiscInit_refused (h : ¬ o.Registered k) :
    ∃ rc, rc ≠ 0 ∧ myMiscInit o k = some ((rc, none), k.fail) := by
  by_cases htaken : k.has (·.isMiscNamed "my_misc")
  · refine ⟨-EEXIST, by decide, ?_⟩
    simp [myMiscInit, miscRegister, request, htaken, StateT.bind, bind, EEXIST]
  · have hrc : o.misc.rc ≠ 0 := fun hrc => h ⟨hrc, htaken⟩
    have hneg : o.misc.rc < 0 := lt_of_le_of_ne o.misc.nonpos hrc
    refine ⟨o.misc.rc, hrc, ?_⟩
    simp [myMiscInit, miscRegister, request, htaken, hrc, hneg, StateT.bind, bind]

theorem myMiscInit_registered (h : o.Registered k) :
    myMiscInit o k = furnishMisc o (some k.next) (k.hold (.misc k.next "my_misc")) := by
  have hreg : miscRegister o.misc "my_misc" k =
      some ((0, some k.next), k.hold (.misc k.next "my_misc")) := by
    simp [miscRegister, request, h.1, h.2]
  exact (bind_some hreg).trans rfl

theorem furnishMisc_keeps {p : ℕ} {rc : ℤ} {pdata : Pointer} {t : Kernel}
    (h : furnishMisc o (some p) k = some ((rc, pdata), t)) :
    k.held ⊆ t.held ∧ (rc = 0 → ∃ m, .memory m ∈ t.held ∧ k.next ≤ m) := by
  obtain ⟨rc', k₁, hgroup, h⟩ := bind_inv h
  have hgrows := sysfsCreateGroup_grows hgroup
  split at h
  case isTrue hbad =>
    obtain ⟨hret, rfl⟩ := Prod.mk.inj (Option.some.inj h)
    obtain ⟨rfl, -⟩ := Prod.mk.inj hret
    exact ⟨hgrows.held, fun h0 => absurd h0 hbad⟩
  case isFalse =>
    obtain ⟨ptr, k₂, hpdata, h⟩ := bind_inv h
    obtain ⟨m, k₂', hderef, h⟩ := bind_inv h
    obtain ⟨_, k₃, hdata, h⟩ := bind_inv h
    obtain ⟨-, rfl⟩ := Prod.mk.inj (Option.some.inj h)
    obtain rfl := setDrvdata_only hdata
    obtain ⟨hm, ⟨rfl, hok⟩ | ⟨rfl, -⟩⟩ := kzalloc_answered hpdata
    · obtain ⟨-, rfl⟩ := Prod.mk.inj (Option.some.inj hderef)
      exact ⟨hgrows.held.trans fun x hx => (hm.held x).mpr (.inl hx), fun _ =>
        ⟨k₁.next, (hm.held _).mpr (.inr ⟨hok, rfl⟩), hgrows.next⟩⟩
    · cases hderef

theorem myMisc_iff : myMisc.AllOrNothing o k ↔ ¬ o.Registered k := by
  constructor
  · rintro ⟨rc, g, t, hinit, -, hfailed, hloaded⟩ hreg
    have hrest := (myMiscInit_registered hreg).symm.trans hinit
    obtain ⟨hkeeps, hmem⟩ := furnishMisc_keeps hrest
    by_cases hrc : rc = 0
    · -- The private data outlive the module: exit frees nothing.
      obtain ⟨-, u, hexit, hu, -⟩ := hloaded hrc
      obtain ⟨m, hm, hle⟩ := hmem hrc
      obtain ⟨-, rfl⟩ := Prod.mk.inj (Option.some.inj hexit)
      have hin : .memory m ∈ k.held := by
        rw [← hu]
        simp [hm]
      exact Kernel.notMem_of_next_le (Kernel.next_le_hold.trans hle) rfl hin
    · have hin := hkeeps (Kernel.mem_hold.mpr (.inl rfl))
      rw [hfailed hrc] at hin
      exact Kernel.notMem_of_next_le le_rfl rfl hin
  · intro hno
    obtain ⟨rc, hrc, hinit⟩ := myMiscInit_refused hno
    exact ⟨rc, none, k.fail, hinit, rfl, fun _ => rfl, fun h0 => absurd h0 hrc⟩

end

section

variable {O G : Type} {D : Driver O G} {k : Kernel}

theorem cycle_restores {o : O} (h : D.AllOrNothing o k) :
    ∃ t, D.cycle o k = some ((), t) ∧ t.held = k.held ∧ t.misuses = k.misuses := by
  obtain ⟨rc, g, t, hinit, hmisuses, hfailed, hloaded⟩ := h
  by_cases hrc : rc = 0
  · obtain ⟨-, u, hexit, hu, humis⟩ := hloaded hrc
    refine ⟨u, (bind_some hinit).trans ?_, hu, humis⟩
    exact (congrFun (if_pos hrc) t).trans hexit
  · refine ⟨t, (bind_some hinit).trans ?_, hfailed hrc, hmisuses⟩
    exact congrFun (if_neg hrc) t

theorem cycles_restore {os : List O}
    (h : ∀ o ∈ os, ∀ t, t.held = k.held → D.AllOrNothing o t) :
    ∃ t, D.cycles os k = some ((), t) ∧ t.held = k.held ∧ t.misuses = k.misuses := by
  induction os generalizing k with
  | nil => exact ⟨k, rfl, rfl, rfl⟩
  | cons o os ih =>
    obtain ⟨t, hcycle, ht, hmisuses⟩ := cycle_restores (h o List.mem_cons_self k rfl)
    have hrest : ∀ d ∈ os, ∀ u, u.held = t.held → D.AllOrNothing d u := fun d hd u hu =>
      h d (List.mem_cons_of_mem o hd) u (hu.trans ht)
    obtain ⟨u, hcycles, hu, humis⟩ := ih hrest
    exact ⟨u, (bind_some hcycle).trans hcycles, hu.trans ht, humis.trans hmisuses⟩

/-- From the state `k` a load is all or nothing exactly under the condition, and loads and
unloads in sequence that meet it leave the resources as they were. -/
structure LoadsWhen (D : Driver O G) (C : O → Kernel → Prop) (k : Kernel) : Prop where
  once : ∀ o, D.AllOrNothing o k ↔ C o k
  cycles : ∀ os, (∀ o ∈ os, C o k) →
    ∃ t, D.cycles os k = some ((), t) ∧ t.held = k.held ∧ t.misuses = k.misuses

theorem loadsWhen_of_iff {C : O → Kernel → Prop} (hiff : ∀ {o k}, D.AllOrNothing o k ↔ C o k)
    (hheld : ∀ {o k t}, t.held = k.held → C o k → C o t) : LoadsWhen D C k :=
  ⟨fun _ => hiff, fun _ h => cycles_restore fun o ho _ ht => hiff.mpr (hheld ht (h o ho))⟩

end

theorem Calls.Granted.of_leaked {V : Attributes A} {o : Calls A} {k t : Kernel} {n : ℕ}
    (ht : Leaked n k t) (h : o.Granted V k) : o.Granted V t :=
  ⟨h.chrdev.of_leaked ht, h.attrs, h.pdata⟩

theorem registered_of_held {o : MiscCalls} {k t : Kernel} (ht : t.held = k.held)
    (h : ¬ o.Registered k) : ¬ o.Registered t := by
  unfold MiscCalls.Registered at *
  rwa [Kernel.has_congr ht]

/-- No load of the three character drivers is all or nothing, and one of the misc driver exactly
where it cannot be registered. -/
theorem loading (k : Kernel) :
    (∀ o, ¬ myChrdev.AllOrNothing o k) ∧ (∀ o, ¬ myCreateAttr.AllOrNothing o k) ∧
    (∀ o, ¬ myCreateGroupAttr.AllOrNothing o k) ∧ LoadsWhen myMisc (fun o k => ¬ o.Registered k) k :=
  ⟨fun _ => chrdev_never, fun _ => chrdev_never, fun _ => chrdev_never,
    loadsWhen_of_iff myMisc_iff registered_of_held⟩

/-- Every call of init is granted, and still the module cannot be unloaded without a trace. -/
theorem load_leaks :
    ¬ ((∀ o k, myChrdev.AllOrNothing o k) ∧ (∀ o k, myCreateAttr.AllOrNothing o k) ∧
      (∀ o k, myCreateGroupAttr.AllOrNothing o k) ∧ ∀ o k, myMisc.AllOrNothing o k) := by
  rintro ⟨h, -, -, -⟩
  have hgranted : ChrdevCreation.Granted .allSucceed (MKDEV cdevMajor 0) "chardev0" .empty := by
    constructor <;> decide
  have hleaves : myChrdev.LeavesCdev ⟨.allSucceed, (), .success⟩ .empty :=
    chrdev_iff.mpr ⟨hgranted, trivial, rfl⟩
  exact Driver.not_allOrNothing hleaves (h _ _)

end ChardevLoading
