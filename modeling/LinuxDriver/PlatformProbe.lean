import LinuxDriver.ChrdevCreation
import LinuxDriver.CMemory

/-!
# platform: the probe function

`my_platform_probe` allocates the driver data, reads the device tree, stores the data in
the platform device and sets up a character device.
-/
namespace PlatformProbe

open KernelTypes KernelResources ChrdevCreation CMemory

def cdevMajor : ℕ := 254
def cdevMinor : ℕ := 22
def className : String := "platform_chardev0"

def nameSize : ℕ := 64

/-- `struct my_platform_drvdata`, with the memory from the start of `name` on: the array and
whatever follows it. -/
structure DrvData where
  cdev : Pointer
  size : BitVec 32
  mem : List UInt8
  room : nameSize ≤ mem.length
  deriving DecidableEq, Repr

def DrvData.zeroed (beyond : List UInt8) : DrvData :=
  ⟨none, 0, List.replicate nameSize 0 ++ beyond, le_length_zeros nameSize beyond⟩

/-- `memset` of the whole array, then `memcpy` of the string without its terminator. -/
def nameWrites (name : List UInt8) : List Write :=
  memset 0 0 nameSize ++ memcpy 0 (cString name)

def DrvData.setName (d : DrvData) (name : List UInt8) : DrvData :=
  { d with mem := applyWrites d.mem (nameWrites name), room := by simpa using d.room }

abbrev Property (α : Type) := Except ℕ α

structure Node where
  size : Property (BitVec 32)
  name : Property (List UInt8)
  deriving DecidableEq, Repr

structure Calls where
  drvdata : Status
  chrdev : Outcomes

structure Binding where
  drvdata : ℕ
  data : DrvData
  chrdev : Chrdev
  deriving DecidableEq, Repr

/-- `platform_set_drvdata` has been called where there is a binding; before, the driver core
has left the pointer null. -/
structure Result where
  rc : ℤ
  binding : Option Binding
  deriving DecidableEq, Repr

def Result.drvdata (r : Result) : Pointer := r.binding.map Binding.drvdata

def errDt (drvdata : Pointer) (rc : ℤ) : KernelM Result := do
  kfree drvdata
  return ⟨rc, none⟩

/-- `my_platform_probe` from the character device on; the code of `register_chrdev_region`
is overwritten by the final `return 0`. -/
def bindDevice (o : Outcomes) (drvdata : ℕ) (data : DrvData) : KernelM Result := do
  let c ← createChrdev o (MKDEV cdevMajor cdevMinor) className
  return ⟨0, some ⟨drvdata, { data with cdev := c.cdev }, c⟩⟩

/-- `my_platform_probe`; a missing node leaves by a bare return. -/
def myPlatformProbe (o : Calls) (node : Option Node) (beyond : List UInt8) : KernelM Result := do
  let drvdata ← kzalloc o.drvdata
  match drvdata, node with
  | none, _ => return ⟨-ENOMEM, none⟩
  | some _, none => return ⟨-ENODEV, none⟩
  | some p, some node =>
    match node.size, node.name with
    | .error _, _ => errDt (some p) (-EINVAL)
    | .ok _, .error _ => errDt (some p) (-EINVAL)
    | .ok size, .ok name =>
      bindDevice o.chrdev p ({ DrvData.zeroed beyond with size := size }.setName name)

/-- The probe returns; with a negative code it has released everything and left no pointer to
freed memory, and with 0 every call has succeeded. -/
def Clean (o : Calls) (node : Option Node) (beyond : List UInt8) (k : Kernel) : Prop :=
  ∃ r t, myPlatformProbe o node beyond k = some (r, t) ∧
    (r.rc < 0 → t.held = k.held ∧ ∀ p, r.drvdata = some p → .memory p ∈ t.held) ∧
    (r.rc = 0 → t.failures = k.failures ∧ ∃ size name, node = some ⟨.ok size, .ok name⟩)

def Undone (o : Calls) (node : Option Node) : Prop :=
  o.drvdata.rc ≠ 0 ∨ ∃ n, node = some n ∧ (¬ n.size.isOk ∨ ¬ n.name.isOk)

structure AllGranted (o : Calls) (node : Option Node) (k : Kernel) : Prop where
  drvdata : o.drvdata.rc = 0
  node : ∃ size name, node = some ⟨.ok size, .ok name⟩
  chrdev : Granted o.chrdev (MKDEV cdevMajor cdevMinor) className k

section

variable {o : Calls} {node : Option Node} {beyond : List UInt8} {k : Kernel}

theorem probe_null (h : o.drvdata.rc ≠ 0) :
    myPlatformProbe o node beyond k = some (⟨-ENOMEM, none⟩, k.fail) :=
  (bind_some (kzalloc_null h)).trans rfl

theorem probe_no_node (h : o.drvdata.rc = 0) :
    myPlatformProbe o none beyond k = some (⟨-ENODEV, none⟩, k.hold (.memory k.next)) :=
  (bind_some (kzalloc_some h)).trans rfl

theorem ok_of_isOk {n : Node} (hn : ¬ (¬ n.size.isOk ∨ ¬ n.name.isOk)) :
    ∃ size name, n = ⟨.ok size, .ok name⟩ := by
  obtain ⟨size, name⟩ := n
  cases size with
  | error => simp [Except.isOk, Except.toBool] at hn
  | ok size =>
    cases name with
    | error => simp [Except.isOk, Except.toBool] at hn
    | ok name => exact ⟨size, name, rfl⟩

theorem probe_unread {n : Node} (h : o.drvdata.rc = 0) (hn : ¬ n.size.isOk ∨ ¬ n.name.isOk) :
    myPlatformProbe o (some n) beyond k =
      errDt (some k.next) (-EINVAL) (k.hold (.memory k.next)) := by
  refine (bind_some (kzalloc_some h)).trans ?_
  obtain ⟨size, name⟩ := n
  cases size with
  | error => rfl
  | ok size =>
    cases name with
    | error => rfl
    | ok name => simp [Except.isOk, Except.toBool] at hn

theorem probe_read {size : BitVec 32} {name : List UInt8} (h : o.drvdata.rc = 0) :
    myPlatformProbe o (some ⟨.ok size, .ok name⟩) beyond k =
      bindDevice o.chrdev k.next ({ DrvData.zeroed beyond with size := size }.setName name)
        (k.hold (.memory k.next)) :=
  (bind_some (kzalloc_some h)).trans rfl

theorem probe_zero {r : Result} {t : Kernel}
    (h : myPlatformProbe o node beyond k = some (r, t)) (hrc : r.rc = 0) :
    ∃ (data : DrvData) (c : Chrdev), createChrdev o.chrdev (MKDEV cdevMajor cdevMinor) className
        (k.hold (.memory k.next)) = some (c, t) ∧
      r.binding = some ⟨k.next, { data with cdev := c.cdev }, c⟩ := by
  by_cases ho : o.drvdata.rc = 0
  case neg =>
    rw [probe_null ho] at h
    obtain ⟨rfl, rfl⟩ := Prod.mk.inj (Option.some.inj h)
    exact absurd hrc (by decide)
  cases node with
  | none =>
    rw [probe_no_node ho] at h
    obtain ⟨rfl, rfl⟩ := Prod.mk.inj (Option.some.inj h)
    exact absurd hrc (by decide)
  | some n =>
    by_cases hn : ¬ n.size.isOk ∨ ¬ n.name.isOk
    · rw [probe_unread ho hn] at h
      obtain ⟨_, u, hfree, h⟩ := bind_inv h
      obtain ⟨rfl, rfl⟩ := Prod.mk.inj (Option.some.inj h)
      exact absurd hrc (by decide)
    · obtain ⟨size, name, rfl⟩ := ok_of_isOk hn
      rw [probe_read ho] at h
      obtain ⟨c, u, hcreate, h⟩ := bind_inv h
      obtain ⟨rfl, rfl⟩ := Prod.mk.inj (Option.some.inj h)
      exact ⟨_, c, hcreate, rfl⟩

theorem clean_of_null (h : o.drvdata.rc ≠ 0) : Clean o node beyond k := by
  refine ⟨_, _, probe_null h, fun _ => ⟨rfl, ?_⟩, ?_⟩
  · rintro p ⟨⟩
  · intro h0
    exact absurd h0 (by decide)

theorem not_clean_of_no_node (h : o.drvdata.rc = 0) : ¬ Clean o none beyond k := by
  rintro ⟨r, t, hrun, hneg, -⟩
  rw [probe_no_node h] at hrun
  obtain ⟨rfl, rfl⟩ := Prod.mk.inj (Option.some.inj hrun)
  have hheld := (hneg (by decide)).1
  have hin : Resource.memory k.next ∈ k.held := hheld ▸ Kernel.mem_hold.mpr (.inl rfl)
  exact Kernel.notMem_of_next_le le_rfl rfl hin

theorem clean_of_unread {n : Node} (h : o.drvdata.rc = 0)
    (hn : ¬ n.size.isOk ∨ ¬ n.name.isOk) : Clean o (some n) beyond k := by
  obtain ⟨t, hfree, hheld⟩ := kfree_latest k
  refine ⟨⟨-EINVAL, none⟩, t, (probe_unread h hn).trans ((bind_some hfree).trans rfl),
    fun _ => ⟨hheld, ?_⟩, ?_⟩
  · rintro p ⟨⟩
  · intro h0
    exact absurd h0 (by decide)

theorem clean_iff_of_read {size : BitVec 32} {name : List UInt8} (h : o.drvdata.rc = 0) :
    Clean o (some ⟨.ok size, .ok name⟩) beyond k ↔
      Granted o.chrdev (MKDEV cdevMajor cdevMinor) className k := by
  have hsame : Granted o.chrdev (MKDEV cdevMajor cdevMinor) className
      (k.hold (.memory k.next)) ↔ Granted o.chrdev (MKDEV cdevMajor cdevMinor) className k :=
    granted_iff_of_answered (kzalloc_answered (kzalloc_some h)).1 (by simp) rfl rfl
  rw [← hsame]
  constructor
  · rintro ⟨r, t, hrun, -, hzero⟩
    rw [probe_read h] at hrun
    obtain ⟨c, u, hcreate, hrun⟩ := bind_inv hrun
    obtain ⟨rfl, rfl⟩ := Prod.mk.inj (Option.some.inj hrun)
    obtain ⟨-, hC⟩ := createChrdev_created hcreate
    exact hC.complete.mp (hC.failures_eq.mp (hzero rfl).1)
  · intro hg
    obtain ⟨c, t, hcreate⟩ := createChrdev_returns (MKDEV cdevMajor cdevMinor) className
      (k.hold (.memory k.next)) hg.cdev
    obtain ⟨-, hC⟩ := createChrdev_created hcreate
    refine ⟨_, t, (probe_read h).trans ((bind_some hcreate).trans rfl), ?_, fun _ => ⟨?_, size,
      name, rfl⟩⟩
    · intro hneg
      exact absurd (show (0 : ℤ) < 0 from hneg) (lt_irrefl 0)
    · exact hC.failures_eq.mpr (hC.complete.mpr hg)

theorem probe_clean_iff (o : Calls) (node : Option Node) (beyond : List UInt8) (k : Kernel) :
    Clean o node beyond k ↔ Undone o node ∨ AllGranted o node k := by
  by_cases h : o.drvdata.rc = 0
  case neg => exact iff_of_true (clean_of_null h) (.inl (.inl h))
  cases node with
  | none =>
    refine iff_of_false (not_clean_of_no_node h) ?_
    rintro ((hno | ⟨n, hn, -⟩) | hall)
    · exact hno h
    · cases hn
    · obtain ⟨size, name, hn⟩ := hall.node
      cases hn
  | some n =>
    by_cases hn : ¬ n.size.isOk ∨ ¬ n.name.isOk
    · exact iff_of_true (clean_of_unread h hn) (.inl (.inr ⟨n, rfl, hn⟩))
    · have hundone : ¬ Undone o (some n) := by
        rintro (hno | ⟨m, hm, hbad⟩)
        · exact hno h
        · obtain rfl := Option.some.inj hm
          exact hn hbad
      obtain ⟨size, name, rfl⟩ := ok_of_isOk hn
      rw [or_iff_right hundone, clean_iff_of_read h]
      exact ⟨fun hg => ⟨h, ⟨size, name, rfl⟩, hg⟩, AllGranted.chrdev⟩

end

/-- A platform device without a device tree node. -/
theorem drvdata_leaked :
    ¬ ∀ o node beyond k, Clean o node beyond k := by
  intro h
  have hclean : Clean ⟨.success, .allSucceed⟩ none [] .empty := h _ none [] .empty
  exact not_clean_of_no_node rfl hclean

/-- The copy stays inside the array, ends it with a NUL and leaves the rest of the structure
and the memory behind it alone; the probe fails or has stored the very string. -/
structure NameSafe (name : List UInt8) : Prop where
  inside : ∀ w ∈ nameWrites name, w.offset < nameSize
  terminated : ∀ d : DrvData, 0 ∈ (d.setName name).mem.take nameSize
  frame : ∀ d : DrvData, (d.setName name).cdev = d.cdev ∧ (d.setName name).size = d.size ∧
    (d.setName name).mem.drop nameSize = d.mem.drop nameSize
  stored : ∀ o size beyond k r t,
    myPlatformProbe o (some ⟨.ok size, .ok name⟩) beyond k = some (r, t) →
      r.rc < 0 ∨ ∃ b, r.binding = some b ∧ b.data.size = size ∧ cString b.data.mem = cString name

theorem setName_mem (d : DrvData) (name : List UInt8) :
    (d.setName name).mem = applyWrites d.mem (nameWrites name) := by
  simp only [DrvData.setName]

theorem mem_setName (d : DrvData) {name : List UInt8} (h : strlen name ≤ nameSize) :
    (d.setName name).mem =
      cString name ++ List.replicate (nameSize - strlen name) 0 ++ d.mem.drop nameSize := by
  have hfill := applyWrites_fill d.room (show (cString name).length ≤ nameSize from h)
  rw [setName_mem, nameWrites, hfill, strlen]

theorem setName_terminated_iff (d : DrvData) {name : List UInt8} (h : strlen name ≤ nameSize) :
    0 ∈ (d.setName name).mem.take nameSize ↔ strlen name < nameSize := by
  have hzero := zero_mem_fill_iff d.room (show (cString name).length ≤ nameSize from h)
  rw [setName_mem, nameWrites, hzero]
  constructor
  · rintro (hlt | ⟨-, hin⟩)
    · exact hlt
    · exact absurd hin (zero_notMem_cString name)
  · exact .inl

theorem cString_setName (d : DrvData) {name : List UInt8} (h : strlen name < nameSize) :
    cString (d.setName name).mem = cString name := by
  have hterm : 0 ∈ cString name ++ List.replicate (nameSize - strlen name) 0 :=
    List.mem_append_right _ (List.mem_replicate.mpr ⟨by omega, rfl⟩)
  rw [mem_setName d h.le, cString_append_of_mem hterm, cString_append_zeros]
  exact cString_eq_self (zero_notMem_cString name)

theorem probe_data {o : Calls} {size : BitVec 32} {name beyond : List UInt8} {k t : Kernel}
    {r : Result} (h : myPlatformProbe o (some ⟨.ok size, .ok name⟩) beyond k = some (r, t)) :
    r.rc < 0 ∨ ∃ b, r.binding = some b ∧ b.data.size = size ∧
      b.data.mem = ((DrvData.zeroed beyond).setName name).mem := by
  by_cases ho : o.drvdata.rc = 0
  · rw [probe_read ho] at h
    obtain ⟨c, u, -, h⟩ := bind_inv h
    obtain ⟨rfl, rfl⟩ := Prod.mk.inj (Option.some.inj h)
    refine .inr ⟨_, rfl, rfl, ?_⟩
    rw [setName_mem, setName_mem]
  · rw [probe_null ho] at h
    obtain ⟨rfl, rfl⟩ := Prod.mk.inj (Option.some.inj h)
    exact .inl (by decide)

theorem nameWrites_inside_iff {name : List UInt8} :
    (∀ w ∈ nameWrites name, w.offset < nameSize) ↔ strlen name ≤ nameSize := by
  rw [nameWrites, strlen]
  exact fill_inside_iff

theorem strlen_lt_of_nameSafe {name : List UInt8} (h : NameSafe name) :
    strlen name < nameSize := by
  have hle := nameWrites_inside_iff.mp h.inside
  exact (setName_terminated_iff (.zeroed []) hle).mp (h.terminated _)

/-- A string of 64 characters has no room for its terminator, a longer one runs over the end. -/
theorem name_safe_iff (name : List UInt8) : NameSafe name ↔ strlen name < nameSize := by
  constructor
  · exact strlen_lt_of_nameSafe
  · intro h
    constructor
    · exact nameWrites_inside_iff.mpr h.le
    · exact fun d => (setName_terminated_iff d h.le).mpr h
    · intro d
      refine ⟨rfl, rfl, ?_⟩
      rw [mem_setName d h.le]
      apply List.drop_left'
      simp only [List.length_append, List.length_replicate, strlen] at h ⊢
      omega
    · intro o size beyond k r t hrun
      rcases probe_data hrun with hneg | ⟨b, hb, hsize, hmem⟩
      · exact .inl hneg
      · exact .inr ⟨b, hb, hsize, by rw [hmem, cString_setName _ h]⟩

theorem name_unterminated : ¬ ∀ name, NameSafe name := by
  intro h
  have hlt := strlen_lt_of_nameSafe (h (List.replicate 64 97))
  exact absurd hlt (by decide)

end PlatformProbe
