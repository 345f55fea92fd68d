import LinuxDriver.InputI2c

/-!
# input/my_i2c: the probe function and its copies of registers

`tsu6721_probe` keeps copies of the device's registers in its driver data. It reads two of
them, sets one of the copies and writes it to the device. What the transfers have returned
is not looked at.
-/
namespace InputI2cProbe

open CMemory KernelTypes KernelResources RegisterFile InputI2c

def TSU6721_DEVICEID : UInt8 := 0x01
def TSU6721_CONTROL : UInt8 := 0x02
def TSU6721_DEVICETYPE4 : UInt8 := 0x23
def TSU6721_MAX_ADDR : ℕ := TSU6721_DEVICETYPE4.toNat + 1

structure Tsu6721Data where
  client : UInt16
  regAddr : UInt8
  regData : List UInt8
  size : regData.length = TSU6721_MAX_ADDR
  deriving DecidableEq

namespace Tsu6721Data

def zeroed (client : UInt16) : Tsu6721Data :=
  ⟨client, 0, List.replicate TSU6721_MAX_ADDR 0, List.length_replicate⟩

def regDataAt (d : Tsu6721Data) (reg : UInt8) : List UInt8 := d.regData.drop reg.toNat

def store (d : Tsu6721Data) (reg : UInt8) (mem : List UInt8) : Tsu6721Data :=
  { d with
    regData := applyWrites d.regData (memcpy reg.toNat mem)
    size := by simpa using d.size }

end Tsu6721Data

/-- The driver data, and the device at the other end of the bus. -/
structure Shadowed where
  data : Tsu6721Data
  device : Registers

namespace Shadowed

def readSeq (s : Shadowed) (o : Status) (reg numReg : UInt8) : Shadowed :=
  let t := (tsu6721I2cReadSeq s.data.client reg (s.data.regDataAt reg) numReg).run o s.device
  ⟨s.data.store reg t.regData, t.device⟩

def writeSeq (s : Shadowed) (o : Status) (buf : FrameBuf) (reg numReg : UInt8) : Shadowed :=
  let t := (tsu6721I2cWriteSeq s.data.client buf reg (s.data.regDataAt reg) numReg).run o s.device
  { s with device := t.device }

def setRegData (s : Shadowed) (reg b : UInt8) : Shadowed :=
  { s with data := s.data.store reg [b] }

end Shadowed

/-- What the allocation and the four transfers of the probe answer. Where `i2c_unregister_device`
returns, `unregister` says whether the client is still registered: the probe calls it on its own
client, while the driver core holds the device. -/
structure Calls where
  data : Status
  unregister : Option Bool
  readDeviceid : Status
  readControl : Status
  writeControl : Status
  readBack : Status
  deriving DecidableEq

/-- `data` is the driver data of the client, where `i2c_set_clientdata` has been called. -/
structure Result where
  rc : ℤ
  data : Option Tsu6721Data
  registered : Bool
  device : Registers

/-- `tsu6721_probe`, which may not return; `buf` is the frame on the stack of the write. -/
def tsu6721Probe (client : UInt16) (o : Calls) (buf : FrameBuf) (f : Registers) :
    Option Result :=
  if o.data.rc = 0 then
    let s : Shadowed := ⟨{ Tsu6721Data.zeroed client with regAddr := TSU6721_DEVICEID }, f⟩
    let s := s.readSeq o.readDeviceid TSU6721_DEVICEID 1
    let s := s.readSeq o.readControl TSU6721_CONTROL 1
    let s := s.setRegData TSU6721_CONTROL 0x1e
    let s := s.writeSeq o.writeControl buf TSU6721_CONTROL 1
    let s := s.readSeq o.readBack TSU6721_CONTROL 1
    some ⟨0, some s.data, true, s.device⟩
  else o.unregister.map fun registered => ⟨-ENOMEM, none, registered, f⟩

/-- What the driver has noted for a register, and what the register holds. -/
@[ext] structure Cell where
  shadow : UInt8
  register : UInt8
  deriving DecidableEq, Repr

namespace Cell

def fetch (c : Cell) (ok : Bool) : Cell := if ok then { c with shadow := c.register } else c

def send (c : Cell) (ok : Bool) : Cell := if ok then { c with register := c.shadow } else c

def note (c : Cell) (b : UInt8) : Cell := { c with shadow := b }

def Agrees (c : Cell) : Prop := c.shadow = c.register

@[simp] theorem fetch_register (c : Cell) (ok : Bool) : (c.fetch ok).register = c.register := by
  cases ok
  · rfl
  · rfl

@[simp] theorem note_register (c : Cell) (b : UInt8) : (c.note b).register = c.register := rfl

@[simp] theorem agrees_fetch_iff {c : Cell} {ok : Bool} : (c.fetch ok).Agrees ↔ ok ∨ c.Agrees := by
  cases ok
  · simp [fetch]
  · simp [fetch, Agrees]

@[simp] theorem agrees_send_iff {c : Cell} {ok : Bool} : (c.send ok).Agrees ↔ ok ∨ c.Agrees := by
  cases ok
  · simp [send]
  · simp [send, Agrees]

theorem register_send_note_iff {c : Cell} {b : UInt8} {ok : Bool} :
    ((c.note b).send ok).register = b ↔ ok ∨ c.register = b := by
  cases ok
  · simp [send]
  · simp [send, note]

@[simp] theorem agrees_note_iff {c : Cell} {b : UInt8} : (c.note b).Agrees ↔ b = c.register :=
  Iff.rfl

end Cell

abbrev DataReg := { reg : UInt8 // reg.toNat < TSU6721_MAX_ADDR }

def deviceid : DataReg := ⟨TSU6721_DEVICEID, by decide⟩
def control : DataReg := ⟨TSU6721_CONTROL, by decide⟩

def Shadowed.cell (s : Shadowed) (reg : DataReg) : Cell :=
  ⟨s.data.regData.getD reg.1.toNat 0, s.device.regs (register reg.1)⟩

section

variable {s : Shadowed} {o : Status} {buf : FrameBuf} {reg r : DataReg}

theorem DataReg.below (reg : DataReg) : reg.1 < 0x80 := by
  have hreg := reg.2
  simp only [TSU6721_MAX_ADDR, TSU6721_DEVICETYPE4] at hreg
  exact UInt8.lt_iff_toNat_lt.mpr (by simp at hreg ⊢; omega)

theorem DataReg.inside (reg : DataReg) (d : Tsu6721Data) : reg.1.toNat < d.regData.length :=
  reg.2.trans_eq d.size.symm

theorem register_inj : register r.1 = register reg.1 ↔ r = reg := by
  have hr := UInt8.lt_iff_toNat_lt.mp r.below
  have hreg := UInt8.lt_iff_toNat_lt.mp reg.below
  simp only [register, Fin.ext_iff, Fin.val_ofNat, Subtype.ext_iff, ← UInt8.toNat_inj] at hr hreg ⊢
  simp at hr hreg
  rw [Nat.mod_eq_of_lt hr, Nat.mod_eq_of_lt hreg]

theorem getElem?_regData (s : Shadowed) (reg : DataReg) :
    s.data.regData[reg.1.toNat]? = some (s.cell reg).shadow := by
  have hreg := reg.inside s.data
  rw [Shadowed.cell, List.getD_eq_getElem?_getD, List.getElem?_eq_getElem hreg, Option.getD_some]

theorem cell_of_set {t : Shadowed} {b : UInt8}
    (hdata : t.data.regData = s.data.regData.set reg.1.toNat b)
    (hdevice : t.device.regs = s.device.regs) :
    t.cell = Function.update s.cell reg ((s.cell reg).note b) := by
  funext r
  by_cases hr : r = reg
  · subst hr
    have hin := r.inside s.data
    ext
    · simp [Shadowed.cell, hdata, Cell.note, hin]
    · simp [Shadowed.cell, hdevice]
  · have hne : reg.1.toNat ≠ r.1.toNat := by
      intro heq
      exact hr (Subtype.ext (UInt8.toNat_inj.mp heq.symm))
    rw [Function.update_of_ne hr]
    simp [Shadowed.cell, hdata, hdevice, List.getElem?_set_ne hne]

theorem cell_setRegData (s : Shadowed) (reg : DataReg) (b : UInt8) :
    (s.setRegData reg.1 b).cell = Function.update s.cell reg ((s.cell reg).note b) :=
  cell_of_set rfl rfl

theorem readSeq_failed (h : o.rc ≠ 0) (s : Shadowed) (reg : UInt8) : s.readSeq o reg 1 = s := by
  have hback : s.data.store reg (s.data.regDataAt reg) = s.data := by
    have hsame := applyWrites_memcpy_drop s.data.regData reg.toNat
    simp only [Tsu6721Data.store, Tsu6721Data.regDataAt, hsame]
  have hcall : (tsu6721I2cReadSeq s.data.client reg (s.data.regDataAt reg) 1).run o s.device =
      ⟨o.rc, s.device, [[reg ||| TSU6721_WR_INC_FLG], s.data.regDataAt reg]⟩ := if_neg h
  simp only [Shadowed.readSeq, hcall]
  exact congrArg (Shadowed.mk · s.device) hback

theorem readSeq_data (h : o.rc = 0) (s : Shadowed) (reg : DataReg) :
    (s.readSeq o reg.1 1).data.regData =
        s.data.regData.set reg.1.toNat (s.device.regs (register reg.1)) ∧
      (s.readSeq o reg.1 1).device.regs = s.device.regs := by
  obtain rfl := Status.eq_success h
  have hroom : 1 ≤ (s.data.regDataAt reg.1).length := by
    have hin := reg.inside s.data
    rw [Tsu6721Data.regDataAt, List.length_drop]
    omega
  obtain ⟨-, hregs, hmem⟩ := BlockRead.run_eq s.data.client s.device
    ⟨reg.1, 1, s.data.regDataAt reg.1, reg.below, by decide, hroom⟩
  refine ⟨?_, hregs⟩
  have hstored := congrArg (fun mem => applyWrites s.data.regData (memcpy reg.1.toNat mem)) hmem
  refine hstored.trans ?_
  -- The byte that was read, and behind it what the memory has held before.
  change applyWrites (s.data.regData.set reg.1.toNat (s.device.regs (register reg.1)))
    (memcpy (reg.1.toNat + 1) ((s.data.regData.drop reg.1.toNat).drop 1)) = _
  rw [List.drop_drop, ← List.drop_set_of_lt (Nat.lt_succ_self reg.1.toNat)]
  exact applyWrites_memcpy_drop _ _

theorem cell_readSeq (o : Status) (s : Shadowed) (reg : DataReg) :
    (s.readSeq o reg.1 1).cell =
      Function.update s.cell reg ((s.cell reg).fetch (o.rc = 0)) := by
  by_cases ho : o.rc = 0
  · obtain ⟨hdata, hdevice⟩ := readSeq_data ho s reg
    rw [cell_of_set hdata hdevice, decide_eq_true ho]
    rfl
  · rw [readSeq_failed ho, decide_eq_false ho, Cell.fetch, if_neg Bool.false_ne_true,
      Function.update_eq_self]

theorem writeSeq_take (client : UInt16) (buf : FrameBuf) (reg : UInt8) (mem : List UInt8) :
    tsu6721I2cWriteSeq client buf reg mem 1 = tsu6721I2cWriteSeq client buf reg (mem.take 1) 1 := by
  have htake : (mem.take 1).take (1 : UInt8).toNat = mem.take (1 : UInt8).toNat := List.take_take ..
  rw [tsu6721I2cWriteSeq, tsu6721I2cWriteSeq, frameWrites, frameWrites, htake]

theorem writeSeq_regs (h : o.rc = 0) (s : Shadowed) (buf : FrameBuf) (reg : DataReg) :
    (s.writeSeq o buf reg.1 1).device.regs =
      Function.update s.device.regs (register reg.1) (s.cell reg).shadow := by
  obtain rfl := Status.eq_success h
  have hhead : (s.data.regDataAt reg.1).take 1 = [(s.cell reg).shadow] := by
    rw [List.take_one, Tsu6721Data.regDataAt, List.head?_drop, getElem?_regData]
    rfl
  obtain ⟨-, hdevice⟩ := BlockWrite.run_eq s.data.client s.device
    ⟨buf, reg.1, [(s.cell reg).shadow], reg.below, by simp [TSU6721_NUM_REGISER]⟩
  change ((tsu6721I2cWriteSeq s.data.client buf reg.1 (s.data.regDataAt reg.1) 1).run
    .success s.device).device.regs = _
  rw [writeSeq_take, hhead]
  exact congrArg RegisterFile.regs hdevice

theorem writeSeq_failed (h : o.rc ≠ 0) (s : Shadowed) (buf : FrameBuf) (reg : UInt8) :
    s.writeSeq o buf reg 1 = s := by
  have hcall : ((tsu6721I2cWriteSeq s.data.client buf reg (s.data.regDataAt reg) 1).run
      o s.device).device = s.device := by
    rw [tsu6721I2cWriteSeq, Access.run, i2cTransfer, if_neg h]
  rw [Shadowed.writeSeq, hcall]

theorem cell_writeSeq (o : Status) (s : Shadowed) (buf : FrameBuf) (reg : DataReg) :
    (s.writeSeq o buf reg.1 1).cell =
      Function.update s.cell reg ((s.cell reg).send (o.rc = 0)) := by
  by_cases ho : o.rc = 0
  · funext r
    rw [decide_eq_true ho]
    by_cases hr : r = reg
    · subst hr
      rw [Function.update_self]
      ext
      · rfl
      · simp [Shadowed.cell, writeSeq_regs ho, Cell.send]
    · have hne : register r.1 ≠ register reg.1 := fun heq => hr (register_inj.mp heq)
      rw [Function.update_of_ne hr]
      ext
      · rfl
      · simp [Shadowed.cell, writeSeq_regs ho, Function.update_of_ne hne]
  · rw [writeSeq_failed ho, decide_eq_false ho, Cell.send, if_neg Bool.false_ne_true,
      Function.update_eq_self]

end

def Calls.Transferred (o : Calls) : Prop :=
  o.readDeviceid.rc = 0 ∧ o.readControl.rc = 0 ∧ o.writeControl.rc = 0 ∧ o.readBack.rc = 0

instance (o : Calls) : Decidable o.Transferred := inferInstanceAs (Decidable (_ ∧ _))

/-- The control register is set, and the driver data have what the two registers hold. -/
structure Configured (r : Result) : Prop where
  control : r.device.regs (register TSU6721_CONTROL) = 0x1e
  copies : ∃ d, r.data = some d ∧ ∀ reg ∈ [TSU6721_DEVICEID, TSU6721_CONTROL],
    d.regData[reg.toNat]? = some (r.device.regs (register reg))

/-- The probe returns: 0 after transfers that all went through and with a device that is set up,
and a negative code otherwise. -/
def Checked (client : UInt16) (o : Calls) (buf : FrameBuf) (f : Registers) : Prop :=
  ∃ r, tsu6721Probe client o buf f = some r ∧ (r.rc = 0 → o.Transferred ∧ Configured r) ∧
    (r.rc ≠ 0 → r.rc < 0)

section

variable {client : UInt16} {o : Calls} {buf : FrameBuf} {f : Registers}

theorem probe_null (h : o.data.rc ≠ 0) : tsu6721Probe client o buf f =
    o.unregister.map fun registered => ⟨-ENOMEM, none, registered, f⟩ := if_neg h

theorem probe_cells (client : UInt16) (buf : FrameBuf) (f : Registers) (h : o.data.rc = 0) :
    ∃ s : Shadowed, tsu6721Probe client o buf f = some ⟨0, some s.data, true, s.device⟩ ∧
      s.cell deviceid =
        Cell.fetch ⟨0, f.regs (register TSU6721_DEVICEID)⟩ (o.readDeviceid.rc = 0) ∧
      s.cell control =
        ((((Cell.mk 0 (f.regs (register TSU6721_CONTROL))).fetch (o.readControl.rc = 0)).note
          0x1e).send (o.writeControl.rc = 0)).fetch (o.readBack.rc = 0) := by
  let s : Shadowed := ⟨{ Tsu6721Data.zeroed client with regAddr := TSU6721_DEVICEID }, f⟩
  have hid : s.cell deviceid = ⟨0, f.regs (register TSU6721_DEVICEID)⟩ := rfl
  have hcontrol : s.cell control = ⟨0, f.regs (register TSU6721_CONTROL)⟩ := rfl
  have hne : deviceid ≠ control := by decide
  refine ⟨((((s.readSeq o.readDeviceid deviceid.1 1).readSeq o.readControl control.1 1).setRegData
    control.1 0x1e).writeSeq o.writeControl buf control.1 1).readSeq o.readBack control.1 1,
    if_pos h, ?_, ?_⟩
  · simp only [cell_readSeq, cell_writeSeq, cell_setRegData, Function.update_of_ne hne,
      Function.update_self, hid]
  · simp only [cell_readSeq, cell_writeSeq, cell_setRegData, Function.update_of_ne hne.symm,
      Function.update_self, hcontrol]

theorem configured_iff_cells {s : Shadowed} : Configured ⟨0, some s.data, true, s.device⟩ ↔
    (s.cell control).register = 0x1e ∧ (s.cell deviceid).Agrees ∧ (s.cell control).Agrees := by
  have hcopy (reg : DataReg) : s.data.regData[reg.1.toNat]? =
      some (s.device.regs (register reg.1)) ↔ (s.cell reg).Agrees := by
    rw [getElem?_regData, Option.some.injEq]
    rfl
  constructor
  · rintro ⟨hcontrol, d, hd, hcopies⟩
    obtain rfl := Option.some.inj hd
    exact ⟨hcontrol, (hcopy deviceid).mp (hcopies _ List.mem_cons_self),
      (hcopy control).mp (hcopies _ (List.mem_cons_of_mem _ List.mem_cons_self))⟩
  · rintro ⟨hregister, hid, hcontrol⟩
    refine ⟨hregister, s.data, rfl, ?_⟩
    intro reg hreg
    simp only [List.mem_cons, List.not_mem_nil, or_false] at hreg
    rcases hreg with rfl | rfl
    · exact (hcopy deviceid).mpr hid
    · exact (hcopy control).mpr hcontrol

/-- The copy of the device number is right after its read, or where the register holds the 0 of
the fresh memory. The control register is set by its write, or has had the value before; then
its copy is right without the last read. -/
theorem configured_iff (client : UInt16) (buf : FrameBuf) (f : Registers) (h : o.data.rc = 0) :
    ∃ r, tsu6721Probe client o buf f = some r ∧ r.rc = 0 ∧ (Configured r ↔
      (o.readDeviceid.rc = 0 ∨ f.regs (register TSU6721_DEVICEID) = 0) ∧
        (o.writeControl.rc = 0 ∨ f.regs (register TSU6721_CONTROL) = 0x1e)) := by
  obtain ⟨s, hrun, hid, hcontrol⟩ := probe_cells client buf f h
  refine ⟨_, hrun, rfl, ?_⟩
  rw [configured_iff_cells, hid, hcontrol, Cell.fetch_register, Cell.register_send_note_iff,
    Cell.agrees_fetch_iff, Cell.agrees_fetch_iff, Cell.agrees_send_iff, Cell.agrees_note_iff,
    Cell.fetch_register, Cell.Agrees]
  simp only [decide_eq_true_eq]
  constructor
  · rintro ⟨hset, hcopy, -⟩
    exact ⟨hcopy.imp_right Eq.symm, hset⟩
  · rintro ⟨hcopy, hset⟩
    exact ⟨hset, hcopy.imp_right Eq.symm, .inr (hset.imp_right Eq.symm)⟩

theorem checked_iff_transferred (ho : o.data.rc = 0) :
    Checked client o buf f ↔ o.Transferred := by
  obtain ⟨r, hrun, hrc, hr⟩ := configured_iff client buf f ho
  constructor
  · rintro ⟨r', hrun', hsuccess, -⟩
    obtain rfl := Option.some.inj (hrun.symm.trans hrun')
    exact (hsuccess hrc).1
  · intro h
    have hconfigured := hr.mpr ⟨.inl h.1, .inl h.2.2.1⟩
    exact ⟨r, hrun, fun _ => ⟨h, hconfigured⟩, fun hne => absurd hrc hne⟩

theorem checked_iff_returns (ho : o.data.rc ≠ 0) :
    Checked client o buf f ↔ o.unregister.isSome := by
  constructor
  · rintro ⟨r, hrun, -⟩
    rw [probe_null ho] at hrun
    obtain ⟨registered, hregistered, -⟩ := Option.map_eq_some_iff.mp hrun
    exact Option.isSome_of_eq_some hregistered
  · intro h
    obtain ⟨registered, hregistered⟩ := Option.isSome_iff_exists.mp h
    refine ⟨_, (probe_null ho).trans (congrArg _ hregistered), fun hzero => ?_, fun _ => ?_⟩
    · exact absurd hzero (show -ENOMEM ≠ 0 by decide)
    · exact show -ENOMEM < 0 by decide

end

/-- The failure of a transfer never reaches the return code. -/
theorem checked_iff (client : UInt16) (o : Calls) (buf : FrameBuf) (f : Registers) :
    Checked client o buf f ↔
      (o.data.rc ≠ 0 ∧ o.unregister.isSome) ∨ (o.data.rc = 0 ∧ o.Transferred) := by
  by_cases ho : o.data.rc = 0
  · rw [checked_iff_transferred ho]
    simp [ho]
  · rw [checked_iff_returns ho]
    simp [ho]

/-- The write and the read behind it fail. The driver data have the 0x1e that was never sent,
as after a success. -/
theorem failed_write_unnoticed : ¬ ∀ client o buf f, Checked client o buf f := by
  intro h
  let o : Calls := ⟨.success, none, .success, .success, .failure 4, .failure 4⟩
  have hchecked := h 0x25 o emptyFrame ⟨fun _ => 0x1f, 0⟩
  exact absurd ((checked_iff_transferred rfl).mp hchecked) (by decide)

end InputI2cProbe
