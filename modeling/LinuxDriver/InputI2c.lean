import LinuxDriver.CMemory
import LinuxDriver.KernelResources
import LinuxDriver.RegisterFile

/-!
# input/my_i2c: blocks of registers over the bus

A write sends the register address and the data in one message. A read sends the address in
one message and receives the data in a second one. The address carries the flag that lets the
device count on from register to register.
-/
namespace InputI2c

open CMemory KernelTypes KernelResources RegisterFile

def TSU6721_WR_INC_FLG : UInt8 := 0x80
def TSU6721_NUM_REGISER : ℕ := 21
def I2C_M_RD : UInt16 := 1

/-- `struct i2c_msg`, with the memory that `buf` points to. -/
structure I2cMsg where
  addr : UInt16
  flags : UInt16
  len : UInt16
  buf : List UInt8
  deriving DecidableEq, Repr

def I2cMsg.sent (m : I2cMsg) : List UInt8 := m.buf.take m.len.toNat

/-- A function returns without any transfer, or with the code of `i2c_transfer` for some
messages. -/
inductive Access where
  | returns (rc : ℤ)
  | transfers (msgs : List I2cMsg)
  deriving DecidableEq, Repr

/-- The memory at `reg_data`, the receiving one of the second message. -/
def tsu6721I2cReadSeq (client : UInt16) (regAddr : UInt8) (regData : List UInt8)
    (numReg : UInt8) : Access :=
  if numReg.toNat < 1 ∨ TSU6721_NUM_REGISER < numReg.toNat then .returns (-EINVAL)
  else .transfers [⟨client, 0, 1, [regAddr ||| TSU6721_WR_INC_FLG]⟩,
    ⟨client, I2C_M_RD, numReg.toUInt16, regData⟩]

/-- The local `buf` of `tsu6721_i2c_write_seq` before its first use, and whatever follows it. -/
structure FrameBuf where
  mem : List UInt8
  room : TSU6721_NUM_REGISER ≤ mem.length

def frameWrites (regAddr : UInt8) (regData : List UInt8) (numReg : UInt8) : List Write :=
  ⟨0, regAddr ||| TSU6721_WR_INC_FLG⟩ :: memcpy 1 (regData.take numReg.toNat)

/-- The check of `num_reg` is commented out. -/
def tsu6721I2cWriteSeq (client : UInt16) (buf : FrameBuf) (regAddr : UInt8)
    (regData : List UInt8) (numReg : UInt8) : Access :=
  .transfers [⟨client, 0, numReg.toUInt16 + 1,
    applyWrites buf.mem (frameWrites regAddr regData numReg)⟩]

structure Framed (client : UInt16) (buf : FrameBuf) (regAddr : UInt8) (regData : List UInt8)
    (numReg : UInt8) : Prop where
  message : ∃ m, tsu6721I2cWriteSeq client buf regAddr regData numReg = .transfers [m] ∧
    m.addr = client ∧ m.flags = 0 ∧ m.len.toNat = numReg.toNat + 1 ∧
    m.sent = (regAddr ||| TSU6721_WR_INC_FLG) :: regData.take numReg.toNat
  inside : ∀ w ∈ frameWrites regAddr regData numReg, w.offset < TSU6721_NUM_REGISER

/-- The lengths for which address and data fit into the array are framed, all others are
refused before any transfer. -/
structure WriteChecked (client : UInt16) (buf : FrameBuf) (regAddr : UInt8)
    (regData : List UInt8) (numReg : UInt8) : Prop where
  accepted : 1 ≤ numReg.toNat → numReg.toNat ≤ TSU6721_NUM_REGISER - 1 →
    Framed client buf regAddr regData numReg
  refused : ¬ (1 ≤ numReg.toNat ∧ numReg.toNat ≤ TSU6721_NUM_REGISER - 1) →
    tsu6721I2cWriteSeq client buf regAddr regData numReg = .returns (-EINVAL)

section

variable {client : UInt16} {buf : FrameBuf} {regAddr : UInt8} {regData : List UInt8}
  {numReg : UInt8}

theorem frameWrites_eq (regAddr : UInt8) (regData : List UInt8) (numReg : UInt8) :
    frameWrites regAddr regData numReg =
      memcpy 0 ((regAddr ||| TSU6721_WR_INC_FLG) :: regData.take numReg.toNat) := rfl

theorem frame_inside_iff (h : numReg.toNat ≤ regData.length) :
    (∀ w ∈ frameWrites regAddr regData numReg, w.offset < TSU6721_NUM_REGISER) ↔
      numReg.toNat < TSU6721_NUM_REGISER := by
  rw [frameWrites_eq, memcpy_inside_iff, List.length_cons, List.length_take_of_le h]
  exact Nat.succ_le_iff

theorem toNat_frame_len (numReg : UInt8) :
    (numReg.toUInt16 + 1).toNat = numReg.toNat + 1 := by
  have hlt := numReg.toNat_lt
  rw [UInt16.toNat_add, UInt8.toNat_toUInt16]
  exact Nat.mod_eq_of_lt (by simp; omega)

theorem frame_sent (h : numReg.toNat ≤ regData.length)
    (hfits : numReg.toNat < TSU6721_NUM_REGISER) :
    (applyWrites buf.mem (frameWrites regAddr regData numReg)).take (numReg.toNat + 1) =
      (regAddr ||| TSU6721_WR_INC_FLG) :: regData.take numReg.toNat := by
  have hlen : ((regAddr ||| TSU6721_WR_INC_FLG) :: regData.take numReg.toNat).length =
      numReg.toNat + 1 := by
    rw [List.length_cons, List.length_take_of_le h]
  have hroom := buf.room
  rw [frameWrites_eq, applyWrites_memcpy (by omega), List.take_zero, List.nil_append]
  exact List.take_left' hlen

theorem framed (h : numReg.toNat ≤ regData.length) (hfits : numReg.toNat < TSU6721_NUM_REGISER) :
    Framed client buf regAddr regData numReg := by
  constructor
  · refine ⟨_, rfl, rfl, rfl, toNat_frame_len numReg, ?_⟩
    rw [I2cMsg.sent, toNat_frame_len]
    exact frame_sent h hfits
  · exact (frame_inside_iff h).mpr hfits

theorem accepted_of_writeChecked (h : WriteChecked client buf regAddr regData numReg) :
    1 ≤ numReg.toNat ∧ numReg.toNat ≤ TSU6721_NUM_REGISER - 1 := by
  by_contra hout
  cases h.refused hout

end

theorem write_checked_iff (client : UInt16) (buf : FrameBuf) (regAddr : UInt8)
    (regData : List UInt8) (numReg : UInt8) (h : numReg.toNat ≤ regData.length) :
    WriteChecked client buf regAddr regData numReg ↔
      1 ≤ numReg.toNat ∧ numReg.toNat < TSU6721_NUM_REGISER := by
  constructor
  · intro hchecked
    obtain ⟨hone, hmost⟩ := accepted_of_writeChecked hchecked
    exact ⟨hone, Nat.lt_succ_of_le hmost⟩
  · rintro ⟨hone, hlt⟩
    constructor
    · exact fun _ _ => framed h hlt
    · intro hout
      exact absurd ⟨hone, Nat.le_sub_one_of_lt hlt⟩ hout

def emptyFrame : FrameBuf := ⟨List.replicate 21 0, by decide⟩

theorem write_checked_control : WriteChecked 0x25 emptyFrame 0x02 [0x1e] 1 :=
  (write_checked_iff _ _ _ _ _ (by decide)).mpr (by decide)

/-- One byte more than the array holds behind the address. -/
theorem frame_overrun : ¬ ∀ client buf regAddr regData numReg,
    numReg.toNat ≤ regData.length → WriteChecked client buf regAddr regData numReg := by
  intro h
  have hchecked := h 0x25 emptyFrame 0x02 (List.replicate 21 0) 21 (by decide)
  exact absurd (accepted_of_writeChecked hchecked) (by decide)

example : ∃ w ∈ frameWrites 0x02 (List.replicate 21 0) 21, TSU6721_NUM_REGISER ≤ w.offset := by
  decide

abbrev Registers := RegisterFile 128 UInt8

def register (b : UInt8) : Fin 128 := Fin.ofNat 128 b.toNat

/-- A flagged first byte sets the pointer, the data follow. The driver sends no other message. -/
def receive (f : Registers) : List UInt8 → Registers
  | [] => f
  | b :: data =>
    if b &&& TSU6721_WR_INC_FLG = 0 then f else (f.seek (register b)).writeBlock data

def exchange (f : Registers) (m : I2cMsg) : Registers × List UInt8 :=
  if m.flags = I2C_M_RD then
    let read := f.readBlock m.len.toNat
    (read.2, applyWrites m.buf (memcpy 0 read.1))
  else (receive f m.sent, m.buf)

def exchanges (f : Registers) : List I2cMsg → Registers × List (List UInt8)
  | [] => (f, [])
  | m :: ms =>
    let first := exchange f m
    let rest := exchanges first.1 ms
    (rest.1, first.2 :: rest.2)

structure Transfer where
  ret : ℤ
  device : Registers
  bufs : List (List UInt8)

/-- A transfer that fails changes neither the device nor the memory of the messages; one that
succeeds returns their number. -/
def i2cTransfer (o : Status) (f : Registers) (msgs : List I2cMsg) : Transfer :=
  if o.rc = 0 then ⟨msgs.length, (exchanges f msgs).1, (exchanges f msgs).2⟩
  else ⟨o.rc, f, msgs.map I2cMsg.buf⟩

def Access.run (o : Status) (f : Registers) : Access → Transfer
  | .returns rc => ⟨rc, f, []⟩
  | .transfers msgs => i2cTransfer o f msgs

theorem register_flagged (b : UInt8) : register (b ||| TSU6721_WR_INC_FLG) = register b := by
  apply Fin.ext
  have hlow : (b.toNat ||| 128) % 2 ^ 7 = b.toNat % 2 ^ 7 := by
    rw [Nat.or_mod_two_pow]
    exact Nat.or_zero _
  simpa [register, TSU6721_WR_INC_FLG] using hlow

theorem flagged (b : UInt8) :
    (b ||| TSU6721_WR_INC_FLG) &&& TSU6721_WR_INC_FLG ≠ 0 := by
  intro hzero
  have hnat := congrArg UInt8.toNat hzero
  have hle : 128 ≤ b.toNat &&& 128 ||| 128 := Nat.right_le_or
  simp only [TSU6721_WR_INC_FLG, UInt8.toNat_and, UInt8.toNat_or, Nat.and_or_distrib_right]
    at hnat
  change b.toNat &&& 128 ||| 128 = 0 at hnat
  omega

theorem receive_flagged (f : Registers) (b : UInt8) (data : List UInt8) :
    receive f ((b ||| TSU6721_WR_INC_FLG) :: data) = (f.seek (register b)).writeBlock data := by
  rw [receive, if_neg (flagged b), register_flagged]

structure BlockWrite where
  buf : FrameBuf
  regAddr : UInt8
  data : List UInt8
  below : regAddr < 0x80
  short : 1 ≤ data.length ∧ data.length ≤ TSU6721_NUM_REGISER - 1

def BlockWrite.numReg (w : BlockWrite) : UInt8 := UInt8.ofNat w.data.length

def BlockWrite.run (client : UInt16) (f : Registers) (w : BlockWrite) : Transfer :=
  (tsu6721I2cWriteSeq client w.buf w.regAddr w.data w.numReg).run .success f

structure BlockRead where
  regAddr : UInt8
  numReg : UInt8
  regData : List UInt8
  below : regAddr < 0x80
  checked : 1 ≤ numReg.toNat ∧ numReg.toNat ≤ TSU6721_NUM_REGISER
  room : numReg.toNat ≤ regData.length

def BlockRead.run (client : UInt16) (f : Registers) (r : BlockRead) : Transfer :=
  (tsu6721I2cReadSeq client r.regAddr r.regData r.numReg).run .success f

def Transfer.regData (t : Transfer) : List UInt8 := t.bufs.getLastD []

def BlockWrite.block (w : BlockWrite) : Block 128 UInt8 where
  addr := register w.regAddr
  values := w.data
  fits := by
    have hshort := w.short.2
    simp only [TSU6721_NUM_REGISER] at hshort
    omega

theorem BlockWrite.toNat_numReg (w : BlockWrite) : w.numReg.toNat = w.data.length := by
  have hshort := w.short.2
  simp only [TSU6721_NUM_REGISER] at hshort
  exact UInt8.toNat_ofNat_of_lt' (by simp only [UInt8.size]; omega)

theorem BlockWrite.framed (client : UInt16) (w : BlockWrite) :
    Framed client w.buf w.regAddr w.data w.numReg := by
  have hnum := w.toNat_numReg
  have hshort := w.short
  simp only [TSU6721_NUM_REGISER] at hshort
  exact InputI2c.framed hnum.le (by simp only [hnum, TSU6721_NUM_REGISER]; omega)

theorem BlockWrite.run_eq (client : UInt16) (f : Registers) (w : BlockWrite) :
    (w.run client f).ret = 1 ∧ (w.run client f).device = f.store w.block := by
  obtain ⟨m, hcall, -, hflags, -, hsent⟩ := (w.framed client).message
  have hread : m.flags ≠ I2C_M_RD := by
    rw [hflags]
    decide
  rw [w.toNat_numReg, List.take_length] at hsent
  rw [BlockWrite.run, hcall]
  refine ⟨rfl, ?_⟩
  change (exchange f m).1 = _
  rw [exchange, if_neg hread, hsent, receive_flagged]
  rfl

theorem BlockRead.run_eq (client : UInt16) (f : Registers) (r : BlockRead) :
    (r.run client f).ret = 2 ∧ (r.run client f).device.regs = f.regs ∧
      (r.run client f).regData =
        ((f.seek (register r.regAddr)).readBlock r.numReg.toNat).1 ++
          r.regData.drop r.numReg.toNat := by
  have hchecked := r.checked
  have hseek : receive f [r.regAddr ||| TSU6721_WR_INC_FLG] = f.seek (register r.regAddr) :=
    receive_flagged f r.regAddr []
  have hcall : tsu6721I2cReadSeq client r.regAddr r.regData r.numReg =
      .transfers [⟨client, 0, 1, [r.regAddr ||| TSU6721_WR_INC_FLG]⟩,
        ⟨client, I2C_M_RD, r.numReg.toUInt16, r.regData⟩] := if_neg (by omega)
  have hlen := length_readBlock (f.seek (register r.regAddr)) r.numReg.toNat
  rw [BlockRead.run, hcall]
  refine ⟨rfl, ?_, ?_⟩
  · change ((receive f [r.regAddr ||| TSU6721_WR_INC_FLG]).readBlock r.numReg.toNat).2.regs = _
    rw [readBlock_regs, hseek, seek_regs]
  · change applyWrites r.regData (memcpy 0
      ((receive f [r.regAddr ||| TSU6721_WR_INC_FLG]).readBlock r.numReg.toNat).1) = _
    rw [hseek, applyWrites_memcpy (by rw [hlen, Nat.zero_add]; exact r.room), hlen,
      List.take_zero, List.nil_append, Nat.zero_add]

def BlockWrite.readBack (w : BlockWrite) (regData : List UInt8)
    (room : w.data.length ≤ regData.length) : BlockRead where
  regAddr := w.regAddr
  numReg := w.numReg
  regData := regData
  below := w.below
  checked := by
    rw [w.toNat_numReg]
    exact ⟨w.short.1, w.short.2.trans (Nat.sub_le _ _)⟩
  room := by rwa [w.toNat_numReg]

def runWrites (client : UInt16) (f : Registers) (ws : List BlockWrite) : Registers :=
  ws.foldl (fun f w => (w.run client f).device) f

theorem runWrites_eq (client : UInt16) (f : Registers) (ws : List BlockWrite) :
    runWrites client f ws = (ws.map BlockWrite.block).foldl store f := by
  rw [runWrites, List.foldl_map]
  congr 1
  funext f w
  exact (w.run_eq client f).2

theorem readBack_regData (client : UInt16) (f : Registers) (w : BlockWrite)
    (regData : List UInt8) (room : w.data.length ≤ regData.length) :
    ((w.readBack regData room).run client (w.run client f).device).regData =
      w.data ++ regData.drop w.data.length := by
  obtain ⟨-, -, hdata⟩ := (w.readBack regData room).run_eq client (w.run client f).device
  rw [hdata, (w.run_eq client f).2]
  change (((f.store w.block).seek w.block.addr).readBlock w.numReg.toNat).1 ++
    regData.drop w.numReg.toNat = _
  rw [w.toNat_numReg]
  exact congrArg (· ++ regData.drop w.data.length) (readBlock_store f w.block)

theorem read_regData (client : UInt16) (f : Registers) (r : BlockRead) {k : ℕ}
    (hk : k < r.numReg.toNat) : (r.run client f).regData[k]? =
      some (f.regs (place (register r.regAddr) k)) := by
  obtain ⟨-, -, hdata⟩ := r.run_eq client f
  have hlen := length_readBlock (f.seek (register r.regAddr)) r.numReg.toNat
  rw [hdata, List.getElem?_append_left (by omega), readBlock_values, List.getElem?_map,
    List.getElem?_range hk]
  rfl

/-- A block comes back as it was written and leaves the other registers alone; after any
number of writes a register holds the latest byte written to it. -/
theorem block_transfers (client : UInt16) (f : Registers) :
    (∀ (w : BlockWrite) (regData : List UInt8) (room : w.data.length ≤ regData.length),
      let read := (w.readBack regData room).run client (w.run client f).device
      read.regData = w.data ++ regData.drop w.data.length ∧
        ∀ reg, (∀ k < w.data.length, reg ≠ place (register w.regAddr) k) →
          read.device.regs reg = f.regs reg) ∧
    ∀ (ws : List BlockWrite) (r : BlockRead), ∀ k < r.numReg.toNat,
      let reg := place (register r.regAddr) k
      (r.run client (runWrites client f ws)).regData[k]? =
        some ((lastWritten (ws.map BlockWrite.block) reg).getD (f.regs reg)) := by
  constructor
  · intro w regData room
    refine ⟨readBack_regData client f w regData room, ?_⟩
    intro reg hout
    obtain ⟨-, hregs, -⟩ := (w.readBack regData room).run_eq client (w.run client f).device
    rw [hregs, (w.run_eq client f).2]
    exact regs_store_of_outside f hout
  · intro ws r k hk
    rw [read_regData client _ r hk, runWrites_eq, regs_stores]

theorem block_transfers_wrapping :
    let f : Registers := ⟨fun _ => 0, 0⟩
    let w : BlockWrite := ⟨emptyFrame, 0x7f, [1, 2, 3], by decide, by decide⟩
    let v : BlockWrite := ⟨emptyFrame, 0x00, [9], by decide, by decide⟩
    let r : BlockRead := ⟨0x7f, 3, [0, 0, 0], by decide, by decide, by decide⟩
    ((w.readBack [0, 0, 0] (by decide)).run 0x25 (w.run 0x25 f).device).regData = [1, 2, 3] ∧
      (r.run 0x25 (runWrites 0x25 f [w, v])).regData[1]? = some 9 := by
  intro f w v r
  have h := block_transfers 0x25 f
  have hlast : lastWritten ([w, v].map BlockWrite.block) (place (register r.regAddr) 1) = some 9 :=
    by decide
  refine ⟨(h.1 w [0, 0, 0] (by decide)).1, (h.2 [w, v] r 1 (by decide)).trans ?_⟩
  rw [hlast]
  rfl

end InputI2c
