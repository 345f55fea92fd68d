import LinuxDriver.WrappedTime
import Mathlib.Data.Rat.Floor
import Mathlib.Tactic.FieldSimp
import Mathlib.Tactic.Linarith

/-!
# timer/jiffies: a delay that watches the tick counter

`my_mdelay` reads `jiffies` once for its deadline and then again and again until the deadline
has come. The counter has the width of an `unsigned long` and wraps around.
-/
namespace TimerJiffies

open WrappedTime

variable {w : ℕ}

/-- `msecs_to_jiffies` as far as its caller relies on it; the argument is the `int` that it
converts to unsigned. -/
structure MsecsToJiffies (w : ℕ) where
  ticks : BitVec 32 → BitVec w
  MAX_JIFFY_OFFSET : ℕ
  offset_lt : MAX_JIFFY_OFFSET < 2 ^ (w - 1)
  le_offset : ∀ msec, (ticks msec).toNat ≤ MAX_JIFFY_OFFSET
  negative : ∀ msec, msec.toInt < 0 → (ticks msec).toNat = MAX_JIFFY_OFFSET

def timeIsAfterJiffies (a jiffies : BitVec w) : Bool := before jiffies a

/-- The loop over the values of `jiffies` that it reads, up to the first one that ends it. -/
def busyWait (expire : BitVec w) : List (BitVec w) → Option ℕ
  | [] => none
  | jiffies :: later =>
    if timeIsAfterJiffies expire jiffies then (busyWait expire later).map (· + 1) else some 0

def myMdelay (K : MsecsToJiffies w) (msec : BitVec 32) (jiffies : BitVec w)
    (polls : List (BitVec w)) : Option ℕ :=
  let expire := jiffies + K.ticks msec
  busyWait expire polls

theorem busyWait_eq (expire : BitVec w) (polls : List (BitVec w)) :
    busyWait expire polls = polls.findIdx? fun jiffies => !before jiffies expire := by
  induction polls with
  | nil => rfl
  | cons jiffies later ih =>
    rw [busyWait, List.findIdx?_cons, ih, timeIsAfterJiffies]
    cases before jiffies expire
    · rfl
    · rfl

/-- The call ends at the first poll at which the ticks of the delay have passed, wherever the
counter wraps meanwhile. `elapsed` are the ticks from the call to each poll. -/
theorem my_mdelay_exact (hw : 32 ≤ w) (K : MsecsToJiffies w) (msec : BitVec 32)
    (jiffies : BitVec w) (elapsed : List ℕ)
    (h : (0 :: elapsed).IsChain fun s t => s ≤ t ∧ t < s + 2 ^ (w - 1)) :
    myMdelay K msec jiffies (elapsed.map fun e => jiffies + BitVec.ofNat w e) =
      elapsed.findIdx? fun e => (K.ticks msec).toNat ≤ e := by
  have hoffset := K.offset_lt
  have hticks := K.le_offset msec
  have hat : ∀ e : ℕ, jiffies + BitVec.ofNat w e = BitVec.ofInt w (jiffies.toInt + e) := by
    intro e
    rw [BitVec.ofInt_add, BitVec.ofInt_toInt, BitVec.ofInt_natCast]
  have hexpire : jiffies + K.ticks msec =
      BitVec.ofInt w (jiffies.toInt + (K.ticks msec).toNat) := by
    rw [← hat, BitVec.ofNat_toNat, BitVec.setWidth_eq]
  have hchain : ((0 :: elapsed).map fun e : ℕ => jiffies.toInt + e).IsChain (Soon w) := by
    rw [List.isChain_map]
    apply h.imp
    intro s t hst
    constructor
    · omega
    · have hlt := Int.ofNat_lt.mpr hst.2
      push_cast at hlt
      omega
  have hfar : (jiffies.toInt + (K.ticks msec).toNat : ℤ) ≤
      jiffies.toInt + (0 : ℕ) + 2 ^ (w - 1) := by
    have hlt := Int.ofNat_lt.mpr (hticks.trans_lt hoffset)
    push_cast at hlt ⊢
    omega
  have hpolls : (elapsed.map fun e => jiffies + BitVec.ofNat w e) =
      (elapsed.map fun e : ℕ => jiffies.toInt + e).map (BitVec.ofInt w) := by
    rw [List.map_map]
    exact List.map_congr_left fun e _ => hat e
  rw [myMdelay, busyWait_eq, hexpire, hpolls,
    findIdx_expired (by omega) (by omega) hfar hchain, List.findIdx?_map]
  congr 1
  funext e
  apply decide_eq_decide.mpr
  dsimp only
  omega

def hundredHertz : MsecsToJiffies 64 where
  ticks msec :=
    if msec.toInt < 0 then BitVec.ofNat 64 (2 ^ 62 - 2) else BitVec.ofNat 64 ((msec.toNat + 9) / 10)
  MAX_JIFFY_OFFSET := 2 ^ 62 - 2
  offset_lt := by decide
  le_offset := by
    intro msec
    have hlt := msec.isLt
    split
    · decide
    · rw [BitVec.toNat_ofNat]
      omega
  negative := by
    intro msec hneg
    rw [if_pos hneg]
    decide

theorem my_mdelay_exact_wrapping :
    myMdelay hundredHertz 2000 (-3) ([0, 2, 3, 199, 500].map fun e => -3 + BitVec.ofNat 64 e) =
      some 4 := by
  have h := my_mdelay_exact (by decide) hundredHertz 2000 (-3) [0, 2, 3, 199, 500] (by decide)
  rw [h]
  decide

def jiffiesAt (w HZ : ℕ) (t : ℚ) : BitVec w := BitVec.ofInt w ⌊t * HZ⌋

/-- Called at `call` seconds, the function returns at no poll before `msec` milliseconds later. -/
def MinimumDelay (K : MsecsToJiffies w) (HZ : ℕ) (msec : BitVec 32) (call : ℚ) : Prop :=
  ∀ polls : List ℚ, (call :: polls).IsChain (· ≤ ·) → ∀ i t,
    myMdelay K msec (jiffiesAt w HZ call) (polls.map (jiffiesAt w HZ)) = some i →
      polls[i]? = some t → call + msec.toInt / 1000 ≤ t

def delayTicks (HZ : ℕ) (msec : BitVec 32) : ℚ := msec.toInt * HZ / 1000

section

variable {K : MsecsToJiffies w} {HZ : ℕ} {msec : BitVec 32} {call t : ℚ}

theorem delay_le_iff (hHZ : 1 ≤ HZ) :
    call + msec.toInt / 1000 ≤ t ↔ call * HZ + delayTicks HZ msec ≤ t * HZ := by
  have hpos : (0 : ℚ) < HZ := by exact_mod_cast hHZ
  have hmul : call * HZ + delayTicks HZ msec = (call + msec.toInt / 1000) * HZ := by
    unfold delayTicks
    ring
  rw [hmul]
  exact (mul_le_mul_iff_of_pos_right hpos).symm

theorem delayTicks_pos (hHZ : 1 ≤ HZ) (hmsec : 0 ≤ msec.toInt) (hne : msec ≠ 0) :
    0 < delayTicks HZ msec := by
  have hpos : (0 : ℚ) < HZ := by exact_mod_cast hHZ
  have hnonzero : msec.toInt ≠ 0 := by
    intro hzero
    exact hne (BitVec.toInt_inj.mp (hzero.trans BitVec.toInt_zero.symm))
  have hint : (0 : ℚ) < msec.toInt := by exact_mod_cast lt_of_le_of_ne hmsec hnonzero.symm
  unfold delayTicks
  positivity

theorem deadline_time (call : ℚ) (hHZ : 1 ≤ HZ) (hdelay : 0 < delayTicks HZ msec) :
    ∃ t : ℚ, call ≤ t ∧ t * HZ = (⌊call * HZ⌋ + ⌈delayTicks HZ msec⌉ : ℤ) := by
  have hpos : (0 : ℚ) < HZ := by exact_mod_cast hHZ
  have hone : (1 : ℚ) ≤ ⌈delayTicks HZ msec⌉ := by exact_mod_cast Int.one_le_ceil_iff.mpr hdelay
  have hnext := Int.lt_floor_add_one (call * HZ)
  refine ⟨(⌊call * HZ⌋ + ⌈delayTicks HZ msec⌉ : ℤ) / HZ, ?_, div_mul_cancel₀ _ hpos.ne'⟩
  apply le_of_mul_le_mul_right _ hpos
  rw [div_mul_cancel₀ _ hpos.ne']
  push_cast
  linarith

theorem call_le_poll {polls : List ℚ} {i : ℕ} (h : (call :: polls).IsChain (· ≤ ·))
    (ht : polls[i]? = some t) : call ≤ t := by
  have hall := List.isChain_iff_pairwise.mp h
  exact (List.pairwise_cons.mp hall).1 t (List.mem_of_getElem? ht)

theorem expire_eq (hround : ((K.ticks msec).toNat : ℤ) = ⌈delayTicks HZ msec⌉) :
    jiffiesAt w HZ call + K.ticks msec =
      BitVec.ofInt w (⌊call * HZ⌋ + ⌈delayTicks HZ msec⌉) := by
  rw [jiffiesAt, ← hround, BitVec.ofInt_add, BitVec.ofInt_natCast, BitVec.ofNat_toNat,
    BitVec.setWidth_eq]

theorem not_before_of_busyWait {expire : BitVec w} {polls : List (BitVec w)} {i : ℕ}
    (h : busyWait expire polls = some i) :
    ∃ jiffies, polls[i]? = some jiffies ∧ before jiffies expire = false := by
  rw [busyWait_eq] at h
  obtain ⟨hi, hexpired, -⟩ := List.findIdx?_eq_some_iff_getElem.mp h
  exact ⟨polls[i], List.getElem?_eq_getElem hi, by simpa using hexpired⟩

theorem before_of_early (hw : 0 < w) (hround : ((K.ticks msec).toNat : ℤ) = ⌈delayTicks HZ msec⌉)
    (hphase : Int.fract (call * HZ) ≤ ⌈delayTicks HZ msec⌉ - delayTicks HZ msec) (hcall : call ≤ t)
    (hearly : t * HZ < call * HZ + delayTicks HZ msec) :
    before (jiffiesAt w HZ t) (jiffiesAt w HZ call + K.ticks msec) := by
  have hticks := (K.le_offset msec).trans_lt K.offset_lt
  have hstart : ⌊call * HZ⌋ ≤ ⌊t * HZ⌋ :=
    Int.floor_mono (mul_le_mul_of_nonneg_right hcall (Nat.cast_nonneg HZ))
  have hend : ⌊t * HZ⌋ < ⌊call * HZ⌋ + ⌈delayTicks HZ msec⌉ := by
    rw [Int.floor_lt]
    push_cast
    have hsplit := Int.floor_add_fract (call * HZ)
    linarith
  have hnear : Near w ⌊t * HZ⌋ (⌊call * HZ⌋ + ⌈delayTicks HZ msec⌉) := by
    have hlt := Int.ofNat_lt.mpr hticks
    push_cast at hlt
    constructor
    · omega
    · have hpow : (0 : ℤ) < 2 ^ (w - 1) := by positivity
      omega
  rw [expire_eq hround, jiffiesAt, before_iff hw hnear]
  exact hend

theorem returns_at_deadline
    (hround : ((K.ticks msec).toNat : ℤ) = ⌈delayTicks HZ msec⌉)
    (ht : t * HZ = (⌊call * HZ⌋ + ⌈delayTicks HZ msec⌉ : ℤ)) :
    myMdelay K msec (jiffiesAt w HZ call) [jiffiesAt w HZ t] = some 0 := by
  have hdue : before (jiffiesAt w HZ t) (jiffiesAt w HZ call + K.ticks msec) = false := by
    rw [expire_eq hround, jiffiesAt, ht, Int.floor_intCast, before, BitVec.sub_self]
    simp
  rw [myMdelay, busyWait_eq, List.findIdx?_cons, hdue]
  rfl

end

/-- The call has to come early enough in its tick for the rounding up of the delay to make up
for it; a delay of zero asks for nothing. -/
theorem minimum_delay_iff (hw : 32 ≤ w) (K : MsecsToJiffies w) (HZ : ℕ) (hHZ : 1 ≤ HZ)
    (msec : BitVec 32) (hmsec : 0 ≤ msec.toInt)
    (hround : ((K.ticks msec).toNat : ℤ) = ⌈delayTicks HZ msec⌉) (call : ℚ) :
    MinimumDelay K HZ msec call ↔
      msec = 0 ∨ Int.fract (call * HZ) ≤ ⌈delayTicks HZ msec⌉ - delayTicks HZ msec := by
  constructor
  · intro h
    by_cases hzero : msec = 0
    · exact .inl hzero
    right
    obtain ⟨t, hafter, ht⟩ := deadline_time call hHZ (delayTicks_pos hHZ hmsec hzero)
    have hle := h [t] (by simpa using hafter) 0 t (returns_at_deadline hround ht) rfl
    rw [delay_le_iff hHZ, ht] at hle
    have hsplit := Int.floor_add_fract (call * HZ)
    push_cast at hle
    linarith
  · intro h polls hpolls i t hret hi
    have hcall := call_le_poll hpolls hi
    rcases h with rfl | hphase
    · simpa using hcall
    · rw [delay_le_iff hHZ]
      by_contra hearly
      have hbefore := before_of_early (by omega) hround hphase hcall (not_le.mp hearly)
      obtain ⟨jiffies, hj, hexpired⟩ := not_before_of_busyWait hret
      rw [List.getElem?_map, hi] at hj
      obtain rfl := Option.some.inj hj
      rw [hbefore] at hexpired
      cases hexpired

theorem minimum_delay_iff_half : MinimumDelay hundredHertz 100 15 (1 / 250) := by
  have hdelay : delayTicks 100 15 = 3 / 2 := by
    have hint : (15 : BitVec 32).toInt = 15 := by decide
    rw [delayTicks, hint]
    norm_num
  have hceil : ⌈(3 / 2 : ℚ)⌉ = 2 := by norm_num
  have hticks : (hundredHertz.ticks 15).toNat = 2 := by decide
  refine (minimum_delay_iff (by decide) hundredHertz 100 (by decide) 15 (by decide) ?_ _).mpr
    (.inr ?_)
  · rw [hdelay, hceil, hticks]
    rfl
  · rw [hdelay, hceil]
    norm_num

/-- Called in the middle of a tick, ten milliseconds are over after five. -/
theorem returns_half_a_tick_early : ¬ ∀ (w : ℕ) (K : MsecsToJiffies w) (HZ : ℕ)
    (msec : BitVec 32) (call : ℚ), 32 ≤ w → 1 ≤ HZ → 0 ≤ msec.toInt →
    ((K.ticks msec).toNat : ℤ) = ⌈delayTicks HZ msec⌉ → MinimumDelay K HZ msec call := by
  intro h
  have hdelay : delayTicks 100 10 = 1 := by
    have hint : (10 : BitVec 32).toInt = 10 := by decide
    rw [delayTicks, hint]
    norm_num
  have hround : ((hundredHertz.ticks 10).toNat : ℤ) = ⌈delayTicks 100 10⌉ := by
    rw [hdelay, Int.ceil_one]
    decide
  have hcall : ⌊(1 / 200 : ℚ) * (100 : ℕ)⌋ = 0 := by norm_num
  have hreturn : myMdelay hundredHertz 10 (jiffiesAt 64 100 (1 / 200))
      [jiffiesAt 64 100 (1 / 100)] = some 0 := by
    apply returns_at_deadline hround
    rw [hcall, hdelay]
    norm_num
  have hle := h 64 hundredHertz 100 10 (1 / 200) (by decide) (by decide) (by decide) hround
    [1 / 100] (by norm_num) 0 (1 / 100) hreturn rfl
  have hint : (10 : BitVec 32).toInt = 10 := by decide
  rw [hint] at hle
  norm_num at hle

end TimerJiffies
