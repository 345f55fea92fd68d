import LinuxDriver.TransitionSystem
import LinuxDriver.KernelStrings

/-!
# The size and buffer attributes of the chardev drivers

my_create_group_attr, my_create_attr and my_misc have the same four sysfs handlers over the
same private data. They differ in how many bytes of "tao" the init function copies and in
what `buffer_show` adds to the length that it gives to `snprintf`.
-/
namespace ChardevAttributes

open TransitionSystem CMemory KernelTypes KernelStrings

def bufferSize : ℕ := 20

/-- The memory from the start of `buffer` on: the array and whatever follows it. -/
@[ext] structure PrivateData where
  size : BitVec 64
  mem : List UInt8
  room : bufferSize ≤ mem.length
  deriving DecidableEq, Repr

def PrivateData.buffer (p : PrivateData) : List UInt8 := p.mem.take bufferSize

def PrivateData.write (p : PrivateData) (ws : List Write) : PrivateData :=
  ⟨p.size, applyWrites p.mem ws, by simpa using p.room⟩

structure Shown where
  ret : ℕ
  page : List Write
  deriving DecidableEq, Repr

structure AttrDriver where
  copied : List UInt8
  extra : ℕ

/-- "tao" with its terminator, and `strlen(data->buffer) + 1`. -/
def myCreateGroupAttr : AttrDriver := ⟨[116, 97, 111, 0], 1⟩
def myMisc : AttrDriver := ⟨[116, 97, 111, 0], 1⟩
/-- "tao" without its terminator, and `strlen(data->buffer)`. -/
def myCreateAttr : AttrDriver := ⟨[116, 97, 111], 0⟩

def fillBuffer (text : List UInt8) : List Write := memset 0 0 bufferSize ++ memcpy 0 text

/-- `kzalloc` and the first values; `beyond` is the memory that follows the array. -/
def AttrDriver.init (D : AttrDriver) (beyond : List UInt8) : PrivateData :=
  PrivateData.write ⟨100, List.replicate bufferSize 0 ++ beyond, by simp⟩ (fillBuffer D.copied)

def sizeShow (p : PrivateData) : Shown :=
  let text := percentD (p.size.setWidth 32) ++ [10]
  ⟨text.length, snprintf 4 text⟩

/-- The result of `kstrtoul` is not looked at, and a rejected text leaves `size` alone. -/
def sizeStore (p : PrivateData) (buf : List UInt8) : ℤ × PrivateData :=
  match kstrtoul buf with
  | .ok n => (buf.length, { p with size := n })
  | .error _ => (buf.length, p)

def AttrDriver.bufferShow (D : AttrDriver) (p : PrivateData) : Shown :=
  let text := cString p.mem ++ [10]
  ⟨text.length, snprintf (strlen p.mem + D.extra) text⟩

def bufferStore (p : PrivateData) (buf : List UInt8) : ℤ × PrivateData :=
  (buf.length, p.write (fillBuffer buf))

inductive Call where
  | sizeShow
  | sizeStore (buf : List UInt8)
  | bufferShow
  | bufferStore (buf : List UInt8)
  deriving DecidableEq, Repr

def step (p : PrivateData) : Call → Option PrivateData
  | .sizeShow | .bufferShow => some p
  | .sizeStore buf => if buf.length ≤ PAGE_SIZE then some (sizeStore p buf).2 else none
  | .bufferStore buf => if buf.length ≤ PAGE_SIZE then some (bufferStore p buf).2 else none

def attributes (D : AttrDriver) (beyond : List UInt8) : System PrivateData Call :=
  ⟨D.init beyond, step⟩

@[simp] theorem sizeStore_mem (p : PrivateData) (buf : List UInt8) :
    (sizeStore p buf).2.mem = p.mem := by
  unfold sizeStore
  split <;> rfl

def Call.writes : Call → List Write
  | .bufferStore buf => fillBuffer buf
  | _ => []

def Call.reads (p : PrivateData) : Call → List ℕ
  | .bufferShow => cStringReads p.mem
  | _ => []

def Inside (p : PrivateData) (c : Call) : Prop :=
  (∀ w ∈ c.writes, w.offset < bufferSize) ∧ ∀ k ∈ c.reads p, k < bufferSize

def Terminated (p : PrivateData) : Prop := 0 ∈ p.buffer

/-- Every call stays inside the array, and the array always holds a terminator. -/
def Contained (D : AttrDriver) (beyond : List UInt8) (cs : List Call) : Prop :=
  (attributes D beyond).EachStep Inside cs ∧ (attributes D beyond).Throughout Terminated cs

def Fits (buf : List UInt8) : Prop :=
  buf.length < bufferSize ∨ buf.length = bufferSize ∧ 0 ∈ buf

theorem Fits.length_le {buf : List UInt8} (h : Fits buf) : buf.length ≤ bufferSize := by
  obtain h | h := h <;> omega

theorem fillBuffer_inside_iff {buf : List UInt8} :
    (∀ w ∈ fillBuffer buf, w.offset < bufferSize) ↔ buf.length ≤ bufferSize :=
  fill_inside_iff

theorem buffer_fillBuffer (p : PrivateData) {buf : List UInt8} (h : buf.length ≤ bufferSize) :
    (p.write (fillBuffer buf)).buffer = buf ++ List.replicate (bufferSize - buf.length) 0 := by
  have htake := take_fill p.room h
  simpa only [PrivateData.buffer, PrivateData.write, fillBuffer] using htake

theorem terminated_fillBuffer_iff (p : PrivateData) {buf : List UInt8}
    (h : buf.length ≤ bufferSize) : Terminated (p.write (fillBuffer buf)) ↔ Fits buf := by
  have hzero := zero_mem_fill_iff p.room h
  simpa only [Terminated, PrivateData.buffer, PrivateData.write, fillBuffer, Fits] using hzero

theorem reads_inside {p : PrivateData} (h : Terminated p) (c : Call) :
    ∀ k ∈ c.reads p, k < bufferSize := by
  cases c with
  | bufferShow => exact reads_inside_iff.mpr ((strlen_lt_iff p.room).mpr h)
  | _ => simp [Call.reads]

theorem terminated_init {D : AttrDriver} (hD : Fits D.copied) (beyond : List UInt8) :
    Terminated (D.init beyond) :=
  (terminated_fillBuffer_iff _ hD.length_le).mpr hD

theorem terminated_step {p q : PrivateData} {c : Call}
    (hc : ∀ buf, c = .bufferStore buf → Fits buf) (h : Terminated p) (hstep : step p c = some q) :
    Terminated q := by
  cases c with
  | sizeShow | bufferShow =>
    obtain rfl := Option.some.inj hstep
    exact h
  | sizeStore buf =>
    rcases Option.ite_none_right_eq_some.mp hstep with ⟨-, hstep⟩
    obtain rfl := Option.some.inj hstep
    simpa [Terminated, PrivateData.buffer] using h
  | bufferStore buf =>
    rcases Option.ite_none_right_eq_some.mp hstep with ⟨-, hstep⟩
    obtain rfl := Option.some.inj hstep
    have hfits := hc buf rfl
    exact (terminated_fillBuffer_iff p hfits.length_le).mpr hfits

theorem trace_terminated {D : AttrDriver} (hD : Fits D.copied) {beyond : List UInt8}
    {cs : List Call} {p : PrivateData} (h : (attributes D beyond).Trace cs p)
    (hcs : ∀ buf, .bufferStore buf ∈ cs → Fits buf) : Terminated p :=
  h.invariant_eachStep (C := fun _ c => ∀ buf, c = .bufferStore buf → Fits buf)
    (fun pre c _ hpre _ buf hc => hcs buf (hpre.subset (by simp [hc])))
    (terminated_init hD beyond) fun hc hI hstep => terminated_step hc hI hstep

theorem fits_of_contained {D : AttrDriver} {beyond : List UInt8} {cs : List Call}
    {p : PrivateData} (h : (attributes D beyond).Trace cs p) (hc : Contained D beyond cs)
    {buf : List UInt8} (hbuf : .bufferStore buf ∈ cs) : Fits buf := by
  rcases List.append_of_mem hbuf with ⟨pre, post, rfl⟩
  obtain ⟨q, r, hq, hstep, hr, -⟩ := h.split_at
  have hpre : pre ++ [.bufferStore buf] <+: pre ++ .bufferStore buf :: post := ⟨post, by simp⟩
  have hlen := fillBuffer_inside_iff.mp (hc.1 _ _ _ hpre hq).1
  have hterm := hc.2 _ _ hpre hr
  rcases Option.ite_none_right_eq_some.mp hstep with ⟨-, hstep⟩
  obtain rfl := Option.some.inj hstep
  exact (terminated_fillBuffer_iff q hlen).mp hterm

theorem contained_of_fits {D : AttrDriver} (hD : Fits D.copied) {beyond : List UInt8}
    {cs : List Call} (hcs : ∀ buf, .bufferStore buf ∈ cs → Fits buf) :
    Contained D beyond cs := by
  have hterm {pre : List Call} {q : PrivateData} (hpre : pre <+: cs)
      (hq : (attributes D beyond).Trace pre q) : Terminated q :=
    trace_terminated hD hq fun buf hbuf => hcs buf (hpre.subset hbuf)
  refine ⟨fun pre c q hpre hq => ⟨?_, ?_⟩, fun pre q hpre hq => hterm hpre hq⟩
  · cases c with
    | bufferStore buf =>
      exact fillBuffer_inside_iff.mpr (hcs buf (hpre.subset (by simp))).length_le
    | _ => simp [Call.writes]
  · exact reads_inside (hterm ((List.prefix_append _ _).trans hpre) hq) c

/-- The group-attribute driver and the misc driver stay inside the array in exactly the runs
whose texts fit, whatever else is called in between. -/
theorem buffer_contained_iff : ∀ D ∈ [myCreateGroupAttr, myMisc], ∀ beyond cs p,
    (attributes D beyond).Trace cs p →
      (Contained D beyond cs ↔ ∀ buf, .bufferStore buf ∈ cs → Fits buf) := by
  intro D hD beyond cs p h
  have hinit : Fits D.copied := by
    simp only [List.mem_cons, List.not_mem_nil, or_false] at hD
    obtain rfl | rfl := hD <;> exact .inl (by decide)
  exact ⟨fun hc buf hbuf => fits_of_contained h hc hbuf, contained_of_fits hinit⟩

theorem buffer_contained_short : Contained myCreateGroupAttr [7, 7]
    [.bufferStore (List.replicate 19 97), .bufferShow, .sizeStore [120],
      .bufferStore (List.replicate 19 98 ++ [0]), .bufferShow] := by
  refine (buffer_contained_iff myCreateGroupAttr (by simp) _ _ _ (System.trace_of_run rfl)).mpr ?_
  intro buf hbuf
  simp only [List.mem_cons, Call.bufferStore.injEq, reduceCtorEq, List.not_mem_nil, false_or,
    or_false] at hbuf
  rcases hbuf with rfl | rfl
  · exact .inl (by decide)
  · exact .inr (by decide)

theorem buffer_overrun : ¬ ∀ beyond cs p, (attributes myCreateGroupAttr beyond).Trace cs p →
    Contained myCreateGroupAttr beyond cs := by
  intro h
  have hc := h [7, 7] [.bufferStore (List.replicate 21 97)] _ (System.trace_of_run rfl)
  have hinside := (hc.1 [] _ _ (List.prefix_refl _) .nil).1
  exact absurd (fillBuffer_inside_iff.mp hinside) (by decide)

example : ¬ Terminated (bufferStore (myMisc.init [7, 7]) (List.replicate 20 97)).2 := by
  rw [bufferStore, terminated_fillBuffer_iff _ (by decide)]
  rintro (h | ⟨-, h⟩)
  · exact absurd h (by decide)
  · exact absurd h (by decide)

end ChardevAttributes
