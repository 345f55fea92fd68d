import LinuxDriver.ChardevAttributes
import Mathlib.Tactic.IntervalCases

/-!
# What user space reads from the size and buffer attributes

sysfs hands a zeroed page to a show handler and passes on as many of its bytes as the handler
returns. `snprintf` returns the length of the whole text, also where its bound cuts the text.
-/
namespace ChardevTexts

open TransitionSystem CMemory KernelTypes KernelStrings ChardevAttributes

def delivered (sh : Shown) : List UInt8 :=
  (applyWrites (List.replicate PAGE_SIZE 0) sh.page).take sh.ret

theorem delivered_snprintf {text : List UInt8} (n : ℕ) (h : text.length < PAGE_SIZE) :
    delivered ⟨text.length, snprintf n text⟩ =
      text.take (n - 1) ++ List.replicate (text.length - (n - 1)) 0 := take_snprintf n h

theorem length_percentD_le (x : BitVec 32) : (percentD x).length ≤ 11 := by
  have hnat : x.toInt.natAbs < 10 ^ 10 := by
    have hlow := BitVec.le_toInt x
    have hhigh := BitVec.toInt_lt (x := x)
    omega
  have hdec : (decimal x.toInt.natAbs).length ≤ 10 := by
    unfold decimal
    split
    · decide
    · rw [List.length_map, List.length_reverse]
      exact (Nat.digits_length_le_iff (by decide) _).mpr hnat
  unfold percentD
  split
  · exact Nat.succ_le_succ hdec
  · exact Nat.le_succ_of_le hdec

theorem zero_notMem_decimal (n : ℕ) : 0 ∉ decimal n :=
  fun h => absurd (isDigit_of_mem h) (by decide)

/-- The number survives the way through `size_store` and `size_show`. -/
def SizeRoundTrip (p : PrivateData) (n : BitVec 64) (newline : List UInt8) : Prop :=
  delivered (sizeShow (sizeStore p (decimal n.toNat ++ newline)).2) = decimal n.toNat ++ [10]

theorem percentD_of_small {n : BitVec 64} (h : n.toNat < 100) :
    percentD (n.setWidth 32) = decimal n.toNat := by
  have hlow : (n.setWidth 32).toNat = n.toNat := by
    rw [BitVec.toNat_setWidth, Nat.mod_eq_of_lt (by omega)]
  have hint : (n.setWidth 32).toInt = n.toNat := by
    rw [BitVec.toInt_eq_toNat_of_lt (by omega), hlow]
  simp [percentD, hint]

theorem delivered_sizeStore (p : PrivateData) (n : BitVec 64) {newline : List UInt8}
    (h : newline ∈ [[], [10]]) :
    delivered (sizeShow (sizeStore p (decimal n.toNat ++ newline)).2) =
      (percentD (n.setWidth 32) ++ [10]).take 3 ++
        List.replicate ((percentD (n.setWidth 32) ++ [10]).length - 3) 0 := by
  have hstore : kstrtoul (decimal n.toNat ++ newline) = .ok n :=
    kstrtoul_decimal n (by simpa using h)
  have hpage : (percentD (n.setWidth 32) ++ [10]).length < PAGE_SIZE := by
    have hlen := length_percentD_le (n.setWidth 32)
    simp only [List.length_append, List.length_singleton, PAGE_SIZE]
    omega
  simp only [sizeStore, hstore]
  exact delivered_snprintf 4 hpage

theorem size_round_trip_iff (p : PrivateData) (n : BitVec 64) :
    ∀ newline ∈ [[], [10]], SizeRoundTrip p n newline ↔ n.toNat < 100 := by
  intro newline hnl
  rw [SizeRoundTrip, delivered_sizeStore p n hnl]
  constructor
  · intro heq
    have hlen : (percentD (n.setWidth 32) ++ [10]).length ≤ 3 := by
      by_contra hcut
      have hnul : (0 : UInt8) ∈ decimal n.toNat ++ [10] := by
        rw [← heq]
        exact List.mem_append_right _ (by simp at hcut ⊢; omega)
      simp [zero_notMem_decimal] at hnul
    have hsame := congrArg List.length heq
    have hdec : (decimal n.toNat).length ≤ 2 := by
      simp only [List.length_append, List.length_take, List.length_replicate,
        List.length_singleton] at hlen hsame
      omega
    exact length_decimal_le_two_iff.mp hdec
  · intro hsmall
    have hdec := length_decimal_le_two_iff.mpr hsmall
    have hfit : (decimal n.toNat ++ [10]).length ≤ 3 := by simp; omega
    rw [percentD_of_small hsmall, List.take_of_length_le hfit, Nat.sub_eq_zero_of_le hfit]
    simp

theorem size_round_trip_iff_twoDigits : SizeRoundTrip (myMisc.init []) 42 [10] :=
  (size_round_trip_iff _ 42 [10] (by simp)).mpr (by decide)

/-- Three digits and the newline are one character too many. -/
theorem size_cut : ¬ ∀ p n, ∀ newline ∈ [[], [10]], SizeRoundTrip p n newline := by
  intro h
  have hcut := h (myCreateGroupAttr.init []) 100 [] (by simp)
  rw [SizeRoundTrip, delivered_sizeStore _ 100 (by simp)] at hcut
  exact absurd hcut (by decide)

/-- A text that denotes no number is refused and changes nothing; of any other the number is
stored and the length returned. -/
structure StoresNumber (p : PrivateData) (buf : List UInt8) : Prop where
  refused : (sizeStore p buf).1 < 0 ↔ ¬ ∃ n, Denotes (cString buf) n
  kept : (¬ ∃ n, Denotes (cString buf) n) → (sizeStore p buf).2.size = p.size
  stored : ∀ n, Denotes (cString buf) n →
    (sizeStore p buf).1 = buf.length ∧ (sizeStore p buf).2.size = n

theorem sizeStore_returns (p : PrivateData) (buf : List UInt8) :
    (sizeStore p buf).1 = buf.length := by
  unfold sizeStore
  split
  · rfl
  · rfl

theorem sizeStore_of_denotes (p : PrivateData) {buf : List UInt8} {n : BitVec 64}
    (h : Denotes (cString buf) n) : (sizeStore p buf).2.size = n := by
  unfold sizeStore
  rw [kstrtoul_ok_iff.mpr h]

theorem denotes_of_storesNumber {p : PrivateData} {buf : List UInt8} (h : StoresNumber p buf) :
    ∃ n, Denotes (cString buf) n := by
  by_contra hnone
  have hneg := h.refused.mpr hnone
  have hret := sizeStore_returns p buf
  omega

theorem stores_number_iff (p : PrivateData) (buf : List UInt8) :
    StoresNumber p buf ↔ ∃ n, Denotes (cString buf) n := by
  constructor
  · exact denotes_of_storesNumber
  · intro hsome
    have hret := sizeStore_returns p buf
    refine ⟨iff_of_false ?_ (not_not_intro hsome), fun hnone => absurd hsome hnone, ?_⟩
    · omega
    · intro n hn
      exact ⟨hret, sizeStore_of_denotes p hn⟩

/-- The letter x is taken for a successful write of one byte. -/
theorem letter_accepted : ¬ ∀ p buf, StoresNumber p buf := by
  intro h
  obtain ⟨n, hn⟩ := denotes_of_storesNumber (h (myCreateGroupAttr.init []) [120])
  have hok := kstrtoul_of_denotes (s := [120]) hn
  have herr : kstrtoul [120] = .error (-EINVAL) := by decide
  rw [herr] at hok
  cases hok

theorem cString_buffer {p : PrivateData} (h : Terminated p) : cString p.mem = cString p.buffer := by
  have hsplit := cString_append_of_mem h (p.mem.drop bufferSize)
  rwa [PrivateData.buffer, List.take_append_drop] at hsplit

theorem strlen_lt {p : PrivateData} (h : Terminated p) : strlen p.mem < bufferSize :=
  (strlen_lt_iff p.room).mpr h

theorem cString_bufferStore (p : PrivateData) {buf : List UInt8} (h : buf.length < bufferSize) :
    cString (bufferStore p buf).2.mem = cString buf := by
  have hterm := (terminated_fillBuffer_iff p h.le).mpr (.inl h)
  rw [bufferStore, cString_buffer hterm, buffer_fillBuffer p h.le, cString_append_zeros]

theorem delivered_bufferShow (D : AttrDriver) {p : PrivateData} (h : Terminated p) :
    delivered (D.bufferShow p) = (cString p.mem ++ [10]).take (strlen p.mem + D.extra - 1) ++
      List.replicate (strlen p.mem + 1 - (strlen p.mem + D.extra - 1)) 0 := by
  have hlen : (cString p.mem ++ [10]).length = strlen p.mem + 1 := by simp [strlen]
  have hroom := strlen_lt h
  have hpage : (cString p.mem ++ [10]).length < PAGE_SIZE := by
    rw [hlen]
    simp only [bufferSize] at hroom
    simp only [PAGE_SIZE]
    omega
  have htext := delivered_snprintf (strlen p.mem + D.extra) hpage
  rw [hlen] at htext
  simpa only [AttrDriver.bufferShow, hlen] using htext

theorem delivered_plus_one {D : AttrDriver} (hD : D.extra = 1) {p : PrivateData}
    (h : Terminated p) : delivered (D.bufferShow p) = cString p.mem ++ [0] := by
  rw [delivered_bufferShow D h, hD]
  simp [strlen]

theorem delivered_plus_zero {D : AttrDriver} (hD : D.extra = 0) {p : PrivateData}
    (h : Terminated p) : delivered (D.bufferShow p) =
      (cString p.mem).take (strlen p.mem - 1) ++ List.replicate (min (strlen p.mem) 1 + 1) 0 := by
  have hcut : strlen p.mem - 1 ≤ (cString p.mem).length := Nat.sub_le _ _
  rw [delivered_bufferShow D h, hD, Nat.add_zero, List.take_append_of_le_length hcut]
  congr 2
  omega

def BufferRoundTrip (D : AttrDriver) (p : PrivateData) (s : List UInt8) : Prop :=
  delivered (D.bufferShow (bufferStore p s).2) = s ++ [10] ∧
    0 ∉ delivered (D.bufferShow (bufferStore p s).2)

/-- Whatever was stored, its place behind the text holds a NUL instead of the newline. -/
theorem buffer_never_round_trips : ∀ D ∈ [myCreateGroupAttr, myMisc], ∀ p s,
    1 ≤ s.length → s.length ≤ 19 → 0 ∉ s → ¬ BufferRoundTrip D p s := by
  intro D hD p s _ hlen _ hround
  have hextra : D.extra = 1 := by
    simp only [List.mem_cons, List.not_mem_nil, or_false] at hD
    obtain rfl | rfl := hD <;> rfl
  have hshort : s.length < bufferSize := Nat.lt_succ_of_le hlen
  have hterm := (terminated_fillBuffer_iff p hshort.le).mpr (.inl hshort)
  have hpage := delivered_plus_one hextra (p := (bufferStore p s).2) hterm
  apply hround.2
  rw [hpage]
  exact List.mem_append_right _ (by simp)

theorem buffer_never_round_trips_letter :
    ¬ BufferRoundTrip myMisc (myMisc.init []) [97] :=
  buffer_never_round_trips myMisc (by simp) _ _ (by decide) (by decide) (by decide)

theorem buffer_newline_cut : ¬ ∀ D ∈ [myCreateGroupAttr, myMisc], ∀ p s,
    1 ≤ s.length → s.length ≤ 19 → 0 ∉ s → BufferRoundTrip D p s := by
  intro h
  have hround := h myCreateGroupAttr (by simp) (myCreateGroupAttr.init []) [97]
    (by decide) (by decide) (by decide)
  have hterm : Terminated (bufferStore (myCreateGroupAttr.init []) [97]).2 :=
    (terminated_fillBuffer_iff _ (by decide)).mpr (.inl (by decide))
  have hpage : delivered (myCreateGroupAttr.bufferShow
      (bufferStore (myCreateGroupAttr.init []) [97]).2) = [97, 0] := delivered_plus_one rfl hterm
  rw [BufferRoundTrip, hpage] at hround
  exact absurd hround.1 (by decide)

structure Reply where
  ret : ℤ
  bytes : List UInt8
  deriving DecidableEq, Repr

def serve (D : AttrDriver) (p : PrivateData) : Call → Reply × PrivateData
  | .sizeShow => (⟨(sizeShow p).ret, delivered (sizeShow p)⟩, p)
  | .bufferShow => (⟨(D.bufferShow p).ret, delivered (D.bufferShow p)⟩, p)
  | .sizeStore buf => (⟨(sizeStore p buf).1, []⟩, (sizeStore p buf).2)
  | .bufferStore buf => (⟨(bufferStore p buf).1, []⟩, (bufferStore p buf).2)

def replies (D : AttrDriver) (p : PrivateData) : List Call → List Reply
  | [] => []
  | c :: cs => (serve D p c).1 :: replies D (serve D p c).2 cs

/-- Every `buffer_show` of the sequence meets an empty text, where `text` was stored last. -/
def EmptyWhenShown (text : List UInt8) : List Call → Prop
  | [] => True
  | .bufferShow :: cs => cString text = [] ∧ EmptyWhenShown text cs
  | .bufferStore buf :: cs => EmptyWhenShown buf cs
  | .sizeShow :: cs | .sizeStore _ :: cs => EmptyWhenShown text cs

structure Alike (text : List UInt8) (p q : PrivateData) : Prop where
  size : p.size = q.size
  left : Terminated p ∧ cString p.mem = cString text
  right : Terminated q ∧ cString q.mem = cString text

theorem terminated_of_mem {p q : PrivateData} (h : p.mem = q.mem) (hp : Terminated p) :
    Terminated q := by
  unfold Terminated PrivateData.buffer at *
  rwa [← h]

theorem alike_sizeStore {text : List UInt8} {p q : PrivateData} (h : Alike text p q)
    (buf : List UInt8) :
    (sizeStore p buf).1 = (sizeStore q buf).1 ∧
      Alike text (sizeStore p buf).2 (sizeStore q buf).2 := by
  have hp := sizeStore_mem p buf
  have hq := sizeStore_mem q buf
  refine ⟨by unfold sizeStore; split <;> rfl, ?_, ?_, ?_⟩
  · unfold sizeStore
    split
    · rfl
    · exact h.size
  · exact ⟨terminated_of_mem hp.symm h.left.1, by rw [hp, h.left.2]⟩
  · exact ⟨terminated_of_mem hq.symm h.right.1, by rw [hq, h.right.2]⟩

theorem alike_bufferStore {text : List UInt8} {p q : PrivateData} (h : Alike text p q)
    {buf : List UInt8} (hlen : buf.length < bufferSize) :
    Alike buf (bufferStore p buf).2 (bufferStore q buf).2 := by
  constructor
  · exact h.size
  · exact ⟨(terminated_fillBuffer_iff p hlen.le).mpr (.inl hlen), cString_bufferStore p hlen⟩
  · exact ⟨(terminated_fillBuffer_iff q hlen.le).mpr (.inl hlen), cString_bufferStore q hlen⟩

theorem same_page_iff {text : List UInt8} {p q : PrivateData} (h : Alike text p q) :
    delivered (myCreateAttr.bufferShow p) = delivered (myCreateGroupAttr.bufferShow q) ↔
      cString text = [] := by
  have hzero := zero_notMem_cString text
  rw [delivered_plus_zero rfl h.left.1, delivered_plus_one rfl h.right.1, strlen, h.left.2,
    h.right.2]
  cases hs : cString text using List.reverseRecOn with
  | nil => simp
  | append_singleton s b =>
    rw [hs] at hzero
    have hb : 0 ≠ b := fun hb => hzero (by simp [hb])
    simp [List.replicate_succ, hb]

theorem alike_init (beyond beyond' : List UInt8) :
    Alike [116, 97, 111] (myCreateAttr.init beyond) (myCreateGroupAttr.init beyond') := by
  constructor
  · rfl
  · exact ⟨(terminated_fillBuffer_iff _ (by decide)).mpr (.inl (by decide)),
      cString_bufferStore _ (by decide)⟩
  · exact ⟨(terminated_fillBuffer_iff _ (by decide)).mpr (.inl (by decide)),
      cString_bufferStore _ (by decide)⟩

theorem replies_eq_iff {text : List UInt8} {p q : PrivateData} {cs : List Call}
    (h : Alike text p q) (hcs : ∀ buf, .bufferStore buf ∈ cs → buf.length ≤ 19) :
    replies myCreateAttr p cs = replies myCreateGroupAttr q cs ↔ EmptyWhenShown text cs := by
  induction cs generalizing text p q with
  | nil => simp [replies, EmptyWhenShown]
  | cons c cs ih =>
    have hrest : ∀ buf, .bufferStore buf ∈ cs → buf.length ≤ 19 :=
      fun buf hbuf => hcs buf (List.mem_cons_of_mem c hbuf)
    cases c with
    | sizeShow =>
      have hsame : sizeShow p = sizeShow q := by simp only [sizeShow, h.size]
      simp only [replies, serve, hsame, List.cons.injEq, true_and, EmptyWhenShown]
      exact ih h hrest
    | sizeStore buf =>
      obtain ⟨hret, hnext⟩ := alike_sizeStore h buf
      simp only [replies, serve, hret, List.cons.injEq, true_and, EmptyWhenShown]
      exact ih hnext hrest
    | bufferStore buf =>
      have hlen : buf.length < bufferSize := Nat.lt_succ_of_le (hcs buf List.mem_cons_self)
      simp only [replies, serve, bufferStore, List.cons.injEq, true_and, EmptyWhenShown]
      exact ih (alike_bufferStore h hlen) hrest
    | bufferShow =>
      have hret : (myCreateAttr.bufferShow p).ret = (myCreateGroupAttr.bufferShow q).ret := by
        simp only [AttrDriver.bufferShow, h.left.2, h.right.2]
      simp only [replies, serve, hret, List.cons.injEq, Reply.mk.injEq, true_and, EmptyWhenShown]
      exact and_congr (same_page_iff h) (ih h hrest)

/-- The two drivers answer alike in exactly the sequences that never show a text. -/
theorem same_device_iff : ∀ beyond beyond' cs,
    (∀ buf, .bufferStore buf ∈ cs → buf.length ≤ 19) →
    (replies myCreateAttr (myCreateAttr.init beyond) cs =
        replies myCreateGroupAttr (myCreateGroupAttr.init beyond') cs ↔
      EmptyWhenShown [116, 97, 111] cs) :=
  fun beyond beyond' _ hcs => replies_eq_iff (alike_init beyond beyond') hcs

theorem same_device_iff_cleared :
    let cs : List Call := [.sizeStore [55], .bufferStore [], .bufferShow, .sizeShow]
    replies myCreateAttr (myCreateAttr.init []) cs =
      replies myCreateGroupAttr (myCreateGroupAttr.init []) cs :=
  (same_device_iff [] [] _ (by simp)).mpr ⟨rfl, trivial⟩

/-- The first `buffer_show` after loading: "ta" against "tao". -/
theorem last_character_lost : ¬ ∀ beyond beyond' cs,
    (∀ buf, .bufferStore buf ∈ cs → buf.length ≤ 19) →
    replies myCreateAttr (myCreateAttr.init beyond) cs =
      replies myCreateGroupAttr (myCreateGroupAttr.init beyond') cs := by
  intro h
  have hshow := (replies_eq_iff (alike_init [] []) (by simp)).mp (h [] [] [.bufferShow] (by simp))
  exact absurd hshow.1 (by decide)

end ChardevTexts
