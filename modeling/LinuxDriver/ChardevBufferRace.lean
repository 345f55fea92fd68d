import LinuxDriver.ChardevTexts
import LinuxDriver.CallPool

/-!
# Concurrent stores and shows of the buffer attribute

Through different open files sysfs runs the handlers of my_create_group_attr side by side,
and they take no lock. `buffer_store` clears the array and copies the text in two steps;
`buffer_show` measures the text and prints it in two steps.
-/
namespace ChardevBufferRace

open TransitionSystem CallPool CMemory KernelTypes KernelStrings ChardevAttributes ChardevTexts

inductive StorePc where
  | entered
  | cleared
  | done
  deriving DecidableEq, Repr

/-- `n` is the bound that the show has computed for its `snprintf`. -/
inductive ShowPc where
  | entered
  | measured (n : ℕ)
  | done (sh : Shown)
  deriving DecidableEq, Repr

inductive Access where
  | storing (buf : List UInt8) (pc : StorePc)
  | showing (pc : ShowPc)
  deriving DecidableEq, Repr

def Access.text : Access → Option (List UInt8)
  | .storing buf _ => some buf
  | .showing _ => none

/-- Between its `memset` and its `memcpy`. -/
def Access.filling : Access → Bool
  | .storing _ .cleared => true
  | _ => false

structure State where
  data : PrivateData
  calls : List Access
  deriving DecidableEq, Repr

inductive Event where
  | bufferStore (buf : List UInt8)
  | memset (i : ℕ)
  | memcpy (i : ℕ)
  | bufferShow
  | strlen (i : ℕ)
  | snprintf (i : ℕ)
  deriving DecidableEq, Repr

def clear (p : PrivateData) : PrivateData := p.write (memset 0 0 bufferSize)

def copy (p : PrivateData) (buf : List UInt8) : PrivateData := p.write (memcpy 0 buf)

def bound (p : PrivateData) : ℕ := strlen p.mem + 1

def print (n : ℕ) (p : PrivateData) : Shown :=
  ⟨(cString p.mem ++ [10]).length, snprintf n (cString p.mem ++ [10])⟩

def stepAccess (s : State) (i : ℕ) : Event → Access → Option State
  | .memset _, .storing buf .entered =>
    some ⟨clear s.data, s.calls.set i (.storing buf .cleared)⟩
  | .memcpy _, .storing buf .cleared =>
    some ⟨copy s.data buf, s.calls.set i (.storing buf .done)⟩
  | .strlen _, .showing .entered =>
    some ⟨s.data, s.calls.set i (.showing (.measured (bound s.data)))⟩
  | .snprintf _, .showing (.measured n) =>
    some ⟨s.data, s.calls.set i (.showing (.done (print n s.data)))⟩
  | _, _ => none

def step (s : State) : Event → Option State
  | .bufferStore buf => some ⟨s.data, s.calls ++ [.storing buf .entered]⟩
  | .bufferShow => some ⟨s.data, s.calls ++ [.showing .entered]⟩
  | .memset i => s.calls[i]?.bind fun a => stepAccess s i (.memset i) a
  | .memcpy i => s.calls[i]?.bind fun a => stepAccess s i (.memcpy i) a
  | .strlen i => s.calls[i]?.bind fun a => stepAccess s i (.strlen i) a
  | .snprintf i => s.calls[i]?.bind fun a => stepAccess s i (.snprintf i) a

def bufferAttribute (beyond : List UInt8) : System State Event :=
  ⟨⟨myCreateGroupAttr.init beyond, []⟩, step⟩

/-- Undisturbed, the two steps of each handler are the handler. -/
theorem copy_clear (p : PrivateData) (buf : List UInt8) :
    copy (clear p) buf = (bufferStore p buf).2 := by
  simp only [copy, clear, PrivateData.write, bufferStore, fillBuffer, applyWrites_append]

theorem print_bound (p : PrivateData) : print (bound p) p = myCreateGroupAttr.bufferShow p := rfl

inductive Step : State → Event → State → Prop where
  | bufferStore (s buf) :
      Step s (.bufferStore buf) ⟨s.data, s.calls ++ [.storing buf .entered]⟩
  | bufferShow (s) : Step s .bufferShow ⟨s.data, s.calls ++ [.showing .entered]⟩
  | memset (s i buf) (hi : s.calls[i]? = some (.storing buf .entered)) :
      Step s (.memset i) ⟨clear s.data, s.calls.set i (.storing buf .cleared)⟩
  | memcpy (s i buf) (hi : s.calls[i]? = some (.storing buf .cleared)) :
      Step s (.memcpy i) ⟨copy s.data buf, s.calls.set i (.storing buf .done)⟩
  | strlen (s i) (hi : s.calls[i]? = some (.showing .entered)) :
      Step s (.strlen i) ⟨s.data, s.calls.set i (.showing (.measured (bound s.data)))⟩
  | snprintf (s i n) (hi : s.calls[i]? = some (.showing (.measured n))) :
      Step s (.snprintf i) ⟨s.data, s.calls.set i (.showing (.done (print n s.data)))⟩

theorem step_sound {s t : State} {e : Event} (h : step s e = some t) : Step s e t := by
  cases e with
  | bufferStore buf => exact Option.some.inj h ▸ .bufferStore s buf
  | bufferShow => exact Option.some.inj h ▸ .bufferShow s
  | memset i =>
    rcases Option.bind_eq_some_iff.mp h with ⟨⟨buf, pc⟩ | ⟨pc⟩, hi, h⟩ <;> cases pc <;>
      simp only [stepAccess, reduceCtorEq] at h
    exact Option.some.inj h ▸ .memset s i buf hi
  | memcpy i =>
    rcases Option.bind_eq_some_iff.mp h with ⟨⟨buf, pc⟩ | ⟨pc⟩, hi, h⟩ <;> cases pc <;>
      simp only [stepAccess, reduceCtorEq] at h
    exact Option.some.inj h ▸ .memcpy s i buf hi
  | strlen i =>
    rcases Option.bind_eq_some_iff.mp h with ⟨⟨buf, pc⟩ | ⟨pc⟩, hi, h⟩ <;> cases pc <;>
      simp only [stepAccess, reduceCtorEq] at h
    exact Option.some.inj h ▸ .strlen s i hi
  | snprintf i =>
    rcases Option.bind_eq_some_iff.mp h with ⟨⟨buf, pc⟩ | ⟨pc⟩, hi, h⟩ <;> cases pc <;>
      simp only [stepAccess, reduceCtorEq] at h
    exact Option.some.inj h ▸ .snprintf s i _ hi

def Plain (buf : List UInt8) : Prop := 1 ≤ buf.length ∧ buf.length ≤ 19 ∧ 0 ∉ buf

/-- The initial text, and the texts of the stores that have begun. -/
def Begun (s : State) (src : List UInt8) : Prop :=
  src = [116, 97, 111] ∨ ∃ (i : ℕ) (pc : StorePc), s.calls[i]? = some (.storing src pc)

theorem begun_of_alike {s t : State} {src : List UInt8}
    (h : ∀ (j : ℕ) (a : Access), t.calls[j]? = some a →
      ∃ b, s.calls[j]? = some b ∧ a.text = b.text) (ht : Begun t src) : Begun s src := by
  refine ht.imp_right ?_
  rintro ⟨j, pc, hj⟩
  obtain ⟨b, hb, htext⟩ := h j _ hj
  cases b with
  | storing buf pc' => exact ⟨j, pc', by rw [hb, Option.some.inj htext]⟩
  | showing pc' => cases htext

theorem begun_set {s t : State} {i : ℕ} {a b : Access} {src : List UInt8}
    (ht : t.calls = s.calls.set i b) (hi : s.calls[i]? = some a) (htext : a.text = b.text) :
    Begun t src ↔ Begun s src := by
  constructor
  · exact begun_of_alike fun j c hj => alike_of_set (ht ▸ hj) hi htext.symm
  · refine begun_of_alike fun j c hj => ?_
    obtain ⟨d, hd, hsame⟩ := alike_in_set hj hi htext.symm
    exact ⟨d, ht ▸ hd, hsame.symm⟩

theorem begun_spawn {s : State} {a : Access} {src : List UInt8} (h : Begun s src) :
    Begun ⟨s.data, s.calls ++ [a]⟩ src :=
  h.imp_right fun ⟨j, pc, hj⟩ => ⟨j, pc, spawn_other hj⟩

theorem begun_of_spawn {s : State} {a : Access} {src : List UInt8}
    (h : Begun ⟨s.data, s.calls ++ [a]⟩ src) : Begun s src ∨ a.text = some src := by
  rcases h with h | ⟨j, pc, hj⟩
  · exact .inl (.inl h)
  · rcases entry_of_spawn hj with hj | ⟨-, rfl⟩
    · exact .inl (.inr ⟨j, pc, hj⟩)
    · exact .inr rfl

theorem clear_mem (p : PrivateData) :
    (clear p).mem = List.replicate bufferSize 0 ++ p.mem.drop bufferSize := by
  have hroom := p.room
  simp only [clear, PrivateData.write]
  rw [applyWrites_memset hroom]

theorem clear_size (p : PrivateData) : (clear p).size = p.size := by
  simp only [clear, PrivateData.write]

theorem copy_mem (p : PrivateData) {buf : List UInt8} (h : buf.length ≤ bufferSize) :
    (copy p buf).mem = buf ++ p.mem.drop buf.length := by
  have hroom := p.room
  have hcopy : applyWrites p.mem (memcpy 0 buf) =
      p.mem.take 0 ++ buf ++ p.mem.drop (0 + buf.length) := applyWrites_memcpy (by omega)
  simpa [copy, PrivateData.write] using hcopy

/-- Every byte of the array is a NUL or stands at the same place in a text that was begun. -/
structure Mixed (s : State) : Prop where
  plain : ∀ src, Begun s src → src.length ≤ 19 ∧ 0 ∉ src
  chars : ∀ k < bufferSize, s.data.mem[k]? = some 0 ∨
    ∃ src, Begun s src ∧ src[k]? = s.data.mem[k]?
  bounds : ∀ (i n : ℕ), s.calls[i]? = some (.showing (.measured n)) → n ≤ bufferSize

theorem Mixed.terminated {s : State} (h : Mixed s) : Terminated s.data := by
  have hroom := s.data.room
  have hlast := h.chars 19 (by decide)
  have hzero : s.data.mem[19]? = some 0 := by
    rcases hlast with hlast | ⟨src, hsrc, hlast⟩
    · exact hlast
    · have hnone : src[19]? = none := List.getElem?_eq_none (h.plain src hsrc).1
      rw [hnone, eq_comm, List.getElem?_eq_none_iff] at hlast
      simp only [bufferSize] at hroom
      omega
  have htake : s.data.buffer[19]? = some 0 := by
    rw [PrivateData.buffer, List.getElem?_take_of_lt (by decide), hzero]
  exact List.mem_of_getElem? htake

theorem mixed_spawn {s : State} {a : Access} (h : Mixed s)
    (htext : ∀ src, a.text = some src → src.length ≤ 19 ∧ 0 ∉ src)
    (hn : ∀ n, a ≠ .showing (.measured n)) : Mixed ⟨s.data, s.calls ++ [a]⟩ := by
  constructor
  · intro src hsrc
    rcases begun_of_spawn hsrc with hsrc | hsrc
    · exact h.plain src hsrc
    · exact htext src hsrc
  · intro k hk
    exact (h.chars k hk).imp_right fun ⟨src, hsrc, hchar⟩ => ⟨src, begun_spawn hsrc, hchar⟩
  · intro i n hi
    rcases entry_of_spawn hi with hi | ⟨-, hi⟩
    · exact h.bounds i n hi
    · exact absurd hi.symm (hn n)

theorem mixed_put {s t : State} {i : ℕ} {a b : Access} (h : Mixed s)
    (hi : s.calls[i]? = some a) (ht : t.calls = s.calls.set i b) (htext : a.text = b.text)
    (hn : ∀ n, b = .showing (.measured n) → n ≤ bufferSize)
    (hchars : ∀ k < bufferSize, t.data.mem[k]? = some 0 ∨
      ∃ src, Begun s src ∧ src[k]? = t.data.mem[k]?) : Mixed t := by
  constructor
  · intro src hsrc
    exact h.plain src ((begun_set ht hi htext).mp hsrc)
  · intro k hk
    exact (hchars k hk).imp_right fun ⟨src, hsrc, hchar⟩ =>
      ⟨src, (begun_set ht hi htext).mpr hsrc, hchar⟩
  · intro j n hj
    rw [ht] at hj
    rcases entry_of_set hj with ⟨-, hj⟩ | ⟨-, hj⟩
    · exact hn n hj.symm
    · exact h.bounds j n hj

theorem mixed_step {s t : State} {e : Event} (hC : ∀ buf, e = .bufferStore buf → Plain buf)
    (h : Mixed s) (hstep : Step s e t) : Mixed t := by
  cases hstep with
  | bufferStore buf =>
    apply mixed_spawn h
    · intro src hsrc
      obtain rfl := Option.some.inj hsrc
      exact (hC buf rfl).2
    · simp
  | bufferShow => exact mixed_spawn h (by simp [Access.text]) (by simp)
  | memset i buf hi =>
    apply mixed_put (b := .storing buf .cleared) h hi rfl rfl (by simp)
    intro k hk
    left
    simp only [clear_mem]
    rw [List.getElem?_append_left (by simpa using hk), List.getElem?_replicate_of_lt hk]
  | memcpy i buf hi =>
    have hbuf : Begun s buf := .inr ⟨i, .cleared, hi⟩
    have hlen : buf.length ≤ bufferSize := Nat.le_succ_of_le (h.plain buf hbuf).1
    apply mixed_put (b := .storing buf .done) h hi rfl rfl (by simp)
    intro k hk
    simp only [copy_mem _ hlen]
    by_cases hlt : k < buf.length
    · right
      exact ⟨buf, hbuf, by rw [List.getElem?_append_left hlt]⟩
    · have hkeep : (buf ++ s.data.mem.drop buf.length)[k]? = s.data.mem[k]? := by
        rw [List.getElem?_append_right (by omega), List.getElem?_drop]
        congr 1
        omega
      rw [hkeep]
      exact h.chars k hk
  | strlen i hi =>
    have hbound : bound s.data ≤ bufferSize := strlen_lt h.terminated
    exact mixed_put (b := .showing (.measured (bound s.data))) h hi rfl rfl
      (by rintro _ ⟨⟩; exact hbound) h.chars
  | snprintf i n hi =>
    exact mixed_put (b := .showing (.done (print n s.data))) h hi rfl rfl (by simp) h.chars

theorem init_mixed (beyond : List UInt8) : Mixed ⟨myCreateGroupAttr.init beyond, []⟩ := by
  have htext {src : List UInt8} (h : Begun ⟨myCreateGroupAttr.init beyond, []⟩ src) :
      src = [116, 97, 111] := by
    rcases h with h | ⟨j, pc, hj⟩
    · exact h
    · simp at hj
  have hbuffer : (myCreateGroupAttr.init beyond).buffer =
      [116, 97, 111, 0] ++ List.replicate 16 0 := buffer_fillBuffer _ (by decide)
  constructor
  · intro src hsrc
    obtain rfl := htext hsrc
    decide
  · intro k hk
    have hmem : (myCreateGroupAttr.init beyond).mem[k]? =
        ([116, 97, 111, 0] ++ List.replicate 16 0 : List UInt8)[k]? := by
      rw [← hbuffer, PrivateData.buffer, List.getElem?_take_of_lt hk]
    have hall : ∀ k < 20, ([116, 97, 111, 0] ++ List.replicate 16 0 : List UInt8)[k]? = some 0 ∨
        ([116, 97, 111] : List UInt8)[k]? =
          ([116, 97, 111, 0] ++ List.replicate 16 0 : List UInt8)[k]? := by decide
    simp only [hmem]
    exact (hall k hk).imp_right fun hchar => ⟨_, .inl rfl, hchar⟩
  · intro i n hi
    simp at hi

theorem trace_mixed {beyond : List UInt8} {es : List Event} {s : State}
    (h : (bufferAttribute beyond).Trace es s) (hes : ∀ buf, .bufferStore buf ∈ es → Plain buf) :
    Mixed s :=
  h.invariant_eachStep (C := fun _ e => ∀ buf, e = .bufferStore buf → Plain buf)
    (fun pre e _ hpre _ buf he => hes buf (hpre.subset (by simp [he])))
    (init_mixed beyond) fun hc hI hstep => mixed_step hc hI (step_sound hstep)

def shownText (sh : Shown) : List UInt8 := cString (delivered sh)

theorem shownText_print {n : ℕ} {p : PrivateData} (h : Terminated p) :
    shownText (print n p) = (cString p.mem ++ [10]).take (n - 1) := by
  have hroom := strlen_lt h
  have hpage : (cString p.mem ++ [10]).length < PAGE_SIZE := by
    simp only [strlen, bufferSize] at hroom
    simp only [List.length_append, List.length_singleton, PAGE_SIZE]
    omega
  have hzero : 0 ∉ (cString p.mem ++ [10]).take (n - 1) := by
    intro hmem
    rcases List.mem_append.mp (List.mem_of_mem_take hmem) with hmem | hmem
    · exact zero_notMem_cString _ hmem
    · simp at hmem
  rw [shownText, print, delivered_snprintf n hpage, cString_append_zeros, cString_eq_self hzero]

/-- Each character of a text is the newline of the format, as the last one, or stands at the
same place in a text that was begun. -/
structure Composed (s : State) (text : List UInt8) : Prop where
  short : text.length ≤ 19
  chars : ∀ k b, text[k]? = some b →
    (b = 10 ∧ k + 1 = text.length) ∨ ∃ src, Begun s src ∧ src[k]? = some b

theorem composed_print {s : State} {n : ℕ} (h : Mixed s) (hn : n ≤ bufferSize) :
    Composed s (shownText (print n s.data)) := by
  have hroom := strlen_lt h.terminated
  rw [shownText_print h.terminated]
  simp only [bufferSize] at hn
  constructor
  · rw [List.length_take]
    omega
  · intro k b hk
    rw [List.getElem?_take] at hk
    split at hk
    case isFalse => cases hk
    case isTrue hcut =>
      by_cases hin : k < (cString s.data.mem).length
      · right
        rw [List.getElem?_append_left hin] at hk
        obtain ⟨hmem, hb⟩ := char_of_cString hk
        rcases h.chars k (by simp only [strlen] at hroom; omega) with hnul | ⟨src, hsrc, hchar⟩
        · exact absurd (Option.some.inj (hmem.symm.trans hnul)) hb
        · exact ⟨src, hsrc, hchar.trans hmem⟩
      · left
        rw [List.getElem?_append_right (by omega)] at hk
        obtain ⟨hlast, hb⟩ := List.getElem?_eq_some_iff.mp hk
        simp only [List.length_singleton] at hlast
        refine ⟨?_, ?_⟩
        · rw [← hb]
          simp
        · rw [List.length_take, List.length_append, List.length_singleton]
          omega

def filling (s : State) : ℕ := s.calls.countP Access.filling

theorem filling_set {s : State} {i : ℕ} {a : Access} (p : PrivateData) (b : Access)
    (hi : s.calls[i]? = some a) :
    filling ⟨p, s.calls.set i b⟩ + (if a.filling then 1 else 0) =
      filling s + (if b.filling then 1 else 0) := countP_set_add hi

theorem filling_spawn {s : State} {a : Access} (ha : a.filling = false) :
    filling ⟨s.data, s.calls ++ [a]⟩ = filling s := by
  simp [filling, ha]

theorem clear_clear (p : PrivateData) : clear (clear p) = clear p := by
  have hdrop : (List.replicate bufferSize 0 ++ p.mem.drop bufferSize).drop bufferSize =
      p.mem.drop bufferSize := List.drop_left' List.length_replicate
  have hmem : (clear (clear p)).mem = (clear p).mem := by rw [clear_mem, clear_mem, hdrop]
  exact PrivateData.ext (by rw [clear_size]) hmem

/-- Outside of all stores the array holds one whole text; inside the only one it is clear. -/
structure Whole (s : State) : Prop where
  quiet : filling s = 0 → Begun s (cString s.data.mem)
  empty : 0 < filling s → clear s.data = s.data

theorem whole_spawn {s : State} {a : Access} (h : Whole s) (ha : a.filling = false) :
    Whole ⟨s.data, s.calls ++ [a]⟩ := by
  have hsame := filling_spawn (s := s) ha
  exact ⟨fun hq => begun_spawn (h.quiet (hsame ▸ hq)), fun hp => h.empty (hsame ▸ hp)⟩

theorem whole_show {s : State} {i : ℕ} {pc pc' : ShowPc} (h : Whole s)
    (hi : s.calls[i]? = some (.showing pc)) : Whole ⟨s.data, s.calls.set i (.showing pc')⟩ := by
  have hsame : filling ⟨s.data, s.calls.set i (.showing pc')⟩ = filling s :=
    filling_set s.data (.showing pc') hi
  have hbegun : Begun ⟨s.data, s.calls.set i (.showing pc')⟩ (cString s.data.mem) ↔
      Begun s (cString s.data.mem) := begun_set (b := .showing pc') rfl hi rfl
  exact ⟨fun hq => hbegun.mpr (h.quiet (hsame ▸ hq)), fun hp => h.empty (hsame ▸ hp)⟩

theorem whole_step {s t : State} {e : Event} (hM : Mixed s) (hs : filling s ≤ 1)
    (ht : filling t ≤ 1) (h : Whole s) (hstep : Step s e t) : Whole t := by
  cases hstep with
  | bufferStore buf => exact whole_spawn h rfl
  | bufferShow => exact whole_spawn h rfl
  | memset i buf hi =>
    have hmore : filling ⟨clear s.data, s.calls.set i (.storing buf .cleared)⟩ = filling s + 1 :=
      filling_set (clear s.data) (.storing buf .cleared) hi
    exact ⟨fun hq => by omega, fun _ => clear_clear s.data⟩
  | memcpy i buf hi =>
    have hless : filling ⟨copy s.data buf, s.calls.set i (.storing buf .done)⟩ + 1 = filling s :=
      filling_set (copy s.data buf) (.storing buf .done) hi
    have hbuf : Begun s buf := .inr ⟨i, .cleared, hi⟩
    obtain ⟨hlen, hzero⟩ := hM.plain buf hbuf
    have htext : cString (copy s.data buf).mem = buf := by
      have hclear : clear s.data = s.data := h.empty (by omega)
      rw [← hclear, copy_clear, cString_bufferStore _ (Nat.lt_succ_of_le hlen),
        cString_eq_self hzero]
    refine ⟨fun _ => ?_, fun hp => by omega⟩
    simp only [htext]
    exact (begun_set (b := .storing buf .done) rfl hi rfl).mpr hbuf
  | strlen i hi => exact whole_show h hi
  | snprintf i n hi => exact whole_show h hi

theorem trace_whole {beyond : List UInt8} {es : List Event} {s : State}
    (h : (bufferAttribute beyond).Trace es s) (hes : ∀ buf, .bufferStore buf ∈ es → Plain buf)
    (hserial : (bufferAttribute beyond).Throughout (fun u => filling u ≤ 1) es) : Whole s := by
  have htext : cString (myCreateGroupAttr.init beyond).mem = [116, 97, 111] :=
    (alike_init [] beyond).right.2
  have hboth : (bufferAttribute beyond).Throughout (fun u => filling u ≤ 1 ∧ Mixed u) es :=
    fun pre u hpre hu =>
      ⟨hserial pre u hpre hu, trace_mixed hu fun buf hbuf => hes buf (hpre.subset hbuf)⟩
  exact h.invariant_throughout hboth
    ⟨fun _ => .inl htext, fun hp => absurd hp (by simp [filling, bufferAttribute])⟩
    fun hs ht hI hstep => whole_step hs.2 hs.1 ht.1 hI (step_sound hstep)

theorem data_step {s t : State} {e : Event} (hs : filling s = 0) (ht : filling t = 0)
    (hstep : Step s e t) : t.data = s.data := by
  cases hstep with
  | memset i buf hi =>
    have hmore : filling ⟨clear s.data, s.calls.set i (.storing buf .cleared)⟩ = filling s + 1 :=
      filling_set (clear s.data) (.storing buf .cleared) hi
    omega
  | memcpy i buf hi =>
    have hless : filling ⟨copy s.data buf, s.calls.set i (.storing buf .done)⟩ + 1 = filling s :=
      filling_set (copy s.data buf) (.storing buf .done) hi
    omega
  | _ => rfl

/-- Show `i` has been measured at `n`, and keeps that bound until it has printed. -/
def Measured (i n : ℕ) (s : State) : Prop :=
  s.calls[i]? = some (.showing (.measured n)) ∨ ∃ sh, s.calls[i]? = some (.showing (.done sh))

theorem measured_other {i n j : ℕ} {s : State} {a b : Access} (p : PrivateData)
    (h : Measured i n s) (hj : s.calls[j]? = some a)
    (ha : ∀ pc, a = .showing pc → pc = .entered) : Measured i n ⟨p, s.calls.set j b⟩ := by
  have hne : i ≠ j := by
    rintro rfl
    rcases h with hi | ⟨sh, hi⟩
    · exact absurd (ha _ (Option.some.inj (hj.symm.trans hi))) (by simp)
    · exact absurd (ha _ (Option.some.inj (hj.symm.trans hi))) (by simp)
  exact h.imp (set_other hne).trans fun ⟨sh, hi⟩ => ⟨sh, (set_other hne).trans hi⟩

theorem measured_step {i n : ℕ} {s t : State} {e : Event} (h : Measured i n s)
    (hstep : Step s e t) : Measured i n t := by
  cases hstep with
  | bufferStore buf | bufferShow =>
    exact h.imp spawn_other fun ⟨sh, hi⟩ => ⟨sh, spawn_other hi⟩
  | memset j buf hj | memcpy j buf hj => exact measured_other _ h hj (by simp)
  | strlen j hj => exact measured_other _ h hj (by simp)
  | snprintf j m hj =>
    by_cases hij : i = j
    · subst hij
      exact .inr ⟨_, set_entry hj⟩
    · exact h.imp (set_other hij).trans fun ⟨sh, hi⟩ => ⟨sh, (set_other hij).trans hi⟩

theorem step_to_measured {i n : ℕ} {s t : State} {e : Event} (hstep : Step s e t)
    (hs : ∀ m, s.calls[i]? ≠ some (.showing (.measured m)))
    (ht : t.calls[i]? = some (.showing (.measured n))) :
    e = .strlen i ∧ t.data = s.data ∧ n = bound s.data := by
  cases hstep with
  | bufferStore buf | bufferShow =>
    rcases entry_of_spawn ht with ht | ⟨-, ht⟩
    · exact absurd ht (hs n)
    · cases ht
  | strlen j hj =>
    rcases entry_of_set ht with ⟨rfl, hn⟩ | ⟨-, ht⟩
    · exact ⟨rfl, rfl, by simpa using hn⟩
    · exact absurd ht (hs n)
  | memset j buf hj | memcpy j buf hj | snprintf j m hj =>
    rcases entry_of_set ht with ⟨-, hn⟩ | ⟨-, ht⟩
    · cases hn
    · exact absurd ht (hs n)

/-- At no moment of show `i`, from its `strlen` on, is a store between its two steps. -/
def Undisturbed (beyond : List UInt8) (es : List Event) (i : ℕ) : Prop :=
  ∀ before mid u, before ++ .strlen i :: mid <+: es →
    (bufferAttribute beyond).Trace (before ++ .strlen i :: mid) u → filling u = 0

theorem measured_of_undisturbed {beyond : List UInt8} {es : List Event} {s : State} {i n : ℕ}
    (h : (bufferAttribute beyond).Trace es s)
    (hi : s.calls[i]? = some (.showing (.measured n))) (hu : Undisturbed beyond es i) :
    n = bound s.data ∧ filling s = 0 := by
  have hstart (m : ℕ) :
      (bufferAttribute beyond).initial.calls[i]? ≠ some (.showing (.measured m)) := by
    simp [bufferAttribute]
  obtain ⟨before, e, mid, u, w, rfl, hbefore, hPu, hstep, hPw⟩ :=
    (System.trace_iff_path.mp h).exists_change
      (P := fun q => ∀ m, q.calls[i]? ≠ some (.showing (.measured m))) hstart
      (fun hP => hP n hi)
  obtain ⟨m, hm⟩ := not_forall_not.mp hPw
  obtain ⟨rfl, hdata, rfl⟩ := step_to_measured (step_sound hstep) hPu hm
  have hw : (bufferAttribute beyond).Trace (before ++ [.strlen i]) w :=
    .snoc (System.trace_iff_path.mpr hbefore) hstep
  have hquiet {pre : List Event} {v : State} (hpre : pre <+: mid)
      (hv : (bufferAttribute beyond).Path w pre v) : filling v = 0 := by
    have htrace := hw.append hv
    rw [List.append_assoc, List.singleton_append] at htrace
    exact hu before pre v ((List.prefix_append_right_inj before).mpr
      ((List.prefix_cons_inj _).mpr hpre)) htrace
  have hpath : (bufferAttribute beyond).Path w mid s := by
    rw [List.append_cons] at h
    obtain ⟨w', hw', hpath⟩ := h.split
    exact hw.functional hw' ▸ hpath
  have hkeep : s.data = w.data ∧ Measured i (bound u.data) s :=
    hpath.invariant_along (fun pre v hpre hv => hquiet hpre hv)
      (I := fun v => v.data = w.data ∧ Measured i (bound u.data) v) ⟨rfl, .inl hm⟩
      fun hs ht hI hstep => ⟨(data_step hs ht (step_sound hstep)).trans hI.1,
        measured_step hI.2 (step_sound hstep)⟩
  have hn : n = bound u.data := by
    rcases hkeep.2 with hmeas | ⟨sh, hdone⟩
    · simpa using Option.some.inj (hi.symm.trans hmeas)
    · simp [hi] at hdone
  exact ⟨by rw [hn, hkeep.1, hdata], hquiet (List.prefix_refl mid) hpath⟩

/-- What a show copies out is put together from the texts begun so far, and it is one of them
where the stores do not overlap one another and none is under way during the show. -/
theorem shown_text : ∀ beyond es i s, (∀ buf, .bufferStore buf ∈ es → Plain buf) →
    (bufferAttribute beyond).Trace (es ++ [.snprintf i]) s →
    ∃ sh, s.calls[i]? = some (.showing (.done sh)) ∧ Composed s (shownText sh) ∧
      ((bufferAttribute beyond).Throughout (fun u => filling u ≤ 1) es →
        Undisturbed beyond es i → Begun s (shownText sh)) := by
  intro beyond es i s hes h
  obtain ⟨p, hp, hlast⟩ := h.split
  have hM := trace_mixed hp hes
  have hstep : Step p (.snprintf i) s := step_sound (System.path_single.mp hlast)
  cases hstep with
  | snprintf _ n hi =>
    have hsame {src : List UInt8} :
        Begun ⟨p.data, p.calls.set i (.showing (.done (print n p.data)))⟩ src ↔ Begun p src :=
      begun_set (b := .showing (.done (print n p.data))) rfl hi rfl
    have hcomp := composed_print hM (hM.bounds i n hi)
    refine ⟨_, set_entry hi, ⟨hcomp.short, ?_⟩, ?_⟩
    · intro k b hk
      exact (hcomp.chars k b hk).imp_right fun ⟨src, hsrc, hchar⟩ => ⟨src, hsame.mpr hsrc, hchar⟩
    · intro hserial hu
      obtain ⟨rfl, hquiet⟩ := measured_of_undisturbed hp hi hu
      have htext : shownText (print (bound p.data) p.data) = cString p.data.mem := by
        rw [shownText_print hM.terminated]
        exact List.take_left' rfl
      rw [htext]
      exact hsame.mpr ((trace_whole hp hes hserial).quiet hquiet)

def storedThenShown : List Event :=
  [.bufferStore [97, 98], .memset 0, .memcpy 0, .bufferShow, .strlen 1]

theorem shown_text_stored : ∃ s sh, s.calls[1]? = some (.showing (.done sh)) ∧
    Begun s (shownText sh) := by
  have hes : (bufferAttribute []).Trace storedThenShown _ := System.trace_of_run rfl
  have hrun : (bufferAttribute []).Trace (storedThenShown ++ [.snprintf 1]) _ :=
    System.trace_of_run rfl
  obtain ⟨sh, hsh, -, hone⟩ :=
    shown_text [] storedThenShown 1 _ (by simp [storedThenShown, Plain]) hrun
  refine ⟨_, sh, hsh, hone ?_ ?_⟩
  · exact System.throughout_of_eachStep (System.eachStep_of_check (by decide)) hes (by decide)
  · rintro before mid u ⟨rest, hrest⟩ hu
    have hat : storedThenShown[before.length]? = some (.strlen 1) := by simp [← hrest]
    have hlen := congrArg List.length hrest
    have hall : ∀ k < 5, storedThenShown[k]? = some (.strlen 1) → k = 4 := by decide
    have hfour := hall before.length (lt_length hat) hat
    simp only [List.length_append, List.length_cons, storedThenShown, List.length_nil] at hlen
    obtain rfl : rest = [] := List.eq_nil_of_length_eq_zero (by omega)
    rw [List.append_nil] at hrest
    rw [hrest] at hu
    exact hu.functional hes ▸ by decide

/-- A show between the two steps of a store copies out nothing. -/
theorem shown_empty : ¬ ∀ beyond es i s, (∀ buf, .bufferStore buf ∈ es → Plain buf) →
    (bufferAttribute beyond).Trace (es ++ [.snprintf i]) s →
    ∀ sh, s.calls[i]? = some (.showing (.done sh)) → Begun s (shownText sh) := by
  intro h
  have hrun : (bufferAttribute []).Trace
      ([.bufferStore [97], .bufferShow, .memset 0, .strlen 1] ++ [.snprintf 1])
      ⟨clear (myCreateGroupAttr.init []), [.storing [97] .cleared,
        .showing (.done (print 1 (clear (myCreateGroupAttr.init []))))]⟩ :=
    System.trace_of_run rfl
  have hbegun := h _ _ 1 _ (by simp [Plain]) hrun _ rfl
  have hterm : Terminated (clear (myCreateGroupAttr.init [])) :=
    show 0 ∈ PrivateData.buffer _ by decide
  rw [shownText_print hterm] at hbegun
  rcases hbegun with hbegun | ⟨j, pc, hj⟩
  · simp at hbegun
  · have hmem := List.mem_of_getElem? hj
    simp at hmem

end ChardevBufferRace
