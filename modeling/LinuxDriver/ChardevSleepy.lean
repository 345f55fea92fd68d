import LinuxDriver.TransitionSystem
import LinuxDriver.CallPool
import LinuxDriver.KernelTypes

/-!
# chardev/sleepy: a flag, a wait queue and any number of readers and writers

`wait_event_interruptible` tests `flag` when it is entered and after every wake-up. Joining
the queue and testing are one step here: the kernel queues the caller before it tests, so
that a store after a failed test is followed by a wake-up that finds the caller queued. A signal
stays pending until a test fails. The result of the wait is kept in the reader although
`sleepy_read` never looks at it.
-/
namespace ChardevSleepy

open TransitionSystem CallPool KernelTypes

/-- Where a call of `sleepy_read` stands; one that is `signalled` is about to test with a signal
pending, and `ret` is what its wait returned. -/
inductive Reader where
  | entered
  | asleep
  | woken
  | signalled
  | waited (ret : ℤ)
  | cleared (ret : ℤ)
  | returned (ret : ℤ)
  deriving DecidableEq, Repr

def Reader.rc : Reader → Option ℤ
  | .returned _ => some 0
  | _ => none

@[simp] def Reader.testing : Reader → Bool
  | .entered | .woken | .signalled => true
  | _ => false

@[simp] def Reader.waiting : Reader → Bool
  | .entered | .asleep | .woken | .signalled => true
  | _ => false

def Reader.wake : Reader → Reader
  | .asleep => .woken
  | r => r

inductive WriterPc where
  | entered
  | stored
  | returned
  deriving DecidableEq, Repr

structure Writer where
  count : ℕ
  pc : WriterPc
  deriving DecidableEq, Repr

def Writer.rc (w : Writer) : Option ℤ :=
  match w.pc with
  | .returned => some w.count
  | _ => none

structure State where
  flag : ℤ
  readers : List Reader
  writers : List Writer
  deriving DecidableEq, Repr

inductive Event where
  | read
  | sleep (i : ℕ)
  | pass (i : ℕ)
  | signal (i : ℕ)
  | interrupt (i : ℕ)
  | reset (i : ℕ)
  | readReturn (i : ℕ)
  | write (count : ℕ)
  | store (j : ℕ)
  | wake (j : ℕ)
  deriving DecidableEq, Repr

def State.reader (s : State) (i : ℕ) (r : Reader) : State :=
  { s with readers := s.readers.set i r }

def State.writer (s : State) (j : ℕ) (w : Writer) : State :=
  { s with writers := s.writers.set j w }

/-- A test that fails sends the reader to sleep, or ends its wait where a signal is pending. -/
def stepReader (s : State) (i : ℕ) (r : Reader) : Event → Option State
  | .sleep _ =>
    if r.testing ∧ r ≠ .signalled ∧ s.flag = 0 then some (s.reader i .asleep) else none
  | .pass _ => if r.testing ∧ s.flag ≠ 0 then some (s.reader i (.waited 0)) else none
  | .signal _ => if r.waiting then some (s.reader i .signalled) else none
  | .interrupt _ =>
    if r = .signalled ∧ s.flag = 0 then some (s.reader i (.waited (-ERESTARTSYS))) else none
  | .reset _ =>
    match r with
    | .waited ret => some { s.reader i (.cleared ret) with flag := 0 }
    | _ => none
  | .readReturn _ =>
    match r with
    | .cleared ret => some (s.reader i (.returned ret))
    | _ => none
  | _ => none

def step (s : State) : Event → Option State
  | .read => some { s with readers := s.readers ++ [.entered] }
  | .write count => some { s with writers := s.writers ++ [⟨count, .entered⟩] }
  | .store j => s.writers[j]?.bind fun w =>
    if w.pc = .entered then some { s.writer j { w with pc := .stored } with flag := 1 } else none
  | .wake j => s.writers[j]?.bind fun w =>
    if w.pc = .stored then
      some { s.writer j { w with pc := .returned } with readers := s.readers.map Reader.wake }
    else none
  | .sleep i => s.readers[i]?.bind fun r => stepReader s i r (.sleep i)
  | .pass i => s.readers[i]?.bind fun r => stepReader s i r (.pass i)
  | .signal i => s.readers[i]?.bind fun r => stepReader s i r (.signal i)
  | .interrupt i => s.readers[i]?.bind fun r => stepReader s i r (.interrupt i)
  | .reset i => s.readers[i]?.bind fun r => stepReader s i r (.reset i)
  | .readReturn i => s.readers[i]?.bind fun r => stepReader s i r (.readReturn i)

def sleepyInit : State := ⟨0, [], []⟩

def sleepy : System State Event := ⟨sleepyInit, step⟩

inductive Step : State → Event → State → Prop where
  | read (s) : Step s .read { s with readers := s.readers ++ [.entered] }
  | sleep (s i r) (hi : s.readers[i]? = some r) (hr : r.testing) (hsig : r ≠ .signalled)
      (hflag : s.flag = 0) : Step s (.sleep i) (s.reader i .asleep)
  | pass (s i r) (hi : s.readers[i]? = some r) (hr : r.testing) (hflag : s.flag ≠ 0) :
      Step s (.pass i) (s.reader i (.waited 0))
  | signal (s i r) (hi : s.readers[i]? = some r) (hr : r.waiting) :
      Step s (.signal i) (s.reader i .signalled)
  | interrupt (s i) (hi : s.readers[i]? = some .signalled) (hflag : s.flag = 0) :
      Step s (.interrupt i) (s.reader i (.waited (-ERESTARTSYS)))
  | reset (s i ret) (hi : s.readers[i]? = some (.waited ret)) :
      Step s (.reset i) { s.reader i (.cleared ret) with flag := 0 }
  | readReturn (s i ret) (hi : s.readers[i]? = some (.cleared ret)) :
      Step s (.readReturn i) (s.reader i (.returned ret))
  | write (s count) :
      Step s (.write count) { s with writers := s.writers ++ [⟨count, .entered⟩] }
  | store (s j w) (hj : s.writers[j]? = some w) (hw : w.pc = .entered) :
      Step s (.store j) { s.writer j { w with pc := .stored } with flag := 1 }
  | wake (s j w) (hj : s.writers[j]? = some w) (hw : w.pc = .stored) :
      Step s (.wake j)
        { s.writer j { w with pc := .returned } with readers := s.readers.map Reader.wake }

theorem step_sound {s t : State} {e : Event} (h : step s e = some t) : Step s e t := by
  cases e with
  | read => exact Option.some.inj h ▸ .read s
  | write count => exact Option.some.inj h ▸ .write s count
  | store j =>
    rcases Option.bind_eq_some_iff.mp h with ⟨w, hj, h⟩
    rcases Option.ite_none_right_eq_some.mp h with ⟨hw, h⟩
    exact Option.some.inj h ▸ .store s j w hj hw
  | wake j =>
    rcases Option.bind_eq_some_iff.mp h with ⟨w, hj, h⟩
    rcases Option.ite_none_right_eq_some.mp h with ⟨hw, h⟩
    exact Option.some.inj h ▸ .wake s j w hj hw
  | sleep i =>
    rcases Option.bind_eq_some_iff.mp h with ⟨r, hi, h⟩
    rcases Option.ite_none_right_eq_some.mp h with ⟨⟨hr, hsig, hflag⟩, h⟩
    exact Option.some.inj h ▸ .sleep s i r hi hr hsig hflag
  | pass i =>
    rcases Option.bind_eq_some_iff.mp h with ⟨r, hi, h⟩
    rcases Option.ite_none_right_eq_some.mp h with ⟨⟨hr, hflag⟩, h⟩
    exact Option.some.inj h ▸ .pass s i r hi hr hflag
  | signal i =>
    rcases Option.bind_eq_some_iff.mp h with ⟨r, hi, h⟩
    rcases Option.ite_none_right_eq_some.mp h with ⟨hr, h⟩
    exact Option.some.inj h ▸ .signal s i r hi hr
  | interrupt i =>
    rcases Option.bind_eq_some_iff.mp h with ⟨r, hi, h⟩
    obtain ⟨⟨rfl, hflag⟩, hnext⟩ := Option.ite_none_right_eq_some.mp h
    exact Option.some.inj hnext ▸ .interrupt s i hi hflag
  | reset i =>
    rcases Option.bind_eq_some_iff.mp h with ⟨r, hi, h⟩
    cases r <;> simp only [stepReader, reduceCtorEq] at h
    exact Option.some.inj h ▸ .reset s i _ hi
  | readReturn i =>
    rcases Option.bind_eq_some_iff.mp h with ⟨r, hi, h⟩
    cases r <;> simp only [stepReader, reduceCtorEq] at h
    exact Option.some.inj h ▸ .readReturn s i _ hi

def Event.isStore : Event → Bool
  | .store _ => true
  | _ => false

def NoSignals (es : List Event) : Prop := ∀ i, .signal i ∉ es

/-- From here the reader can get past its wait although no further write stores. -/
def PassesUnaided (s : State) (i : ℕ) : Prop :=
  ∃ es t, (∀ e ∈ es, ¬ e.isStore) ∧ sleepy.Path s es t ∧ t.readers[i]? = some (.waited 0)

structure WriteKept (s : State) : Prop where
  flag : s.flag ≠ 0
  waiting : ∀ (i : ℕ) (r : Reader), s.readers[i]? = some r → r.waiting → PassesUnaided s i
  arriving : ∀ t, step s .read = some t → PassesUnaided t s.readers.length

/-- No write is lost: while no reader has passed since the latest store, it is kept. -/
def NoLoss (es : List Event) : Prop :=
  ∀ before j since s, before ++ .store j :: since <+: es →
    sleepy.Trace (before ++ .store j :: since) s → (∀ k, .pass k ∉ since) → WriteKept s

/-- Where a store falls between the wait and the reset of a reader, another reader passes
before that reset. -/
def Unraced (es : List Event) : Prop :=
  ∀ pre j mid i post p ret, es = pre ++ .store j :: (mid ++ .reset i :: post) →
    sleepy.Trace pre p → p.readers[i]? = some (.waited ret) → ∃ k, .pass k ∈ mid

def Watched (s : State) : Prop :=
  s.flag ≠ 0 → ∀ i : ℕ, s.readers[i]? = some .asleep →
    ∃ (j : ℕ) (w : Writer), s.writers[j]? = some w ∧ w.pc = .stored

theorem not_asleep_of_wake {rs : List Reader} {i : ℕ} :
    (rs.map Reader.wake)[i]? ≠ some .asleep := by
  intro h
  rw [List.getElem?_map] at h
  rcases Option.map_eq_some_iff.mp h with ⟨r, -, hr⟩
  cases r <;> cases hr

theorem watched_reader {s : State} {i : ℕ} {r : Reader} (h : Watched s) (hr : r ≠ .asleep) :
    Watched (s.reader i r) := by
  intro hflag k hk
  rcases entry_of_set hk with ⟨-, hk⟩ | ⟨-, hk⟩
  · exact absurd hk.symm hr
  · exact h hflag k hk

theorem watched_step {s t : State} {e : Event} (h : Watched s) (hstep : Step s e t) :
    Watched t := by
  cases hstep with
  | read =>
    intro hflag i hi
    rcases entry_of_spawn hi with hi | ⟨-, hi⟩
    · exact h hflag i hi
    · cases hi
  | sleep i r hi hr hsig hflag =>
    intro hne
    exact absurd hflag hne
  | pass i r hi hr hflag => exact watched_reader h (by simp)
  | signal i r hi hr => exact watched_reader h (by simp)
  | interrupt i hi hflag => exact watched_reader h (by simp)
  | reset i ret hi =>
    intro hne
    exact absurd rfl hne
  | readReturn i ret hi => exact watched_reader h (by simp)
  | write count =>
    intro hflag i hi
    obtain ⟨j, w, hj, hw⟩ := h hflag i hi
    exact ⟨j, w, spawn_other hj, hw⟩
  | store j w hj hw =>
    intro _ _ _
    exact ⟨j, _, set_entry hj, rfl⟩
  | wake j w hj hw =>
    intro _ _ hi
    exact absurd hi not_asleep_of_wake

theorem trace_watched {es : List Event} {s : State} (h : sleepy.Trace es s) : Watched s :=
  h.invariant (fun hne => absurd rfl hne) fun hI hstep => watched_step hI (step_sound hstep)

theorem step_pass {s : State} {i : ℕ} {r : Reader} (hi : s.readers[i]? = some r)
    (hr : r.testing) (hflag : s.flag ≠ 0) :
    sleepy.step s (.pass i) = some (s.reader i (.waited 0)) := by
  simp only [sleepy, step, hi, Option.bind_some, stepReader]
  exact if_pos ⟨hr, hflag⟩

theorem passes_of_testing {s : State} {i : ℕ} {r : Reader} (hi : s.readers[i]? = some r)
    (hr : r.testing) (hflag : s.flag ≠ 0) : PassesUnaided s i :=
  ⟨[.pass i], _, by simp [Event.isStore], System.path_single.mpr (step_pass hi hr hflag),
    set_entry hi⟩

theorem passes_of_asleep {s : State} {i : ℕ} (h : Watched s) (hi : s.readers[i]? = some .asleep)
    (hflag : s.flag ≠ 0) : PassesUnaided s i := by
  obtain ⟨j, w, hj, hw⟩ := h hflag i hi
  have hwake : sleepy.step s (.wake j) = some { s.writer j { w with pc := .returned } with
      readers := s.readers.map Reader.wake } := by
    simp [sleepy, step, hj, hw]
  have hwoken : (s.readers.map Reader.wake)[i]? = some .woken := by
    rw [List.getElem?_map, hi]
    rfl
  exact ⟨[.wake j, .pass i], _, by simp [Event.isStore],
    System.path_cons.mpr ⟨_, hwake, System.path_single.mpr (step_pass hwoken rfl hflag)⟩,
    set_entry hwoken⟩

theorem writeKept_of_flag {s : State} (h : Watched s) (hflag : s.flag ≠ 0) : WriteKept s := by
  constructor
  · exact hflag
  · intro i r hi hr
    cases r with
    | asleep => exact passes_of_asleep h hi hflag
    | entered | woken | signalled => exact passes_of_testing hi rfl hflag
    | _ => simp at hr
  · intro t ht
    obtain rfl := Option.some.inj ht
    exact passes_of_testing spawn_entry rfl hflag

theorem flag_of_reset {s t : State} {i : ℕ} (h : Step s (.reset i) t) : t.flag = 0 := by
  cases h
  rfl

theorem of_store {s t : State} {j : ℕ} (h : Step s (.store j) t) :
    t.flag = 1 ∧ t.readers = s.readers := by
  cases h
  exact ⟨rfl, rfl⟩

theorem step_flag_down {s t : State} {e : Event} (h : Step s e t) (hs : s.flag ≠ 0)
    (ht : t.flag = 0) : ∃ i ret, e = .reset i ∧ s.readers[i]? = some (.waited ret) := by
  cases h with
  | reset i ret hi => exact ⟨i, ret, rfl, hi⟩
  | store => exact absurd ht (by simp)
  | _ => exact absurd ht hs

/-- No reader has a signal pending. -/
def Calm (s : State) : Prop := ∀ i : ℕ, s.readers[i]? ≠ some .signalled

theorem calm_reader {s : State} {i : ℕ} {r : Reader} (h : Calm s) (hr : r ≠ .signalled) :
    Calm (s.reader i r) := by
  intro k hk
  rcases entry_of_set hk with ⟨-, hk⟩ | ⟨-, hk⟩
  · exact hr hk.symm
  · exact h k hk

theorem calm_step {s t : State} {e : Event} (h : Calm s) (hsig : ∀ i, e ≠ .signal i)
    (hstep : Step s e t) : Calm t := by
  cases hstep with
  | read =>
    intro i hi
    rcases entry_of_spawn hi with hi | ⟨-, hi⟩
    · exact h i hi
    · cases hi
  | write | store => exact h
  | signal i => exact absurd rfl (hsig i)
  | sleep | pass | interrupt | reset | readReturn => exact calm_reader h (by simp)
  | wake =>
    intro i hi
    rcases Option.map_eq_some_iff.mp (List.getElem?_map .. ▸ hi) with ⟨r, hr, hwake⟩
    cases r <;> cases hwake
    exact h i hr

theorem trace_calm {es : List Event} {s : State} (h : sleepy.Trace es s) (hsig : NoSignals es) :
    Calm s := by
  induction h with
  | nil =>
    intro i hi
    simp [sleepy, sleepyInit] at hi
  | snoc _ hstep ih =>
    have hbefore := ih fun i hi => hsig i (List.mem_append_left _ hi)
    exact calm_step hbefore (fun i he => hsig i (by simp [he])) (step_sound hstep)

theorem step_waited {s t : State} {e : Event} {i : ℕ} {ret : ℤ} (h : Step s e t)
    (hpass : ∀ k, e ≠ .pass k) (hcalm : Calm s)
    (ht : t.readers[i]? = some (.waited ret)) : s.readers[i]? = some (.waited ret) := by
  cases h with
  | read =>
    rcases entry_of_spawn ht with ht | ⟨-, ht⟩
    · exact ht
    · cases ht
  | write | store => exact ht
  | pass k => exact absurd rfl (hpass k)
  | interrupt k hk => exact absurd hk (hcalm k)
  | wake =>
    rcases Option.map_eq_some_iff.mp (List.getElem?_map .. ▸ ht) with ⟨r, hr, hwake⟩
    cases r <;> cases hwake
    exact hr
  | _ =>
    rcases entry_of_set ht with ⟨-, ht⟩ | ⟨-, ht⟩
    · cases ht
    · exact ht

theorem path_waited {es : List Event} {s t : State} {i : ℕ} {ret : ℤ} (h : sleepy.Path s es t)
    (hpass : ∀ k, .pass k ∉ es) (hsig : NoSignals es) (hcalm : Calm s)
    (ht : t.readers[i]? = some (.waited ret)) : s.readers[i]? = some (.waited ret) := by
  induction es generalizing s with
  | nil => exact System.path_nil.mp h ▸ ht
  | cons e es ih =>
    obtain ⟨u, hu, hpath⟩ := System.path_cons.mp h
    have hthis : ∀ k, e ≠ .signal k := by
      rintro k rfl
      exact hsig k List.mem_cons_self
    have hlater := ih hpath (fun k hk => hpass k (List.mem_cons_of_mem _ hk))
      (fun k hk => hsig k (List.mem_cons_of_mem _ hk)) (calm_step hcalm hthis (step_sound hu))
    refine step_waited (step_sound hu) ?_ hcalm hlater
    rintro k rfl
    exact hpass k List.mem_cons_self

/-- Writes are kept in exactly the runs without the race. -/
theorem no_lost_wakeup {es : List Event} {s : State} (h : sleepy.Trace es s)
    (hsig : NoSignals es) : NoLoss es ↔ Unraced es := by
  constructor
  · rintro hloss pre j mid i post p ret rfl hp hi
    by_contra hno
    have hrun : sleepy.Trace ((pre ++ .store j :: mid) ++ .reset i :: post) s := by simpa using h
    obtain ⟨u, v, -, hstep, hv, -⟩ := hrun.split_at
    have hkept := hloss pre j (mid ++ [.reset i]) v ⟨post, by simp⟩ (by simpa using hv)
      (by simpa using hno)
    exact hkept.flag (flag_of_reset (step_sound hstep))
  · rintro hrace before j since v ⟨rest, rfl⟩ hv hno
    apply writeKept_of_flag (trace_watched hv)
    intro hzero
    obtain ⟨p, q, hp, hstore, hq, hpath⟩ := hv.split_at
    obtain ⟨hflag, hreaders⟩ := of_store (step_sound hstore)
    obtain ⟨xs, e, ys, u, w, rfl, hxs, hup, hstep, hdown⟩ :=
      hpath.exists_change (P := fun q => q.flag ≠ 0) (by simp [hflag]) (not_not.mpr hzero)
    obtain ⟨i, ret, rfl, hi⟩ := step_flag_down (step_sound hstep) hup (not_not.mp hdown)
    have hquiet : ∀ k, .pass k ∉ xs := fun k hk => hno k (List.mem_append_left _ hk)
    have hcalm := trace_calm hq fun k hk => hsig k (by simpa using .inl (by simpa using hk))
    have hearlier := path_waited hxs hquiet (fun k hk => hsig k (by simp [hk])) hcalm hi
    obtain ⟨k, hk⟩ := hrace before j xs i (ys ++ rest) p ret (by simp) hp (hreaders ▸ hearlier)
    exact hquiet k hk

/-- The store of the second write falls between the wait and the reset of reader 0, and reader 1
passes before that reset. -/
def passedInBetween : List Event :=
  [.read, .read, .sleep 0, .sleep 1, .write 5, .store 0, .wake 0, .pass 0, .write 5, .store 1,
    .pass 1, .reset 0]

theorem no_lost_wakeup_passedInBetween : NoLoss passedInBetween := by
  have hrun : sleepy.Trace passedInBetween
      ⟨0, [.cleared 0, .waited 0], [⟨5, .returned⟩, ⟨5, .stored⟩]⟩ :=
    System.trace_of_run (by decide)
  apply (no_lost_wakeup hrun (by simp [NoSignals, passedInBetween])).mpr
  intro pre j mid i post p ret hes _ _
  -- Read backwards, the run starts with its only reset and the pass of reader 1.
  have hrev := congrArg List.reverse hes
  simp only [passedInBetween, List.reverse_append, List.reverse_cons, List.append_assoc,
    List.reverse_nil, List.nil_append, List.cons_append] at hrev
  cases hpost : post.reverse with
  | nil =>
    cases hmid : mid.reverse with
    | nil => simp [hpost, hmid] at hrev
    | cons e rest =>
      have hpass : Event.pass 1 ∈ mid.reverse := by simp_all
      exact ⟨1, List.mem_reverse.mp hpass⟩
  | cons e rest =>
    simp only [hpost, List.cons_append, List.cons.injEq] at hrev
    have hmem : Event.reset i ∈ rest ++ .reset i :: (mid.reverse ++ .store j :: pre.reverse) :=
      List.mem_append_right _ List.mem_cons_self
    rw [← hrev.2] at hmem
    simp at hmem

/-- Two readers sleep. The first write wakes both and reader 0 passes; the second write
stores before reader 0 resets the flag, so that reader 1 finds it down and sleeps again
with both writes finished. -/
theorem wakeup_lost : ¬ ∀ es s, sleepy.Trace es s → NoSignals es → NoLoss es := by
  intro h
  have hrun : sleepy.Trace [.read, .read, .sleep 0, .sleep 1, .write 5, .store 0, .wake 0,
      .pass 0, .write 5, .store 1, .reset 0, .wake 1, .sleep 1]
      ⟨0, [.cleared 0, .asleep], [⟨5, .returned⟩, ⟨5, .returned⟩]⟩ :=
    System.trace_of_run (by decide)
  have hkept := h _ _ hrun (by simp [NoSignals])
    [.read, .read, .sleep 0, .sleep 1, .write 5, .store 0, .wake 0, .pass 0, .write 5]
    1 [.reset 0, .wake 1, .sleep 1] _ (List.prefix_refl _) hrun (by simp)
  exact hkept.flag rfl

@[simp] def Reader.inWindow : Reader → Bool
  | .waited _ => true
  | _ => false

@[simp] def Reader.past : Reader → Bool
  | .waited _ | .cleared _ | .returned _ => true
  | _ => false

def inWindow (s : State) : ℕ := s.readers.countP Reader.inWindow

def past (s : State) : ℕ := s.readers.countP Reader.past

def returnedReads (s : State) : ℕ := s.readers.countP fun r => r.rc.isSome

def stores (es : List Event) : ℕ := es.countP Event.isStore

/-- The readers that pass while another one is between its wait and its reset. -/
def sharedPass (s : State) : Event → List ℕ
  | .pass i => if 0 < inWindow s then [i] else []
  | _ => []

def sharedPasses (es : List Event) : List ℕ := sleepy.observe sharedPass es

def unused (s : State) : ℕ := if s.flag ≠ 0 ∧ inWindow s = 0 then 1 else 0

theorem unused_le_one (s : State) : unused s ≤ 1 := by
  unfold unused
  split <;> omega

theorem countP_wake {p : Reader → Bool} (hp : p .woken = p .asleep) (rs : List Reader) :
    (rs.map Reader.wake).countP p = rs.countP p := by
  rw [List.countP_map]
  congr 1
  funext r
  cases r <;> simp [Reader.wake, hp]

theorem unused_reader {s : State} {i : ℕ} {r : Reader} (r' : Reader) (hi : s.readers[i]? = some r)
    (hpast : r'.past = r.past) (hwin : r'.inWindow = r.inWindow) :
    past (s.reader i r') = past s ∧ unused (s.reader i r') = unused s := by
  have hp := countP_set_add (p := Reader.past) (b := r') hi
  have hw := countP_set_add (p := Reader.inWindow) (b := r') hi
  rw [hpast] at hp
  rw [hwin] at hw
  refine ⟨Nat.add_right_cancel hp, ?_⟩
  have hin : inWindow (s.reader i r') = inWindow s := Nat.add_right_cancel hw
  simp only [unused, hin]
  rfl

theorem unused_of_flag {s : State} (h : s.flag = 0) : unused s = 0 := if_neg fun hs => hs.1 h

theorem unused_of_inWindow {s : State} (h : 0 < inWindow s) : unused s = 0 :=
  if_neg fun hs => by omega

theorem past_pass {s : State} {i : ℕ} {r : Reader} (hi : s.readers[i]? = some r)
    (hr : r.testing) (hflag : s.flag ≠ 0) :
    past (s.reader i (.waited 0)) + unused (s.reader i (.waited 0)) =
      past s + unused s + (sharedPass s (.pass i)).length := by
  have hp : past (s.reader i (.waited 0)) = past s + 1 := by
    have hset := countP_set_add (p := Reader.past) (b := .waited 0) hi
    cases r <;> simp_all [past, State.reader]
  have hw : inWindow (s.reader i (.waited 0)) = inWindow s + 1 := by
    have hset := countP_set_add (p := Reader.inWindow) (b := .waited 0) hi
    cases r <;> simp_all [inWindow, State.reader]
  rw [hp, unused_of_inWindow (by omega)]
  by_cases hz : inWindow s = 0
  · simp [unused, sharedPass, hflag, hz]
  · have hpos : 0 < inWindow s := Nat.pos_of_ne_zero hz
    simp [unused_of_inWindow hpos, sharedPass, hpos]

theorem past_step {s t : State} {e : Event} (h : Step s e t) (hcalm : Calm s) :
    past t + unused t ≤
      past s + unused s + (stores [e] + (sharedPass s e).length) := by
  cases h with
  | read =>
    simp [past, unused, inWindow]
  | sleep i r hi hr hsig hflag =>
    have hsame := unused_reader .asleep hi (by cases r <;> simp_all)
      (by cases r <;> simp_all)
    omega
  | signal i r hi hr =>
    have hsame := unused_reader .signalled hi (by cases r <;> simp_all)
      (by cases r <;> simp_all)
    omega
  | pass i r hi hr hflag =>
    have hpass := past_pass hi hr hflag
    omega
  | interrupt i hi => exact absurd hi (hcalm i)
  | reset i ret hi =>
    have hpast := countP_set_add (p := Reader.past) (b := .cleared ret) hi
    have hsame : past { s.reader i (.cleared ret) with flag := 0 } = past s :=
      Nat.add_right_cancel hpast
    rw [hsame, unused_of_flag rfl]
    omega
  | readReturn i ret hi =>
    have hsame := unused_reader (.returned ret) hi rfl rfl
    omega
  | write count => exact Nat.le_add_right _ _
  | store j w hj hw =>
    have hone := unused_le_one { s.writer j { w with pc := .stored } with flag := 1 }
    have hcredit : stores [.store j] = 1 := rfl
    change past s + _ ≤ _
    omega
  | wake j w hj hw =>
    have hpast := countP_wake (p := Reader.past) rfl s.readers
    have hwin := countP_wake (p := Reader.inWindow) rfl s.readers
    simp only [past, unused, inWindow, State.writer, hpast, hwin]
    exact Nat.le_add_right _ _

theorem trace_past {es : List Event} {s : State} (h : sleepy.Trace es s) (hsig : NoSignals es) :
    past s + unused s ≤ stores es + (sharedPasses es).length := by
  induction h with
  | nil => exact Nat.le_refl _
  | @snoc es s e t hs hstep ih =>
    have hquiet : NoSignals es := fun i hi => hsig i (List.mem_append_left _ hi)
    have hbefore := ih hquiet
    have hthis := past_step (step_sound hstep) (trace_calm hs hquiet)
    have hstores : stores (es ++ [e]) = stores es + stores [e] := List.countP_append
    have hshared : (sharedPasses (es ++ [e])).length =
        (sharedPasses es).length + (sharedPass s e).length := by
      rw [sharedPasses, hs.observe_snoc, List.length_append]
      rfl
    omega

theorem returnedReads_le_past (s : State) : returnedReads s ≤ past s :=
  List.countP_mono_left fun r _ hr => by cases r <;> simp_all [Reader.rc]

/-- A read that has returned used up a write, or passed while another reader had passed and
not yet reset the flag. -/
theorem reads_le_stores {es : List Event} {s : State} (h : sleepy.Trace es s)
    (hsig : NoSignals es) : returnedReads s ≤ stores es + (sharedPasses es).length := by
  have hpast := trace_past h hsig
  have hret := returnedReads_le_past s
  omega

def oneWriteTwoReads : List Event :=
  [.read, .read, .sleep 0, .sleep 1, .write 5, .store 0, .wake 0, .pass 0, .pass 1, .reset 0,
    .reset 1, .readReturn 0, .readReturn 1]

theorem trace_oneWriteTwoReads :
    sleepy.Trace oneWriteTwoReads ⟨0, [.returned 0, .returned 0], [⟨5, .returned⟩]⟩ :=
  System.trace_of_run (by decide)

theorem reads_le_stores_shared :
    returnedReads ⟨0, [.returned 0, .returned 0], [⟨5, .returned⟩]⟩ ≤
      stores oneWriteTwoReads + (sharedPasses oneWriteTwoReads).length :=
  reads_le_stores trace_oneWriteTwoReads (by simp [NoSignals, oneWriteTwoReads])

theorem write_consumed_twice :
    ¬ ∀ es s, sleepy.Trace es s → NoSignals es → returnedReads s ≤ stores es := by
  intro h
  have hle := h _ _ trace_oneWriteTwoReads (by simp [NoSignals, oneWriteTwoReads])
  exact absurd hle (by decide)

end ChardevSleepy
