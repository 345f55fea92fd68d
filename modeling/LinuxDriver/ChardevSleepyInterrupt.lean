import LinuxDriver.ChardevSleepy

/-!
# chardev/sleepy: reads whose wait a signal has ended

`sleepy_read` drops the result of `wait_event_interruptible`. A read that a signal has thrown
out of its wait resets the flag and returns 0 like any other.
-/
namespace ChardevSleepyInterrupt

open TransitionSystem CallPool KernelTypes ChardevSleepy

def waitResult : Reader → Option ℤ
  | .waited ret | .cleared ret | .returned ret => some ret
  | _ => none

/-- A read returns 0 where its own wait has found the flag set, and the error of the signal
elsewhere. -/
def Reports (es : List Event) (s : State) : Prop :=
  ∀ (i : ℕ) (r : Reader) (rc : ℤ), s.readers[i]? = some r → r.rc = some rc →
    rc = if .pass i ∈ es then 0 else -ERESTARTSYS

/-- A read whose wait has not found the flag set does not change it. -/
def LeavesFlag (es : List Event) : Prop :=
  ∀ pre i s t, pre ++ [.reset i] <+: es → sleepy.Trace pre s → step s (.reset i) = some t →
    .pass i ∉ pre → t.flag = s.flag

structure InterruptSafe (es : List Event) (s : State) : Prop where
  reports : Reports es s
  leavesFlag : LeavesFlag es

/-- The step does not end a wait by a signal. -/
def Undisturbed (_ : State) : Event → Prop
  | .interrupt _ => False
  | _ => True

instance (s : State) (e : Event) : Decidable (Undisturbed s e) := by
  unfold Undisturbed
  split <;> infer_instance

theorem waitResult_step {s t : State} {e : Event} {i : ℕ} {r : Reader} (h : Step s e t)
    (hi : t.readers[i]? = some r) :
    (e ≠ .pass i ∧ ∃ r₀, s.readers[i]? = some r₀ ∧ waitResult r = waitResult r₀) ∨
    (e = .read ∧ i = s.readers.length ∧ waitResult r = none) ∨
    (e = .pass i ∧ waitResult r = some 0 ∧
      ∃ r₀, s.readers[i]? = some r₀ ∧ waitResult r₀ = none) ∨
    (e = .interrupt i ∧ waitResult r = some (-ERESTARTSYS) ∧
      ∃ r₀, s.readers[i]? = some r₀ ∧ waitResult r₀ = none) := by
  cases h with
  | read =>
    rcases entry_of_spawn hi with hi | ⟨rfl, rfl⟩
    · exact .inl ⟨by simp, r, hi, rfl⟩
    · exact .inr (.inl ⟨rfl, rfl, rfl⟩)
  | write | store => exact .inl ⟨by simp, r, hi, rfl⟩
  | wake =>
    rcases Option.map_eq_some_iff.mp (List.getElem?_map .. ▸ hi) with ⟨r₀, hi₀, rfl⟩
    exact .inl ⟨by simp, r₀, hi₀, by cases r₀ <;> rfl⟩
  | pass k r₀ hk hr hflag =>
    rcases entry_of_set hi with ⟨rfl, rfl⟩ | ⟨hne, hi⟩
    · exact .inr (.inr (.inl ⟨rfl, rfl, r₀, hk, by cases r₀ <;> simp_all [waitResult]⟩))
    · exact .inl ⟨by simpa using hne.symm, r, hi, rfl⟩
  | interrupt k hk hflag =>
    rcases entry_of_set hi with ⟨rfl, rfl⟩ | ⟨hne, hi⟩
    · exact .inr (.inr (.inr ⟨rfl, rfl, .signalled, hk, rfl⟩))
    · exact .inl ⟨by simp, r, hi, rfl⟩
  | sleep k r₀ hk hr hsig hflag =>
    have hnone : waitResult .asleep = waitResult r₀ := by cases r₀ <;> simp_all [waitResult]
    exact .inl ⟨by simp, alike_of_set hi hk hnone⟩
  | signal k r₀ hk hr =>
    have hnone : waitResult .signalled = waitResult r₀ := by cases r₀ <;> simp_all [waitResult]
    exact .inl ⟨by simp, alike_of_set hi hk hnone⟩
  | reset k ret hk => exact .inl ⟨by simp, alike_of_set hi hk rfl⟩
  | readReturn k ret hk => exact .inl ⟨by simp, alike_of_set hi hk rfl⟩

theorem readers_length_step {s t : State} {e : Event} (h : Step s e t) :
    s.readers.length ≤ t.readers.length := by
  cases h <;> simp [State.reader, State.writer]

theorem waitResult_kept {s t : State} {e : Event} {i : ℕ} {ret : ℤ} (h : Step s e t)
    (hs : ∃ r, s.readers[i]? = some r ∧ waitResult r = some ret) :
    ∃ r, t.readers[i]? = some r ∧ waitResult r = some ret := by
  obtain ⟨r, hi, hr⟩ := hs
  have hlt := Nat.lt_of_lt_of_le (lt_length hi) (readers_length_step h)
  refine ⟨t.readers[i], List.getElem?_eq_getElem hlt, ?_⟩
  rcases waitResult_step h (List.getElem?_eq_getElem hlt) with
    ⟨-, r₀, hi₀, hsame⟩ | ⟨-, rfl, -⟩ | ⟨-, -, r₀, hi₀, hnone⟩ | ⟨-, -, r₀, hi₀, hnone⟩
  · obtain rfl := Option.some.inj (hi.symm.trans hi₀)
    rw [hsame, hr]
  · exact absurd (lt_length hi) (Nat.lt_irrefl _)
  · obtain rfl := Option.some.inj (hi.symm.trans hi₀)
    rw [hr] at hnone
    cases hnone
  · obtain rfl := Option.some.inj (hi.symm.trans hi₀)
    rw [hr] at hnone
    cases hnone

structure Accounted (es : List Event) (s : State) : Prop where
  results : ∀ (i : ℕ) (r : Reader), s.readers[i]? = some r →
    (waitResult r = some 0 ∧ .pass i ∈ es) ∨
      ((waitResult r = none ∨ waitResult r = some (-ERESTARTSYS)) ∧ .pass i ∉ es)
  started : ∀ i, .pass i ∈ es → i < s.readers.length

theorem accounted_step {es : List Event} {s t : State} {e : Event} (h : Accounted es s)
    (hstep : Step s e t) : Accounted (es ++ [e]) t := by
  constructor
  · intro i r hi
    rcases waitResult_step hstep hi with
      ⟨hne, r₀, hi₀, hsame⟩ | ⟨rfl, rfl, hnone⟩ | ⟨rfl, hzero, -⟩ | ⟨rfl, herr, r₀, hi₀, hnone⟩
    · simpa [hsame, hne.symm] using h.results i r₀ hi₀
    · have hnew : .pass s.readers.length ∉ es := fun hin => Nat.lt_irrefl _ (h.started _ hin)
      exact .inr ⟨.inl hnone, by simpa using hnew⟩
    · exact .inl ⟨hzero, by simp⟩
    · rcases h.results i r₀ hi₀ with ⟨hsome, -⟩ | ⟨-, hnot⟩
      · rw [hnone] at hsome
        cases hsome
      · exact .inr ⟨.inr herr, by simpa using hnot⟩
  · intro i hin
    rcases List.mem_append.mp hin with hin | hin
    · exact Nat.lt_of_lt_of_le (h.started i hin) (readers_length_step hstep)
    · obtain rfl := List.mem_singleton.mp hin
      cases hstep with
      | pass _ r hi => simpa [State.reader] using lt_length hi

theorem trace_accounted {es : List Event} {s : State} (h : sleepy.Trace es s) :
    Accounted es s := by
  induction h with
  | nil => exact ⟨by simp [sleepy, sleepyInit], by simp⟩
  | snoc _ hstep ih => exact accounted_step ih (step_sound hstep)

theorem passed_of_undisturbed {es : List Event} {s : State} (h : sleepy.Trace es s)
    (hquiet : sleepy.EachStep Undisturbed es) {i : ℕ} {r : Reader} {ret : ℤ}
    (hi : s.readers[i]? = some r) (hr : waitResult r = some ret) : .pass i ∈ es := by
  have hclean : ∀ (i : ℕ) (r : Reader), s.readers[i]? = some r →
      waitResult r ≠ some (-ERESTARTSYS) := by
    refine h.invariant_eachStep (I := fun s => ∀ (i : ℕ) (r : Reader), s.readers[i]? = some r →
      waitResult r ≠ some (-ERESTARTSYS)) hquiet (by simp [sleepy, sleepyInit]) ?_
    intro s e t hquiet hI hstep i r hi
    rcases waitResult_step (step_sound hstep) hi with
      ⟨-, r₀, hi₀, hsame⟩ | ⟨-, -, hnone⟩ | ⟨-, hzero, -⟩ | ⟨rfl, -⟩
    · rw [hsame]
      exact hI i r₀ hi₀
    · simp [hnone]
    · simp [hzero, ERESTARTSYS]
    · exact hquiet.elim
  rcases (trace_accounted h).results i r hi with ⟨-, hin⟩ | ⟨hnone | herr, -⟩
  · exact hin
  · rw [hr] at hnone
    cases hnone
  · exact absurd herr (hclean i r hi)

theorem safe_of_undisturbed {es : List Event} {s : State} (h : sleepy.Trace es s)
    (hquiet : sleepy.EachStep Undisturbed es) : InterruptSafe es s := by
  constructor
  · intro i r rc hi hrc
    cases r <;> simp only [Reader.rc, reduceCtorEq] at hrc
    obtain rfl := Option.some.inj hrc
    rw [if_pos (passed_of_undisturbed h hquiet hi rfl)]
  · rintro pre i u v ⟨rest, rfl⟩ hu hstep hnot
    have hpre : pre <+: pre ++ [.reset i] ++ rest := ⟨[.reset i] ++ rest, by simp⟩
    cases step_sound hstep with
    | reset _ ret hi => exact absurd (passed_of_undisturbed hu (hquiet.mono hpre) hi rfl) hnot

theorem undisturbed_of_safe {es : List Event} {s : State} (h : sleepy.Trace es s)
    (hdone : ∀ r ∈ s.readers, r.rc.isSome) (hsafe : InterruptSafe es s) :
    sleepy.EachStep Undisturbed es := by
  rintro pre e u ⟨rest, rfl⟩ hu
  cases e with
  | interrupt i =>
    have hrun : sleepy.Trace (pre ++ .interrupt i :: rest) s := by simpa using h
    obtain ⟨u', v, hu', hstep, -, hpath⟩ := hrun.split_at
    have herr : ∃ r, v.readers[i]? = some r ∧ waitResult r = some (-ERESTARTSYS) := by
      cases step_sound (show step u' (.interrupt i) = some v from hstep) with
      | interrupt _ hi hflag => exact ⟨_, set_entry hi, rfl⟩
    obtain ⟨r, hi, hr⟩ := hpath.stable herr fun hI hstep => waitResult_kept (step_sound hstep) hI
    have hret : r.rc = some 0 := by
      have hsome := hdone r (List.mem_of_getElem? hi)
      cases r <;> simp [Reader.rc] at hsome ⊢
    have hnot : .pass i ∉ pre ++ [.interrupt i] ++ rest := by
      rcases (trace_accounted h).results i r hi with ⟨hzero, -⟩ | ⟨-, hnot⟩
      · rw [hr] at hzero
        exact absurd (Option.some.inj hzero) (by decide)
      · exact hnot
    have hrep := hsafe.reports i r 0 hi hret
    rw [if_neg hnot] at hrep
    exact absurd hrep (by decide)
  | _ => trivial

/-- The reads of a run behave as long as no signal ends a wait, and in a run whose reads have
all returned they do so only then. -/
theorem interrupted_reads {es : List Event} {s : State} (h : sleepy.Trace es s) :
    (sleepy.EachStep Undisturbed es → InterruptSafe es s) ∧
      ((∀ r ∈ s.readers, r.rc.isSome) → InterruptSafe es s → sleepy.EachStep Undisturbed es) :=
  ⟨safe_of_undisturbed h, undisturbed_of_safe h⟩

theorem interrupted_reads_roused :
    InterruptSafe [.read, .sleep 0, .write 5, .store 0, .signal 0, .pass 0, .reset 0, .readReturn 0]
      ⟨0, [.returned 0], [⟨5, .stored⟩]⟩ := by
  have hrun : sleepy.Trace [.read, .sleep 0, .write 5, .store 0, .signal 0, .pass 0, .reset 0,
      .readReturn 0] ⟨0, [.returned 0], [⟨5, .stored⟩]⟩ := System.trace_of_run (by decide)
  exact (interrupted_reads hrun).1 (System.eachStep_of_check (by decide))

/-- A signal ends the wait of the only read. The write that comes then is cancelled by the
reset, and the read reports an end of file. -/
theorem write_cancelled : ¬ ∀ es s, sleepy.Trace es s → InterruptSafe es s := by
  intro h
  have hrun : sleepy.Trace [.read, .sleep 0, .signal 0, .interrupt 0, .write 5, .store 0, .reset 0]
      ⟨0, [.cleared (-ERESTARTSYS)], [⟨5, .stored⟩]⟩ := System.trace_of_run (by decide)
  have hbefore : sleepy.Trace [.read, .sleep 0, .signal 0, .interrupt 0, .write 5, .store 0]
      ⟨1, [.waited (-ERESTARTSYS)], [⟨5, .stored⟩]⟩ := System.trace_of_run (by decide)
  have hkept := (h _ _ hrun).leavesFlag _ 0 _ _ (List.prefix_refl _) hbefore rfl (by simp)
  exact absurd hkept (by decide)

end ChardevSleepyInterrupt
