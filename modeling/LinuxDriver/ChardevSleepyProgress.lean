import LinuxDriver.ChardevSleepy
import LinuxDriver.Progress
import Mathlib.Algebra.Order.BigOperators.Group.List
import Mathlib.Algebra.Order.Ring.Nat

/-!
# chardev/sleepy: what a write brings about

A write wakes all sleepers up, and the first of them takes the flag from the others. All of them
come to rest again, and one of the reads at least has returned.
-/
namespace ChardevSleepyProgress

open TransitionSystem CallPool ChardevSleepy Progress

def Works : Event → Prop
  | .sleep _ | .pass _ | .interrupt _ | .reset _ | .readReturn _ | .store _ | .wake _ => True
  | .read | .signal _ | .write _ => False

/-- A sleeper has nothing to do until a write wakes it up. -/
def readerLeft : Reader → ℕ
  | .entered | .woken | .signalled => 3
  | .waited _ => 2
  | .cleared _ => 1
  | .asleep | .returned _ => 0

def writerLeft (readers : ℕ) (w : Writer) : ℕ :=
  match w.pc with
  | .entered => 3 * readers + 2
  | .stored => 3 * readers + 1
  | .returned => 0

def left (s : State) : ℕ :=
  (s.readers.map readerLeft).sum + (s.writers.map (writerLeft s.readers.length)).sum

def Announced (s : State) : Prop := s.flag ≠ 0 ∨ ∃ w ∈ s.writers, w.pc = .entered

def Reader.Out (r : Reader) : Prop := ∃ ret, r = .cleared ret ∨ r = .returned ret

def Through (s t : State) : Prop := ∃ (i : ℕ) (c r : Reader), s.readers[i]? = some c ∧ c.rc = none ∧
  t.readers[i]? = some r ∧ Reader.Out r

/-- What has become of the calls of state `s` when nothing of their work is left. -/
structure Settled (s t : State) : Prop where
  writers : ∀ w ∈ t.writers, w.rc.isSome
  readers : ∀ r ∈ t.readers, r.rc.isSome ∨ r = .asleep ∧ t.flag = 0
  through : Announced s → (∃ r ∈ s.readers, r.waiting) → ∃ (i : ℕ) (c : Reader) (ret : ℤ),
    s.readers[i]? = some c ∧ c.rc = none ∧ t.readers[i]? = some (.returned ret)

section

variable {s t u : State} {e : Event} {i j : ℕ} {r d : Reader} {w v : Writer}

theorem reader_lowers (hi : s.readers[i]? = some r) (hreaders : t.readers = s.readers.set i d)
    (hwriters : t.writers = s.writers) (hlt : readerLeft d < readerLeft r) : left t < left s := by
  have hsum := sum_set_add (b := d) readerLeft hi
  rw [← hreaders] at hsum
  simp only [left, hwriters, hreaders, List.length_set] at hsum ⊢
  omega

theorem store_lowers (hj : s.writers[j]? = some w) (hw : w.pc = .entered) :
    left { s.writer j { w with pc := .stored } with flag := 1 } < left s := by
  have hsum := sum_set_add (b := { w with pc := .stored }) (writerLeft s.readers.length) hj
  simp only [writerLeft, hw] at hsum
  simp only [left, State.writer]
  omega

theorem readerLeft_le (r : Reader) : readerLeft r ≤ 3 := by
  unfold readerLeft
  split <;> omega

theorem wake_lowers (hj : s.writers[j]? = some w) (hw : w.pc = .stored) :
    left { s.writer j { w with pc := .returned } with readers := s.readers.map Reader.wake } <
      left s := by
  have hsum := sum_set_add (b := { w with pc := .returned }) (writerLeft s.readers.length) hj
  have hwoken := sum_le_mul_length readerLeft_le (s.readers.map Reader.wake)
  simp only [writerLeft, hw, List.length_map] at hsum hwoken
  simp only [left, State.writer, List.length_map]
  omega

theorem left_lt (he : Works e) (hstep : Step s e t) : left t < left s := by
  cases hstep with
  | read | signal | write => exact he.elim
  | sleep i r hi hr | pass i r hi hr =>
    have hthree : readerLeft r = 3 := by cases r <;> simp_all [readerLeft]
    exact reader_lowers hi rfl rfl (by rw [hthree, readerLeft]; omega)
  | interrupt i hi hflag => exact reader_lowers hi rfl rfl (Nat.lt_succ_self 2)
  | reset i ret hi => exact reader_lowers hi rfl rfl (Nat.lt_succ_self 1)
  | readReturn i ret hi => exact reader_lowers hi rfl rfl Nat.one_pos
  | store j w hj hw => exact store_lowers hj hw
  | wake j w hj hw => exact wake_lowers hj hw

theorem left_eq_zero : left s = 0 ↔ (∀ r ∈ s.readers, r.rc.isSome ∨ r = .asleep) ∧
    ∀ w ∈ s.writers, w.rc.isSome := by
  have hreader (r : Reader) : readerLeft r = 0 ↔ r.rc.isSome ∨ r = .asleep := by
    cases r <;> simp [readerLeft, Reader.rc]
  have hwriter (w : Writer) : writerLeft s.readers.length w = 0 ↔ w.rc.isSome := by
    unfold writerLeft Writer.rc
    cases w.pc <;> simp
  rw [left, Nat.add_eq_zero_iff, List.sum_eq_zero_iff, List.sum_eq_zero_iff,
    List.forall_mem_map, List.forall_mem_map]
  exact and_congr (forall₂_congr fun r _ => hreader r) (forall₂_congr fun w _ => hwriter w)

theorem goes_reader (hi : s.readers[i]? = some r) (hleft : readerLeft r ≠ 0) :
    ∃ e t, Works e ∧ sleepy.step s e = some t := by
  by_cases htesting : r.testing
  · by_cases hflag : s.flag = 0
    · by_cases hsig : r = .signalled
      · subst hsig
        exact ⟨.interrupt i, _, trivial, by simp [sleepy, step, hi, stepReader, hflag]; rfl⟩
      · refine ⟨.sleep i, s.reader i .asleep, trivial, ?_⟩
        simp only [sleepy, step, hi, Option.bind_some, stepReader]
        exact if_pos ⟨htesting, hsig, hflag⟩
    · exact ⟨.pass i, _, trivial, step_pass hi htesting hflag⟩
  · cases r with
    | waited ret => exact ⟨.reset i, _, trivial, by simp [sleepy, step, hi, stepReader]; rfl⟩
    | cleared ret => exact ⟨.readReturn i, _, trivial, by simp [sleepy, step, hi, stepReader]; rfl⟩
    | entered | woken | signalled => simp at htesting
    | asleep | returned ret => simp [readerLeft] at hleft

theorem goes_writer (hj : s.writers[j]? = some w) (hw : w.rc = none) :
    ∃ e t, Works e ∧ sleepy.step s e = some t := by
  cases hpc : w.pc with
  | entered => exact ⟨.store j, _, trivial, by simp [sleepy, step, hj, hpc]; rfl⟩
  | stored => exact ⟨.wake j, _, trivial, by simp [sleepy, step, hj, hpc]; rfl⟩
  | returned => simp [Writer.rc, hpc] at hw

theorem goes (hleft : left s ≠ 0) : ∃ e t, Works e ∧ sleepy.step s e = some t := by
  by_cases hwriters : ∀ w ∈ s.writers, w.rc.isSome
  · have hreaders : ∃ r ∈ s.readers, readerLeft r ≠ 0 := by
      by_contra hno
      push Not at hno
      refine hleft (left_eq_zero.mpr ⟨fun r hr => ?_, hwriters⟩)
      have hzero := hno r hr
      cases r <;> simp_all [readerLeft, Reader.rc]
    obtain ⟨r, hr, hleft⟩ := hreaders
    obtain ⟨i, hi⟩ := List.mem_iff_getElem?.mp hr
    exact goes_reader hi hleft
  · push Not at hwriters
    obtain ⟨w, hw, hrc⟩ := hwriters
    obtain ⟨j, hj⟩ := List.mem_iff_getElem?.mp hw
    exact goes_writer hj (Option.not_isSome_iff_eq_none.mp (by simpa using hrc))

/-- The calls of `s` are still there in `u`, and a store that was announced has not been lost on
all of them. -/
structure Since (s u : State) : Prop where
  reached : ∃ es, sleepy.Trace es u
  size : u.readers.length = s.readers.length
  pending : ∀ (i : ℕ) (r : Reader), u.readers[i]? = some r → r.rc = none →
    ∃ c, s.readers[i]? = some c ∧ c.rc = none
  kept : Announced s → Announced u ∨ Through s u

theorem through_mono (h : Through s u) (hkeep : ∀ (i : ℕ) (r : Reader), u.readers[i]? = some r →
    Reader.Out r → ∃ d, t.readers[i]? = some d ∧ Reader.Out d) : Through s t := by
  obtain ⟨i, c, r, hc, hrc, hr, hout⟩ := h
  obtain ⟨d, hd, hout⟩ := hkeep i r hr hout
  exact ⟨i, c, d, hc, hrc, hd, hout⟩

theorem pending_put (h : Since s u) (hi : u.readers[i]? = some r) (hr : r.rc = none)
    (ht : t.readers = u.readers.set i d) (k : ℕ) (b : Reader) (hk : t.readers[k]? = some b)
    (hb : b.rc = none) : ∃ c, s.readers[k]? = some c ∧ c.rc = none := by
  rw [ht] at hk
  rcases entry_of_set hk with ⟨rfl, -⟩ | ⟨-, hk⟩
  · exact h.pending k r hi hr
  · exact h.pending k b hk hb

theorem through_put (h : Through s u) (hi : u.readers[i]? = some r)
    (ht : t.readers = u.readers.set i d) (hout : Reader.Out r → Reader.Out d) : Through s t := by
  apply through_mono h
  intro k b hk hb
  rw [ht]
  by_cases hki : k = i
  · subst hki
    obtain rfl := Option.some.inj (hi.symm.trans hk)
    exact ⟨d, set_entry hi, hout hb⟩
  · exact ⟨b, (set_other hki).trans hk, hb⟩

theorem since_put (h : Since s u) (hi : u.readers[i]? = some r) (hr : r.rc = none)
    (hreached : ∃ es, sleepy.Trace es (u.reader i d)) (hout : Reader.Out r → Reader.Out d) :
    Since s (u.reader i d) := by
  refine ⟨hreached, ?_, pending_put h hi hr rfl, fun hs => ?_⟩
  · rw [State.reader, List.length_set]
    exact h.size
  · rcases h.kept hs with hannounced | hthrough
    · exact .inl hannounced
    · exact .inr (through_put hthrough hi rfl hout)

theorem not_out (hr : r.testing) : ¬ Reader.Out r := by
  rintro ⟨ret, rfl | rfl⟩ <;> simp at hr

theorem since_step (h : Since s u) (he : Works e) (hrun : sleepy.step u e = some t) :
    Since s t := by
  have hreached : ∃ es, sleepy.Trace es t := by
    obtain ⟨es, hes⟩ := h.reached
    exact ⟨_, hes.snoc hrun⟩
  cases step_sound hrun with
  | read | signal | write => exact he.elim
  | sleep i r hi hr | pass i r hi hr =>
    have hrc : r.rc = none := by cases r <;> simp_all [Reader.rc]
    exact since_put h hi hrc hreached fun hout => absurd hout (not_out hr)
  | interrupt i hi =>
    exact since_put h hi rfl hreached fun hout => absurd hout (not_out (r := .signalled) rfl)
  | readReturn i ret hi => exact since_put h hi rfl hreached fun _ => ⟨ret, .inr rfl⟩
  | reset i ret hi =>
    -- The reader that takes the flag away is the one that gets through.
    refine ⟨hreached, ?_, pending_put h hi rfl rfl, fun _ => .inr ?_⟩
    · rw [← h.size]
      exact List.length_set
    · obtain ⟨c, hc, hrc⟩ := h.pending i _ hi rfl
      exact ⟨i, c, .cleared ret, hc, hrc, set_entry hi, ret, .inl rfl⟩
  | store j w hj hw => exact ⟨hreached, h.size, h.pending, fun _ => .inl (.inl one_ne_zero)⟩
  | wake j w hj hw =>
    have hrc (r : Reader) : (Reader.wake r).rc = r.rc := by cases r <;> rfl
    refine ⟨hreached, (List.length_map _).trans h.size, ?_, fun hs => ?_⟩
    · intro k b hk hb
      obtain ⟨r, hr, rfl⟩ := Option.map_eq_some_iff.mp (List.getElem?_map.symm.trans hk)
      exact h.pending k r hr ((hrc r).symm.trans hb)
    · rcases h.kept hs with (hflag | ⟨v, hv, hentered⟩) | hthrough
      · exact .inl (.inl hflag)
      · obtain ⟨k, hk⟩ := List.mem_iff_getElem?.mp hv
        have hkj : k ≠ j := by
          rintro rfl
          obtain rfl := Option.some.inj (hk.symm.trans hj)
          rw [hentered] at hw
          cases hw
        have hset : (u.writers.set j { w with pc := .returned })[k]? = some v :=
          (set_other hkj).trans hk
        exact .inl (.inr ⟨v, List.mem_of_getElem? hset, hentered⟩)
      · refine .inr (through_mono hthrough fun k r hk hout => ⟨r, ?_, hout⟩)
        obtain ⟨ret, rfl | rfl⟩ := hout
        · simp [List.getElem?_map, hk, Reader.wake]
        · simp [List.getElem?_map, hk, Reader.wake]

theorem flag_of_asleep {es : List Event} (h : sleepy.Trace es u)
    (hwriters : ∀ w ∈ u.writers, w.rc.isSome) (hi : u.readers[i]? = some .asleep) :
    u.flag = 0 := by
  by_contra hflag
  obtain ⟨j, w, hj, hw⟩ := trace_watched h hflag i hi
  have hrc := hwriters w (List.mem_of_getElem? hj)
  simp [Writer.rc, hw] at hrc

theorem settled_of_left (h : Since s u) (hleft : left u = 0) : Settled s u := by
  obtain ⟨hreaders, hwriters⟩ := left_eq_zero.mp hleft
  obtain ⟨es, hrun⟩ := h.reached
  refine ⟨hwriters, fun r hr => ?_, fun hs hwaits => ?_⟩
  · rcases hreaders r hr with hrc | rfl
    · exact .inl hrc
    · obtain ⟨i, hi⟩ := List.mem_iff_getElem?.mp hr
      exact .inr ⟨rfl, flag_of_asleep hrun hwriters hi⟩
  · rcases h.kept hs with (hflag | ⟨w, hw, hentered⟩) | ⟨i, c, r, hc, hrc, hr, ret, rfl | rfl⟩
    · -- The flag is still up: the reader that waited does not sleep.
      obtain ⟨c, hc, hwait⟩ := hwaits
      obtain ⟨i, hi⟩ := List.mem_iff_getElem?.mp hc
      have hlt : i < u.readers.length := h.size ▸ lt_length hi
      have hr : u.readers[i]? = some u.readers[i] := List.getElem?_eq_getElem hlt
      rcases hreaders _ (List.getElem_mem hlt) with hret | hasleep
      · cases hout : u.readers[i] with
        | returned ret =>
          rw [hout] at hr
          exact ⟨i, c, ret, hi, by cases c <;> simp_all [Reader.rc], hr⟩
        | _ => simp [hout, Reader.rc] at hret
      · rw [hasleep] at hr
        exact absurd (flag_of_asleep hrun hwriters hr) hflag
    · have hrc := hwriters w hw
      simp [Writer.rc, hentered] at hrc
    · have hret := hreaders _ (List.mem_of_getElem? hr)
      simp [Reader.rc] at hret
    · exact ⟨i, c, ret, hc, hrc, hr⟩

end

theorem drains (s : State) : Drains sleepy (Since s) Works left where
  keeps hs he hstep := since_step hs he hstep
  lowers _ he hstep := left_lt he (step_sound hstep)
  goes _ hleft := goes hleft

theorem left_le (s : State) :
    left s ≤ 3 * s.readers.length + (3 * s.readers.length + 2) * s.writers.length := by
  have hwriter (w : Writer) : writerLeft s.readers.length w ≤ 3 * s.readers.length + 2 := by
    unfold writerLeft
    split <;> omega
  have hreaders := sum_le_mul_length readerLeft_le s.readers
  have hwriters := sum_le_mul_length hwriter s.writers
  unfold left
  omega

/-- Without new calls and signals every schedule comes to its end: all writes have returned, and
whoever has not returned from his read sleeps while the flag is down. Where a write had stored the
flag or was about to, and a reader waited, one of the reads has returned since then. -/
theorem calls_settle {es : List Event} {s : State} (h : sleepy.Trace es s) :
    ComesToRest sleepy Works (Settled s)
      (3 * s.readers.length + (3 * s.readers.length + 2) * s.writers.length) s := by
  have hsince : Since s s := ⟨⟨es, h⟩, rfl, fun _ r hr hrc => ⟨r, hr, hrc⟩, .inl⟩
  exact ((drains s).comesToRest settled_of_left hsince).mono (left_le s)

theorem calls_settle_asleep : ComesToRest sleepy Works
    (Settled ⟨0, [.asleep, .asleep], [⟨4, .entered⟩]⟩) 14
    ⟨0, [.asleep, .asleep], [⟨4, .entered⟩]⟩ := by
  have hrun : sleepy.Trace [.read, .read, .sleep 0, .sleep 1, .write 4]
      ⟨0, [.asleep, .asleep], [⟨4, .entered⟩]⟩ := System.trace_of_run (by decide)
  exact calls_settle hrun

end ChardevSleepyProgress
