import LinuxDriver.SyncCompletion
import LinuxDriver.Progress
import Mathlib.Algebra.Order.BigOperators.Group.List
import Mathlib.Algebra.Order.Ring.Nat

/-!
# sync/completion: when the readers come back

Without signals only a write can end the wait of a read. One write is enough for all of them, and
where none is on its way a reader that waits does so for ever.
-/
namespace SyncCompletionProgress

open TransitionSystem CallPool SyncCompletion Progress

def Works : Event → Prop
  | .pass _ | .finishRead _ | .completeAll _ | .finishWrite _ => True
  | .read _ | .interrupt _ | .write _ => False

def readLeft (r : Read) : ℕ :=
  match r.pc with
  | .waiting => 2
  | .passed => 1
  | .interrupted | .returned => 0

def writeLeft (w : Write) : ℕ :=
  match w.pc with
  | .entered => 2
  | .notified => 1
  | .returned => 0

def left (s : State) : ℕ := (s.reads.map readLeft).sum + (s.writes.map writeLeft).sum

structure Returned (s : State) : Prop where
  reads : ∀ r ∈ s.reads, r.rc.isSome
  writes : ∀ w ∈ s.writes, w.rc.isSome

/-- A write has notified the readers or is about to do so, or nobody waits. -/
def Answered (s : State) : Prop :=
  s.com.done ∨ (∃ w ∈ s.writes, w.pc = .entered) ∨ ∀ r ∈ s.reads, r.pc ≠ .waiting

/-- Read `i` waits, and no write is there to notify it. -/
structure Stuck (i : ℕ) (s : State) : Prop where
  pending : s.com.done = false
  notified : ∀ w ∈ s.writes, w.pc ≠ .entered
  waits : ∃ r : Read, s.reads[i]? = some r ∧ r.pc = .waiting

section

variable {s t : State} {e : Event} {i j : ℕ} {r d : Read} {w v : Write}

theorem readLeft_lt (hi : s.reads[i]? = some r) (hlt : readLeft d < readLeft r) :
    left (s.putRead i d) < left s := by
  have hsum := sum_set_add (b := d) readLeft hi
  simp only [left, State.putRead]
  omega

theorem writeLeft_lt (hj : s.writes[j]? = some w) (hlt : writeLeft v < writeLeft w) :
    left (s.putWrite j v) < left s := by
  have hsum := sum_set_add (b := v) writeLeft hj
  simp only [left, State.putWrite]
  omega

theorem left_lt (he : Works e) (hstep : Step s e t) : left t < left s := by
  cases hstep with
  | read count | write count | interrupt i r hi hpc => exact he.elim
  | pass i r hi hpc hdone => exact readLeft_lt hi (by simp [readLeft, hpc])
  | finishRead i r hi hpc => exact readLeft_lt hi (by simp [readLeft, hpc])
  | completeAll j w hj hpc => exact writeLeft_lt hj (by simp [writeLeft, hpc])
  | finishWrite j w hj hpc => exact writeLeft_lt hj (by simp [writeLeft, hpc])

theorem readLeft_eq_zero : readLeft r = 0 ↔ r.rc.isSome := by
  unfold readLeft Read.rc
  cases r.pc <;> simp

theorem writeLeft_eq_zero : writeLeft w = 0 ↔ w.rc.isSome := by
  unfold writeLeft Write.rc
  cases w.pc <;> simp

theorem left_eq_zero : left s = 0 ↔ Returned s := by
  rw [left, Nat.add_eq_zero_iff, List.sum_eq_zero_iff, List.sum_eq_zero_iff,
    List.forall_mem_map, List.forall_mem_map]
  constructor
  · rintro ⟨hreads, hwrites⟩
    exact ⟨fun r hr => readLeft_eq_zero.mp (hreads r hr),
      fun w hw => writeLeft_eq_zero.mp (hwrites w hw)⟩
  · intro h
    exact ⟨fun r hr => readLeft_eq_zero.mpr (h.reads r hr),
      fun w hw => writeLeft_eq_zero.mpr (h.writes w hw)⟩

theorem readLeft_le (r : Read) : readLeft r ≤ 2 := by
  unfold readLeft
  split <;> omega

theorem writeLeft_le (w : Write) : writeLeft w ≤ 2 := by
  unfold writeLeft
  split <;> omega

theorem left_le (s : State) : left s ≤ 2 * (s.reads.length + s.writes.length) := by
  have hreads := sum_le_mul_length readLeft_le s.reads
  have hwrites := sum_le_mul_length writeLeft_le s.writes
  unfold left
  omega

theorem not_waiting_of_set (h : ∀ r ∈ s.reads, r.pc ≠ .waiting) (hd : d.pc ≠ .waiting) :
    ∀ r ∈ (s.putRead i d).reads, r.pc ≠ .waiting := by
  intro r hr
  rcases List.mem_or_eq_of_mem_set hr with hr | rfl
  · exact h r hr
  · exact hd

theorem answered_step (h : Answered s) (he : Works e) (hstep : Step s e t) : Answered t := by
  cases hstep with
  | read count | write count | interrupt i r hi hpc => exact he.elim
  | pass i r hi hpc hdone => exact .inl hdone
  | completeAll j w hj hpc => exact .inl rfl
  | finishRead i r hi hpc =>
    rcases h with hdone | hentered | hnone
    · exact .inl hdone
    · exact .inr (.inl hentered)
    · exact .inr (.inr (not_waiting_of_set hnone (by simp)))
  | finishWrite j w hj hpc =>
    rcases h with hdone | ⟨v, hv, hentered⟩ | hnone
    · exact .inl hdone
    · obtain ⟨k, hk⟩ := List.mem_iff_getElem?.mp hv
      have hkj : k ≠ j := by
        rintro rfl
        obtain rfl := Option.some.inj (hk.symm.trans hj)
        rw [hentered] at hpc
        cases hpc
      have hset : (s.putWrite j { w with pc := .returned }).writes[k]? = some v :=
        (set_other hkj).trans hk
      exact .inr (.inl ⟨v, List.mem_iff_getElem?.mpr ⟨k, hset⟩, hentered⟩)
    · exact .inr (.inr hnone)

theorem goes_write (hw : w ∈ s.writes) (hleft : writeLeft w ≠ 0) :
    ∃ e t, Works e ∧ completion.step s e = some t := by
  obtain ⟨j, hj⟩ := List.mem_iff_getElem?.mp hw
  cases hpc : w.pc with
  | entered =>
    exact ⟨.completeAll j, _, trivial, by simp [completion, step, stepWrite, hj, hpc]; rfl⟩
  | notified =>
    exact ⟨.finishWrite j, _, trivial, by simp [completion, step, stepWrite, hj, hpc]; rfl⟩
  | returned => simp [writeLeft, hpc] at hleft

theorem goes_read (hr : r ∈ s.reads) (hleft : readLeft r ≠ 0)
    (hwait : r.pc = .waiting → s.com.done) : ∃ e t, Works e ∧ completion.step s e = some t := by
  obtain ⟨i, hi⟩ := List.mem_iff_getElem?.mp hr
  cases hpc : r.pc with
  | waiting =>
    have hdone := hwait hpc
    exact ⟨.pass i, _, trivial, by simp [completion, step, stepRead, hi, hpc, hdone]; rfl⟩
  | passed => exact ⟨.finishRead i, _, trivial, by simp [completion, step, stepRead, hi, hpc]; rfl⟩
  | interrupted | returned => simp [readLeft, hpc] at hleft

/-- The writers wait for nobody; when they are through, the readers have been notified. -/
theorem goes (h : Answered s) (hleft : left s ≠ 0) :
    ∃ e t, Works e ∧ completion.step s e = some t := by
  by_cases hwrites : ∀ w ∈ s.writes, writeLeft w = 0
  · have hreads : ∃ r ∈ s.reads, readLeft r ≠ 0 := by
      by_contra hno
      push Not at hno
      exact hleft (left_eq_zero.mpr ⟨fun r hr => readLeft_eq_zero.mp (hno r hr),
        fun w hw => writeLeft_eq_zero.mp (hwrites w hw)⟩)
    obtain ⟨r, hr, hleft⟩ := hreads
    refine goes_read hr hleft fun hwait => ?_
    rcases h with hdone | ⟨w, hw, hentered⟩ | hnone
    · exact hdone
    · have hzero := hwrites w hw
      simp [writeLeft, hentered] at hzero
    · exact absurd hwait (hnone r hr)
  · push Not at hwrites
    obtain ⟨w, hw, hleft⟩ := hwrites
    exact goes_write hw hleft

theorem stuck_of_not_answered (h : ¬ Answered s) : ∃ i, Stuck i s := by
  simp only [Answered, not_or, not_exists, not_and, not_forall, not_not] at h
  obtain ⟨hpending, hnotified, r, hr, hwait⟩ := h
  obtain ⟨i, hi⟩ := List.mem_iff_getElem?.mp hr
  exact ⟨i, Bool.eq_false_of_not_eq_true hpending, hnotified, r, hi, hwait⟩

theorem stuck_step (h : Stuck i s) (he : Works e) (hstep : Step s e t) : Stuck i t := by
  have hpending := h.pending
  obtain ⟨r, hr, hwait⟩ := h.waits
  cases hstep with
  | read count | write count | interrupt k d hk hpc => exact he.elim
  | pass k d hk hpc hdone =>
    rw [hpending] at hdone
    cases hdone
  | completeAll j w hj hpc => exact absurd hpc (h.notified w (List.mem_of_getElem? hj))
  | finishRead k d hk hpc =>
    have hik : i ≠ k := by
      rintro rfl
      obtain rfl := Option.some.inj (hr.symm.trans hk)
      rw [hwait] at hpc
      cases hpc
    exact ⟨hpending, h.notified, r, (set_other hik).trans hr, hwait⟩
  | finishWrite j w hj hpc =>
    refine ⟨hpending, ?_, r, hr, hwait⟩
    intro v hv
    rcases List.mem_or_eq_of_mem_set hv with hv | rfl
    · exact h.notified v hv
    · simp

theorem not_returned_of_stuck (h : Stuck i s) : ¬ Returned s := by
  intro hret
  obtain ⟨r, hr, hwait⟩ := h.waits
  have hrc := hret.reads r (List.mem_of_getElem? hr)
  simp [Read.rc, hwait] at hrc

end

theorem drains : Drains completion Answered Works left where
  keeps hs he hstep := answered_step hs he (step_sound hstep)
  lowers _ he hstep := left_lt he (step_sound hstep)
  goes hs hleft := goes hs hleft

theorem stuck_for_ever {s : State} (h : ¬ Answered s) : ∃ i : ℕ, ∀ es t, completion.Path s es t →
    (∀ e ∈ es, Works e) → Stuck i t := by
  obtain ⟨i, hstuck⟩ := stuck_of_not_answered h
  exact ⟨i, fun es t hpath hes => hpath.stable_on hes hstuck fun he hI hstep =>
    stuck_step hI he (step_sound hstep)⟩

/-- All calls that have begun return in every schedule, unless somebody waits and no write is
there to notify him: then one of them never returns without a signal or a new write. -/
theorem calls_return_iff (s : State) :
    (ComesToRest completion Works Returned (2 * (s.reads.length + s.writes.length)) s ↔
      Answered s) ∧
    (¬ Answered s → ∃ i : ℕ, ∀ es t, completion.Path s es t → (∀ e ∈ es, Works e) →
      ∃ r : Read, t.reads[i]? = some r ∧ r.pc = .waiting) := by
  refine ⟨⟨fun h => ?_, fun h => ?_⟩, fun hno => ?_⟩
  · by_contra hno
    obtain ⟨i, hstuck⟩ := stuck_for_ever hno
    obtain ⟨es, t, hpath, hes, hret⟩ := h.reaches
    exact not_returned_of_stuck (hstuck es t hpath hes) hret
  · have hrest {u : State} (_ : Answered u) (hleft : left u = 0) : Returned u :=
      left_eq_zero.mp hleft
    exact (drains.comesToRest hrest h).mono (left_le s)
  · obtain ⟨i, hstuck⟩ := stuck_for_ever hno
    exact ⟨i, fun es t hpath hes => (hstuck es t hpath hes).waits⟩

end SyncCompletionProgress
