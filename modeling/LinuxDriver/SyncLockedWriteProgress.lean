import LinuxDriver.SyncLockedWrite
import LinuxDriver.Progress
import Mathlib.Algebra.Order.BigOperators.Group.List
import Mathlib.Algebra.Order.Ring.Nat

/-!
# sync/mutex, sync/spinlock and sync/semaphore: every write returns

A call waits for the lock only while another call is inside, and a call that is inside waits for
nobody.
-/
namespace SyncLockedWriteProgress

open TransitionSystem CallPool KernelTypes CountingLock SyncLockedWrite Progress

variable {L : Type} {K : Lock L}

def Pc.left : Pc → ℕ
  | .entered => 12
  | .copied => 11
  | .looping k => 3 * (3 - k) + 1
  | .loaded k _ => 3 * (2 - k) + 3
  | .stored k _ => 3 * (2 - k) + 2
  | .fault | .done => 0

def callLeft (c : Call) : ℕ := Pc.left c.pc

def left (s : State L) : ℕ := (s.calls.map callLeft).sum

/-- Everything but the arrival of a new call. -/
def Works (e : Event) : Prop := e.caller.isSome

def Returned (s : State L) : Prop := ∀ c ∈ s.calls, c.rc.isSome

section

variable {s t : State L} {e : Event} {i : ℕ} {c d : Call}

theorem left_put (hi : s.calls[i]? = some c) (ht : t.calls = s.calls.set i d)
    (hlt : callLeft d < callLeft c) : left t < left s := by
  have hsum := sum_set_add (b := d) callLeft hi
  rw [← ht] at hsum
  unfold left
  omega

theorem left_lt (hworks : Works e) (hstep : Step K s e t) : left t < left s := by
  cases hstep with
  | write buf => cases hworks
  | fault i c ret hi hpc | copy i c hi hpc | acquire i c l hi hpc =>
    exact left_put hi rfl (by simp [callLeft, hpc, Pc.left])
  | load i c k hi hpc hk =>
    refine left_put hi rfl ?_
    simp only [callLeft, hpc, Pc.left]
    omega
  | store i c k old hi hpc => exact left_put hi rfl (by simp [callLeft, hpc, Pc.left])
  | print i c k old hi hpc =>
    refine left_put hi rfl ?_
    simp only [callLeft, hpc, Pc.left]
    omega
  | release i c k hi hpc hk => exact left_put hi rfl (by simp [callLeft, hpc, Pc.left])

theorem callLeft_eq_zero : callLeft c = 0 ↔ c.rc.isSome := by
  unfold callLeft Pc.left Call.rc
  cases c.pc <;> simp

theorem left_eq_zero : left s = 0 ↔ Returned s := by
  rw [left, List.sum_eq_zero_iff, List.forall_mem_map]
  exact forall₂_congr fun c _ => callLeft_eq_zero

theorem goes_call {e : Event} (hi : s.calls[i]? = some c) (he : e.caller = some i)
    (hstep : stepCall K s i c e c.pc = some t) :
    ∃ e t, Works e ∧ (lockedWrite K).step s e = some t := by
  refine ⟨e, t, by simp [Works, he], ?_⟩
  cases e <;> cases he <;> simpa [lockedWrite, step, Event.caller, hi] using hstep

theorem goes_inside (hi : s.calls[i]? = some c) (hin : c.inside) :
    ∃ e t, Works e ∧ (lockedWrite K).step s e = some t := by
  cases hpc : c.pc with
  | looping k =>
    by_cases hk : k < 3
    · exact goes_call (e := .load i) hi rfl (by simp [stepCall, hpc, hk]; rfl)
    · exact goes_call (e := .release i) hi rfl (by simp [stepCall, hpc, hk]; rfl)
  | loaded k old => exact goes_call (e := .store i) hi rfl (by simp [stepCall, hpc]; rfl)
  | stored k old => exact goes_call (e := .print i) hi rfl (by simp [stepCall, hpc]; rfl)
  | entered | copied | fault | done => simp [Call.inside, hpc] at hin

/-- A call outside finds the lock free if nobody is inside. -/
theorem goes_outside (hi : s.calls[i]? = some c) (hleft : callLeft c ≠ 0) (hout : ¬ c.inside)
    (hlock : (K.acquire s.lock i).isSome) :
    ∃ e t, Works e ∧ (lockedWrite K).step s e = some t := by
  cases hpc : c.pc with
  | entered => exact goes_call (e := .copy i 0) hi rfl (by simp [stepCall, hpc]; rfl)
  | copied =>
    obtain ⟨l, hl⟩ := Option.isSome_iff_exists.mp hlock
    exact goes_call (e := .acquire i) hi rfl (by simp [stepCall, hpc, hl]; rfl)
  | looping k | loaded k old | stored k old => simp [Call.inside, hpc] at hout
  | fault | done => simp [callLeft, hpc, Pc.left] at hleft

theorem goes {es : List Event} (hK : ∀ i, (K.acquire K.init i).isSome)
    (h : (lockedWrite K).Trace es s) (hleft : left s ≠ 0) :
    ∃ e t, Works e ∧ (lockedWrite K).step s e = some t := by
  by_cases hin : ∃ c ∈ s.calls, c.inside
  · obtain ⟨c, hc, hin⟩ := hin
    obtain ⟨i, hi⟩ := List.mem_iff_getElem?.mp hc
    exact goes_inside hi hin
  · have hnone : holders s = 0 :=
      List.countP_eq_zero.mpr fun c hc hin' => hin ⟨c, hc, hin'⟩
    have hcap := (trace_accounted h).capacity
    have hfree : s.lock = K.init := K.eq_init (by omega)
    have hopen : ∃ c ∈ s.calls, callLeft c ≠ 0 := by
      by_contra hno
      push Not at hno
      apply hleft
      rw [left, List.sum_eq_zero_iff, List.forall_mem_map]
      exact hno
    obtain ⟨c, hc, hleft⟩ := hopen
    obtain ⟨i, hi⟩ := List.mem_iff_getElem?.mp hc
    refine goes_outside hi hleft (fun hin' => hin ⟨c, hc, hin'⟩) ?_
    rw [hfree]
    exact hK i

end

theorem drains (hK : ∀ i, (K.acquire K.init i).isSome) :
    Drains (lockedWrite K) (fun s => ∃ es, (lockedWrite K).Trace es s) Works left where
  keeps := by
    rintro s e t ⟨es, h⟩ - hstep
    exact ⟨_, h.snoc hstep⟩
  lowers _ he hstep := left_lt he (step_sound hstep)
  goes := by
    rintro s ⟨es, h⟩ hleft
    exact goes hK h hleft

theorem callLeft_le (c : Call) : callLeft c ≤ 12 := by
  unfold callLeft Pc.left
  split <;> omega

theorem writes_rest (hK : ∀ i, (K.acquire K.init i).isSome) {es : List Event} {s : State L}
    (h : (lockedWrite K).Trace es s) :
    ComesToRest (lockedWrite K) Works Returned (12 * s.calls.length) s :=
  ((drains hK).comesToRest (fun _ hleft => left_eq_zero.mp hleft) ⟨es, h⟩).mono
    (sum_le_mul_length callLeft_le s.calls)

/-- No schedule of the writes that have begun goes on for more than twelve steps a call, and none
gets stuck before all of them have returned: nobody waits for ever under any of the locks. -/
theorem writes_return :
    (∀ es s, mutexWrite.Trace es s →
      ComesToRest mutexWrite Works Returned (12 * s.calls.length) s) ∧
    (∀ es s, spinlockWrite.Trace es s →
      ComesToRest spinlockWrite Works Returned (12 * s.calls.length) s) ∧
    (∀ es s, semaphoreWrite.Trace es s →
      ComesToRest semaphoreWrite Works Returned (12 * s.calls.length) s) := by
  refine ⟨fun es s h => ?_, fun es s h => ?_, fun es s h => ?_⟩
  · exact writes_rest (fun _ => rfl) h
  · exact writes_rest (fun _ => rfl) h
  · exact writes_rest (fun _ => rfl) h

theorem writes_return_waiting : ComesToRest mutexWrite Works Returned 24
    ⟨some 0, 0, [], [⟨[97], [97, 0], .loaded 0 0⟩, ⟨[98], [98, 0], .copied⟩]⟩ := by
  have hrun : mutexWrite.Trace
      [.write [97], .write [98], .copy 0 0, .copy 1 0, .acquire 0, .load 0]
      ⟨some 0, 0, [], [⟨[97], [97, 0], .loaded 0 0⟩, ⟨[98], [98, 0], .copied⟩]⟩ :=
    System.trace_of_run (by decide)
  exact writes_return.1 _ _ hrun

end SyncLockedWriteProgress
