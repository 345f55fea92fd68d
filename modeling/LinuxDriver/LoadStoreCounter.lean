import Mathlib.Data.Multiset.Range
import Mathlib.Data.Multiset.MapFold
import Mathlib.Data.Multiset.ZeroCons
import Mathlib.Logic.Function.Iterate

/-!
# Counters increased by a load and a store

Whoever increases the counter takes its value and writes the successor back later. Any
number of values can be taken and not yet written back. What is lost in this way is
decided by the loads alone: none of them may fall between a load and its store.
-/
namespace LoadStoreCounter

variable {α : Type*}

structure Counter (α : Type*) where
  value : α
  pending : Multiset α
  taken : Multiset α

inductive Access (next : α → α) : Counter α → Counter α → Prop where
  | idle (c) : Access next c c
  | load (c) : Access next c ⟨c.value, c.value ::ₘ c.pending, c.value ::ₘ c.taken⟩
  | store (c old rest) (hold : c.pending = old ::ₘ rest) :
      Access next c ⟨next old, rest, c.taken⟩

variable {next : α → α} {zero : α} {c d : Counter α}

theorem Access.taken_le (h : Access next c d) : c.taken ≤ d.taken := by
  cases h with
  | idle => exact le_rfl
  | load => exact Multiset.le_cons_self _ _
  | store => exact le_rfl

/-- Only counts are taken, and none that exceeds the number of loads. -/
structure Counted (next : α → α) (zero : α) (c : Counter α) : Prop where
  value : ∃ k ≤ c.taken.card, c.value = next^[k] zero
  taken : ∀ v ∈ c.taken, ∃ k < c.taken.card, v = next^[k] zero
  pending : c.pending ≤ c.taken

theorem counted_initial : Counted next zero ⟨zero, 0, 0⟩ :=
  ⟨⟨0, Nat.zero_le _, rfl⟩, by simp, le_rfl⟩

theorem Counted.step (h : Counted next zero c) (hstep : Access next c d) :
    Counted next zero d := by
  cases hstep with
  | idle => exact h
  | load =>
    obtain ⟨k, hk, hvalue⟩ := h.value
    refine ⟨⟨k, ?_, hvalue⟩, fun v hv => ?_, Multiset.cons_le_cons _ h.pending⟩
    · rw [Multiset.card_cons]
      exact Nat.le_succ_of_le hk
    · rw [Multiset.card_cons]
      rcases Multiset.mem_cons.mp hv with rfl | hv
      · exact ⟨k, Nat.lt_succ_of_le hk, hvalue⟩
      · obtain ⟨m, hm, hv⟩ := h.taken v hv
        exact ⟨m, Nat.lt_succ_of_lt hm, hv⟩
  | store old rest hold =>
    have hle : old ::ₘ rest ≤ c.taken := hold ▸ h.pending
    obtain ⟨k, hk, rfl⟩ := h.taken old (Multiset.mem_of_le hle (Multiset.mem_cons_self _ _))
    exact ⟨⟨k + 1, hk, (Function.iterate_succ_apply' next k zero).symm⟩, h.taken,
      (Multiset.le_cons_self _ _).trans hle⟩

/-- Nothing has been lost: the values taken are the first counts, each once. At most one
of them, the present value, has not been written back. -/
structure Exact (next : α → α) (zero : α) (c : Counter α) : Prop where
  taken : c.taken = (Multiset.range c.taken.card).map (next^[·] zero)
  written : c.pending = 0 → c.value = next^[c.taken.card] zero
  between : c.pending ≠ 0 → c.pending = {c.value} ∧ next c.value = next^[c.taken.card] zero

theorem exact_initial : Exact next zero ⟨zero, 0, 0⟩ :=
  ⟨by simp, fun _ => rfl, fun h => absurd rfl h⟩

/-- The condition on a step: the counter is loaded only while nothing is pending. -/
def Alone (c d : Counter α) : Prop := c.taken ≠ d.taken → c.pending = 0

theorem Exact.step (h : Exact next zero c) (hstep : Access next c d) (halone : Alone c d) :
    Exact next zero d := by
  cases hstep with
  | idle => exact h
  | load =>
    have hzero : c.pending = 0 := halone (ne_of_lt (Multiset.lt_cons_self _ _))
    have hvalue := h.written hzero
    refine ⟨?_, fun hp => absurd hp (Multiset.cons_ne_zero), fun _ => ⟨?_, ?_⟩⟩
    · rw [Multiset.card_cons, Multiset.range_succ, Multiset.map_cons, ← h.taken, ← hvalue]
    · rw [hzero]
      rfl
    · rw [Multiset.card_cons, Function.iterate_succ_apply', ← hvalue]
  | store old rest hold =>
    obtain ⟨hone, hnext⟩ := h.between (hold ▸ Multiset.cons_ne_zero)
    have hsingle : old = c.value ∧ rest = 0 := by
      have hcons : old ::ₘ rest = c.value ::ₘ 0 := hold.symm.trans hone
      have hrest : rest = 0 := by
        rw [← Multiset.card_eq_zero]
        simpa using congrArg Multiset.card hcons
      subst hrest
      exact ⟨by simpa using hcons, rfl⟩
    obtain ⟨rfl, rfl⟩ := hsingle
    exact ⟨h.taken, fun _ => hnext, fun hp => absurd rfl hp⟩

theorem Exact.nodup (h : Exact next zero c)
    (hinj : Set.InjOn (next^[·] zero) {k | k < c.taken.card}) : c.taken.Nodup := by
  rw [h.taken]
  refine Multiset.Nodup.map_on (fun i hi j hj heq => ?_) (Multiset.nodup_range _)
  exact hinj (Multiset.mem_range.mp hi) (Multiset.mem_range.mp hj) heq

theorem Exact.alone_of_nodup (h : Exact next zero c) (hcount : Counted next zero c)
    (hstep : Access next c d) (hnodup : d.taken.Nodup) : Alone c d := by
  intro hne
  by_contra hpending
  cases hstep with
  | idle => exact hne rfl
  | store => exact hne rfl
  | load =>
    have hmem : c.value ∈ c.pending := by
      rw [(h.between hpending).1]
      exact Multiset.mem_singleton_self _
    exact (Multiset.nodup_cons.mp hnodup).1 (Multiset.mem_of_le hcount.pending hmem)

end LoadStoreCounter
