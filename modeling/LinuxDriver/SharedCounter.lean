import LinuxDriver.TransitionSystem
import LinuxDriver.CallPool
import LinuxDriver.LoadStoreCounter
import Mathlib.Data.Multiset.OrderedMonoid

/-!
# Systems whose parties share a load-store counter

Each of a list of parties can hold a value that it has loaded and not stored back yet, and one
that it has not printed yet. What a run prints is decided by its loads: nothing is lost exactly
where no load falls between another load and its store.
-/
namespace SharedCounter

open TransitionSystem CallPool LoadStoreCounter

variable {α β σ ε : Type*}

def ofPool (unstored unprinted : β → Multiset α) (value : α) (printed : List α) (pool : List β) :
    Counter α :=
  ⟨value, (pool.map unstored).sum, ↑printed + (pool.map unprinted).sum⟩

section Pool

variable {unstored unprinted : β → Multiset α} {value old : α} {printed printed' : List α}
  {pool : List β} {i : ℕ} {c d : β}

theorem ofPool_idle (hi : pool[i]? = some c) (hstored : unstored d = unstored c)
    (hprinted : ↑printed' + unprinted d = ↑printed + unprinted c) :
    ofPool unstored unprinted value printed' (pool.set i d) =
      ofPool unstored unprinted value printed pool := by
  have hpending := sum_set_add (b := d) unstored hi
  have htaken := sum_set_add (b := d) unprinted hi
  rw [hstored] at hpending
  have hsum : ↑printed' + ((pool.set i d).map unprinted).sum =
      ↑printed + (pool.map unprinted).sum := by
    apply add_right_cancel (b := unprinted c)
    calc ↑printed' + ((pool.set i d).map unprinted).sum + unprinted c
        = ↑printed' + ((pool.map unprinted).sum + unprinted d) := by rw [add_assoc, htaken]
      _ = ↑printed' + unprinted d + (pool.map unprinted).sum := by
          rw [add_comm (pool.map unprinted).sum, ← add_assoc]
      _ = ↑printed + (pool.map unprinted).sum + unprinted c := by
          rw [hprinted, add_right_comm]
  rw [ofPool, ofPool, add_right_cancel hpending, hsum]

theorem ofPool_load {next : α → α} (hi : pool[i]? = some c) (hc : unstored c = 0)
    (hc' : unprinted c = 0) (hd : unstored d = {value}) (hd' : unprinted d = {value}) :
    Access next (ofPool unstored unprinted value printed pool)
      (ofPool unstored unprinted value printed (pool.set i d)) ∧
    (ofPool unstored unprinted value printed (pool.set i d)).taken =
      value ::ₘ (ofPool unstored unprinted value printed pool).taken := by
  have hpending := sum_set_add (b := d) unstored hi
  have htaken := sum_set_add (b := d) unprinted hi
  rw [hc, hd, add_zero, add_comm, Multiset.singleton_add] at hpending
  rw [hc', hd', add_zero, add_comm, Multiset.singleton_add] at htaken
  have hload : ofPool unstored unprinted value printed (pool.set i d) =
      ⟨value, value ::ₘ (ofPool unstored unprinted value printed pool).pending,
        value ::ₘ (ofPool unstored unprinted value printed pool).taken⟩ := by
    simp only [ofPool, hpending, htaken, Multiset.add_cons]
  rw [hload]
  exact ⟨.load _, rfl⟩

theorem ofPool_store {next : α → α} (hi : pool[i]? = some c) (hc : unstored c = {old})
    (hd : unstored d = 0) (hprinted : unprinted d = unprinted c) :
    Access next (ofPool unstored unprinted value printed pool)
      (ofPool unstored unprinted (next old) printed (pool.set i d)) ∧
    (ofPool unstored unprinted (next old) printed (pool.set i d)).taken =
      (ofPool unstored unprinted value printed pool).taken := by
  have hpending := sum_set_add (b := d) unstored hi
  have htaken := sum_set_add (b := d) unprinted hi
  rw [hc, hd, add_zero, add_comm, Multiset.singleton_add] at hpending
  rw [hprinted] at htaken
  have hstore : ofPool unstored unprinted (next old) printed (pool.set i d) =
      ⟨next old, ((pool.set i d).map unstored).sum,
        (ofPool unstored unprinted value printed pool).taken⟩ := by
    simp only [ofPool, add_right_cancel htaken]
  rw [hstore]
  exact ⟨.store _ old _ hpending.symm, rfl⟩

end Pool

/-- Every step of a run is one of the counter, and `loads` says which ones load. -/
structure Shares (M : System σ ε) (next : α → α) (zero : α) (counter : σ → Counter α)
    (loads : ε → Bool) : Prop where
  initial : counter M.initial = ⟨zero, 0, 0⟩
  access : ∀ {es s e t}, M.Trace es s → M.step s e = some t → Access next (counter s) (counter t)
  loaded : ∀ {es s e t}, M.Trace es s → M.step s e = some t →
    (counter t).taken = if loads e then (counter s).value ::ₘ (counter s).taken else (counter s).taken

/-- The counter is loaded only while no value waits to be stored. -/
def Apart (counter : σ → Counter α) (loads : ε → Bool) (s : σ) (e : ε) : Prop :=
  loads e → (counter s).pending = 0

namespace Shares

variable {M : System σ ε} {next : α → α} {zero : α} {counter : σ → Counter α} {loads : ε → Bool}
  {es : List ε} {s t : σ} {e : ε}

theorem alone_iff (h : Shares M next zero counter loads) (hs : M.Trace es s)
    (hstep : M.step s e = some t) : Alone (counter s) (counter t) ↔ Apart counter loads s e := by
  have htaken := h.loaded hs hstep
  refine imp_congr ?_ Iff.rfl
  cases he : loads e with
  | true =>
    rw [htaken, he, if_pos rfl]
    exact iff_of_true (ne_of_lt (Multiset.lt_cons_self _ _)) rfl
  | false =>
    rw [htaken, he, if_neg Bool.false_ne_true]
    exact iff_of_false (not_not_intro rfl) Bool.false_ne_true

theorem counted (h : Shares M next zero counter loads) (hs : M.Trace es s) :
    Counted next zero (counter s) := by
  induction hs with
  | nil => exact h.initial ▸ counted_initial
  | snoc hs hstep ih => exact ih.step (h.access hs hstep)

theorem card_taken (h : Shares M next zero counter loads) (hs : M.Trace es s) :
    (counter s).taken.card = es.countP loads := by
  induction hs with
  | nil => rw [h.initial]; rfl
  | @snoc es s e t hs hstep ih =>
    rw [h.loaded hs hstep, List.countP_append, List.countP_singleton]
    cases loads e <;> simp [ih]

theorem exact_of_apart (h : Shares M next zero counter loads) (hs : M.Trace es s)
    (hapart : M.EachStep (Apart counter loads) es) : Exact next zero (counter s) := by
  induction hs with
  | nil => exact h.initial ▸ exact_initial
  | snoc hs hstep ih =>
    have hlast := (h.alone_iff hs hstep).mpr (hapart.last hs)
    exact (ih (hapart.mono (List.prefix_append _ _))).step (h.access hs hstep) hlast

theorem apart_of_nodup (h : Shares M next zero counter loads) (hs : M.Trace es s)
    (hnodup : (counter s).taken.Nodup) : M.EachStep (Apart counter loads) es := by
  induction hs with
  | nil =>
    intro pre e u hpre
    simp at hpre
  | snoc hs hstep ih =>
    have haccess := h.access hs hstep
    have hearlier := ih (Multiset.nodup_of_le haccess.taken_le hnodup)
    have halone :=
      (h.exact_of_apart hs hearlier).alone_of_nodup (h.counted hs) haccess hnodup
    exact hearlier.snoc hs ((h.alone_iff hs hstep).mp halone)

/-- The values taken are the first counts exactly where all loads were apart, as long as these
counts are different from each other. -/
theorem taken_iff_apart (h : Shares M next zero counter loads) (hs : M.Trace es s)
    (hinj : Set.InjOn (next^[·] zero) {k | k < es.countP loads}) :
    (counter s).taken = (Multiset.range (es.countP loads)).map (next^[·] zero) ↔
      M.EachStep (Apart counter loads) es := by
  have hcard := h.card_taken hs
  constructor
  · intro htaken
    apply h.apart_of_nodup hs
    rw [htaken]
    refine Multiset.Nodup.map_on (fun i hi j hj heq => ?_) (Multiset.nodup_range _)
    exact hinj (Multiset.mem_range.mp hi) (Multiset.mem_range.mp hj) heq
  · intro hapart
    rw [← hcard]
    exact (h.exact_of_apart hs hapart).taken

end Shares

theorem iterate_increment {w : ℕ} (k : ℕ) :
    (fun v : BitVec w => v + 1)^[k] 0 = BitVec.ofNat w k := by
  induction k with
  | zero => rfl
  | succ k ih => rw [Function.iterate_succ_apply', ih, BitVec.ofNat_add]; rfl

theorem injOn_increment {w n : ℕ} (hn : n ≤ 2 ^ w) :
    Set.InjOn (fun k => (fun v : BitVec w => v + 1)^[k] 0) {k | k < n} := by
  intro i hi j hj heq
  simp only [iterate_increment] at heq
  have hnat := congrArg BitVec.toNat heq
  rwa [BitVec.toNat_ofNat, BitVec.toNat_ofNat, Nat.mod_eq_of_lt (Nat.lt_of_lt_of_le hi hn),
    Nat.mod_eq_of_lt (Nat.lt_of_lt_of_le hj hn)] at hnat

end SharedCounter
