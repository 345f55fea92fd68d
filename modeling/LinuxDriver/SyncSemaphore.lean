import LinuxDriver.SyncLockedWrite
import LinuxDriver.LoadStoreCounter
import Mathlib.Algebra.Order.BigOperators.Group.List
import Mathlib.Data.Multiset.OrderedMonoid

/-!
# sync/semaphore: the shared counter under a semaphore of two

`sema_init` admits two callers, and `cnt++` is a load followed by a store. What the loop
does to `cnt` is a load-store counter, whatever lock stands around it; the values still
to be stored or printed are read off the calls.
-/
namespace SyncSemaphore

open TransitionSystem CallPool KernelTypes CountingLock SyncLockedWrite LoadStoreCounter

variable {L : Type} {K : Lock L}

def unstored (c : Call) : Multiset (BitVec 32) :=
  match c.pc with
  | .loaded _ old => {old}
  | _ => 0

def unprinted (c : Call) : Multiset (BitVec 32) :=
  match c.pc with
  | .loaded _ old | .stored _ old => {old}
  | _ => 0

def printed (s : State L) : List (BitVec 32) := s.log.map Prod.fst

def pending (s : State L) : Multiset (BitVec 32) := (s.calls.map unstored).sum

def taken (s : State L) : Multiset (BitVec 32) := ↑(printed s) + (s.calls.map unprinted).sum

def counter (s : State L) : Counter (BitVec 32) := ⟨s.cnt, pending s, taken s⟩

def successor (v : BitVec 32) : BitVec 32 := v + 1

theorem iterate_successor (k : ℕ) : successor^[k] 0 = BitVec.ofNat 32 k := by
  induction k with
  | zero => rfl
  | succ k ih =>
    rw [Function.iterate_succ_apply', ih]
    exact (BitVec.ofNat_add k 1).symm

section Put

variable {s t : State L} {i : ℕ} {c d : Call}

theorem pending_put (hi : s.calls[i]? = some c) (ht : t.calls = s.calls.set i d) :
    pending t + unstored c = pending s + unstored d := by
  unfold pending
  rw [ht]
  exact sum_set_add unstored hi

theorem taken_put (hi : s.calls[i]? = some c) (ht : t.calls = s.calls.set i d) :
    taken t + (↑(printed s) + unprinted c) = taken s + (↑(printed t) + unprinted d) := by
  have hset := sum_set_add (b := d) unprinted hi
  rw [← ht] at hset
  unfold taken
  calc ↑(printed t) + (t.calls.map unprinted).sum + (↑(printed s) + unprinted c)
      = ↑(printed t) + ↑(printed s) + ((t.calls.map unprinted).sum + unprinted c) :=
        add_add_add_comm _ _ _ _
    _ = ↑(printed s) + ↑(printed t) + ((s.calls.map unprinted).sum + unprinted d) := by
        rw [hset, add_comm (printed t : Multiset (BitVec 32))]
    _ = ↑(printed s) + (s.calls.map unprinted).sum + (↑(printed t) + unprinted d) :=
        add_add_add_comm _ _ _ _

theorem counter_eq (hi : s.calls[i]? = some c) (ht : t.calls = s.calls.set i d)
    (hcnt : t.cnt = s.cnt) (hstored : unstored d = unstored c)
    (hprinted : ↑(printed t) + unprinted d = ↑(printed s) + unprinted c) :
    counter t = counter s := by
  have hpending := pending_put hi ht
  have htaken := taken_put hi ht
  rw [hstored] at hpending
  rw [hprinted] at htaken
  simp only [counter, hcnt, add_right_cancel hpending, add_right_cancel htaken]

theorem counter_load {k : ℕ} (hi : s.calls[i]? = some c) (hpc : c.pc = .looping k)
    (ht : t.calls = s.calls.set i { c with pc := .loaded k s.cnt }) (hcnt : t.cnt = s.cnt)
    (hlog : t.log = s.log) : counter t = ⟨s.cnt, s.cnt ::ₘ pending s, s.cnt ::ₘ taken s⟩ := by
  have hpending : pending t = s.cnt ::ₘ pending s := by
    have hput := pending_put hi ht
    simp only [unstored, hpc, add_zero] at hput
    rw [hput, add_comm, Multiset.singleton_add]
  have htaken : taken t = s.cnt ::ₘ taken s := by
    have hput := taken_put hi ht
    simp only [unprinted, hpc, add_zero, printed, hlog] at hput
    rw [add_comm (s.log.map Prod.fst : Multiset (BitVec 32)), ← add_assoc] at hput
    rw [add_right_cancel hput, add_comm, Multiset.singleton_add]
  rw [counter, hcnt, hpending, htaken]

theorem counter_store {k : ℕ} {old : BitVec 32} (hi : s.calls[i]? = some c)
    (hpc : c.pc = .loaded k old) (ht : t.calls = s.calls.set i { c with pc := .stored k old })
    (hcnt : t.cnt = successor old) (hlog : t.log = s.log) :
    pending s = old ::ₘ pending t ∧ counter t = ⟨successor old, pending t, taken s⟩ := by
  have hpending := pending_put hi ht
  have htaken := taken_put hi ht
  simp only [unstored, unprinted, hpc, add_zero, printed, hlog] at hpending htaken
  constructor
  · rw [← hpending, add_comm, Multiset.singleton_add]
  · rw [counter, hcnt, add_right_cancel htaken]

end Put

def loads : Event → Bool
  | .load _ => true
  | _ => false

/-- Every step of the driver is a step of a load-store counter, and the counter is loaded
by the load steps only. -/
theorem step_access {s t : State L} {e : Event} (h : Step K s e t) :
    Access successor (counter s) (counter t) ∧
      taken t = (if loads e then s.cnt ::ₘ taken s else taken s) := by
  have idle (heq : counter t = counter s) : Access successor (counter s) (counter t) ∧
      taken t = taken s := ⟨heq ▸ .idle _, congrArg Counter.taken heq⟩
  cases h with
  | write buf =>
    apply idle
    simp [counter, pending, taken, printed, unstored, unprinted]
  | fault i c ret hi hpc | copy i c hi hpc | acquire i c l hi hpc =>
    exact idle (counter_eq hi rfl rfl (by simp [unstored, hpc]) (by simp [unprinted, hpc]; rfl))
  | load i c k hi hpc =>
    have hload := counter_load (t := s.put i { c with pc := .loaded k s.cnt }) hi hpc rfl rfl rfl
    rw [hload]
    exact ⟨.load (counter s), congrArg Counter.taken hload⟩
  | store i c k old hi hpc =>
    obtain ⟨hpending, hstore⟩ := counter_store
      (t := { s.put i { c with pc := .stored k old } with cnt := old + 1 }) hi hpc rfl rfl rfl
    rw [hstore]
    exact ⟨.store (counter s) old _ hpending, congrArg Counter.taken hstore⟩
  | print i c k old hi hpc =>
    refine idle (counter_eq hi rfl rfl (by simp [unstored, hpc]) ?_)
    simp [unprinted, hpc, printed, ← Multiset.coe_add]
  | release i c k hi hpc =>
    exact idle (counter_eq hi rfl rfl (by simp [unstored, hpc]) (by simp [unprinted, hpc]; rfl))

def between (c : Call) : Bool :=
  match c.pc with
  | .loaded _ _ => true
  | _ => false

/-- A call loads `cnt` only while no call is between its load and its store. -/
def Apart (s : State L) (e : Event) : Prop := loads e → ∀ c ∈ s.calls, ¬ between c

instance (s : State L) (e : Event) : Decidable (Apart s e) := inferInstanceAs (Decidable (_ → _))

theorem unstored_eq_zero {c : Call} : unstored c = 0 ↔ ¬ between c := by
  unfold unstored between
  split <;> simp

theorem pending_eq_zero {s : State L} : pending s = 0 ↔ ∀ c ∈ s.calls, ¬ between c := by
  rw [pending, List.sum_eq_zero_iff, List.forall_mem_map]
  exact forall₂_congr fun c _ => unstored_eq_zero

theorem alone_iff {s t : State L} {e : Event} (h : Step K s e t) :
    Alone (counter s) (counter t) ↔ Apart s e := by
  have htaken := (step_access h).2
  have hchange : taken s ≠ taken t ↔ loads e := by
    cases he : loads e with
    | true =>
      rw [htaken, he, if_pos rfl]
      exact iff_of_true (ne_of_lt (Multiset.lt_cons_self _ _)) rfl
    | false =>
      rw [htaken, he, if_neg (by simp)]
      simp
  exact imp_congr hchange pending_eq_zero

theorem trace_counted {es : List Event} {s : State L} (h : (lockedWrite K).Trace es s) :
    Counted successor 0 (counter s) :=
  h.invariant (I := fun s => Counted successor 0 (counter s)) counted_initial
    fun hI hstep => hI.step (step_access (step_sound hstep)).1

theorem card_taken {es : List Event} {s : State L} (h : (lockedWrite K).Trace es s) :
    (taken s).card = es.countP loads := by
  induction h with
  | nil => rfl
  | @snoc es s e t hs hstep ih =>
    rw [(step_access (step_sound hstep)).2, List.countP_append, List.countP_singleton]
    cases loads e <;> simp [ih]

theorem trace_exact {es : List Event} {s : State L} (h : (lockedWrite K).Trace es s)
    (hapart : (lockedWrite K).EachStep Apart es) : Exact successor 0 (counter s) := by
  refine h.invariant_eachStep (I := fun s => Exact successor 0 (counter s)) hapart exact_initial ?_
  intro s e t hC hI hstep
  have haccess := (step_access (step_sound hstep)).1
  exact hI.step haccess ((alone_iff (step_sound hstep)).mpr hC)

theorem apart_of_nodup {es : List Event} {s : State L} (h : (lockedWrite K).Trace es s)
    (hnodup : (taken s).Nodup) : (lockedWrite K).EachStep Apart es := by
  induction h with
  | nil =>
    intro pre e u hpre
    simp at hpre
  | snoc hs hstep ih =>
    have haccess := (step_access (step_sound hstep)).1
    have hearlier := ih (Multiset.nodup_of_le haccess.taken_le hnodup)
    have halone := (trace_exact hs hearlier).alone_of_nodup (trace_counted hs) haccess hnodup
    exact hearlier.snoc hs ((alone_iff (step_sound hstep)).mp halone)

def lines (c : Call) : ℕ :=
  match c.pc with
  | .looping k | .loaded k _ | .stored k _ => k
  | .done => 3
  | _ => 0

def Within (c : Call) : Prop :=
  match c.pc with
  | .looping k => k ≤ 3
  | .loaded k _ | .stored k _ => k < 3
  | _ => True

structure Lined (s : State L) : Prop where
  within : ∀ c ∈ s.calls, Within c
  total : s.log.length = (s.calls.map lines).sum

theorem lined_put {s t : State L} {i : ℕ} {c d : Call} (h : Lined s) (hi : s.calls[i]? = some c)
    (ht : t.calls = s.calls.set i d) (hd : Within d)
    (hlog : t.log.length + lines c = s.log.length + lines d) : Lined t := by
  constructor
  · intro e he
    rw [ht] at he
    rcases List.mem_or_eq_of_mem_set he with he | rfl
    · exact h.within e he
    · exact hd
  · have hset := sum_set_add (b := d) lines hi
    have htotal := h.total
    rw [ht]
    omega

theorem lined_step {s t : State L} {e : Event} (h : Lined s) (hstep : Step K s e t) :
    Lined t := by
  have hwithin {i c} (hi : s.calls[i]? = some c) : Within c :=
    h.within c (List.mem_of_getElem? hi)
  cases hstep with
  | write buf =>
    constructor
    · intro c hc
      rcases List.mem_append.mp hc with hc | hc
      · exact h.within c hc
      · obtain rfl := List.mem_singleton.mp hc
        trivial
    · simpa [lines] using h.total
  | fault i c ret hi hpc => exact lined_put h hi rfl trivial (by simp [State.put, lines, hpc])
  | copy i c hi hpc => exact lined_put h hi rfl trivial (by simp [State.put, lines, hpc])
  | acquire i c l hi hpc =>
    exact lined_put h hi rfl (Nat.zero_le 3) (by simp [State.put, lines, hpc])
  | load i c k hi hpc hk => exact lined_put h hi rfl hk (by simp [State.put, lines, hpc])
  | store i c k old hi hpc =>
    have hk := hwithin hi
    simp only [Within, hpc] at hk
    exact lined_put h hi rfl hk (by simp [State.put, lines, hpc])
  | print i c k old hi hpc =>
    have hk := hwithin hi
    simp only [Within, hpc] at hk
    exact lined_put h hi rfl (Nat.succ_le_of_lt hk) (by simp [lines, hpc]; omega)
  | release i c k hi hpc hk =>
    have hle := hwithin hi
    simp only [Within, hpc] at hle
    exact lined_put h hi rfl trivial (by simp [State.put, lines, hpc]; omega)

theorem trace_lined {es : List Event} {s : State L} (h : (lockedWrite K).Trace es s) : Lined s :=
  h.invariant ⟨by simp [lockedWrite, myMiscInit], rfl⟩
    fun hI hstep => lined_step hI (step_sound hstep)

def returned (s : State L) : ℕ := s.calls.countP fun c => c.rc = some (c.count : ℤ)

theorem lines_of_outside {c : Call} (h : ¬ c.inside) :
    lines c = if c.rc = some (c.count : ℤ) then 3 else 0 := by
  cases hpc : c.pc <;> simp [Call.inside, hpc] at h <;> simp [lines, Call.rc, hpc, EFAULT]

theorem length_log_idle {s : State L} (h : Lined s) (hidle : ∀ c ∈ s.calls, ¬ c.inside) :
    s.log.length = 3 * returned s := by
  rw [h.total, returned]
  exact sum_eq_mul_countP fun c hc => by simpa using lines_of_outside (hidle c hc)

theorem taken_idle {s : State L} (hidle : ∀ c ∈ s.calls, ¬ c.inside) :
    taken s = ↑(printed s) := by
  have hzero : ∀ c ∈ s.calls, unprinted c = 0 := by
    intro c hc
    have hout := hidle c hc
    cases hpc : c.pc <;> simp [Call.inside, hpc] at hout <;> simp [unprinted, hpc]
  have hsum : (s.calls.map unprinted).sum = 0 :=
    List.sum_eq_zero_iff.mpr (List.forall_mem_map.mpr hzero)
  rw [taken, hsum, add_zero]

/-- The counter law of a run, with `n` callers admitted at once. -/
structure CounterLaw (K : Lock L) (n : ℕ) (es : List Event) (s : State L) : Prop where
  admitted : holders s ≤ n
  counted : ∀ v ∈ printed s, ∃ k < es.countP loads, v = BitVec.ofNat 32 k
  distinct : (lockedWrite K).EachStep Apart es → es.countP loads ≤ 2 ^ 32 → (printed s).Nodup
  complete : (lockedWrite K).EachStep Apart es → (∀ c ∈ s.calls, ¬ c.inside) →
    (printed s).Perm ((List.range (3 * returned s)).map (BitVec.ofNat 32))
  apart : (∀ c ∈ s.calls, ¬ c.inside) → (printed s).Nodup → (lockedWrite K).EachStep Apart es

theorem counter_law {es : List Event} {s : State L} (h : (lockedWrite K).Trace es s) :
    CounterLaw K (K.free K.init) es s := by
  have hcard := card_taken h
  have hprinted : (printed s : Multiset (BitVec 32)) ≤ taken s := Multiset.le_add_right _ _
  constructor
  · have hcap := (trace_accounted h).capacity
    omega
  · intro v hv
    obtain ⟨k, hk, hvk⟩ := (trace_counted h).taken v (Multiset.mem_of_le hprinted hv)
    exact ⟨k, hcard ▸ hk, hvk.trans (iterate_successor k)⟩
  · intro hapart hsmall
    have hinj : Set.InjOn (successor^[·] 0) {k | k < (counter s).taken.card} := by
      intro i hi j hj heq
      have hi : i < 2 ^ 32 := lt_of_lt_of_le hi (hcard ▸ hsmall)
      have hj : j < 2 ^ 32 := lt_of_lt_of_le hj (hcard ▸ hsmall)
      simp only [iterate_successor] at heq
      have hnat := congrArg BitVec.toNat heq
      rwa [BitVec.toNat_ofNat, BitVec.toNat_ofNat, Nat.mod_eq_of_lt hi, Nat.mod_eq_of_lt hj] at hnat
    exact Multiset.coe_nodup.mp (Multiset.nodup_of_le hprinted ((trace_exact h hapart).nodup hinj))
  · intro hapart hidle
    have hexact := (trace_exact h hapart).taken
    have htaken : (counter s).taken = ↑(printed s) := taken_idle hidle
    have hlength : (printed s).length = 3 * returned s := by
      rw [printed, List.length_map]
      exact length_log_idle (trace_lined h) hidle
    rw [htaken, Multiset.coe_card, hlength] at hexact
    simp only [iterate_successor] at hexact
    exact Multiset.coe_eq_coe.mp hexact
  · intro hidle hnodup
    apply apart_of_nodup h
    rw [taken_idle hidle]
    exact Multiset.coe_nodup.mpr hnodup

/-- A lock with one holder keeps the loads apart in every run, as `sema_init(.., 1)` would. -/
theorem apart_of_one (hK : K.free K.init = 1) {es : List Event} {s : State L}
    (h : (lockedWrite K).Trace es s) : (lockedWrite K).EachStep Apart es := by
  rintro pre e u ⟨rest, rfl⟩ hu hload c hc hbetween
  rw [List.append_assoc, List.singleton_append] at h
  obtain ⟨p, q, hp, hstep, -⟩ := h.split_at
  obtain rfl := hp.functional hu
  have hcap := (trace_accounted hp).capacity
  cases step_sound hstep with
  | load i d k hi hpc =>
    obtain ⟨j, hj⟩ := List.mem_iff_getElem?.mp hc
    have hc : c.inside := by
      unfold between at hbetween
      split at hbetween
      · rename_i hpc
        simp [Call.inside, hpc]
      · cases hbetween
    have heq : j = i := eq_of_countP_le_one (show holders p ≤ 1 by omega) hj hi hc
      (by simp [Call.inside, hpc])
    subst heq
    obtain rfl := Option.some.inj (hi.symm.trans hj)
    simp [between, hpc] at hbetween
  | _ => cases hload

theorem semaphore_counter {es : List Event} {s : State ℕ} (h : semaphoreWrite.Trace es s) :
    CounterLaw (semaphore 2) 2 es s := counter_law h

/-- Two callers inside at once, whose loads and stores do not overlap. -/
def takenInTurn : List Event :=
  [.write [97], .write [98], .copy 0 0, .copy 1 0, .acquire 0, .acquire 1,
    .load 0, .store 0, .load 1, .store 1, .print 1, .load 1, .store 1, .print 0,
    .load 0, .store 0, .print 1, .print 0, .load 1, .store 1, .print 1, .release 1,
    .load 0, .store 0, .print 0, .release 0]

theorem semaphore_counter_takenInTurn :
    CounterLaw (semaphore 2) 2 takenInTurn
      ⟨2, 6, [(1, [98]), (0, [97]), (2, [98]), (3, [97]), (4, [98]), (5, [97])],
        [⟨[97], [97, 0], .done⟩, ⟨[98], [98, 0], .done⟩]⟩ :=
  semaphore_counter (System.trace_of_run (by decide))

/-- Both callers load 0. -/
def loadedTwice : List Event :=
  [.write [97], .write [98], .copy 0 0, .copy 1 0, .acquire 0, .acquire 1,
    .load 0, .load 1, .store 0, .store 1, .print 0, .print 1,
    .load 0, .store 0, .print 0, .load 0, .store 0, .print 0, .release 0,
    .load 1, .store 1, .print 1, .load 1, .store 1, .print 1, .release 1]

theorem increment_lost :
    ¬ ∀ es s, semaphoreWrite.Trace es s → (printed s).Nodup ∧
      ((∀ c ∈ s.calls, ¬ c.inside) →
        (printed s).Perm ((List.range (3 * returned s)).map (BitVec.ofNat 32))) := by
  intro h
  have hrun : semaphoreWrite.Trace loadedTwice
      ⟨2, 5, [(0, [97]), (0, [98]), (1, [97]), (2, [97]), (3, [98]), (4, [98])],
        [⟨[97], [97, 0], .done⟩, ⟨[98], [98, 0], .done⟩]⟩ := System.trace_of_run (by decide)
  exact absurd (h _ _ hrun).1 (by decide)

/-- The call has come through `down` and has lines left to print. -/
def printing (c : Call) : Bool := c.inside && lines c < 3

/-- The lock's places are taken by the callers inside, in every state and for any number of
calls, and those that return an error never touch it. -/
structure CapacityLaw (K : Lock L) (n : ℕ) (es : List Event) (s : State L) : Prop where
  places : K.free s.lock + holders s = n
  writers : s.calls.countP printing ≤ n
  refused : ∀ (i : ℕ) (c : Call), s.calls[i]? = some c → c.rc = some (-EFAULT) →
    ∀ pre e post p q, es = pre ++ e :: post → e.caller = some i →
      (lockedWrite K).Trace pre p → step K p e = some q → q.lock = p.lock
  restored : (∀ c ∈ s.calls, c.rc.isSome) → K.free s.lock = n

theorem outside_of_returned {c : Call} (h : c.rc.isSome) : ¬ c.inside := by
  unfold Call.rc at h
  split at h
  case h_1 hpc => simp [Call.inside, hpc]
  case h_2 hpc => simp [Call.inside, hpc]
  case h_3 => cases h

theorem printing_le_holders (s : State L) : s.calls.countP printing ≤ holders s :=
  List.countP_mono_left fun _ _ hc => (Bool.and_eq_true_iff.mp hc).1

theorem capacity_law {es : List Event} {s : State L} (h : (lockedWrite K).Trace es s) :
    CapacityLaw K (K.free K.init) es s := by
  have hcap := (trace_accounted h).capacity
  have hprinting := printing_le_holders s
  constructor
  · exact hcap
  · omega
  · rintro i c hi hrc pre e post p q rfl he hp hstep
    exact (refused_untouched h hi (pc_of_rc_fault hrc) he hp hstep).1
  · intro hdone
    have hnone : holders s = 0 :=
      List.countP_eq_zero.mpr fun _ hc => outside_of_returned (hdone _ hc)
    omega

theorem semaphore_capacity {es : List Event} {s : State ℕ} (h : semaphoreWrite.Trace es s) :
    CapacityLaw (semaphore 2) 2 es s := capacity_law h

/-- Two writers inside, a third one refused while they print. -/
theorem semaphore_capacity_full : CapacityLaw (semaphore 2) 2
    [.write [97], .write [98], .write [99], .copy 0 0, .copy 1 0, .acquire 0, .load 0, .acquire 1,
      .copy 2 1, .store 0]
    ⟨0, 1, [], [⟨[97], [97, 0], .stored 0 0⟩, ⟨[98], [98, 0], .looping 0⟩, ⟨[99], [], .fault⟩]⟩ :=
  semaphore_capacity (System.trace_of_run (by decide))

end SyncSemaphore
