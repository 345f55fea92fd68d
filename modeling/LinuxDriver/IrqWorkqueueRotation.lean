import LinuxDriver.IrqWorkqueueConservation
import Mathlib.Algebra.Ring.Parity

/-!
# The rotating index against the items that are free

`irq_handler` moves on to the next item also where `queue_work` has refused. The worker frees
the items in the order in which they were queued, so that index and free item agree only
after a multiple of `NUM` refusals.
-/
namespace IrqWorkqueueRotation

open TransitionSystem CallPool InterruptLine IrqWorkqueue IrqWorkqueueLifecycle
  IrqWorkqueueConservation

/-- A call of `queue_work` that finds its item pending finds all of them pending. -/
def DropsOnlyWhenFull (s : State) (e : Event) : Prop :=
  e = .queueWork → ∀ t ∈ step s e, t.line.running = some (.queued false) →
    ∀ item ∈ s.t, item.pending

instance (s : State) (e : Event) : Decidable (DropsOnlyWhenFull s e) :=
  inferInstanceAs (Decidable (_ → _))

/-- What counts for the rotation: calls of `queue_work` that find every item pending, and the
moments at which the queue becomes empty. -/
inductive Mark where
  | full
  | emptied
  deriving DecidableEq, Repr

def marks (s : State) : Event → List Mark
  | .queueWork => if s.t.all Item.pending then [.full] else []
  | .take => if s.queue.length = 1 then [.emptied] else []
  | _ => []

def tally (n : ℕ) : Mark → ℕ
  | .full => n + 1
  | .emptied => 0

def overruns (es : List Event) : ℕ := (workqueueTest.observe marks es).foldl tally 0

/-- A call of `queue_work` that finds one of the two items pending comes after an even number
of calls that found both pending. -/
def InStep (es : List Event) : Prop :=
  ∀ pre s, pre ++ [.queueWork] <+: es → workqueueTest.Trace pre s → s.queue.length = 1 →
    Even (overruns pre)

structure Marked (s : State) : Prop where
  indexed : Indexed s
  once : s.queue.Nodup
  lt : ∀ k ∈ s.queue, k < NUM
  pending : ∀ (k : ℕ) (item : Item), s.t[k]? = some item → (item.pending ↔ k ∈ s.queue)

theorem queue_lt_step {s t : State} {e : Event} (hi : Indexed s) (h : ∀ k ∈ s.queue, k < NUM)
    (hstep : Step s e t) : ∀ k ∈ t.queue, k < NUM := by
  cases hstep with
  | accept item hr =>
    intro k hk
    rcases List.mem_append.mp hk with hk | hk
    · exact h k hk
    · obtain rfl := List.mem_singleton.mp hk
      exact hi.lt hr
  | take k rest item hw hq =>
    intro j hj
    exact h j (hq ▸ List.mem_cons_of_mem k hj)
  | _ => exact h

theorem trace_marked {es : List Event} {s : State} (h : workqueueTest.Trace es s) :
    Marked s := by
  obtain ⟨q, -, hqueue⟩ := refines_pendingQueue h
  have honce : s.queue.Nodup := hqueue.waiting ▸ q.nodup
  have hboth := h.invariant (I := fun s => Indexed s ∧ ∀ k ∈ s.queue, k < NUM)
    ⟨trace_indexed .nil, by simp [workqueueTest, initial]⟩
    fun hI hstep => ⟨indexed_step hI.1 (step_sound hstep),
      queue_lt_step hI.1 hI.2 (step_sound hstep)⟩
  exact ⟨hboth.1, honce, hboth.2, hqueue.pending⟩

theorem Marked.queue_cases {s : State} (h : Marked s) : s.queue = [] ∨
    (∃ k < NUM, s.queue = [k]) ∨ ∃ k < NUM, ∃ j < NUM, k ≠ j ∧ s.queue = [k, j] := by
  have honce := h.once
  have hlt := h.lt
  match hq : s.queue with
  | [] => exact .inl rfl
  | [k] =>
    rw [hq] at hlt
    exact .inr (.inl ⟨k, hlt k (by simp), rfl⟩)
  | [k, j] =>
    rw [hq] at hlt honce
    exact .inr (.inr ⟨k, hlt k (by simp), j, hlt j (by simp), by simpa using honce, rfl⟩)
  | k :: j :: l :: rest =>
    rw [hq] at hlt honce
    have hk := hlt k (by simp)
    have hj := hlt j (by simp)
    have hl := hlt l (by simp)
    simp only [List.nodup_cons, List.mem_cons, not_or, NUM] at honce hk hj hl
    omega

theorem Marked.all_pending_iff {s : State} (h : Marked s) :
    (∀ item ∈ s.t, item.pending) ↔ s.queue.length = NUM := by
  have hsize := h.indexed.size
  have hqueued : (∀ item ∈ s.t, item.pending) ↔ ∀ k < NUM, k ∈ s.queue := by
    constructor
    · intro hall k hk
      have hitem := List.getElem?_eq_getElem (hsize ▸ hk)
      exact (h.pending k _ hitem).mp (hall _ (List.mem_of_getElem? hitem))
    · intro hall item hmem
      obtain ⟨k, hk⟩ := List.mem_iff_getElem?.mp hmem
      exact (h.pending k item hk).mpr (hall k (hsize ▸ lt_length hk))
  rw [hqueued]
  rcases h.queue_cases with hq | ⟨k, hk, hq⟩ | ⟨k, hk, j, hj, hne, hq⟩
  · refine iff_of_false ?_ (by simp [hq, NUM])
    intro hall
    have hzero := hall 0 (by decide)
    simp [hq] at hzero
  · refine iff_of_false ?_ (by simp [hq, NUM])
    intro hall
    have hzero := hall 0 (by decide)
    have hone := hall 1 (by decide)
    rw [hq, List.mem_singleton] at hzero hone
    omega
  · refine iff_of_true ?_ (by simp [hq, NUM])
    intro l hl
    simp only [hq, List.mem_cons, List.not_mem_nil, or_false, NUM] at hk hj hl ⊢
    omega

/-- Two items wait in the order of the rotation, and one that waits alone is not the next. -/
def Aligned (n : ℕ) (s : State) : Prop :=
  match s.queue with
  | [] => n = 0
  | [k] => (s.i + n) % NUM ≠ k
  | k :: _ => (s.i + n) % NUM = k

theorem aligned_of_same {n : ℕ} {s t : State} (h : Aligned n s) (hq : t.queue = s.queue)
    (hi : t.i % NUM = s.i % NUM) : Aligned n t := by
  have hphase : (t.i + n) % NUM = (s.i + n) % NUM := by
    rw [Nat.add_mod, hi, ← Nat.add_mod]
  unfold Aligned at h ⊢
  rwa [hq, hphase]

theorem marks_queueWork {s : State} (h : Marked s) :
    marks s .queueWork = if s.queue.length = NUM then [.full] else [] := by
  have hiff : s.t.all Item.pending = true ↔ s.queue.length = NUM := by
    rw [List.all_eq_true]
    exact h.all_pending_iff
  simp only [marks, hiff]

theorem mem_iff_of_single {n k : ℕ} {s : State} (h : Aligned n s) (hq : s.queue = [k])
    (hi : s.i < NUM) (hk : k < NUM) : s.i ∈ s.queue ↔ ¬ Even n := by
  simp only [Aligned, hq, NUM] at h hi hk ⊢
  rw [List.mem_singleton, Nat.even_iff]
  omega

theorem aligned_reject {n : ℕ} {s t : State} (hM : Marked s) (h : Aligned n s)
    (hgood : s.queue.length = 1 → Even n) (hi : s.i < NUM) (hmem : s.i ∈ s.queue)
    (htq : t.queue = s.queue) (hti : t.i = s.i + 1) :
    Aligned ((marks s .queueWork).foldl tally n) t := by
  rcases hM.queue_cases with hq | ⟨k, hk, hq⟩ | ⟨k, hk, j, hj, hne, hq⟩
  · simp [hq] at hmem
  · exact absurd (hgood (by simp [hq])) ((mem_iff_of_single h hq hi hk).mp hmem)
  · rw [marks_queueWork hM, if_pos (by simp [hq, NUM])]
    simp only [Aligned, htq, hti, hq, NUM, List.foldl_cons, List.foldl_nil, tally] at h ⊢
    omega

theorem aligned_accept {n : ℕ} {s t : State} (hM : Marked s) (h : Aligned n s)
    (hgood : s.queue.length = 1 → Even n) (hi : s.i < NUM) (hmem : s.i ∉ s.queue)
    (htq : t.queue = s.queue ++ [s.i]) (hti : t.i = s.i + 1) :
    Aligned ((marks s .queueWork).foldl tally n) t := by
  rw [marks_queueWork hM]
  rcases hM.queue_cases with hq | ⟨k, hk, hq⟩ | ⟨k, hk, j, hj, hne, hq⟩
  · rw [if_neg (by simp [hq, NUM])]
    simp only [Aligned, htq, hti, hq, NUM, List.foldl_nil, List.nil_append] at h hi ⊢
    omega
  · have heven := Nat.even_iff.mp (hgood (by simp [hq]))
    rw [if_neg (by simp [hq, NUM])]
    simp only [Aligned, htq, hti, hq, NUM, List.foldl_nil, List.singleton_append,
      List.mem_singleton] at h hi hk hmem ⊢
    omega
  · simp only [hq, List.mem_cons, List.not_mem_nil, or_false, NUM] at hmem hi hk hj
    omega

theorem aligned_take {n k : ℕ} {rest : List ℕ} {s t : State} (hM : Marked s)
    (h : Aligned n s) (hq : s.queue = k :: rest) (htq : t.queue = rest) (hti : t.i = s.i) :
    Aligned ((marks s .take).foldl tally n) t := by
  rcases hM.queue_cases with hq' | ⟨l, hl, hq'⟩ | ⟨l, hl, j, hj, hne, hq'⟩
  · rw [hq] at hq'
    cases hq'
  · obtain ⟨rfl, rfl⟩ := List.cons.inj (hq.symm.trans hq')
    simp [Aligned, marks, htq, hq, tally]
  · obtain ⟨rfl, rfl⟩ := List.cons.inj (hq.symm.trans hq')
    simp only [Aligned, marks, htq, hti, hq, List.length_cons, List.length_nil] at h ⊢
    simpa [h] using hne

theorem aligned_step {n : ℕ} {s t : State} {e : Event} (hM : Marked s) (h : Aligned n s)
    (hgood : e = .queueWork → s.queue.length = 1 → Even n) (hstep : Step s e t) :
    Aligned ((marks s e).foldl tally n) t := by
  cases hstep with
  | reject item hr hi hp =>
    exact aligned_reject hM h (hgood rfl) (hM.indexed.lt hr) ((hM.pending _ _ hi).mp hp) rfl rfl
  | accept item hr hi hp =>
    have hfree : s.i ∉ s.queue := fun hmem => hp ((hM.pending _ _ hi).mpr hmem)
    exact aligned_accept hM h (hgood rfl) (hM.indexed.lt hr) hfree rfl rfl
  | take k rest item hw hq hk => exact aligned_take hM h hq rfl rfl
  | wrap hr =>
    refine aligned_of_same h rfl ?_
    change (if s.i = NUM then 0 else s.i) % NUM = s.i % NUM
    split
    case isTrue hi => rw [hi]; rfl
    case isFalse => rfl
  | _ => exact aligned_of_same h rfl rfl

/-- While index and queue are aligned, the parity of the overruns decides about a drop. -/
theorem drops_iff {n : ℕ} {s t : State} {e : Event} (hM : Marked s) (h : Aligned n s)
    (hstep : step s e = some t) :
    DropsOnlyWhenFull s e ↔ (e = .queueWork → s.queue.length = 1 → Even n) := by
  constructor
  · rintro hdrops rfl hone
    obtain ⟨k, hq⟩ := List.length_eq_one_iff.mp hone
    have hk : k < NUM := hM.lt k (by simp [hq])
    cases step_sound hstep with
    | reject item hr hi hp =>
      have hfull := hM.all_pending_iff.mp (hdrops rfl _ hstep rfl)
      rw [hone] at hfull
      cases hfull
    | accept item hr hi hp =>
      by_contra hodd
      have hmem := (mem_iff_of_single h hq (hM.indexed.lt hr) hk).mpr hodd
      exact hp ((hM.pending _ _ hi).mpr hmem)
  · rintro hgood rfl u hu hrun
    rw [hM.all_pending_iff]
    cases step_sound hu with
    | accept item hr hi hp =>
      simp at hrun
    | reject item hr hi hp =>
      have hmem := (hM.pending _ _ hi).mp hp
      rcases hM.queue_cases with hq | ⟨k, hk, hq⟩ | ⟨k, hk, j, hj, hne, hq⟩
      · simp [hq] at hmem
      · have hodd := (mem_iff_of_single h hq (hM.indexed.lt hr) hk).mp hmem
        exact absurd (hgood rfl (by simp [hq])) hodd
      · simp [hq, NUM]

theorem overruns_snoc {es : List Event} {s : State} (h : workqueueTest.Trace es s) (e : Event) :
    overruns (es ++ [e]) = (marks s e).foldl tally (overruns es) := by
  rw [overruns, h.observe_snoc, List.foldl_append, overruns]

theorem inStep_snoc {es : List Event} {s : State} (h : workqueueTest.Trace es s) (e : Event) :
    InStep (es ++ [e]) ↔
      InStep es ∧ (e = .queueWork → s.queue.length = 1 → Even (overruns es)) := by
  constructor
  · intro hin
    refine ⟨fun pre u hpre => hin pre u (hpre.trans (List.prefix_append _ _)), ?_⟩
    rintro rfl
    exact hin es s (List.prefix_refl _) h
  · rintro ⟨hin, hlast⟩ pre u hpre hu
    rcases List.prefix_concat_iff.mp hpre with heq | hpre
    · obtain ⟨rfl, he⟩ := List.append_inj' heq rfl
      obtain rfl := h.functional hu
      exact hlast (List.singleton_inj.mp he).symm
    · exact hin pre u hpre hu

theorem trace_aligned {es : List Event} {s : State} (h : workqueueTest.Trace es s)
    (hin : InStep es) : Aligned (overruns es) s := by
  induction h with
  | nil => rfl
  | snoc hs hstep ih =>
    obtain ⟨hin, hgood⟩ := (inStep_snoc hs _).mp hin
    rw [overruns_snoc hs]
    exact aligned_step (trace_marked hs) (ih hin) hgood (step_sound hstep)

/-- Events are dropped only when every item waits in exactly the runs that keep in step. -/
theorem drops_only_when_full_iff {es : List Event} {s : State} (h : workqueueTest.Trace es s) :
    workqueueTest.EachStep DropsOnlyWhenFull es ↔ InStep es := by
  induction h with
  | nil => exact iff_of_true (by simp [System.EachStep]) (by simp [InStep])
  | @snoc es s e t hs hstep ih =>
    have hpre : es <+: es ++ [e] := List.prefix_append _ _
    rw [inStep_snoc hs]
    constructor
    · intro hdrops
      have hin := ih.mp (hdrops.mono hpre)
      exact ⟨hin, (drops_iff (trace_marked hs) (trace_aligned hs hin) hstep).mp (hdrops.last hs)⟩
    · rintro ⟨hin, hgood⟩
      have hlast := (drops_iff (trace_marked hs) (trace_aligned hs hin) hstep).mpr hgood
      exact (ih.mpr hin).snoc hs hlast

def loading : List Event :=
  [.initWork, .initWork, .createWorkqueue true, .gpioRequest, .gpioDirectionInput, .requestIrq 0]

def interrupt : List Event := [.raise, .wrap, .queueWork, .handlerReturn]

theorem drops_only_when_full_twice : InStep (loading ++ interrupt ++ interrupt ++ interrupt ++
    interrupt ++ .take :: interrupt) := by
  have hrun : workqueueTest.Trace (loading ++ interrupt ++ interrupt ++ interrupt ++ interrupt ++
      .take :: interrupt) ⟨.loaded, ⟨some none, none⟩, .live, [⟨true, true⟩, ⟨true, true⟩], 1,
        [1, 0], some ⟨0, 0⟩, 0⟩ := System.trace_of_run (by decide)
  exact (drops_only_when_full_iff hrun).mp (System.eachStep_of_check (by decide))

/-- Both items wait and one more event is dropped. The worker takes `t[0]`, and the next event
tries `t[1]`, which still waits. -/
theorem dropped_beside_free_item :
    ¬ ∀ es s, workqueueTest.Trace es s → workqueueTest.EachStep DropsOnlyWhenFull es := by
  intro h
  have hbefore : workqueueTest.Trace (loading ++ interrupt ++ interrupt ++ interrupt ++
      [.take, .raise, .wrap]) ⟨.loaded, ⟨some none, some .wrapped⟩, .live,
        [⟨true, false⟩, ⟨true, true⟩], 1, [1], some ⟨0, 0⟩, 0⟩ := System.trace_of_run (by decide)
  have hafter := hbefore.snoc (e := .queueWork) rfl
  have hdrops := (h _ _ hafter).last hbefore
  exact absurd hdrops (by decide)

end IrqWorkqueueRotation
