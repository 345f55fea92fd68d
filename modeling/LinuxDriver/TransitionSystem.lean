import Mathlib.Data.List.Induction

/-!
# Executable transition systems

A step function answers `none` where an event is blocked. Runs are finite lists of
events from one initial state; every interleaving of concurrent activities is one
such list. Guards live in the step function only, so that replaying a list and
proving an invariant use the same definition.
-/
namespace TransitionSystem

structure System (σ ε : Type*) where
  initial : σ
  step : σ → ε → Option σ

variable {σ τ ε δ β : Type*}

namespace System

def runFrom (M : System σ ε) (s : σ) : List ε → Option σ
  | [] => some s
  | e :: es => (M.step s e).bind fun t => M.runFrom t es

def run (M : System σ ε) (es : List ε) : Option σ := M.runFrom M.initial es

def Path (M : System σ ε) (s : σ) (es : List ε) (t : σ) : Prop := M.runFrom s es = some t

/-- The runs of the system, with the last event exposed. -/
inductive Trace (M : System σ ε) : List ε → σ → Prop where
  | nil : Trace M [] M.initial
  | snoc {es s e t} : Trace M es s → M.step s e = some t → Trace M (es ++ [e]) t

variable {M : System σ ε}

theorem runFrom_append (s : σ) (xs ys : List ε) :
    M.runFrom s (xs ++ ys) = (M.runFrom s xs).bind fun t => M.runFrom t ys := by
  induction xs generalizing s with
  | nil => rfl
  | cons e xs ih =>
    cases h : M.step s e with
    | none => simp [runFrom, h]
    | some t => simpa [runFrom, h] using ih t

theorem path_nil {s t : σ} : M.Path s [] t ↔ s = t := by simp [Path, runFrom]

theorem path_cons {s t : σ} {e : ε} {es : List ε} :
    M.Path s (e :: es) t ↔ ∃ u, M.step s e = some u ∧ M.Path u es t := by
  simp [Path, runFrom, Option.bind_eq_some_iff]

theorem path_append {s t : σ} {xs ys : List ε} :
    M.Path s (xs ++ ys) t ↔ ∃ u, M.Path s xs u ∧ M.Path u ys t := by
  simp [Path, runFrom_append, Option.bind_eq_some_iff]

theorem path_single {s t : σ} {e : ε} : M.Path s [e] t ↔ M.step s e = some t := by
  simp [path_cons, path_nil]

theorem trace_iff_path {es : List ε} {s : σ} : M.Trace es s ↔ M.Path M.initial es s := by
  constructor
  · intro h
    induction h with
    | nil => exact path_nil.mpr rfl
    | snoc _ hstep ih => exact path_append.mpr ⟨_, ih, path_single.mpr hstep⟩
  · intro h
    induction es using List.reverseRecOn generalizing s with
    | nil => exact path_nil.mp h ▸ .nil
    | append_singleton es e ih =>
      obtain ⟨u, hu, hstep⟩ := path_append.mp h
      exact .snoc (ih hu) (path_single.mp hstep)

theorem trace_of_run {es : List ε} {s : σ} (h : M.run es = some s) : M.Trace es s :=
  trace_iff_path.mpr h

theorem Trace.append {xs ys : List ε} {s t : σ} (h : M.Trace xs s) (k : M.Path s ys t) :
    M.Trace (xs ++ ys) t :=
  trace_iff_path.mpr (path_append.mpr ⟨s, trace_iff_path.mp h, k⟩)

theorem Trace.split {xs ys : List ε} {t : σ} (h : M.Trace (xs ++ ys) t) :
    ∃ s, M.Trace xs s ∧ M.Path s ys t := by
  obtain ⟨s, hs, ht⟩ := path_append.mp (trace_iff_path.mp h)
  exact ⟨s, trace_iff_path.mpr hs, ht⟩

theorem Trace.functional {es : List ε} {s t : σ} (h : M.Trace es s) (k : M.Trace es t) :
    s = t :=
  Option.some.inj ((trace_iff_path.mp h).symm.trans (trace_iff_path.mp k))

theorem Trace.split_at {xs ys : List ε} {e : ε} {t : σ} (h : M.Trace (xs ++ e :: ys) t) :
    ∃ s u, M.Trace xs s ∧ M.step s e = some u ∧ M.Trace (xs ++ [e]) u ∧ M.Path u ys t := by
  obtain ⟨s, hs, ht⟩ := h.split
  obtain ⟨u, hu, ht⟩ := path_cons.mp ht
  exact ⟨s, u, hs, hu, .snoc hs hu, ht⟩

theorem Trace.invariant {I : σ → Prop} {es : List ε} {s : σ} (h : M.Trace es s)
    (init : I M.initial) (step : ∀ {s e t}, I s → M.step s e = some t → I t) : I s := by
  induction h with
  | nil => exact init
  | snoc _ hstep ih => exact step ih hstep

theorem Path.stable {I : σ → Prop} {es : List ε} {s t : σ} (h : M.Path s es t)
    (hs : I s) (step : ∀ {s e t}, I s → M.step s e = some t → I t) : I t := by
  induction es generalizing s with
  | nil => exact path_nil.mp h ▸ hs
  | cons e es ih =>
    obtain ⟨u, hu, ht⟩ := path_cons.mp h
    exact ih ht (step hs hu)

theorem Path.stable_on {E : ε → Prop} {I : σ → Prop} {es : List ε} {s t : σ}
    (h : M.Path s es t) (hE : ∀ e ∈ es, E e) (hs : I s)
    (step : ∀ {s e t}, E e → I s → M.step s e = some t → I t) : I t := by
  induction es generalizing s with
  | nil => exact path_nil.mp h ▸ hs
  | cons e es ih =>
    obtain ⟨u, hu, ht⟩ := path_cons.mp h
    have hIu : I u := step (hE e List.mem_cons_self) hs hu
    exact ih ht (fun d hd => hE d (List.mem_cons_of_mem e hd)) hIu

theorem Path.invariant_along {B I : σ → Prop} {es : List ε} {s t : σ} (h : M.Path s es t)
    (hB : ∀ pre u, pre <+: es → M.Path s pre u → B u) (hs : I s)
    (step : ∀ {s e t}, B s → B t → I s → M.step s e = some t → I t) : I t := by
  induction es generalizing s with
  | nil => exact path_nil.mp h ▸ hs
  | cons e es ih =>
    obtain ⟨u, hu, ht⟩ := path_cons.mp h
    have hBs : B s := hB [] s List.nil_prefix (path_nil.mpr rfl)
    have hBu {pre : List ε} {v : σ} (hpre : pre <+: es) (hv : M.Path u pre v) : B v :=
      hB (e :: pre) v (List.prefix_cons_inj e |>.mpr hpre) (path_cons.mpr ⟨u, hu, hv⟩)
    exact ih ht (fun pre v => hBu) (step hBs (hBu List.nil_prefix (path_nil.mpr rfl)) hs hu)

/-- The first step at which a predicate stops to hold. -/
theorem Path.exists_change {P : σ → Prop} {es : List ε} {s t : σ} (h : M.Path s es t)
    (hs : P s) (ht : ¬ P t) :
    ∃ xs e ys u w, es = xs ++ e :: ys ∧ M.Path s xs u ∧ P u ∧ M.step u e = some w ∧ ¬ P w := by
  induction es generalizing s with
  | nil => exact absurd (path_nil.mp h ▸ hs) ht
  | cons e es ih =>
    obtain ⟨u, hu, hpath⟩ := path_cons.mp h
    by_cases hPu : P u
    · obtain ⟨xs, d, ys, v, w, rfl, hv, hrest⟩ := ih hpath hPu
      exact ⟨e :: xs, d, ys, v, w, rfl, path_cons.mpr ⟨u, hu, hv⟩, hrest⟩
    · exact ⟨[], e, es, s, u, rfl, path_nil.mpr rfl, hs, hu, hPu⟩

def Throughout (M : System σ ε) (P : σ → Prop) (es : List ε) : Prop :=
  ∀ pre s, pre <+: es → M.Trace pre s → P s

/-- Every step of the run satisfies the condition on its event and the state before it. -/
def EachStep (M : System σ ε) (C : σ → ε → Prop) (es : List ε) : Prop :=
  ∀ pre e s, pre ++ [e] <+: es → M.Trace pre s → C s e

theorem Throughout.mono {P : σ → Prop} {xs es : List ε} (h : M.Throughout P es)
    (hp : xs <+: es) : M.Throughout P xs :=
  fun pre s hpre hs => h pre s (hpre.trans hp) hs

theorem Throughout.last {P : σ → Prop} {es : List ε} {s : σ} (h : M.Throughout P es)
    (hs : M.Trace es s) : P s := h es s (List.prefix_refl es) hs

theorem EachStep.mono {C : σ → ε → Prop} {xs es : List ε} (h : M.EachStep C es)
    (hp : xs <+: es) : M.EachStep C xs :=
  fun pre e s hpre hs => h pre e s (hpre.trans hp) hs

theorem EachStep.last {C : σ → ε → Prop} {es : List ε} {e : ε} {s : σ}
    (h : M.EachStep C (es ++ [e])) (hs : M.Trace es s) : C s e :=
  h es e s (List.prefix_refl _) hs

theorem EachStep.snoc {C : σ → ε → Prop} {es : List ε} {s : σ} {e : ε} (h : M.EachStep C es)
    (hs : M.Trace es s) (he : C s e) : M.EachStep C (es ++ [e]) := by
  intro pre d u hpre hu
  rcases List.prefix_concat_iff.mp hpre with heq | hpre
  · obtain ⟨rfl, hd⟩ := List.append_inj' heq rfl
    obtain rfl := List.singleton_inj.mp hd
    obtain rfl := hs.functional hu
    exact he
  · exact h pre d u hpre hu

theorem Trace.eachStep_congr {C D : σ → ε → Prop} {es : List ε} {s : σ} (h : M.Trace es s)
    (hCD : ∀ {es s e t}, M.Trace es s → M.step s e = some t → (C s e ↔ D s e)) :
    M.EachStep C es ↔ M.EachStep D es := by
  have hsame (pre : List ε) (e : ε) (u : σ) (hpre : pre ++ [e] <+: es) (hu : M.Trace pre u) :
      C u e ↔ D u e := by
    obtain ⟨rest, rfl⟩ := hpre
    obtain ⟨v, w, hv, hstep, -⟩ := (show M.Trace (pre ++ e :: rest) s by simpa using h).split_at
    obtain rfl := hv.functional hu
    exact hCD hv hstep
  constructor
  · intro hC pre e u hpre hu
    exact (hsame pre e u hpre hu).mp (hC pre e u hpre hu)
  · intro hD pre e u hpre hu
    exact (hsame pre e u hpre hu).mpr (hD pre e u hpre hu)

theorem Trace.invariant_throughout {B I : σ → Prop} {es : List ε} {s : σ}
    (h : M.Trace es s) (hB : M.Throughout B es) (init : I M.initial)
    (step : ∀ {s e t}, B s → B t → I s → M.step s e = some t → I t) : I s := by
  induction h with
  | nil => exact init
  | snoc hs hstep ih =>
    have hpre := hB.mono (List.prefix_append _ _)
    exact step (hpre.last hs) (hB.last (.snoc hs hstep)) (ih hpre) hstep

/-- The invariant rule for runs whose steps all satisfy a condition. -/
theorem Trace.invariant_eachStep {C : σ → ε → Prop} {I : σ → Prop} {es : List ε} {s : σ}
    (h : M.Trace es s) (hC : M.EachStep C es) (init : I M.initial)
    (step : ∀ {s e t}, C s e → I s → M.step s e = some t → I t) : I s := by
  induction h with
  | nil => exact init
  | snoc hs hstep ih =>
    exact step (hC.last hs) (ih (hC.mono (List.prefix_append _ _))) hstep

theorem EachStep.throughout {C : σ → ε → Prop} {I : σ → Prop} {es : List ε}
    (hC : M.EachStep C es) (init : I M.initial)
    (step : ∀ {s e t}, C s e → I s → M.step s e = some t → I t) : M.Throughout I es :=
  fun _ _ hpre hs => hs.invariant_eachStep (hC.mono hpre) init step

theorem Trace.eachStep_of_throughout {C : σ → ε → Prop} {I : σ → Prop} {es : List ε} {s : σ}
    (h : M.Trace es s) (hI : M.Throughout I es)
    (step : ∀ {es s e t}, M.Trace es s → I s → M.step s e = some t → I t → C s e) :
    M.EachStep C es := by
  rintro pre e u ⟨rest, rfl⟩ hu
  rw [List.append_assoc] at h
  obtain ⟨v, t, hv, hstep, ht, -⟩ := h.split_at
  obtain rfl := hu.functional hv
  have hpre : pre ++ [e] <+: pre ++ [e] ++ rest := List.prefix_append _ _
  exact step hu (hI pre u ((List.prefix_append pre [e]).trans hpre) hu) hstep (hI _ t hpre ht)

/-- Replays the events and tests the condition at each of them. -/
def checkFrom (M : System σ ε) (C : σ → ε → Prop) [∀ s e, Decidable (C s e)] (s : σ) :
    List ε → Bool
  | [] => true
  | e :: es => decide (C s e) && (match M.step s e with
    | some t => M.checkFrom C t es
    | none => true)

theorem Path.of_checkFrom {C : σ → ε → Prop} [∀ s e, Decidable (C s e)] {xs : List ε}
    {e : ε} {s t : σ} (h : M.Path s xs t) (ys : List ε)
    (hc : M.checkFrom C s (xs ++ e :: ys)) : C t e := by
  induction xs generalizing s with
  | nil =>
    obtain rfl := path_nil.mp h
    exact of_decide_eq_true (Bool.and_eq_true_iff.mp hc).1
  | cons x xs ih =>
    obtain ⟨u, hu, ht⟩ := path_cons.mp h
    have hrest := (Bool.and_eq_true_iff.mp hc).2
    simp only [hu] at hrest
    exact ih ht hrest

theorem eachStep_of_check {C : σ → ε → Prop} [∀ s e, Decidable (C s e)] {es : List ε}
    (h : M.checkFrom C M.initial es) : M.EachStep C es := by
  rintro pre e s ⟨rest, rfl⟩ hs
  exact (trace_iff_path.mp hs).of_checkFrom rest (by simpa using h)

theorem throughout_of_eachStep {P : σ → Prop} {es : List ε} {s : σ}
    (h : M.EachStep (fun u _ => P u) es) (hs : M.Trace es s) (hend : P s) :
    M.Throughout P es := by
  rintro pre u ⟨rest, rfl⟩ hu
  cases rest with
  | nil => exact (List.append_nil pre ▸ hs).functional hu ▸ hend
  | cons e rest => exact h pre e u ⟨rest, by simp⟩ hu

def observeFrom (M : System σ ε) (f : σ → ε → List β) (s : σ) : List ε → List β
  | [] => []
  | e :: es => f s e ++ (match M.step s e with
    | some t => M.observeFrom f t es
    | none => [])

/-- What a run did is read off its steps, outside the state. -/
def observe (M : System σ ε) (f : σ → ε → List β) (es : List ε) : List β :=
  M.observeFrom f M.initial es

theorem Path.observeFrom_append {f : σ → ε → List β} {xs : List ε} {s t : σ}
    (h : M.Path s xs t) (ys : List ε) :
    M.observeFrom f s (xs ++ ys) = M.observeFrom f s xs ++ M.observeFrom f t ys := by
  induction xs generalizing s with
  | nil => rw [path_nil.mp h]; rfl
  | cons e xs ih =>
    obtain ⟨u, hu, ht⟩ := path_cons.mp h
    simp only [List.cons_append, observeFrom, hu, ih ht, List.append_assoc]

theorem Trace.observe_snoc {f : σ → ε → List β} {es : List ε} {s : σ} (h : M.Trace es s)
    (e : ε) : M.observe f (es ++ [e]) = M.observe f es ++ f s e := by
  have hp := (trace_iff_path.mp h).observeFrom_append (f := f) [e]
  have hone : M.observeFrom f s [e] = f s e := by
    simp only [observeFrom]
    split <;> simp
  exact hp.trans (by rw [hone]; rfl)

/-- The invariant rule for a relation between what has been observed and the state. -/
theorem Trace.invariant_observed {f : σ → ε → List β} {I : List β → σ → Prop}
    {es : List ε} {s : σ} (h : M.Trace es s) (init : I [] M.initial)
    (step : ∀ {es s e t}, M.Trace es s → I (M.observe f es) s → M.step s e = some t →
      I (M.observe f es ++ f s e) t) : I (M.observe f es) s := by
  induction h with
  | nil => exact init
  | snoc hs hstep ih =>
    rw [hs.observe_snoc]
    exact step hs ih hstep

/-- Forward simulation: where the concrete run satisfies `B` throughout, the labels of its
steps form a run of the abstract system that ends in a related state. -/
theorem Trace.simulate {C : System σ ε} {A : System τ δ} {R : σ → τ → Prop}
    {label : σ → ε → List δ} {B : σ → Prop} {es : List ε} {s : σ} (h : C.Trace es s)
    (hB : C.Throughout B es) (init : R C.initial A.initial)
    (step : ∀ {s e t a}, B s → B t → R s a → C.step s e = some t →
      ∃ b, A.Path a (label s e) b ∧ R t b) :
    ∃ a, A.Trace (C.observe label es) a ∧ R s a := by
  induction h with
  | nil => exact ⟨A.initial, .nil, init⟩
  | snoc hs hstep ih =>
    have hpre := hB.mono (List.prefix_append _ _)
    obtain ⟨a, ha, hR⟩ := ih hpre
    obtain ⟨b, hb, hR⟩ := step (hpre.last hs) (hB.last (.snoc hs hstep)) hR hstep
    rw [hs.observe_snoc]
    exact ⟨b, ha.append hb, hR⟩

end System

end TransitionSystem
