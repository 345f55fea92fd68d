import LinuxDriver.TransitionSystem
import Mathlib.Data.Set.Lattice
import Mathlib.Order.CompletePartialOrder
import Mathlib.Logic.Function.Basic

/-!
# Modules that are loaded and unloaded in any order

The init of a module either fails or leaves behind what the globals of the module own, and its
exit gives this back in whatever state the other modules have brought about by then. Resources
can live inside others; nobody puts anything into what another module owns.
-/
namespace ModuleRuns

open TransitionSystem

/-- `κ` are the states of the kernel, `ω` what it answers to the calls of init and `γ` the globals
of the module. -/
structure Loadable (κ ω γ : Type) where
  init : ω → StateT κ Option (ℤ × γ)
  exit : γ → StateT κ Option Unit

/-- How the resources in use and the misuses are read off a state of the kernel. -/
structure Account (κ ρ : Type) where
  held : κ → Set ρ
  misuses : κ → ℕ
  parent : ρ → Option ρ
  Good : κ → Prop

variable {κ ρ : Type}

def Account.Closed (A : Account κ ρ) (S : Set ρ) : Prop :=
  ∀ r ∈ S, ∀ p, A.parent r = some p → p ∈ S

def Account.Sealed (A : Account κ ρ) (k : κ) (S : Set ρ) : Prop :=
  ∀ r ∈ A.held k, ∀ p ∈ S, A.parent r = some p → r ∈ S

/-- The globals of a loaded module satisfy `Valid`, and then it owns the resources `own`. -/
structure Owner (γ ρ : Type) where
  Valid : γ → Prop
  own : γ → Set ρ

structure Added {γ : Type} (A : Account κ ρ) (F : Owner γ ρ) (k t : κ) (g : γ) : Prop where
  held : A.held t = A.held k ∪ F.own g
  new : Disjoint (A.held k) (F.own g)
  closed : A.Closed (F.own g)
  valid : F.Valid g

/-- A load that meets the condition comes to its end with all or nothing, and the unload gives
back what the load has taken and nothing else. -/
structure Tidy {ω γ : Type} (D : Loadable κ ω γ) (A : Account κ ρ) (C : ω → κ → Prop)
    (F : Owner γ ρ) : Prop where
  init : ∀ {k o}, A.Good k → C o k → ∃ rc g t, D.init o k = some ((rc, g), t) ∧ A.Good t ∧
    A.misuses t = A.misuses k ∧ (rc ≠ 0 → A.held t = A.held k) ∧ (rc = 0 → Added A F k t g)
  exit : ∀ {k g}, A.Good k → F.Valid g → F.own g ⊆ A.held k → A.Sealed k (F.own g) →
    ∃ t, D.exit g k = some ((), t) ∧ A.Good t ∧ A.misuses t = A.misuses k ∧
      A.held t = A.held k \ F.own g

/-- One load and, where it succeeds, the unload at once: nothing is left and nothing misused. -/
def Clean {ω γ : Type} (D : Loadable κ ω γ) (A : Account κ ρ) (o : ω) (k : κ) : Prop :=
  ∃ rc g t, D.init o k = some ((rc, g), t) ∧ A.misuses t = A.misuses k ∧
    (rc ≠ 0 → A.held t = A.held k) ∧
    (rc = 0 → ∃ u, D.exit g t = some ((), u) ∧ A.held u = A.held k ∧ A.misuses u = A.misuses k)

theorem Tidy.clean {ω γ : Type} {D : Loadable κ ω γ} {A : Account κ ρ} {C : ω → κ → Prop}
    {F : Owner γ ρ} {o : ω} {k : κ} (h : Tidy D A C F) (hgood : A.Good k)
    (hk : A.Closed (A.held k)) (hC : C o k) : Clean D A o k := by
  obtain ⟨rc, g, t, hinit, hgood, hmisuses, hfails, hloads⟩ := h.init hgood hC
  refine ⟨rc, g, t, hinit, hmisuses, hfails, fun hrc => ?_⟩
  have hadded := hloads hrc
  have hsealed : A.Sealed t (F.own g) := by
    intro r hr p hp hparent
    rw [hadded.held] at hr
    rcases hr with hr | hr
    · exact absurd hp (Set.disjoint_left.mp hadded.new (hk r hr p hparent))
    · exact hr
  obtain ⟨u, hexit, -, humis, hu⟩ :=
    h.exit hgood hadded.valid (hadded.held ▸ Set.subset_union_right) hsealed
  refine ⟨u, hexit, ?_, humis.trans hmisuses⟩
  rw [hu, hadded.held, Set.union_sdiff_cancel_right]
  exact Set.disjoint_iff.mp hadded.new

variable {ι : Type} {ω γ : ι → Type}

inductive Event (ω : ι → Type) where
  | load (i : ι) (o : ω i)
  | unload (i : ι)

structure State (κ : Type) (γ : ι → Type) where
  kernel : κ
  loaded : ∀ i, Option (γ i)

def owned (F : ∀ i, Owner (γ i) ρ) (s : State κ γ) (i : ι) : Set ρ :=
  match s.loaded i with
  | some g => (F i).own g
  | none => ∅

/-- The resources in use are those of the beginning and those of the loaded modules. -/
structure Balanced (A : Account κ ρ) (F : ∀ i, Owner (γ i) ρ) (k : κ) (s : State κ γ) : Prop where
  good : A.Good s.kernel
  valid : ∀ i g, s.loaded i = some g → (F i).Valid g
  held : A.held s.kernel = A.held k ∪ ⋃ i, owned F s i
  new : ∀ i, Disjoint (A.held k) (owned F s i)
  apart : ∀ i j, i ≠ j → Disjoint (owned F s i) (owned F s j)
  closed : ∀ i, A.Closed (owned F s i)
  misuses : A.misuses s.kernel = A.misuses k

section

variable {A : Account κ ρ} {F : ∀ i, Owner (γ i) ρ} {k : κ} {s : State κ γ}

theorem owned_subset (h : Balanced A F k s) (i : ι) : owned F s i ⊆ A.held s.kernel := by
  rw [h.held]
  exact (Set.subset_iUnion _ i).trans Set.subset_union_right

theorem Balanced.sealed (h : Balanced A F k s) (hk : A.Closed (A.held k)) (i : ι) :
    A.Sealed s.kernel (owned F s i) := by
  intro r hr p hp hparent
  rw [h.held] at hr
  rcases hr with hr | hr
  · exact absurd hp (Set.disjoint_left.mp (h.new i) (hk r hr p hparent))
  · obtain ⟨j, hj⟩ := Set.mem_iUnion.mp hr
    by_cases hij : j = i
    · exact hij ▸ hj
    · exact absurd hp (Set.disjoint_left.mp (h.apart j i hij) (h.closed j r hj p hparent))

theorem Balanced.load_fails {u : κ} (h : Balanced A F k s) (hgood : A.Good u)
    (hheld : A.held u = A.held s.kernel) (hmisuses : A.misuses u = A.misuses s.kernel) :
    Balanced A F k ⟨u, s.loaded⟩ :=
  ⟨hgood, h.valid, hheld.trans h.held, h.new, h.apart, h.closed, hmisuses.trans h.misuses⟩

theorem Balanced.restored (h : Balanced A F k s) (hnone : ∀ i, s.loaded i = none) :
    A.held s.kernel = A.held k := by
  have hempty : ∀ i, owned F s i = ∅ := fun i => by simp only [owned, hnone]
  rw [h.held]
  simp only [hempty, Set.iUnion_empty, Set.union_empty]

end

/-- How the misuses are read off a state of the kernel, and what `n` loads and unloads leave. -/
structure Remainder (κ : Type) where
  misuses : κ → ℕ
  Left : ℕ → κ → κ → Prop
  refl : ∀ k, Left 0 k k
  trans : ∀ {m n k t u}, Left m k t → Left n t u → Left (m + n) k u

/-- A load that meets its condition succeeds and makes the kernel `Busy`, and then no module meets
its condition any more. -/
structure Excluding (M : ∀ i, Loadable κ (ω i) (γ i)) (R : Remainder κ)
    (C : ∀ i, ω i → κ → Prop) (Busy : κ → Prop) : Prop where
  cycle : ∀ {i o k}, C i o k → ∃ g t u, (M i).init o k = some ((0, g), t) ∧
    R.misuses t = R.misuses k ∧ (M i).exit g t = some ((), u) ∧ R.misuses u = R.misuses k ∧
    R.Left 1 k u
  busy : ∀ {i o k g t}, C i o k → (M i).init o k = some ((0, g), t) → Busy t
  excludes : ∀ {i o k}, Busy k → ¬ C i o k

structure Alone (M : ∀ i, Loadable κ (ω i) (γ i)) (R : Remainder κ) (Busy : κ → Prop) (n : ℕ)
    (k : κ) (s : State κ γ) : Prop where
  misuses : R.misuses s.kernel = R.misuses k
  left : (∀ i, s.loaded i = none) → R.Left n k s.kernel
  busy : ∀ i, (s.loaded i).isSome → Busy s.kernel
  single : ∀ i j, (s.loaded i).isSome → (s.loaded j).isSome → i = j
  unloads : ∀ i g, s.loaded i = some g → ∃ u, (M i).exit g s.kernel = some ((), u) ∧
    R.misuses u = R.misuses k ∧ R.Left n k u

theorem alone_of_none {M : ∀ i, Loadable κ (ω i) (γ i)} {R : Remainder κ} {Busy : κ → Prop}
    {n : ℕ} {k : κ} {s : State κ γ} (hmisuses : R.misuses s.kernel = R.misuses k)
    (hleft : R.Left n k s.kernel) (hnone : ∀ i, s.loaded i = none) : Alone M R Busy n k s :=
  ⟨hmisuses, fun _ => hleft, fun i hi => by simp [hnone] at hi,
    fun i _ hi => by simp [hnone] at hi, fun i g hg => by simp [hnone] at hg⟩

variable [DecidableEq ι]

def load (M : ∀ i, Loadable κ (ω i) (γ i)) (s : State κ γ) (i : ι) (o : ω i) :
    Option (State κ γ) :=
  if (s.loaded i).isNone then
    ((M i).init o s.kernel).map fun answer =>
      ⟨answer.2, if answer.1.1 = 0 then Function.update s.loaded i (some answer.1.2) else s.loaded⟩
  else none

def unload (M : ∀ i, Loadable κ (ω i) (γ i)) (s : State κ γ) (i : ι) : Option (State κ γ) :=
  (s.loaded i).bind fun g =>
    ((M i).exit g s.kernel).map fun answer => ⟨answer.2, Function.update s.loaded i none⟩

def step (M : ∀ i, Loadable κ (ω i) (γ i)) (s : State κ γ) : Event ω → Option (State κ γ)
  | .load i o => load M s i o
  | .unload i => unload M s i

def modules (M : ∀ i, Loadable κ (ω i) (γ i)) (k : κ) : System (State κ γ) (Event ω) :=
  ⟨⟨k, fun _ => none⟩, step M⟩

def Allowed (C : ∀ i, ω i → κ → Prop) (s : State κ γ) : Event ω → Prop
  | .load i o => C i o s.kernel
  | .unload _ => True

instance (C : ∀ i, ω i → κ → Prop) [∀ i o k, Decidable (C i o k)] (s : State κ γ) :
    (e : Event ω) → Decidable (Allowed C s e)
  | .load i o => inferInstanceAs (Decidable (C i o s.kernel))
  | .unload _ => .isTrue trivial

section

variable {M : ∀ i, Loadable κ (ω i) (γ i)} {A : Account κ ρ} {C : ∀ i, ω i → κ → Prop}
  {F : ∀ i, Owner (γ i) ρ} {k : κ} {s t : State κ γ} {e : Event ω} {i : ι}

theorem owned_update_self {u : κ} {g : Option (γ i)} :
    owned F ⟨u, Function.update s.loaded i g⟩ i = match g with
      | some g => (F i).own g
      | none => ∅ := by
  simp only [owned, Function.update_self]

theorem owned_update_of_ne {u : κ} {g : Option (γ i)} {j : ι} (hj : j ≠ i) :
    owned F ⟨u, Function.update s.loaded i g⟩ j = owned F s j := by
  simp only [owned, Function.update_of_ne hj]

theorem Balanced.load {u : κ} {g : γ i} (h : Balanced A F k s) (hnone : s.loaded i = none)
    (hgood : A.Good u) (hadded : Added A (F i) s.kernel u g)
    (hmisuses : A.misuses u = A.misuses s.kernel) :
    Balanced A F k ⟨u, Function.update s.loaded i (some g)⟩ := by
  have hself : owned F ⟨u, Function.update s.loaded i (some g)⟩ i = (F i).own g := owned_update_self
  have hother {j : ι} (hj : j ≠ i) :
      owned F ⟨u, Function.update s.loaded i (some g)⟩ j = owned F s j := owned_update_of_ne hj
  have hbefore : owned F s i = ∅ := by simp only [owned, hnone]
  have hapart (j : ι) : Disjoint (owned F s j) ((F i).own g) :=
    hadded.new.mono_left (owned_subset h j)
  refine ⟨hgood, ?_, ?_, ?_, ?_, ?_, hmisuses.trans h.misuses⟩
  · intro j d hd
    by_cases hij : j = i
    · subst hij
      simp only [Function.update_self] at hd
      exact Option.some.inj hd ▸ hadded.valid
    · simp only [Function.update_of_ne hij] at hd
      exact h.valid j d hd
  · rw [hadded.held, h.held, Set.union_assoc]
    congr 1
    ext x
    simp only [Set.mem_union, Set.mem_iUnion]
    constructor
    · rintro (⟨j, hj⟩ | hx)
      · have hne : j ≠ i := by
          rintro rfl
          rw [hbefore] at hj
          exact hj
        exact ⟨j, (hother hne).symm ▸ hj⟩
      · exact ⟨i, hself.symm ▸ hx⟩
    · rintro ⟨j, hj⟩
      by_cases hij : j = i
      · subst hij
        exact .inr (hself ▸ hj)
      · exact .inl ⟨j, hother hij ▸ hj⟩
  · intro j
    by_cases hij : j = i
    · subst hij
      rw [hself]
      exact hadded.new.mono_left (by rw [h.held]; exact Set.subset_union_left)
    · rw [hother hij]
      exact h.new j
  · intro a b hab
    by_cases ha : a = i
    · subst ha
      rw [hself, hother hab.symm]
      exact (hapart b).symm
    · by_cases hb : b = i
      · subst hb
        rw [hself, hother ha]
        exact hapart a
      · rw [hother ha, hother hb]
        exact h.apart a b hab
  · intro j
    by_cases hij : j = i
    · subst hij
      rw [hself]
      exact hadded.closed
    · rw [hother hij]
      exact h.closed j

theorem Balanced.unload {u : κ} {g : γ i} (h : Balanced A F k s) (hsome : s.loaded i = some g)
    (hgood : A.Good u) (hheld : A.held u = A.held s.kernel \ (F i).own g)
    (hmisuses : A.misuses u = A.misuses s.kernel) :
    Balanced A F k ⟨u, Function.update s.loaded i none⟩ := by
  have hself : owned F ⟨u, Function.update s.loaded i none⟩ i = ∅ := owned_update_self
  have hother {j : ι} (hj : j ≠ i) :
      owned F ⟨u, Function.update s.loaded i none⟩ j = owned F s j := owned_update_of_ne hj
  have hbefore : owned F s i = (F i).own g := by simp only [owned, hsome]
  have hle (j : ι) : owned F ⟨u, Function.update s.loaded i none⟩ j ⊆ owned F s j := by
    by_cases hij : j = i
    · subst hij
      rw [hself]
      exact Set.empty_subset _
    · rw [hother hij]
  refine ⟨hgood, ?_, ?_, fun j => (h.new j).mono_right (hle j),
    fun a b hab => (h.apart a b hab).mono (hle a) (hle b), ?_, hmisuses.trans h.misuses⟩
  · intro j d hd
    by_cases hij : j = i
    · subst hij
      simp only [Function.update_self] at hd
      cases hd
    · simp only [Function.update_of_ne hij] at hd
      exact h.valid j d hd
  · rw [hheld, h.held, ← hbefore]
    ext x
    simp only [Set.mem_sdiff, Set.mem_union, Set.mem_iUnion]
    constructor
    · rintro ⟨hx | ⟨j, hj⟩, hnot⟩
      · exact .inl hx
      · have hne : j ≠ i := by
          rintro rfl
          exact hnot hj
        exact .inr ⟨j, (hother hne).symm ▸ hj⟩
    · rintro (hx | ⟨j, hj⟩)
      · exact ⟨.inl hx, Set.disjoint_left.mp (h.new i) hx⟩
      · have hne : j ≠ i := by
          rintro rfl
          rw [hself] at hj
          exact hj
        exact ⟨.inr ⟨j, hle j hj⟩, Set.disjoint_left.mp (h.apart j i hne) (hle j hj)⟩
  · intro j
    by_cases hij : j = i
    · subst hij
      rw [hself]
      exact fun r hr => hr.elim
    · rw [hother hij]
      exact h.closed j

theorem balanced_step (hM : ∀ i, Tidy (M i) A (C i) (F i)) (hk : A.Closed (A.held k))
    (h : Balanced A F k s) (hC : Allowed C s e) (hstep : step M s e = some t) :
    Balanced A F k t := by
  cases e with
  | load i o =>
    obtain ⟨hnone, hstep⟩ := Option.ite_none_right_eq_some.mp hstep
    obtain ⟨rc, g, u, hinit, hgood, hmisuses, hfails, hloads⟩ := (hM i).init h.good hC
    rw [hinit] at hstep
    obtain rfl := Option.some.inj hstep
    by_cases hrc : rc = 0
    · simp only [hrc, if_true]
      exact h.load (Option.isNone_iff_eq_none.mp hnone) hgood (hloads hrc) hmisuses
    · simp only [hrc, if_false]
      exact h.load_fails hgood (hfails hrc) hmisuses
  | unload i =>
    obtain ⟨g, hsome, hstep⟩ := Option.bind_eq_some_iff.mp hstep
    have hown : owned F s i = (F i).own g := by simp only [owned, hsome]
    obtain ⟨u, hexit, hgood, hmisuses, hheld⟩ := (hM i).exit h.good (h.valid i g hsome)
      (hown ▸ owned_subset h i) (hown ▸ h.sealed hk i)
    rw [hexit] at hstep
    obtain rfl := Option.some.inj hstep
    exact h.unload hsome hgood hheld hmisuses

theorem trace_balanced (hM : ∀ i, Tidy (M i) A (C i) (F i)) (hgood : A.Good k)
    (hk : A.Closed (A.held k)) {es : List (Event ω)} (h : (modules M k).Trace es s)
    (hC : (modules M k).EachStep (Allowed C) es) : Balanced A F k s := by
  refine h.invariant_eachStep hC ?_ fun hC hI hstep => balanced_step hM hk hI hC hstep
  refine ⟨hgood, fun i g hg => (Option.some_ne_none g hg.symm).elim, ?_,
    fun _ => Set.disjoint_empty _, fun _ _ _ => Set.disjoint_empty _, fun _ _ hr => hr.elim, rfl⟩
  have hnone : ∀ i, owned F (modules M k).initial i = ∅ := fun _ => rfl
  simp only [hnone, Set.iUnion_empty, Set.union_empty]
  rfl

theorem load_crashes {i : ι} {o : ω i} (h : (M i).init o s.kernel = none) :
    step M s (.load i o) = none := by
  rw [step, ModuleRuns.load, h]
  split <;> rfl

theorem Balanced.goes (hM : ∀ i, Tidy (M i) A (C i) (F i)) (hk : A.Closed (A.held k))
    (h : Balanced A F k s) (i : ι) : (s.loaded i = none → ∀ o, C i o s.kernel →
      ∃ t, step M s (.load i o) = some t) ∧
    (∀ g, s.loaded i = some g → ∃ t, step M s (.unload i) = some t) := by
  constructor
  · intro hnone o hC
    obtain ⟨rc, g, u, hinit, -⟩ := (hM i).init h.good hC
    have hstart : (s.loaded i).isNone := Option.isNone_iff_eq_none.mpr hnone
    exact ⟨_, by rw [step, ModuleRuns.load, if_pos hstart, hinit]; rfl⟩
  · intro g hsome
    have hown : owned F s i = (F i).own g := by simp only [owned, hsome]
    obtain ⟨u, hexit, -⟩ := (hM i).exit h.good (h.valid i g hsome) (hown ▸ owned_subset h i)
      (hown ▸ h.sealed hk i)
    exact ⟨_, by rw [step, ModuleRuns.unload, hsome, Option.bind_some, hexit]; rfl⟩

end

def Event.isLoad {ω : ι → Type} : Event ω → Bool
  | .load _ _ => true
  | .unload _ => false

def loads (es : List (Event ω)) : ℕ := es.countP Event.isLoad

section

variable {M : ∀ i, Loadable κ (ω i) (γ i)} {R : Remainder κ} {C : ∀ i, ω i → κ → Prop}
  {Busy : κ → Prop} {n : ℕ} {k : κ} {s t : State κ γ}

theorem alone_load {i : ι} {o : ω i} (hM : Excluding M R C Busy) (h : Alone M R Busy n k s)
    (hC : C i o s.kernel) (hstep : load M s i o = some t) : Alone M R Busy (n + 1) k t := by
  obtain ⟨-, hstep⟩ := Option.ite_none_right_eq_some.mp hstep
  obtain ⟨g, u, v, hinit, hmisuses, hexit, hvmis, hv⟩ := hM.cycle hC
  rw [hinit] at hstep
  obtain rfl := Option.some.inj hstep
  have hnone (j : ι) : s.loaded j = none := by
    by_contra hj
    exact hM.excludes (h.busy j (Option.ne_none_iff_isSome.mp hj)) hC
  have honly (j : ι) (hj : (Function.update s.loaded i (some g) j).isSome) : j = i := by
    by_contra hne
    rw [Function.update_of_ne hne, hnone] at hj
    cases hj
  refine ⟨hmisuses.trans h.misuses, ?_, fun _ _ => hM.busy hC hinit, ?_, ?_⟩
  · intro hnone
    have hi := hnone i
    simp at hi
  · intro a b ha hb
    exact (honly a ha).trans (honly b hb).symm
  · intro j d hd
    obtain rfl := honly j (Option.isSome_of_eq_some hd)
    obtain rfl : g = d := by simpa using hd
    exact ⟨v, hexit, hvmis.trans h.misuses, R.trans (h.left hnone) hv⟩

theorem alone_unload {i : ι} (h : Alone M R Busy n k s) (hstep : unload M s i = some t) :
    Alone M R Busy n k t := by
  obtain ⟨g, hsome, hstep⟩ := Option.bind_eq_some_iff.mp hstep
  obtain ⟨u, hexit, hmisuses, hleft⟩ := h.unloads i g hsome
  rw [hexit] at hstep
  obtain rfl := Option.some.inj hstep
  refine alone_of_none hmisuses hleft fun j => ?_
  by_cases hj : j = i
  · subst hj
    simp
  · have hnone : ¬ (s.loaded j).isSome := fun hs =>
      hj (h.single j i hs (Option.isSome_of_eq_some hsome))
    simpa [Function.update_of_ne hj] using hnone

theorem trace_alone (hM : Excluding M R C Busy) {es : List (Event ω)}
    (h : (modules M k).Trace es s) (hC : (modules M k).EachStep (Allowed C) es) :
    Alone M R Busy (loads es) k s := by
  induction h with
  | nil => exact alone_of_none rfl (R.refl k) fun _ => rfl
  | @snoc es s e t hs hstep ih =>
    have hI := ih (hC.mono (List.prefix_append _ _))
    have hCe := hC.last hs
    cases e with
    | load i o =>
      have hcount : loads (es ++ [.load i o]) = loads es + 1 := by simp [loads, Event.isLoad]
      exact hcount ▸ alone_load hM hI hCe hstep
    | unload i =>
      have hcount : loads (es ++ [Event.unload i]) = loads es := by simp [loads, Event.isLoad]
      exact hcount ▸ alone_unload hI hstep

end

end ModuleRuns
