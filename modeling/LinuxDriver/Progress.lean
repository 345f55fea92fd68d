import LinuxDriver.TransitionSystem

/-!
# Systems that come to rest

The events of a system are those that bring work and those that do it. Where every event that
does work lowers a measure of what is left, and something can be done as long as anything is
left, no schedule goes on for ever without new work and none gets stuck before its end.
-/
namespace Progress

open TransitionSystem

variable {σ ε : Type*} {M : System σ ε}

/-- `left` measures the work in the states that satisfy the invariant. -/
structure Drains (M : System σ ε) (I : σ → Prop) (Works : ε → Prop) (left : σ → ℕ) : Prop where
  keeps : ∀ {s e t}, I s → Works e → M.step s e = some t → I t
  lowers : ∀ {s e t}, I s → Works e → M.step s e = some t → left t < left s
  goes : ∀ {s}, I s → left s ≠ 0 → ∃ e t, Works e ∧ M.step s e = some t

/-- Without new work every schedule ends, after `bound` steps at most, and ends at rest. -/
structure ComesToRest (M : System σ ε) (Works : ε → Prop) (Rest : σ → Prop) (bound : ℕ) (s : σ) :
    Prop where
  bounded : ∀ es t, M.Path s es t → (∀ e ∈ es, Works e) → es.length ≤ bound
  rests : ∀ es t, M.Path s es t → (∀ e ∈ es, Works e) → (∀ e, Works e → M.step t e = none) → Rest t
  reaches : ∃ es t, M.Path s es t ∧ (∀ e ∈ es, Works e) ∧ Rest t

theorem ComesToRest.mono {Works : ε → Prop} {Rest : σ → Prop} {m n : ℕ} {s : σ}
    (h : ComesToRest M Works Rest m s) (hle : m ≤ n) : ComesToRest M Works Rest n s :=
  ⟨fun es t hpath hes => Nat.le_trans (h.bounded es t hpath hes) hle, h.rests, h.reaches⟩

namespace Drains

variable {I : σ → Prop} {Works : ε → Prop} {left : σ → ℕ} {s t : σ} {es : List ε}

theorem path_keeps (h : Drains M I Works left) (hs : I s) (hpath : M.Path s es t)
    (hes : ∀ e ∈ es, Works e) : I t :=
  hpath.stable_on hes hs fun he hI hstep => h.keeps hI he hstep

theorem length_add_left_le (h : Drains M I Works left) (hs : I s) (hpath : M.Path s es t)
    (hes : ∀ e ∈ es, Works e) : es.length + left t ≤ left s := by
  induction es generalizing s with
  | nil =>
    obtain rfl := System.path_nil.mp hpath
    simp
  | cons e es ih =>
    obtain ⟨u, hstep, hpath⟩ := System.path_cons.mp hpath
    have he : Works e := hes e List.mem_cons_self
    have hrest := ih (h.keeps hs he hstep) hpath fun d hd => hes d (List.mem_cons_of_mem e hd)
    have hlower := h.lowers hs he hstep
    rw [List.length_cons]
    omega

theorem exists_path (h : Drains M I Works left) (hs : I s) :
    ∃ es t, M.Path s es t ∧ (∀ e ∈ es, Works e) ∧ left t = 0 := by
  generalize hn : left s = n
  induction n using Nat.strongRecOn generalizing s with
  | ind n ih =>
    by_cases hzero : left s = 0
    · exact ⟨[], s, System.path_nil.mpr rfl, by simp, hzero⟩
    · obtain ⟨e, u, he, hstep⟩ := h.goes hs hzero
      have hlower := h.lowers hs he hstep
      obtain ⟨es, t, hpath, hes, ht⟩ := ih (left u) (hn ▸ hlower) (h.keeps hs he hstep) rfl
      exact ⟨e :: es, t, System.path_cons.mpr ⟨u, hstep, hpath⟩,
        List.forall_mem_cons.mpr ⟨he, hes⟩, ht⟩

theorem comesToRest (h : Drains M I Works left) {Rest : σ → Prop}
    (hrest : ∀ {s}, I s → left s = 0 → Rest s) (hs : I s) :
    ComesToRest M Works Rest (left s) s := by
  constructor
  · intro es t hpath hes
    have hle := h.length_add_left_le hs hpath hes
    omega
  · intro es t hpath hes hstuck
    have ht := h.path_keeps hs hpath hes
    apply hrest ht
    by_contra hleft
    obtain ⟨e, u, he, hstep⟩ := h.goes ht hleft
    rw [hstuck e he] at hstep
    cases hstep
  · obtain ⟨es, t, hpath, hes, hleft⟩ := h.exists_path hs
    exact ⟨es, t, hpath, hes, hrest (h.path_keeps hs hpath hes) hleft⟩

end Drains

end Progress
