import LinuxDriver.TransitionSystem

/-!
# Flags that are set and taken

Any number of settings before the next taking count as one. The flag decides that none of them
is forgotten and that nothing is taken which has not been set again in between.
-/
namespace SignalFlag

open TransitionSystem

variable {σ ε : Type*}

/-- The events that set the flag, those that take it, and nothing else that changes it. -/
structure Flagged (M : System σ ε) (flag : σ → Bool) (Sets Takes : ε → Prop) : Prop where
  initial : flag M.initial = false
  sets : ∀ {s e t}, Sets e → M.step s e = some t → flag t = true
  takes : ∀ {s e t}, Takes e → M.step s e = some t → flag s = true ∧ flag t = false
  keeps : ∀ {s e t}, ¬ Sets e → ¬ Takes e → M.step s e = some t → flag t = flag s

namespace Flagged

variable {M : System σ ε} {flag : σ → Bool} {Sets Takes : ε → Prop} {s t : σ} {e : ε}
  {es xs ys : List ε}

theorem set_of_path (h : Flagged M flag Sets Takes) (hpath : M.Path s ys t) (hs : flag s = true)
    (hys : ∀ e ∈ ys, ¬ Takes e) : flag t = true := by
  refine hpath.stable_on (I := fun s => flag s = true) hys hs ?_
  intro s e t he hI hstep
  by_cases hset : Sets e
  · exact h.sets hset hstep
  · exact (h.keeps hset he hstep).trans hI

/-- After each setting comes a taking, unless the flag is still set. -/
theorem taken_or_set (h : Flagged M flag Sets Takes) (hs : M.Trace (xs ++ e :: ys) s)
    (he : Sets e) : (∃ d ∈ ys, Takes d) ∨ flag s = true := by
  by_cases hys : ∃ d ∈ ys, Takes d
  · exact .inl hys
  · obtain ⟨u, v, -, hstep, -, hpath⟩ := hs.split_at
    have hnone : ∀ d ∈ ys, ¬ Takes d := fun d hd ht => hys ⟨d, hd, ht⟩
    exact .inr (h.set_of_path hpath (h.sets he hstep) hnone)

theorem exists_set (h : Flagged M flag Sets Takes) (hs : M.Trace es s) (hflag : flag s = true) :
    ∃ us d vs, es = us ++ d :: vs ∧ Sets d ∧ ∀ c ∈ vs, ¬ Takes c := by
  induction hs with
  | nil =>
    rw [h.initial] at hflag
    cases hflag
  | @snoc es s e t hs hstep ih =>
    by_cases hset : Sets e
    · exact ⟨es, e, [], rfl, hset, by simp⟩
    by_cases htake : Takes e
    · rw [(h.takes htake hstep).2] at hflag
      cases hflag
    · rw [h.keeps hset htake hstep] at hflag
      obtain ⟨us, d, vs, rfl, hd, hvs⟩ := ih hflag
      refine ⟨us, d, vs ++ [e], by simp, hd, ?_⟩
      intro c hc
      rcases List.mem_append.mp hc with hc | hc
      · exact hvs c hc
      · exact List.mem_singleton.mp hc ▸ htake

theorem set_before_take (h : Flagged M flag Sets Takes) (hs : M.Trace (xs ++ e :: ys) s)
    (he : Takes e) : ∃ us d vs, xs = us ++ d :: vs ∧ Sets d ∧ ∀ c ∈ vs, ¬ Takes c := by
  obtain ⟨u, v, hu, hstep, -⟩ := hs.split_at
  exact h.exists_set hu (h.takes he hstep).1

end Flagged

end SignalFlag
