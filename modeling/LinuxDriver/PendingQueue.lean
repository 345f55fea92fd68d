import LinuxDriver.TransitionSystem

/-!
# A queue of pending items with one worker

An item is accepted only while it is not waiting, the worker starts the item that has waited
longest, and an item can be accepted again while it is being executed. What has been
accepted is what has been started followed by what waits, in the same order.
-/
namespace PendingQueue

open TransitionSystem

variable {α : Type}

/-- No item waits twice. -/
structure Queue (α : Type) where
  waiting : List α
  running : Option α
  nodup : waiting.Nodup

inductive Move (α : Type) where
  | accept (a : α)
  | start (a : α)
  | finish (a : α)

theorem nodup_append {xs : List α} {a : α} (h : xs.Nodup) (ha : a ∉ xs) : (xs ++ [a]).Nodup := by
  apply List.nodup_append.mpr
  refine ⟨h, by simp, ?_⟩
  intro b hb c hc heq
  rw [List.mem_singleton.mp hc] at heq
  exact ha (heq ▸ hb)

namespace Queue

variable [DecidableEq α]

def accept (q : Queue α) (a : α) : Option (Queue α) :=
  if h : a ∈ q.waiting then none
  else some ⟨q.waiting ++ [a], q.running, nodup_append q.nodup h⟩

def start (q : Queue α) (a : α) : Option (Queue α) :=
  if q.running = none ∧ q.waiting = a :: q.waiting.tail then
    some ⟨q.waiting.tail, some a, q.nodup.tail⟩
  else none

def finish (q : Queue α) (a : α) : Option (Queue α) :=
  if q.running = some a then some ⟨q.waiting, none, q.nodup⟩ else none

end Queue

variable [DecidableEq α]

def pendingQueue : System (Queue α) (Move α) where
  initial := ⟨[], none, List.nodup_nil⟩
  step
    | q, .accept a => q.accept a
    | q, .start a => q.start a
    | q, .finish a => q.finish a

def accepts (ms : List (Move α)) : List α :=
  ms.filterMap fun
    | .accept a => some a
    | _ => none

def starts (ms : List (Move α)) : List α :=
  ms.filterMap fun
    | .start a => some a
    | _ => none

def finishes (ms : List (Move α)) : List α :=
  ms.filterMap fun
    | .finish a => some a
    | _ => none

/-- Every accepted item is started once, and every started item is finished before the next,
in the order of acceptance. -/
structure InOrder (ms : List (Move α)) (q : Queue α) : Prop where
  accepted : accepts ms = starts ms ++ q.waiting
  started : starts ms = finishes ms ++ q.running.toList

theorem inOrder_step {ms : List (Move α)} {q r : Queue α} {m : Move α} (h : InOrder ms q)
    (hstep : pendingQueue.step q m = some r) : InOrder (ms ++ [m]) r := by
  have hq := h.accepted
  have hr := h.started
  cases m with
  | accept a =>
    simp only [pendingQueue, Queue.accept, Option.dite_none_left_eq_some] at hstep
    obtain ⟨_, hstep⟩ := hstep
    obtain rfl := Option.some.inj hstep
    constructor
    · simp only [accepts, starts, List.filterMap_append] at hq ⊢
      simp [hq]
    · simpa [starts, finishes] using hr
  | start a =>
    simp only [pendingQueue, Queue.start, Option.ite_none_right_eq_some] at hstep
    obtain ⟨⟨hnone, hhead⟩, hstep⟩ := hstep
    obtain rfl := Option.some.inj hstep
    constructor
    · rw [hhead] at hq
      simpa [accepts, starts] using hq
    · rw [hnone] at hr
      simpa [starts, finishes] using hr
  | finish a =>
    simp only [pendingQueue, Queue.finish, Option.ite_none_right_eq_some] at hstep
    obtain ⟨hrun, hstep⟩ := hstep
    obtain rfl := Option.some.inj hstep
    constructor
    · simpa [accepts, starts] using hq
    · rw [hrun] at hr
      simpa [starts, finishes] using hr

theorem trace_inOrder {ms : List (Move α)} {q : Queue α} (h : pendingQueue.Trace ms q) :
    InOrder ms q := by
  induction h with
  | nil => exact ⟨rfl, rfl⟩
  | snoc _ hstep ih => exact inOrder_step ih hstep

end PendingQueue
