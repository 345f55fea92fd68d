import LinuxDriver.IrqSystemWorkqueue
import LinuxDriver.SharedCounter
import Mathlib.Algebra.Order.BigOperators.Group.List

/-!
# What the system workqueue keeps and what it loses

No work is lost or repeated, as with one thread, but the executions of the two items overlap:
their counts are exact in the runs in which no load of `cnt` falls between another load and its
store. Neither the failed init nor the exit ever returns.
-/
namespace IrqSystemWorkqueueRuns

open TransitionSystem CallPool KernelTypes InterruptLine IrqSystemWorkqueue LoadStoreCounter
  SharedCounter

def readyUpTo : DriverPc → ℕ
  | .initWork i => i
  | _ => NUM

@[simp] def hasWork : DriverPc → Bool
  | .loaded | .freeing | .freed | .oops => true
  | _ => false

/-- What the control point of init and exit says about the line and the items. -/
structure Placed (s : State) : Prop where
  wq : s.wq = none
  stays : s.driver ≠ .exited ∧ ∀ ret, s.driver ≠ .failed ret
  action : s.line.action = if s.driver = .loaded then some none else none
  running : s.line.running ≠ none → s.driver = .loaded ∨ s.driver = .freeing
  size : s.t.length = NUM
  ready : ∀ (k : ℕ) (item : Item), s.t[k]? = some item → k < readyUpTo s.driver → item.ready
  idle : ¬ hasWork s.driver → ∀ item ∈ s.t, item.pending = false ∧ item.running = none
  le : s.i ≤ NUM
  lt : s.line.running = some .wrapped → s.i < NUM

section

variable {s t : State} {e : Event} {k : ℕ} {item item' : Item}

theorem Placed.silent (h : Placed s) (hl : s.driver ≠ .loaded) (hf : s.driver ≠ .freeing) :
    s.line.action = none ∧ s.line.running = none := by
  constructor
  · rw [h.action, if_neg hl]
  · by_contra hr
    exact (h.running hr).elim hl hf

theorem Placed.destroy_eq (h : Placed s) (pc : DriverPc) : destroyWorkqueue s pc = s.at .oops :=
  if_pos h.wq

theorem Placed.at_driver (h : Placed s) {pc : DriverPc} (ht : t = s.at pc)
    (hstays : pc ≠ .exited ∧ ∀ ret, pc ≠ .failed ret) (hl : s.driver ≠ .loaded)
    (hl' : pc ≠ .loaded) (hrun : s.line.running = none) (hready : readyUpTo pc ≤ readyUpTo s.driver)
    (hwork : ¬ hasWork pc → ¬ hasWork s.driver) : Placed t := by
  subst ht
  have haction : s.line.action = none := by rw [h.action, if_neg hl]
  constructor
  · exact h.wq
  · exact hstays
  · rw [at_line, haction, IrqSystemWorkqueue.at_driver, if_neg hl']
  · intro hne
    exact absurd hrun hne
  · exact h.size
  · intro k item hk hlt
    exact h.ready k item hk (Nat.lt_of_lt_of_le hlt hready)
  · intro hnone
    exact h.idle (hwork hnone)
  · exact h.le
  · exact h.lt

theorem Placed.goto (h : Placed s) {pc : HandlerPc} (hr : s.line.running = some pc)
    (next : Option HandlerPc) {i : ℕ} (hle : i ≤ NUM) (hlt : next = some .wrapped → i < NUM) :
    Placed { s.goto next with i := i } :=
  ⟨h.wq, h.stays, h.action, fun _ => h.running (by simp [hr]), h.size, h.ready, h.idle, hle, hlt⟩

theorem Placed.count (h : Placed s) (cnt : BitVec 32) (log : List (BitVec 32)) :
    Placed { s with cnt := cnt, log := log } :=
  ⟨h.wq, h.stays, h.action, h.running, h.size, h.ready, h.idle, h.le, h.lt⟩

theorem Placed.setItem (h : Placed s) (hk : s.t[k]? = some item) (hready : item'.ready = item.ready)
    (hwork : hasWork s.driver) : Placed (s.setItem k item') := by
  refine ⟨h.wq, h.stays, h.action, h.running, by simpa using h.size, ?_, ?_, h.le, h.lt⟩
  · intro j it hj hlt
    obtain ⟨d, hd, hsame⟩ := alike_of_set (f := Item.ready) hj hk hready
    exact hsame ▸ h.ready j d hd hlt
  · intro hnone
    exact absurd hwork hnone

theorem Placed.exists_item (h : Placed s) (hk : k < NUM) : ∃ item, s.t[k]? = some item :=
  ⟨_, List.getElem?_eq_getElem (h.size ▸ hk)⟩

theorem Placed.hasWork_of_item (h : Placed s) (hk : s.t[k]? = some item)
    (hbusy : item.pending = true ∨ item.running ≠ none) : hasWork s.driver := by
  by_contra hnone
  obtain ⟨hp, hr⟩ := h.idle hnone item (List.mem_of_getElem? hk)
  rcases hbusy with hbusy | hbusy
  · rw [hp] at hbusy
    cases hbusy
  · exact hbusy hr

theorem placed_initWork {i : ℕ} (h : Placed s) (hpc : s.driver = .initWork i) :
    Placed ((s.setItem i ⟨true, false, none⟩).at (.initWork (i + 1))) := by
  have hsilent := h.silent (by simp [hpc]) (by simp [hpc])
  have hidle := h.idle (by simp [hpc])
  constructor
  · exact h.wq
  · simp
  · simp [hsilent]
  · simp [hsilent]
  · simpa using h.size
  · intro k item hk hlt
    rcases entry_of_set hk with ⟨-, rfl⟩ | ⟨hne, hk⟩
    · rfl
    · refine h.ready k item hk ?_
      simp only [readyUpTo, IrqSystemWorkqueue.at_driver, hpc] at hlt ⊢
      omega
  · intro _ item hmem
    rcases List.mem_or_eq_of_mem_set hmem with hmem | rfl
    · exact hidle item hmem
    · exact ⟨rfl, rfl⟩
  · exact h.le
  · exact h.lt

theorem placed_step (h : Placed s) (hstep : Step s e t) : Placed t := by
  cases hstep with
  | initWork i hpc => exact placed_initWork h hpc
  | gpioRequest i hpc hi =>
    have hsilent := h.silent (by simp [hpc]) (by simp [hpc])
    exact h.at_driver rfl (by simp) (by simp [hpc]) (by simp) hsilent.2
      (by simp only [readyUpTo, hpc]; omega) (by simp [hpc])
  | gpioDirectionInput hpc =>
    have hsilent := h.silent (by simp [hpc]) (by simp [hpc])
    exact h.at_driver rfl (by simp) (by simp [hpc]) (by simp) hsilent.2 (by simp [readyUpTo, hpc])
      (by simp [hpc])
  | requestFails ret hpc hret =>
    have hsilent := h.silent (by simp [hpc]) (by simp [hpc])
    exact h.at_driver rfl (by simp) (by simp [hpc]) (by simp) hsilent.2 (by simp [readyUpTo, hpc])
      (by simp [hpc])
  | requestIrq l hpc hl =>
    obtain ⟨-, rfl⟩ := Line.request_eq_some.mp hl
    refine ⟨h.wq, by simp, by simp, fun _ => .inl rfl, h.size, ?_, by simp, h.le, h.lt⟩
    intro k item hk hlt
    exact h.ready k item hk (by simpa [readyUpTo, hpc] using hlt)
  | destroyErr1 ret hpc =>
    have hsilent := h.silent (by simp [hpc]) (by simp [hpc])
    exact h.at_driver (h.destroy_eq _) (by simp) (by simp [hpc]) (by simp) hsilent.2
      (by simp [readyUpTo, hpc]) (by simp)
  | destroyExit hpc =>
    have hsilent := h.silent (by simp [hpc]) (by simp [hpc])
    exact h.at_driver (h.destroy_eq _) (by simp) (by simp [hpc]) (by simp) hsilent.2
      (by simp [readyUpTo, hpc]) (by simp)
  | freeIrq l hpc hl =>
    obtain ⟨-, rfl⟩ := Line.detach_eq_some.mp hl
    refine ⟨h.wq, by simp, by simp, fun _ => .inr rfl, h.size, ?_, by simp, h.le, h.lt⟩
    intro k item hk hlt
    exact h.ready k item hk (by simpa [readyUpTo, hpc] using hlt)
  | freeMisses hpc hl =>
    have haction := h.action
    rw [if_pos hpc] at haction
    simp [Line.detach, haction] at hl
  | synchronizeIrq hpc hr =>
    exact h.at_driver rfl (by simp) (by simp [hpc]) (by simp) hr (by simp [readyUpTo, hpc])
      (by simp)
  | raise l hl =>
    obtain ⟨hinst, -, rfl⟩ := Line.raise_eq_some.mp hl
    have hloaded : s.driver = .loaded := by
      by_contra hne
      rw [h.action, if_neg hne] at hinst
      cases hinst
    exact ⟨h.wq, h.stays, h.action, fun _ => .inl hloaded, h.size, h.ready, h.idle, h.le, by simp⟩
  | wrap hr =>
    have hle := h.le
    have hlt : (if s.i = NUM then 0 else s.i) < NUM := by
      split
      · decide
      · omega
    exact h.goto hr (some .wrapped) (Nat.le_of_lt hlt) fun _ => hlt
  | reject item hr => exact h.goto hr (some (.scheduled false)) (h.lt hr) (by simp)
  | accept item hr hi =>
    have hwork : hasWork s.driver := by
      rcases h.running (by simp [hr]) with hd | hd
      · simp [hd]
      · simp [hd]
    have hset : Placed (s.setItem s.i { item with pending := true }) := h.setItem hi rfl hwork
    exact hset.goto hr (some (.scheduled true)) (h.lt hr) (by simp)
  | handlerReturn ok hr => exact h.goto hr none h.le (by simp)
  | start k item hk hr hp => exact h.setItem hk rfl (h.hasWork_of_item hk (.inl hp))
  | load k item i hk hr | finish k item i hk hr =>
    exact h.setItem hk rfl (h.hasWork_of_item hk (.inr (by simp [hr])))
  | store k item i old hk hr =>
    have hset : Placed (s.setItem k { item with running := some (.stored i old) }) :=
      h.setItem hk rfl (h.hasWork_of_item hk (.inr (by simp [hr])))
    exact hset.count (old + 1) s.log
  | print k item i old hk hr =>
    have hset : Placed (s.setItem k { item with running := some (.looping (i + 1)) }) :=
      h.setItem hk rfl (h.hasWork_of_item hk (.inr (by simp [hr])))
    exact hset.count s.cnt (s.log ++ [old])

end

theorem trace_placed {es : List Event} {s : State} (h : workqueueTest.Trace es s) : Placed s := by
  refine h.invariant ?_ fun hI hstep => placed_step hI (step_sound hstep)
  refine ⟨rfl, by simp [workqueueTest, initial], by simp [workqueueTest, initial],
    by simp [workqueueTest, initial], by simp [workqueueTest, initial],
    by simp [workqueueTest, initial, readyUpTo], ?_, Nat.zero_le _,
    by simp [workqueueTest, initial]⟩
  intro _ item hmem
  obtain rfl := List.eq_of_mem_replicate hmem
  exact ⟨rfl, rfl⟩

/-- `message` is "work is already in the queue". -/
inductive Note where
  | raised
  | tried (k : ℕ) (ok : Bool)
  | message
  | started (k : ℕ)
  | finished (k : ℕ)
  deriving DecidableEq, Repr

def notes (s : State) : Event → List Note
  | .raise => [.raised]
  | .scheduleWork => s.t[s.i]?.toList.map fun item => .tried s.i (!item.pending)
  | .handlerReturn => if s.line.running = some (.scheduled false) then [.message] else []
  | .start k => [.started k]
  | .finish k => [.finished k]
  | _ => []

def tries (ns : List Note) : List ℕ :=
  ns.filterMap fun
    | .tried k _ => some k
    | _ => none

def Note.rejected : Note → Bool
  | .tried _ ok => !ok
  | _ => false

def Note.executed : Note → Bool
  | .finished _ => true
  | _ => false

def Note.item : Note → Option ℕ
  | .tried k _ | .started k | .finished k => some k
  | _ => none

def untried : Option HandlerPc → ℕ
  | some .entered | some .wrapped => 1
  | _ => 0

def unsaid : Option HandlerPc → ℕ
  | some (.scheduled false) => 1
  | _ => 0

def printedBy : Option WorkPc → ℕ
  | some (.looping i) | some (.loaded i _) | some (.stored i _) => i
  | none => 0

structure HandlerLaw (ns : List Note) (s : State) : Prop where
  index : s.i % NUM = (tries ns).length % NUM
  order : tries ns = (List.range (tries ns).length).map (· % NUM)
  raised : ns.count .raised = (tries ns).length + untried s.line.running
  messages : ns.countP Note.rejected = ns.count .message + unsaid s.line.running

/-- What has been accepted for an item has been started or is pending, and what has been started
has been finished or is in progress. -/
def ItemLaw (ns : List Note) (k : ℕ) (item : Item) : Prop :=
  ns.count (.tried k true) = ns.count (.started k) + item.pending.toNat ∧
    ns.count (.started k) = ns.count (.finished k) + item.running.isSome.toNat

def ItemsLaw (ns : List Note) (t : List Item) : Prop :=
  ∀ (k : ℕ) (item : Item), t[k]? = some item → ItemLaw ns k item

def InLoop : Option WorkPc → Prop
  | some (.looping i) => i ≤ 3
  | some (.loaded i _) | some (.stored i _) => i < 3
  | none => True

structure PrintLaw (ns : List Note) (s : State) : Prop where
  loop : ∀ item ∈ s.t, InLoop item.running
  printed : s.log.length =
    3 * ns.countP Note.executed + (s.t.map fun item => printedBy item.running).sum

section

variable {ns ms : List Note} {s t : State} {e : Event} {k : ℕ} {item item' : Item}

@[simp] theorem tries_append : tries (ns ++ ms) = tries ns ++ tries ms := List.filterMap_append

theorem HandlerLaw.elsewhere (h : HandlerLaw ns s) (htries : tries ms = [])
    (hraised : ms.count .raised = 0) (hrejected : ms.countP Note.rejected = 0)
    (hmessage : ms.count .message = 0) (hi : t.i = s.i) (hr : t.line.running = s.line.running) :
    HandlerLaw (ns ++ ms) t := by
  constructor
  · simpa [htries, hi] using h.index
  · simpa [htries] using h.order
  · simpa [htries, hraised, hr] using h.raised
  · simpa [hrejected, hmessage, hr] using h.messages

theorem HandlerLaw.wrap (h : HandlerLaw ns s) (hr : s.line.running = some .entered) :
    HandlerLaw ns { s.goto (some .wrapped) with i := if s.i = NUM then 0 else s.i } := by
  obtain ⟨hindex, horder, hraised, hmessages⟩ := h
  rw [hr] at hraised hmessages
  refine ⟨?_, horder, hraised, hmessages⟩
  rw [← hindex]
  by_cases hi : s.i = NUM
  · simp [hi]
  · simp [hi]

theorem HandlerLaw.try (h : HandlerLaw ns s) (hlt : s.i < NUM)
    (hr : s.line.running = some .wrapped) (ok : Bool) (hi : t.i = s.i + 1)
    (hr' : t.line.running = some (.scheduled ok)) : HandlerLaw (ns ++ [.tried s.i ok]) t := by
  obtain ⟨hindex, horder, hraised, hmessages⟩ := h
  rw [hr] at hraised hmessages
  have hitem : s.i = (tries ns).length % NUM := by rw [← hindex, Nat.mod_eq_of_lt hlt]
  constructor
  · rw [hi, tries_append, List.length_append, Nat.add_mod, hindex, ← Nat.add_mod]
    rfl
  · rw [tries_append, List.length_append]
    change _ ++ [s.i] = List.map _ (List.range (_ + 1))
    rw [List.range_succ, List.map_append, ← horder, List.map_singleton, ← hitem]
  · simp [tries, hr', untried] at hraised ⊢
    omega
  · cases ok with
    | false => simp [hr', unsaid, Note.rejected] at hmessages ⊢; omega
    | true => simpa [hr', unsaid, Note.rejected] using hmessages

theorem HandlerLaw.raise (h : HandlerLaw ns s) (hr : s.line.running = none) (hi : t.i = s.i)
    (hr' : t.line.running = some .entered) : HandlerLaw (ns ++ [.raised]) t := by
  obtain ⟨hindex, horder, hraised, hmessages⟩ := h
  rw [hr] at hraised hmessages
  constructor
  · simpa [tries, hi] using hindex
  · simpa [tries] using horder
  · simp [tries, hr', untried] at hraised ⊢
    omega
  · simpa [hr', unsaid, Note.rejected] using hmessages

theorem HandlerLaw.return (h : HandlerLaw ns s) {ok : Bool}
    (hr : s.line.running = some (.scheduled ok)) :
    HandlerLaw (ns ++ if ok then [] else [.message]) (s.goto none) := by
  obtain ⟨hindex, horder, hraised, hmessages⟩ := h
  rw [hr] at hraised hmessages
  cases ok with
  | true =>
    exact ⟨by simpa using hindex, by simpa using horder, by simpa [untried] using hraised,
      by simpa [unsaid] using hmessages⟩
  | false =>
    constructor
    · simpa [tries] using hindex
    · simpa [tries] using horder
    · simpa [tries, untried] using hraised
    · simp [Note.rejected, unsaid] at hmessages ⊢
      omega

theorem notes_scheduleWork (hi : s.t[s.i]? = some item) :
    notes s .scheduleWork = [.tried s.i (!item.pending)] := by
  simp [notes, hi]

theorem notes_handlerReturn {ok : Bool} (hr : s.line.running = some (.scheduled ok)) :
    notes s .handlerReturn = if ok then [] else [.message] := by
  cases ok <;> simp [notes, hr]

theorem handlerLaw_step (hP : Placed s) (h : HandlerLaw ns s) (hstep : Step s e t) :
    HandlerLaw (ns ++ notes s e) t := by
  cases hstep with
  | requestIrq l hpc hl =>
    obtain ⟨-, rfl⟩ := Line.request_eq_some.mp hl
    exact h.elsewhere rfl rfl rfl rfl rfl rfl
  | freeIrq l hpc hl =>
    obtain ⟨-, rfl⟩ := Line.detach_eq_some.mp hl
    exact h.elsewhere rfl rfl rfl rfl rfl rfl
  | destroyErr1 ret hpc | destroyExit hpc =>
    rw [hP.destroy_eq]
    exact h.elsewhere rfl rfl rfl rfl rfl rfl
  | raise l hl =>
    obtain ⟨-, hr, rfl⟩ := Line.raise_eq_some.mp hl
    exact h.raise hr rfl rfl
  | wrap hr =>
    rw [show notes s .wrap = [] from rfl, List.append_nil]
    exact h.wrap hr
  | reject item hr hi hp =>
    rw [notes_scheduleWork hi, hp]
    exact h.try (hP.lt hr) hr false rfl rfl
  | accept item hr hi hp =>
    rw [notes_scheduleWork hi, eq_false_of_ne_true hp]
    exact h.try (hP.lt hr) hr true rfl rfl
  | handlerReturn ok hr =>
    rw [notes_handlerReturn hr]
    exact h.return hr
  | _ => exact h.elsewhere rfl rfl rfl rfl rfl rfl

theorem count_elsewhere {n : Note} (hns : ∀ m ∈ ms, m.item ≠ n.item) : ms.count n = 0 := by
  apply List.count_eq_zero.mpr
  intro hmem
  exact hns n hmem rfl

theorem ItemLaw.elsewhere (h : ItemLaw ns k item) (hns : ∀ m ∈ ms, m.item ≠ some k) :
    ItemLaw (ns ++ ms) k item := by
  have hsame {n : Note} (hn : n.item = some k) : (ns ++ ms).count n = ns.count n := by
    have hzero : ms.count n = 0 := count_elsewhere fun m hm => hn ▸ hns m hm
    rw [List.count_append, hzero, Nat.add_zero]
  constructor
  · rw [hsame rfl, hsame rfl]
    exact h.1
  · rw [hsame rfl, hsame rfl]
    exact h.2

theorem ItemsLaw.elsewhere (h : ItemsLaw ns s.t) (hns : ∀ m ∈ ms, m.item = none)
    (ht : t.t = s.t) : ItemsLaw (ns ++ ms) t.t := by
  rw [ht]
  intro k item hk
  apply (h k item hk).elsewhere
  intro m hm
  simp [hns m hm]

theorem ItemsLaw.set (h : ItemsLaw ns s.t) (hns : ∀ m ∈ ms, m.item = some k)
    (hk : ItemLaw (ns ++ ms) k item') : ItemsLaw (ns ++ ms) (s.t.set k item') := by
  intro j it hj
  rcases entry_of_set hj with ⟨rfl, rfl⟩ | ⟨hne, hj⟩
  · exact hk
  · apply (h j it hj).elsewhere
    intro m hm
    rw [hns m hm]
    exact fun heq => hne (Option.some.inj heq).symm

theorem itemsLaw_step (hP : Placed s) (h : ItemsLaw ns s.t) (hstep : Step s e t) :
    ItemsLaw (ns ++ notes s e) t.t := by
  cases hstep with
  | initWork i hpc hi =>
    obtain ⟨item, hk⟩ := hP.exists_item hi
    obtain ⟨hp, hr⟩ := hP.idle (by simp [hpc]) item (List.mem_of_getElem? hk)
    apply h.set (by simp [notes])
    have hitem := h i item hk
    simpa [ItemLaw, notes, hp, hr] using hitem
  | destroyErr1 ret hpc | destroyExit hpc =>
    rw [hP.destroy_eq]
    exact h.elsewhere (by simp [notes]) rfl
  | reject item hr hi hp =>
    rw [notes_scheduleWork hi, hp]
    intro k it hk
    obtain ⟨h1, h2⟩ := h k it hk
    simpa [ItemLaw] using h k it hk
  | accept item hr hi hp =>
    rw [notes_scheduleWork hi, eq_false_of_ne_true hp]
    apply h.set (by simp [Note.item])
    have hitem := h _ item hi
    simp [ItemLaw, eq_false_of_ne_true hp] at hitem ⊢
    omega
  | handlerReturn ok hr =>
    rw [notes_handlerReturn hr]
    refine h.elsewhere ?_ rfl
    cases ok <;> simp [Note.item]
  | start k item hk hr hp =>
    apply h.set (by simp [notes, Note.item])
    have hitem := h k item hk
    simp [ItemLaw, notes, hr, hp] at hitem ⊢
    omega
  | load k item i hk hr hi =>
    apply h.set (by simp [notes])
    have hitem := h k item hk
    simpa [ItemLaw, notes, hr] using hitem
  | store k item i old hk hr =>
    apply h.set (by simp [notes])
    have hitem := h k item hk
    simpa [ItemLaw, notes, hr] using hitem
  | print k item i old hk hr =>
    apply h.set (by simp [notes])
    have hitem := h k item hk
    simpa [ItemLaw, notes, hr] using hitem
  | finish k item i hk hr hi =>
    apply h.set (by simp [notes, Note.item])
    have hitem := h k item hk
    simp [ItemLaw, notes, hr] at hitem ⊢
    omega
  | _ => exact h.elsewhere (by simp [notes, Note.item]) rfl

theorem PrintLaw.elsewhere (h : PrintLaw ns s) (hns : ms.countP Note.executed = 0)
    (ht : t.t = s.t) (hlog : t.log = s.log) : PrintLaw (ns ++ ms) t := by
  constructor
  · rw [ht]
    exact h.loop
  · rw [ht, hlog, List.countP_append, hns]
    exact h.printed

theorem PrintLaw.set (h : PrintLaw ns s) (hk : s.t[k]? = some item) (ht : t.t = s.t.set k item')
    (hloop : InLoop item'.running)
    (hlog : t.log.length + printedBy item.running =
      s.log.length + 3 * ms.countP Note.executed + printedBy item'.running) :
    PrintLaw (ns ++ ms) t := by
  constructor
  · intro it hmem
    rw [ht] at hmem
    rcases List.mem_or_eq_of_mem_set hmem with hmem | rfl
    · exact h.loop it hmem
    · exact hloop
  · have hsum := sum_set_add (b := item') (fun item => printedBy item.running) hk
    have hprinted := h.printed
    rw [ht, List.countP_append]
    omega

theorem printLaw_step (hP : Placed s) (h : PrintLaw ns s) (hstep : Step s e t) :
    PrintLaw (ns ++ notes s e) t := by
  have hloop {k : ℕ} {item : Item} (hk : s.t[k]? = some item) : InLoop item.running :=
    h.loop item (List.mem_of_getElem? hk)
  cases hstep with
  | initWork i hpc hi =>
    obtain ⟨item, hk⟩ := hP.exists_item hi
    obtain ⟨-, hr⟩ := hP.idle (by simp [hpc]) item (List.mem_of_getElem? hk)
    exact h.set hk rfl trivial (by simp [notes, State.setItem, State.at, hr])
  | destroyErr1 ret hpc | destroyExit hpc =>
    rw [hP.destroy_eq]
    exact h.elsewhere rfl rfl rfl
  | reject item hr hi hp =>
    exact h.elsewhere (by simp [notes_scheduleWork hi, Note.executed]) rfl rfl
  | accept item hr hi hp =>
    have hrun : InLoop item.running := hloop hi
    exact h.set hi rfl hrun
      (by simp [notes_scheduleWork hi, Note.executed, State.goto, State.setItem])
  | handlerReturn ok hr =>
    refine h.elsewhere ?_ rfl rfl
    cases ok <;> simp [notes_handlerReturn hr, Note.executed]
  | start k item hk hr hp =>
    exact h.set hk rfl (Nat.zero_le 3)
      (by simp [notes, Note.executed, State.setItem, printedBy, hr])
  | load k item i hk hr hi =>
    exact h.set hk rfl hi (by simp [notes, State.setItem, printedBy, hr])
  | store k item i old hk hr =>
    have hlt := hr ▸ hloop hk
    exact h.set hk rfl hlt (by simp [notes, State.setItem, printedBy, hr])
  | print k item i old hk hr =>
    have hlt := hr ▸ hloop hk
    exact h.set hk rfl (Nat.succ_le_of_lt hlt)
      (by simp [notes, printedBy, hr, Nat.add_assoc, Nat.add_comm])
  | finish k item i hk hr hi =>
    have hlast : InLoop (some (.looping i)) := hr ▸ hloop hk
    obtain rfl : i = 3 := Nat.le_antisymm hlast (Nat.not_lt.mp hi)
    exact h.set hk rfl trivial (by simp [notes, Note.executed, State.setItem, printedBy, hr])
  | _ => exact h.elsewhere rfl rfl rfl

end

/-- Interrupts are answered in turn, and no work is lost or executed twice. -/
structure WorkLaw (ns : List Note) (s : State) : Prop where
  handler : HandlerLaw ns s
  items : ItemsLaw ns s.t
  prints : PrintLaw ns s

theorem trace_workLaw {es : List Event} {s : State} (h : workqueueTest.Trace es s) :
    WorkLaw (workqueueTest.observe notes es) s := by
  refine h.invariant_observed (I := WorkLaw) ?_ ?_
  · refine ⟨⟨rfl, rfl, rfl, rfl⟩, ?_, ?_, rfl⟩
    · intro k item hk
      obtain rfl := List.eq_of_mem_replicate (List.mem_of_getElem? hk)
      exact ⟨rfl, rfl⟩
    · intro item hmem
      obtain rfl := List.eq_of_mem_replicate hmem
      trivial
  · intro es s e t hs hI hstep
    have hP := trace_placed hs
    exact ⟨handlerLaw_step hP hI.handler (step_sound hstep),
      itemsLaw_step hP hI.items (step_sound hstep), printLaw_step hP hI.prints (step_sound hstep)⟩

/-- The notes about items name items that exist. -/
def Named (ns : List Note) : Prop := ∀ n ∈ ns, ∀ k, n.item = some k → k < NUM

theorem trace_named {es : List Event} {s : State} (h : workqueueTest.Trace es s) :
    Named (workqueueTest.observe notes es) := by
  refine h.invariant_observed (I := fun ns _ => Named ns) (by simp [Named]) ?_
  intro es s e t hs hI hstep n hn k hk
  rcases List.mem_append.mp hn with hn | hn
  · exact hI n hn k hk
  have hP := trace_placed hs
  have hlt {j : ℕ} {item : Item} (hj : s.t[j]? = some item) : j < NUM := hP.size ▸ lt_length hj
  cases step_sound hstep with
  | reject item hr hi | accept item hr hi =>
    simp only [notes_scheduleWork hi, List.mem_singleton] at hn
    obtain rfl : s.i = k := by simpa [hn, Note.item] using hk
    exact hlt hi
  | handlerReturn ok hr =>
    rw [notes_handlerReturn hr] at hn
    cases ok <;> simp_all [Note.item]
  | start j item hj | finish j item _ hj =>
    simp only [notes, List.mem_singleton] at hn
    obtain rfl : j = k := by simpa [hn, Note.item] using hk
    exact hlt hj
  | _ => simp_all [notes, Note.item]

theorem countP_eq_count_add {p : Note → Bool} {f : ℕ → Note} {ns : List Note} (hns : Named ns)
    (hp : ∀ n, p n → ∃ k, n = f k) (hf : ∀ k, p (f k)) (hitem : ∀ k, (f k).item = some k) :
    ns.countP p = ns.count (f 0) + ns.count (f 1) := by
  induction ns with
  | nil => rfl
  | cons n ns ih =>
    have hrest := ih fun m hm => hns m (List.mem_cons_of_mem n hm)
    have hne {j k : ℕ} (hjk : j ≠ k) : f j ≠ f k := fun heq =>
      hjk (Option.some.inj ((hitem j).symm.trans ((congrArg Note.item heq).trans (hitem k))))
    rw [List.countP_cons, List.count_cons, List.count_cons, hrest]
    by_cases hn : p n
    · obtain ⟨k, rfl⟩ := hp n hn
      have hk : k < 2 := hns _ List.mem_cons_self k (hitem k)
      obtain rfl | rfl : k = 0 ∨ k = 1 := by omega
      · simp [hf, hne Nat.one_ne_zero.symm]
        omega
      · simp [hf, hne Nat.one_ne_zero]
        omega
    · have hother (k : ℕ) : n ≠ f k := fun heq => hn (heq ▸ hf k)
      simp [hn, hother]

def Note.accepted : Note → Bool
  | .tried _ ok => ok
  | _ => false

theorem length_tries (ns : List Note) :
    (tries ns).length = ns.countP Note.accepted + ns.countP Note.rejected := by
  induction ns with
  | nil => rfl
  | cons n ns ih =>
    rw [List.countP_cons, List.countP_cons]
    cases n with
    | tried k ok => cases ok <;> simp_all [tries, Note.accepted, Note.rejected] <;> omega
    | _ => simpa [tries, Note.accepted, Note.rejected] using ih

/-- An item that has been accepted is started before it can be accepted again, and an execution is
over before the next one of the same item starts. -/
def InTurn (ns : List Note) (k : ℕ) : Prop :=
  (ns.count (.started k) ≤ ns.count (.tried k true) ∧
      ns.count (.tried k true) ≤ ns.count (.started k) + 1) ∧
    ns.count (.finished k) ≤ ns.count (.started k) ∧
      ns.count (.started k) ≤ ns.count (.finished k) + 1

theorem ItemLaw.inTurn {ns : List Note} {k : ℕ} {item : Item} (h : ItemLaw ns k item) :
    InTurn ns k := by
  have hpending := item.pending.toNat_le
  have hrunning := item.running.isSome.toNat_le
  obtain ⟨htried, hstarted⟩ := h
  constructor <;> omega

theorem trace_inTurn {es : List Event} {s : State} (h : workqueueTest.Trace es s) {k : ℕ}
    (hk : k < NUM) : InTurn (workqueueTest.observe notes es) k := by
  obtain ⟨item, hi⟩ := (trace_placed h).exists_item hk
  exact ((trace_workLaw h).items k item hi).inTurn

/-- Each interrupt has its turn. At every moment the tries that were accepted, the starts and the
ends of an item alternate, and when everything has come to rest each interrupt was answered by one
execution of its item or by the message. -/
theorem interrupts_answered {es : List Event} {s : State} (h : workqueueTest.Trace es s)
    (hline : s.line.running = none)
    (hrest : ∀ item ∈ s.t, item.pending = false ∧ item.running = none) :
    tries (workqueueTest.observe notes es) =
        (List.range ((workqueueTest.observe notes es).count .raised)).map (· % NUM) ∧
      (∀ pre, pre <+: es → ∀ k < NUM, InTurn (workqueueTest.observe notes pre) k) ∧
      (∀ k < NUM, (workqueueTest.observe notes es).count (.tried k true) =
        (workqueueTest.observe notes es).count (.finished k)) ∧
      (workqueueTest.observe notes es).count .raised =
        (workqueueTest.observe notes es).countP Note.executed +
          (workqueueTest.observe notes es).count .message := by
  have hturn (pre : List Event) (hpre : pre <+: es) (k : ℕ) (hk : k < NUM) :
      InTurn (workqueueTest.observe notes pre) k := by
    obtain ⟨rest, rfl⟩ := hpre
    obtain ⟨u, hu, -⟩ := h.split
    exact trace_inTurn hu hk
  have hnamed := trace_named h
  have hlaw := trace_workLaw h
  generalize workqueueTest.observe notes es = ns at *
  have hraised : ns.count .raised = (tries ns).length := by
    have hraised := hlaw.handler.raised
    rwa [hline] at hraised
  have hmessages : ns.countP Note.rejected = ns.count .message := by
    have hmessages := hlaw.handler.messages
    rwa [hline] at hmessages
  have hitem (k : ℕ) (hk : k < NUM) : ns.count (.tried k true) = ns.count (.finished k) := by
    obtain ⟨item, hi⟩ := (trace_placed h).exists_item hk
    obtain ⟨hp, hr⟩ := hrest item (List.mem_of_getElem? hi)
    have hboth := hlaw.items k item hi
    simp only [ItemLaw, hp, hr] at hboth
    exact hboth.1.trans hboth.2
  refine ⟨hraised ▸ hlaw.handler.order, hturn, hitem, ?_⟩
  have haccepted : ns.countP Note.accepted = ns.countP Note.executed := by
    rw [countP_eq_count_add (f := fun k => .tried k true) hnamed, countP_eq_count_add
      (f := .finished) hnamed, hitem 0 Nat.two_pos, hitem 1 Nat.one_lt_two]
    · intro n hn
      cases n <;> simp_all [Note.executed]
    · simp [Note.executed]
    · simp [Note.item]
    · intro n hn
      cases n <;> simp_all [Note.accepted]
    · simp [Note.accepted]
    · simp [Note.item]
  rw [hraised, length_tries, haccepted, hmessages]

def loading : List Event :=
  [.initWork, .initWork, .gpioRequest, .gpioDirectionInput, .requestIrq 0]

def interrupt : List Event := [.raise, .wrap, .scheduleWork, .handlerReturn]

def counting (k : ℕ) : List Event := [.load k, .store k, .print k]

/-- The third interrupt finds its item pending, the fourth finds its item in progress. -/
def fourInterrupts : List Event :=
  loading ++ interrupt ++ interrupt ++ interrupt ++ [.start 1] ++ interrupt ++ [.start 0] ++
    (List.replicate 3 (counting 0 ++ counting 1)).flatten ++ [.finish 1, .finish 0, .start 1] ++
    (List.replicate 3 (counting 1)).flatten ++ [.finish 1]

theorem interrupts_answered_four : (workqueueTest.observe notes fourInterrupts).count .raised =
    (workqueueTest.observe notes fourInterrupts).countP Note.executed +
      (workqueueTest.observe notes fourInterrupts).count .message := by
  obtain ⟨s, hs⟩ : ∃ s, workqueueTest.run fourInterrupts = some s := ⟨_, rfl⟩
  have hend : s.line.running = none ∧
      ∀ item ∈ s.t, item.pending = false ∧ item.running = none := by
    obtain rfl := Option.some.inj hs
    decide
  exact (interrupts_answered (System.trace_of_run hs) hend.1 hend.2).2.2.2

def unstored (item : Item) : Multiset (BitVec 32) :=
  match item.running with
  | some (.loaded _ old) => {old}
  | _ => 0

def unprinted (item : Item) : Multiset (BitVec 32) :=
  match item.running with
  | some (.loaded _ old) | some (.stored _ old) => {old}
  | _ => 0

def counter (s : State) : Counter (BitVec 32) := ofPool unstored unprinted s.cnt s.log s.t

def isLoad : Event → Bool
  | .load _ => true
  | _ => false

section

variable {s t : State} {e : Event} {k : ℕ} {item item' : Item}

/-- A step takes a value exactly where it is a load. -/
def Counts (e : Event) (c d : Counter (BitVec 32)) : Prop :=
  Access (· + 1) c d ∧ d.taken = if isLoad e then c.value ::ₘ c.taken else c.taken

theorem counts_kept (he : ¬ isLoad e) (hsame : counter t = counter s) :
    Counts e (counter s) (counter t) := by
  rw [hsame, Counts, if_neg he]
  exact ⟨.idle _, rfl⟩

theorem counts_set (he : ¬ isLoad e) (hk : s.t[k]? = some item) (ht : t.t = s.t.set k item')
    (hcnt : t.cnt = s.cnt) (hstored : unstored item' = unstored item)
    (hprinted : ↑t.log + unprinted item' = ↑s.log + unprinted item) :
    Counts e (counter s) (counter t) := by
  apply counts_kept he
  rw [counter, counter, ht, hcnt]
  exact ofPool_idle hk hstored hprinted

theorem counts_load {i : ℕ} (hk : s.t[k]? = some item) (hr : item.running = some (.looping i)) :
    Counts (.load k) (counter s)
      (counter (s.setItem k { item with running := some (.loaded i s.cnt) })) := by
  rw [Counts, if_pos (show isLoad (Event.load k) from rfl)]
  exact ofPool_load hk (by simp [unstored, hr]) (by simp [unprinted, hr]) rfl rfl

theorem counts_store {i : ℕ} {old : BitVec 32} (hk : s.t[k]? = some item)
    (hr : item.running = some (.loaded i old)) :
    Counts (.store k) (counter s) (counter
      { s.setItem k { item with running := some (.stored i old) } with cnt := old + 1 }) := by
  have hold : unstored item = {old} := by simp [unstored, hr]
  rw [Counts, if_neg (by simp [isLoad])]
  exact ofPool_store hk hold rfl (by simp [unprinted, hr])

theorem counts_step (hP : Placed s) (hstep : Step s e t) : Counts e (counter s) (counter t) := by
  cases hstep with
  | initWork i hpc hi =>
    obtain ⟨item, hk⟩ := hP.exists_item hi
    obtain ⟨-, hr⟩ := hP.idle (by simp [hpc]) item (List.mem_of_getElem? hk)
    exact counts_set (by simp [isLoad]) hk rfl rfl (by simp [unstored, hr])
      (by simp [unprinted, hr, State.setItem, State.at])
  | destroyErr1 ret hpc | destroyExit hpc =>
    rw [hP.destroy_eq]
    exact counts_kept (by simp [isLoad]) rfl
  | accept item hr hi hp => exact counts_set (by simp [isLoad]) hi rfl rfl rfl rfl
  | start k item hk hr hp | finish k item i hk hr hi =>
    exact counts_set (by simp [isLoad]) hk rfl rfl (by simp [unstored, hr])
      (by simp [unprinted, hr])
  | load k item i hk hr hi => exact counts_load hk hr
  | store k item i old hk hr => exact counts_store hk hr
  | print k item i old hk hr =>
    exact counts_set (by simp [isLoad]) hk rfl rfl (by simp [unstored, hr])
      (by simp [unprinted, hr, ← Multiset.coe_add])
  | _ => exact counts_kept (by simp [isLoad]) rfl

end

theorem shares : Shares workqueueTest (· + 1) 0 counter isLoad := by
  constructor
  · rfl
  · intro es s e t hs hstep
    exact (counts_step (trace_placed hs) (step_sound hstep)).1
  · intro es s e t hs hstep
    exact (counts_step (trace_placed hs) (step_sound hstep)).2

def betweenLoadAndStore (item : Item) : Bool :=
  match item.running with
  | some (.loaded _ _) => true
  | _ => false

/-- The condition on a step: `cnt` is loaded only while no other execution is about to store. -/
def LoadsApart (s : State) (e : Event) : Prop := isLoad e → ∀ item ∈ s.t, ¬ betweenLoadAndStore item

instance (s : State) (e : Event) : Decidable (LoadsApart s e) :=
  inferInstanceAs (Decidable (_ → _))

theorem apart_iff (s : State) (e : Event) : Apart counter isLoad s e ↔ LoadsApart s e := by
  refine imp_congr_right fun _ => ?_
  have hsum : (counter s).pending = 0 ↔ ∀ item ∈ s.t, unstored item = 0 := by
    change (s.t.map unstored).sum = 0 ↔ _
    rw [List.sum_eq_zero_iff]
    exact List.forall_mem_map
  rw [hsum]
  refine forall₂_congr fun item _ => ?_
  unfold unstored betweenLoadAndStore
  split <;> simp

theorem taken_idle {s : State} (h : ∀ item ∈ s.t, item.running = none) :
    (counter s).taken = ↑s.log := by
  have hzero : (s.t.map unprinted).sum = 0 := by
    apply List.sum_eq_zero
    simp +contextual [unprinted, h]
  rw [counter, ofPool, hzero, add_zero]

/-- The executions that have ended. -/
def executed (es : List Event) : ℕ := (workqueueTest.observe notes es).countP Note.executed

theorem length_log_idle {es : List Event} {s : State} (h : workqueueTest.Trace es s)
    (hidle : ∀ item ∈ s.t, item.running = none) : s.log.length = 3 * executed es := by
  have hzero : (s.t.map fun item => printedBy item.running).sum = 0 := by
    apply List.sum_eq_zero
    simp +contextual [printedBy, hidle]
  rw [(trace_workLaw h).prints.printed, hzero]
  rfl

/-- Between the executions of the two items counts are repeated and lost, in exactly the runs in
which one of them loads `cnt` between the load and the store of the other. The runs are those in
which no execution is in progress at the end and `cnt` has not wrapped. -/
theorem counts_complete_iff {es : List Event} {s : State} (h : workqueueTest.Trace es s)
    (hidle : ∀ item ∈ s.t, item.running = none) (hsmall : 3 * executed es ≤ 2 ^ 32) :
    (∀ v ∈ s.log, ∃ k < 3 * executed es, v = BitVec.ofNat 32 k) ∧
      (s.log.Perm ((List.range (3 * executed es)).map (BitVec.ofNat 32)) ↔
        workqueueTest.EachStep LoadsApart es) := by
  have htaken := taken_idle hidle
  have hloads : es.countP isLoad = 3 * executed es := by
    rw [← shares.card_taken h, htaken, Multiset.coe_card]
    exact length_log_idle h hidle
  constructor
  · intro v hv
    obtain ⟨k, hk, hvk⟩ := (shares.counted h).taken v (htaken ▸ Multiset.mem_coe.mpr hv)
    rw [shares.card_taken h, hloads] at hk
    exact ⟨k, hk, hvk.trans (iterate_increment k)⟩
  · have hiff := shares.taken_iff_apart h (injOn_increment (hloads ▸ hsmall))
    simp only [htaken, hloads, iterate_increment] at hiff
    rw [← h.eachStep_congr fun _ _ => apart_iff _ _, ← hiff]
    exact Multiset.coe_eq_coe.symm

/-- Both items are executed at the same time, and take turns at the counter. -/
def alternating : List Event :=
  loading ++ interrupt ++ interrupt ++ [.start 0, .start 1, .load 0, .store 0, .load 1, .store 1,
    .print 1, .print 0, .load 1, .store 1, .load 0, .store 0, .print 0, .print 1, .load 0, .store 0,
    .print 0, .load 1, .store 1, .finish 0, .print 1, .finish 1]

theorem counts_complete_alternating : workqueueTest.EachStep LoadsApart alternating := by
  obtain ⟨s, hs⟩ : ∃ s, workqueueTest.run alternating = some s := ⟨_, rfl⟩
  have hend : (∀ item ∈ s.t, item.running = none) ∧ s.log.Perm [0, 1, 2, 3, 4, 5] := by
    obtain rfl := Option.some.inj hs
    decide
  exact (counts_complete_iff (System.trace_of_run hs) hend.1 (by decide)).2.mp hend.2

theorem oops_of_destroy {s t : State} (hP : Placed s) (hstep : Step s .destroyWorkqueue t) :
    t.driver = .oops := by
  cases hstep with
  | destroyErr1 ret hpc => simp [hP.destroy_eq]
  | destroyExit hpc => simp [hP.destroy_eq]

theorem oops_step {s t : State} {e : Event} (h : s.driver = .oops) (hstep : Step s e t) :
    t.driver = .oops := by
  cases hstep with
  | raise | wrap | reject | accept | handlerReturn | start | load | store | print | finish =>
    exact h
  | _ => simp_all

/-- `wq` is never created: the failed init and the exit crash in `destroy_workqueue`, whatever
the interrupt and the workers do before and after. -/
theorem destroy_never_returns {es : List Event} {s : State} (h : workqueueTest.Trace es s) :
    s.driver ≠ .exited ∧ (∀ ret, s.driver ≠ .failed ret) ∧
      (.destroyWorkqueue ∈ es → s.driver = .oops ∧ s.line.Silent) := by
  have hP := trace_placed h
  refine ⟨hP.stays.1, hP.stays.2, fun hmem => ?_⟩
  obtain ⟨xs, ys, rfl⟩ := List.mem_iff_append.mp hmem
  obtain ⟨u, v, hu, hstep, -, hpath⟩ := h.split_at
  have hv : v.driver = .oops := oops_of_destroy (trace_placed hu) (step_sound hstep)
  have hs : s.driver = .oops := hpath.stable (I := fun u => u.driver = .oops) hv
    fun hI hstep => oops_step hI (step_sound hstep)
  exact ⟨hs, hP.silent (by simp [hs]) (by simp [hs])⟩

def removed : List Event :=
  loading ++ interrupt ++ [.start 0, .load 0, .freeIrq, .synchronizeIrq, .destroyWorkqueue,
    .store 0, .print 0]

theorem destroy_never_returns_removed :
    ∃ s, workqueueTest.Trace removed s ∧ s.driver = .oops ∧ s.log = [0] := by
  obtain ⟨s, hs⟩ : ∃ s, workqueueTest.run removed = some s := ⟨_, rfl⟩
  have htrace := System.trace_of_run hs
  refine ⟨s, htrace, ((destroy_never_returns htrace).2.2 (by decide)).1, ?_⟩
  obtain rfl := Option.some.inj hs
  rfl

end IrqSystemWorkqueueRuns
