import LinuxDriver.TransitionSystem
import LinuxDriver.CallPool
import LinuxDriver.KernelTypes

/-!
# sync/completion: readers that wait for a write

`my_misc_write` runs `complete_all` on the completion of the driver, and
`my_misc_read` waits for it. `complete_all` lets every present and future wait through
until the completion is initialised again, which only `my_misc_init` does.
-/
namespace SyncCompletion

open TransitionSystem CallPool KernelTypes

/-- The kernel's `struct completion`, as far as waiters can tell its states apart. -/
structure Completion where
  done : Bool
  deriving DecidableEq, Repr

def initCompletion : Completion := ⟨false⟩

def completeAll (_ : Completion) : Completion := ⟨true⟩

inductive ReadPc where
  | waiting
  | passed
  | interrupted
  | returned
  deriving DecidableEq, Repr

structure Read where
  count : ℕ
  pc : ReadPc
  deriving DecidableEq, Repr

def Read.rc (r : Read) : Option ℤ :=
  match r.pc with
  | .interrupted => some (-ERESTARTSYS)
  | .returned => some r.count
  | _ => none

inductive WritePc where
  | entered
  | notified
  | returned
  deriving DecidableEq, Repr

structure Write where
  count : ℕ
  pc : WritePc
  deriving DecidableEq, Repr

def Write.rc (w : Write) : Option ℤ :=
  match w.pc with
  | .returned => some w.count
  | _ => none

structure State where
  com : Completion
  reads : List Read
  writes : List Write
  deriving DecidableEq, Repr

/-- `pass` and `interrupt` are the two ways in which the wait of a read ends: with 0, and
with a non-zero value because of a signal. -/
inductive Event where
  | read (count : ℕ)
  | pass (i : ℕ)
  | interrupt (i : ℕ)
  | finishRead (i : ℕ)
  | write (count : ℕ)
  | completeAll (j : ℕ)
  | finishWrite (j : ℕ)
  deriving DecidableEq, Repr

def State.putRead (s : State) (i : ℕ) (r : Read) : State := { s with reads := s.reads.set i r }

def State.putWrite (s : State) (j : ℕ) (w : Write) : State :=
  { s with writes := s.writes.set j w }

def stepRead (s : State) (i : ℕ) (r : Read) : Event → ReadPc → Option State
  | .pass _, .waiting => if s.com.done then some (s.putRead i { r with pc := .passed }) else none
  | .interrupt _, .waiting => some (s.putRead i { r with pc := .interrupted })
  | .finishRead _, .passed => some (s.putRead i { r with pc := .returned })
  | _, _ => none

def stepWrite (s : State) (j : ℕ) (w : Write) : Event → WritePc → Option State
  | .completeAll _, .entered =>
    some { s.putWrite j { w with pc := .notified } with com := completeAll s.com }
  | .finishWrite _, .notified => some (s.putWrite j { w with pc := .returned })
  | _, _ => none

def step (s : State) : Event → Option State
  | .read count => some { s with reads := s.reads ++ [⟨count, .waiting⟩] }
  | .write count => some { s with writes := s.writes ++ [⟨count, .entered⟩] }
  | .pass i => s.reads[i]?.bind fun r => stepRead s i r (.pass i) r.pc
  | .interrupt i => s.reads[i]?.bind fun r => stepRead s i r (.interrupt i) r.pc
  | .finishRead i => s.reads[i]?.bind fun r => stepRead s i r (.finishRead i) r.pc
  | .completeAll j => s.writes[j]?.bind fun w => stepWrite s j w (.completeAll j) w.pc
  | .finishWrite j => s.writes[j]?.bind fun w => stepWrite s j w (.finishWrite j) w.pc

def myMiscInit : State := ⟨initCompletion, [], []⟩

def completion : System State Event := ⟨myMiscInit, step⟩

inductive Step : State → Event → State → Prop where
  | read (s count) : Step s (.read count) { s with reads := s.reads ++ [⟨count, .waiting⟩] }
  | write (s count) : Step s (.write count) { s with writes := s.writes ++ [⟨count, .entered⟩] }
  | pass (s i r) (hi : s.reads[i]? = some r) (hpc : r.pc = .waiting) (hdone : s.com.done) :
      Step s (.pass i) (s.putRead i { r with pc := .passed })
  | interrupt (s i r) (hi : s.reads[i]? = some r) (hpc : r.pc = .waiting) :
      Step s (.interrupt i) (s.putRead i { r with pc := .interrupted })
  | finishRead (s i r) (hi : s.reads[i]? = some r) (hpc : r.pc = .passed) :
      Step s (.finishRead i) (s.putRead i { r with pc := .returned })
  | completeAll (s j w) (hj : s.writes[j]? = some w) (hpc : w.pc = .entered) :
      Step s (.completeAll j)
        { s.putWrite j { w with pc := .notified } with com := completeAll s.com }
  | finishWrite (s j w) (hj : s.writes[j]? = some w) (hpc : w.pc = .notified) :
      Step s (.finishWrite j) (s.putWrite j { w with pc := .returned })

theorem step_sound {s t : State} {e : Event} (h : step s e = some t) : Step s e t := by
  cases e with
  | read count => exact Option.some.inj h ▸ .read s count
  | write count => exact Option.some.inj h ▸ .write s count
  | pass i =>
    obtain ⟨r, hr, h⟩ := Option.bind_eq_some_iff.mp h
    cases hpc : r.pc <;> simp only [hpc, stepRead, reduceCtorEq] at h
    obtain ⟨hdone, h⟩ := Option.ite_none_right_eq_some.mp h
    exact Option.some.inj h ▸ .pass s i r hr hpc hdone
  | interrupt i =>
    obtain ⟨r, hr, h⟩ := Option.bind_eq_some_iff.mp h
    cases hpc : r.pc <;> simp only [hpc, stepRead, reduceCtorEq] at h
    exact Option.some.inj h ▸ .interrupt s i r hr hpc
  | finishRead i =>
    obtain ⟨r, hr, h⟩ := Option.bind_eq_some_iff.mp h
    cases hpc : r.pc <;> simp only [hpc, stepRead, reduceCtorEq] at h
    exact Option.some.inj h ▸ .finishRead s i r hr hpc
  | completeAll j =>
    obtain ⟨w, hw, h⟩ := Option.bind_eq_some_iff.mp h
    cases hpc : w.pc <;> simp only [hpc, stepWrite, reduceCtorEq] at h
    exact Option.some.inj h ▸ .completeAll s j w hw hpc
  | finishWrite j =>
    obtain ⟨w, hw, h⟩ := Option.bind_eq_some_iff.mp h
    cases hpc : w.pc <;> simp only [hpc, stepWrite, reduceCtorEq] at h
    exact Option.some.inj h ▸ .finishWrite s j w hw hpc

structure Blocked (i : ℕ) (s : State) : Prop where
  pending : s.com.done = false
  stays : ∀ r : Read, s.reads[i]? = some r → r.pc = .waiting ∨ r.pc = .interrupted

def Event.completes : Event → Bool
  | .completeAll _ => true
  | _ => false

theorem Event.completes_iff {e : Event} : e.completes ↔ ∃ j, e = .completeAll j := by
  cases e <;> simp [completes]

theorem blocked_step {i : ℕ} {s t : State} {e : Event} (he : ¬ e.completes) (h : Blocked i s)
    (hstep : Step s e t) : Blocked i t := by
  cases hstep with
  | read count =>
    refine ⟨h.pending, fun r hr => ?_⟩
    rcases entry_of_spawn hr with hr | ⟨-, rfl⟩
    · exact h.stays r hr
    · exact .inl rfl
  | write count => exact ⟨h.pending, h.stays⟩
  | pass k r hk hpc hdone => simp [h.pending] at hdone
  | interrupt k r hk hpc =>
    refine ⟨h.pending, fun d hd => ?_⟩
    rcases entry_of_set hd with ⟨rfl, rfl⟩ | ⟨-, hd⟩
    · exact .inr rfl
    · exact h.stays d hd
  | finishRead k r hk hpc =>
    refine ⟨h.pending, fun d hd => ?_⟩
    rcases entry_of_set hd with ⟨rfl, rfl⟩ | ⟨-, hd⟩
    · have hstays := h.stays r hk
      simp [hpc] at hstays
    · exact h.stays d hd
  | completeAll j w hj hpc => exact absurd rfl he
  | finishWrite j w hj hpc => exact ⟨h.pending, h.stays⟩

theorem blocked_path {i : ℕ} {s t : State} {es : List Event} (h : completion.Path s es t)
    (hes : ∀ j, Event.completeAll j ∉ es) (hs : Blocked i s) : Blocked i t := by
  have hquiet : ∀ e ∈ es, ¬ e.completes := by
    intro e he hc
    obtain ⟨j, rfl⟩ := Event.completes_iff.mp hc
    exact hes j he
  exact h.stable_on hquiet hs fun he hI hstep => blocked_step he hI (step_sound hstep)

theorem pc_of_rc_count {r : Read} (h : r.rc = some (r.count : ℤ)) : r.pc = .returned := by
  unfold Read.rc at h
  split at h
  · have hneg := Option.some.inj h
    simp only [ERESTARTSYS] at hneg
    omega
  · assumption
  · cases h

/-- Nothing in the driver initialises the completion again. -/
theorem done_iff_completed {s : State} {es : List Event} (h : completion.Trace es s) :
    s.com.done ↔ ∃ j, Event.completeAll j ∈ es := by
  induction h with
  | nil => simp [completion, myMiscInit, initCompletion]
  | snoc hs hstep ih =>
    cases step_sound hstep <;> simp [State.putRead, State.putWrite, completeAll, ih]

/-- The read that starts in state `p` and has returned `count` in state `s` was notified by
one of the events between the two. -/
def NotifiedSince (p : State) (mid : List Event) (s : State) : Prop :=
  ∀ r : Read, s.reads[p.reads.length]? = some r → r.rc = some (r.count : ℤ) →
    ∃ j, Event.completeAll j ∈ mid

/-- For every read of the run that has returned `count`, some `complete_all` was executed
after that read had started. -/
def ReadsNotified (es : List Event) (s : State) : Prop :=
  ∀ pre count mid p, es = pre ++ .read count :: mid → completion.Trace pre p →
    NotifiedSince p mid s

def Event.startsRead : Event → Bool
  | .read _ => true
  | _ => false

/-- A read starts only while the completion is not done. -/
def BeforeCompletion (s : State) (e : Event) : Prop := e.startsRead → s.com.done = false

instance (s : State) (e : Event) : Decidable (BeforeCompletion s e) :=
  inferInstanceAs (Decidable (_ → _))

theorem notified_of_pending {pre mid : List Event} {count : ℕ} {p s : State}
    (hpre : completion.Trace pre p) (h : completion.Trace (pre ++ .read count :: mid) s)
    (hdone : p.com.done = false) : NotifiedSince p mid s := by
  obtain ⟨q, u, hq, hstep, -, hpath⟩ := h.split_at
  obtain rfl := hq.functional hpre
  obtain rfl : _ = u := Option.some.inj hstep
  intro r hr hrc
  by_contra hnone
  have hstart : Blocked q.reads.length { q with reads := q.reads ++ [⟨count, .waiting⟩] } := by
    refine ⟨hdone, fun d hd => ?_⟩
    obtain rfl := Option.some.inj (hd.symm.trans spawn_entry)
    exact .inl rfl
  have hend := blocked_path hpath (fun j hj => hnone ⟨j, hj⟩) hstart
  have hstays := hend.stays r hr
  simp [pc_of_rc_count hrc] at hstays

theorem read_passes {p : State} (count : ℕ) (hdone : p.com.done) :
    completion.Path p [.read count, .pass p.reads.length, .finishRead p.reads.length]
      { p with reads := p.reads ++ [⟨count, .returned⟩] } := by
  simp [System.path_cons, System.path_nil, completion, step, stepRead, State.putRead, hdone]

theorem notified_iff_pending {pre : List Event} {p : State} (count : ℕ)
    (hpre : completion.Trace pre p) :
    (∀ mid s, completion.Trace (pre ++ .read count :: mid) s → NotifiedSince p mid s) ↔
      p.com.done = false := by
  constructor
  · intro h
    by_contra hdone
    have hpasses := hpre.append (read_passes count (Bool.not_eq_false _ ▸ hdone))
    obtain ⟨j, hj⟩ := h _ _ hpasses _ spawn_entry rfl
    simp at hj
  · intro hdone mid s h
    exact notified_of_pending hpre h hdone

/-- Reads that start before anything has completed are notified while they wait, and only
these: at every other start the read may return without a later write. -/
theorem reads_notified : ∀ es s, completion.Trace es s →
    (completion.EachStep BeforeCompletion es → ReadsNotified es s) ∧
    ∀ count, (∀ mid t, completion.Trace (es ++ .read count :: mid) t → NotifiedSince s mid t) ↔
      BeforeCompletion s (.read count) := by
  intro es s h
  constructor
  · rintro hearly pre count mid p rfl hp
    have hdone := hearly pre (.read count) p ⟨mid, by simp⟩ hp rfl
    exact notified_of_pending hp h hdone
  · intro count
    rw [notified_iff_pending count h]
    exact ⟨fun hdone _ => hdone, fun hdone => hdone rfl⟩

def oneRound : List Event :=
  [.read 4, .read 2, .write 1, .interrupt 1, .completeAll 0, .finishWrite 0, .pass 0,
    .finishRead 0]

theorem reads_notified_oneRound :
    ReadsNotified oneRound ⟨⟨true⟩, [⟨4, .returned⟩, ⟨2, .interrupted⟩], [⟨1, .returned⟩]⟩ ∧
    ∀ mid s, completion.Trace ([] ++ .read 4 :: mid) s → NotifiedSince myMiscInit mid s :=
  ⟨(reads_notified _ _ (System.trace_of_run (by decide))).1 (System.eachStep_of_check (by decide)),
    ((reads_notified [] myMiscInit .nil).2 4).mpr fun _ => rfl⟩

/-- A write, and a reader that arrives after it has finished. -/
theorem late_read_not_notified :
    ¬ ∀ es s, completion.Trace es s → ReadsNotified es s := by
  intro h
  have hrun : completion.Trace
      ([.write 1, .completeAll 0, .finishWrite 0] ++ [.read 1, .pass 0, .finishRead 0])
      ⟨⟨true⟩, [⟨1, .returned⟩], [⟨1, .returned⟩]⟩ := System.trace_of_run (by decide)
  have hpre : completion.Trace [.write 1, .completeAll 0, .finishWrite 0]
      ⟨⟨true⟩, [], [⟨1, .returned⟩]⟩ := System.trace_of_run (by decide)
  obtain ⟨j, hj⟩ := h _ _ hrun _ 1 [.pass 0, .finishRead 0] _ rfl hpre ⟨1, .returned⟩ rfl rfl
  simp at hj

end SyncCompletion
