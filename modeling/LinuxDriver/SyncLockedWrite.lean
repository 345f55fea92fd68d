import LinuxDriver.TransitionSystem
import LinuxDriver.CallPool
import LinuxDriver.CountingLock
import LinuxDriver.CMemory
import LinuxDriver.KernelTypes
import LinuxDriver.NumberedBlocks

/-!
# sync/mutex, sync/spinlock and sync/semaphore: three lines under a lock

The three drivers share one `my_misc_write` up to the lock around its loop. The loop body
`cnt++` followed by the print is three steps: load the shared static `cnt`, store the
successor, print the pair. `msleep` and `mdelay` change nothing that is modelled.
-/
namespace SyncLockedWrite

open TransitionSystem CallPool KernelTypes CMemory CountingLock NumberedBlocks

abbrev Text := List UInt8

inductive Pc where
  | entered
  | copied
  | looping (i : ℕ)
  | loaded (i : ℕ) (old : BitVec 32)
  | stored (i : ℕ) (old : BitVec 32)
  | fault
  | done
  deriving DecidableEq, Repr

structure Call where
  buf : Text
  kbuf : Text
  pc : Pc
  deriving DecidableEq, Repr

def Call.count (c : Call) : ℕ := c.buf.length

def Call.rc (c : Call) : Option ℤ :=
  match c.pc with
  | .fault => some (-EFAULT)
  | .done => some c.count
  | _ => none

/-- The text of a call: what `%s` prints of the copied and terminated bytes. -/
def Call.text (c : Call) : Text := cString (c.buf ++ [0])

@[simp] def Pc.inside : Pc → Bool
  | .looping _ | .loaded _ _ | .stored _ _ => true
  | _ => false

@[simp] def Pc.pastLock (pc : Pc) : Bool := pc.inside || pc == .done

def Call.inside (c : Call) : Bool := c.pc.inside

theorem Call.inside_of {c : Call} {pc : Pc} (h : c.pc = pc) : c.inside = pc.inside := h ▸ rfl

structure State (L : Type) where
  lock : L
  cnt : BitVec 32
  log : List (BitVec 32 × Text)
  calls : List Call
  deriving DecidableEq, Repr

/-- `copy i ret` carries the result of `copy_from_user`, the number of bytes not copied. -/
inductive Event where
  | write (buf : Text)
  | copy (i ret : ℕ)
  | acquire (i : ℕ)
  | load (i : ℕ)
  | store (i : ℕ)
  | print (i : ℕ)
  | release (i : ℕ)
  deriving DecidableEq, Repr

variable {L : Type}

def State.put (s : State L) (i : ℕ) (c : Call) : State L := { s with calls := s.calls.set i c }

def stepCall (K : Lock L) (s : State L) (i : ℕ) (c : Call) : Event → Pc → Option (State L)
  | .copy _ ret, .entered =>
    if ret ≤ c.count then
      if ret ≠ 0 then some (s.put i { c with pc := .fault })
      else some (s.put i { c with kbuf := c.buf ++ [0], pc := .copied })
    else none
  | .acquire _, .copied =>
    (K.acquire s.lock i).map fun l => { s.put i { c with pc := .looping 0 } with lock := l }
  | .load _, .looping k =>
    if k < 3 then some (s.put i { c with pc := .loaded k s.cnt }) else none
  | .store _, .loaded k old =>
    some { s.put i { c with pc := .stored k old } with cnt := old + 1 }
  | .print _, .stored k old =>
    some { s.put i { c with pc := .looping (k + 1) } with log := s.log ++ [(old, cString c.kbuf)] }
  | .release _, .looping k =>
    if k < 3 then none
    else some { s.put i { c with pc := .done } with lock := K.release s.lock i }
  | _, _ => none

def Event.caller : Event → Option ℕ
  | .write _ => none
  | .copy i _ | .acquire i | .load i | .store i | .print i | .release i => some i

def step (K : Lock L) (s : State L) : Event → Option (State L)
  | .write buf => some { s with calls := s.calls ++ [⟨buf, [], .entered⟩] }
  | e => e.caller.bind fun i => s.calls[i]?.bind fun c => stepCall K s i c e c.pc

def myMiscInit (K : Lock L) : State L := ⟨K.init, 0, [], []⟩

def lockedWrite (K : Lock L) : System (State L) Event := ⟨myMiscInit K, step K⟩

/-- `my_misc_write` of sync/mutex/test.c. -/
def mutexWrite : System (State (Option ℕ)) Event := lockedWrite mutex
/-- `my_misc_write` of sync/spinlock/test.c. -/
def spinlockWrite : System (State Bool) Event := lockedWrite spinlock
/-- `my_misc_write` of sync/semaphore/test.c, after `sema_init(&test_t.sem, 2)`. -/
def semaphoreWrite : System (State ℕ) Event := lockedWrite (semaphore 2)

inductive Step (K : Lock L) : State L → Event → State L → Prop where
  | write (s buf) : Step K s (.write buf) { s with calls := s.calls ++ [⟨buf, [], .entered⟩] }
  | fault (s i c ret) (hi : s.calls[i]? = some c) (hpc : c.pc = .entered) (hret : ret ≠ 0) :
      Step K s (.copy i ret) (s.put i { c with pc := .fault })
  | copy (s i c) (hi : s.calls[i]? = some c) (hpc : c.pc = .entered) :
      Step K s (.copy i 0) (s.put i { c with kbuf := c.buf ++ [0], pc := .copied })
  | acquire (s i c l) (hi : s.calls[i]? = some c) (hpc : c.pc = .copied)
      (hl : K.acquire s.lock i = some l) :
      Step K s (.acquire i) { s.put i { c with pc := .looping 0 } with lock := l }
  | load (s i c k) (hi : s.calls[i]? = some c) (hpc : c.pc = .looping k) (hk : k < 3) :
      Step K s (.load i) (s.put i { c with pc := .loaded k s.cnt })
  | store (s i c k old) (hi : s.calls[i]? = some c) (hpc : c.pc = .loaded k old) :
      Step K s (.store i) { s.put i { c with pc := .stored k old } with cnt := old + 1 }
  | print (s i c k old) (hi : s.calls[i]? = some c) (hpc : c.pc = .stored k old) :
      Step K s (.print i)
        { s.put i { c with pc := .looping (k + 1) } with
          log := s.log ++ [(old, cString c.kbuf)] }
  | release (s i c k) (hi : s.calls[i]? = some c) (hpc : c.pc = .looping k) (hk : ¬ k < 3) :
      Step K s (.release i)
        { s.put i { c with pc := .done } with lock := K.release s.lock i }

theorem stepCall_sound {K : Lock L} {s t : State L} {i : ℕ} {c : Call} {e : Event}
    (hi : s.calls[i]? = some c) (he : e.caller = some i)
    (h : stepCall K s i c e c.pc = some t) : Step K s e t := by
  generalize hpc : c.pc = pc at h
  cases e <;> cases pc <;> simp only [stepCall, reduceCtorEq] at h <;>
    obtain rfl := Option.some.inj he
  case copy.entered ret =>
    simp only [Option.ite_none_right_eq_some] at h
    obtain ⟨-, h⟩ := h
    split at h
    case isTrue hret => exact Option.some.inj h ▸ .fault s _ c ret hi hpc hret
    case isFalse hret =>
      obtain rfl := not_not.mp hret
      exact Option.some.inj h ▸ .copy s _ c hi hpc
  case acquire.copied =>
    rcases Option.map_eq_some_iff.mp h with ⟨l, hl, rfl⟩
    exact .acquire s _ c l hi hpc hl
  case load.looping k =>
    rcases Option.ite_none_right_eq_some.mp h with ⟨hk, h⟩
    exact Option.some.inj h ▸ .load s _ c k hi hpc hk
  case store.loaded k old => exact Option.some.inj h ▸ .store s _ c k old hi hpc
  case print.stored k old => exact Option.some.inj h ▸ .print s _ c k old hi hpc
  case release.looping k =>
    rcases Option.ite_none_left_eq_some.mp h with ⟨hk, h⟩
    exact Option.some.inj h ▸ .release s _ c k hi hpc hk

theorem step_sound {K : Lock L} {s t : State L} {e : Event} (h : step K s e = some t) :
    Step K s e t := by
  cases e with
  | write buf => exact Option.some.inj h ▸ .write s buf
  | _ =>
    rcases Option.bind_eq_some_iff.mp h with ⟨c, hc, h⟩
    exact stepCall_sound hc rfl h

/-- The lock acquisitions of a run in order: who, and with which text. -/
def acquisitions (s : State L) : Event → List (ℕ × Text)
  | .acquire i => s.calls[i]?.toList.map fun c => (i, c.text)
  | _ => []

def holders (s : State L) : ℕ := s.calls.countP Call.inside

/-- `os` is the acquisition history of the run that led to the state. -/
structure Accounted (K : Lock L) (os : List (ℕ × Text)) (s : State L) : Prop where
  capacity : K.free s.lock + holders s = K.free K.init
  terminated : ∀ (i : ℕ) (c : Call), s.calls[i]? = some c → c.pc = .copied ∨ c.inside →
    c.kbuf = c.buf ++ [0]
  once : (os.map Prod.fst).Nodup
  acquirer : ∀ (i : ℕ) (c : Call), s.calls[i]? = some c → (i ∈ os.map Prod.fst ↔ c.pc.pastLock)
  known : ∀ a ∈ os, ∃ c : Call, s.calls[a.1]? = some c ∧ a.2 = c.text

theorem accounted_spawn {K : Lock L} {os : List (ℕ × Text)} {s : State L} (h : Accounted K os s)
    (buf : Text) : Accounted K os { s with calls := s.calls ++ [⟨buf, [], .entered⟩] } := by
  constructor
  · simpa [holders, Call.inside] using h.capacity
  · intro i c hi hpc
    rcases entry_of_spawn hi with hi | ⟨-, rfl⟩
    · exact h.terminated i c hi hpc
    · simp [Call.inside] at hpc
  · exact h.once
  · intro i c hi
    rcases entry_of_spawn hi with hi | ⟨rfl, rfl⟩
    · exact h.acquirer i c hi
    · have hnew : s.calls.length ∉ os.map Prod.fst := by
        intro hm
        rcases List.mem_map.mp hm with ⟨a, ha, hlen⟩
        obtain ⟨c, hc, -⟩ := h.known a ha
        exact absurd (lt_length hc) (by omega)
      exact ⟨fun hm => absurd hm hnew, fun hp => by simp at hp⟩
  · intro a ha
    obtain ⟨c, hc, htext⟩ := h.known a ha
    exact ⟨c, spawn_other hc, htext⟩

theorem accounted_put {K : Lock L} {os : List (ℕ × Text)} {s t : State L} {i : ℕ} {c d : Call}
    (h : Accounted K os s) (hi : s.calls[i]? = some c) (ht : t.calls = s.calls.set i d)
    (hbuf : d.buf = c.buf) (hterm : d.pc = .copied ∨ d.inside → d.kbuf = d.buf ++ [0])
    (hpast : d.pc.pastLock = c.pc.pastLock)
    (hfree : K.free t.lock + (if d.inside then 1 else 0) =
      K.free s.lock + (if c.inside then 1 else 0)) : Accounted K os t := by
  have htext : d.text = c.text := by simp [Call.text, hbuf]
  constructor
  · have hcount := countP_set_add (p := Call.inside) (b := d) hi
    have hcap := h.capacity
    simp only [holders, ht] at hcap ⊢
    omega
  · intro j e hj
    rw [ht] at hj
    rcases entry_of_set hj with ⟨rfl, rfl⟩ | ⟨-, hj⟩
    · exact hterm
    · exact h.terminated j e hj
  · exact h.once
  · intro j e hj
    rw [ht] at hj
    rcases entry_of_set hj with ⟨rfl, rfl⟩ | ⟨-, hj⟩
    · exact hpast ▸ h.acquirer j c hi
    · exact h.acquirer j e hj
  · intro a ha
    obtain ⟨e, he, hae⟩ := h.known a ha
    obtain ⟨e', he', hsame⟩ := alike_in_set he hi htext
    exact ⟨e', ht ▸ he', hae.trans hsame.symm⟩

theorem accounted_acquire {K : Lock L} {os : List (ℕ × Text)} {s : State L} {i : ℕ} {c : Call}
    {l : L} (h : Accounted K os s) (hi : s.calls[i]? = some c) (hpc : c.pc = .copied)
    (hl : K.acquire s.lock i = some l) :
    Accounted K (os ++ [(i, c.text)])
      { s.put i { c with pc := .looping 0 } with lock := l } := by
  have hnot : i ∉ os.map Prod.fst := by
    rw [h.acquirer i c hi, hpc]
    simp
  constructor
  · have hcount := countP_set_add (p := Call.inside) (b := { c with pc := .looping 0 }) hi
    have hcap := h.capacity
    have hfree := K.free_acquire hl
    simp only [Call.inside_of hpc, Call.inside_of rfl, Pc.inside, Bool.false_eq_true,
      if_false, if_true] at hcount
    simp only [holders, State.put] at hcap ⊢
    omega
  · intro j e hj hje
    rcases entry_of_set hj with ⟨rfl, rfl⟩ | ⟨-, hj⟩
    · exact h.terminated j c hi (.inl hpc)
    · exact h.terminated j e hj hje
  · rw [List.map_append, List.nodup_append]
    exact ⟨h.once, by simp, fun a ha b hb => by
      simp at hb; rintro rfl; exact hnot (hb ▸ ha)⟩
  · intro j e hj
    rcases entry_of_set hj with ⟨rfl, rfl⟩ | ⟨hne, hj⟩
    · simp
    · rw [List.map_append, List.mem_append, h.acquirer j e hj]
      simp [hne]
  · intro a ha
    rcases List.mem_append.mp ha with ha | ha
    · obtain ⟨e, he, hae⟩ := h.known a ha
      have hne : a.1 ≠ i := fun heq => hnot (heq ▸ List.mem_map_of_mem ha)
      exact ⟨e, (set_other hne).trans he, hae⟩
    · obtain rfl := List.mem_singleton.mp ha
      exact ⟨_, set_entry hi, rfl⟩

theorem accounted_step {K : Lock L} {os : List (ℕ × Text)} {s t : State L} {e : Event}
    (h : Accounted K os s) (hstep : Step K s e t) : Accounted K (os ++ acquisitions s e) t := by
  cases hstep with
  | write buf => simpa [acquisitions] using accounted_spawn h buf
  | fault i c ret hi hpc =>
    simp only [acquisitions, List.append_nil]
    exact accounted_put h hi rfl rfl (by simp [Call.inside]) (by simp [hpc])
      (by simp [State.put, Call.inside, hpc])
  | copy i c hi hpc =>
    simp only [acquisitions, List.append_nil]
    exact accounted_put h hi rfl rfl (fun _ => rfl)
      (by simp [hpc]) (by simp [State.put, Call.inside, hpc])
  | acquire i c l hi hpc hl =>
    simpa [acquisitions, hi] using accounted_acquire h hi hpc hl
  | load i c k hi hpc | store i c k old hi hpc | print i c k old hi hpc =>
    simp only [acquisitions, List.append_nil]
    have hk := h.terminated i c hi (.inr (by simp [Call.inside, hpc]))
    exact accounted_put h hi rfl rfl (fun _ => hk)
      (by simp [hpc]) (by simp [State.put, Call.inside, hpc])
  | release i c k hi hpc =>
    simp only [acquisitions, List.append_nil]
    have hin : c.inside = true := by simp [Call.inside, hpc]
    have hlt : K.free s.lock < K.free K.init := by
      have hpos := countP_pos (p := Call.inside) hi hin
      have hcap := h.capacity
      unfold holders at hcap
      omega
    exact accounted_put h hi rfl rfl (by simp [Call.inside]) (by simp [hpc])
      (by simp [K.free_release hlt, hin, Call.inside_of rfl])

theorem trace_accounted {K : Lock L} {es : List Event} {s : State L}
    (h : (lockedWrite K).Trace es s) :
    Accounted K ((lockedWrite K).observe acquisitions es) s :=
  h.invariant_observed
    ⟨by simp [lockedWrite, myMiscInit, holders], by simp [lockedWrite, myMiscInit], List.nodup_nil,
      by simp [lockedWrite, myMiscInit], by simp⟩
    fun _ hI hstep => accounted_step hI (step_sound hstep)

def block (n : ℕ) (text : Text) : List (BitVec 32 × Text) := triple (fun v => (v, text)) n

theorem length_block (n : ℕ) (text : Text) : (block n text).length = 3 := length_triple _ n

def blocks (texts : List Text) : List (BitVec 32 × Text) := numbered block 0 texts

def Pc.printed : Pc → ℕ
  | .looping k | .loaded k _ | .stored k _ => k
  | _ => 0

/-- What the holder's point in the loop says about the shared counter, which was at `base`
when it took the lock. -/
def Pc.Counts (base : ℕ) (cnt : BitVec 32) : Pc → Prop
  | .looping k => k ≤ 3 ∧ cnt = BitVec.ofNat 32 (base + k)
  | .loaded k old => k < 3 ∧ old = BitVec.ofNat 32 (base + k) ∧ cnt = BitVec.ofNat 32 (base + k)
  | .stored k old =>
    k < 3 ∧ old = BitVec.ofNat 32 (base + k) ∧ cnt = BitVec.ofNat 32 (base + k + 1)
  | _ => True

/-- Counter and log between two sections, and inside the section of one holder. -/
structure Section (os : List (ℕ × Text)) (s : State L) : Prop where
  idle : holders s = 0 →
    s.cnt = BitVec.ofNat 32 (3 * os.length) ∧ s.log = blocks (os.map Prod.snd)
  busy : ∀ (i : ℕ) (c : Call), s.calls[i]? = some c → c.inside → ∃ earlier,
    os = earlier ++ [(i, c.text)] ∧ c.pc.Counts (3 * earlier.length) s.cnt ∧
    s.log = blocks (earlier.map Prod.snd) ++ (block earlier.length c.text).take c.pc.printed

theorem holders_pos {s : State L} {i : ℕ} {c : Call} (hi : s.calls[i]? = some c)
    (hc : c.inside) : 0 < holders s := countP_pos hi hc

theorem section_outside {os : List (ℕ × Text)} {s : State L} {i : ℕ} {c d : Call}
    (h : Section os s) (hi : s.calls[i]? = some c) (hc : c.inside = false)
    (hd : d.inside = false) : Section os (s.put i d) := by
  have hcount : holders (s.put i d) = holders s := by
    have hset := countP_set_add (p := Call.inside) (b := d) hi
    simp only [hc, hd, Bool.false_eq_true, if_false, Nat.add_zero] at hset
    exact hset
  constructor
  · intro hz
    exact h.idle (hcount ▸ hz)
  · intro j e hj he
    rcases entry_of_set hj with ⟨rfl, rfl⟩ | ⟨-, hj⟩
    · simp [hd] at he
    · exact h.busy j e hj he

theorem section_holder {os : List (ℕ × Text)} {s t : State L} {i : ℕ} {c d : Call}
    (hothers : ∀ (j : ℕ) (e : Call), j ≠ i → s.calls[j]? = some e → ¬ e.inside)
    (hi : s.calls[i]? = some c) (ht : t.calls = s.calls.set i d) (hd : d.inside)
    (hnext : ∃ earlier, os = earlier ++ [(i, d.text)] ∧ d.pc.Counts (3 * earlier.length) t.cnt ∧
      t.log = blocks (earlier.map Prod.snd) ++ (block earlier.length d.text).take d.pc.printed) :
    Section os t := by
  have hentry : t.calls[i]? = some d := ht ▸ set_entry hi
  constructor
  · intro hz
    have hpos := holders_pos hentry hd
    omega
  · intro j e hj he
    rw [ht] at hj
    rcases entry_of_set hj with ⟨rfl, rfl⟩ | ⟨hne, hj⟩
    · exact hnext
    · exact absurd he (hothers j e hne hj)

theorem Section.holding {os : List (ℕ × Text)} {s : State L} {i : ℕ} {c : Call} {pc : Pc}
    (h : Section os s) (hi : s.calls[i]? = some c) (hpc : c.pc = pc) (hin : pc.inside) :
    ∃ earlier, os = earlier ++ [(i, c.text)] ∧ pc.Counts (3 * earlier.length) s.cnt ∧
      s.log = blocks (earlier.map Prod.snd) ++ (block earlier.length c.text).take pc.printed := by
  subst hpc
  exact h.busy i c hi hin

theorem section_spawn {os : List (ℕ × Text)} {s : State L} (h : Section os s)
    (buf : List UInt8) : Section os { s with calls := s.calls ++ [⟨buf, [], .entered⟩] } := by
  have hcount : holders { s with calls := s.calls ++ [⟨buf, [], .entered⟩] } = holders s := by
    simp [holders, Call.inside]
  constructor
  · intro hz
    exact h.idle (hcount ▸ hz)
  · intro j e hj he
    rcases entry_of_spawn hj with hj | ⟨-, rfl⟩
    · exact h.busy j e hj he
    · simp [Call.inside] at he

theorem section_release {os : List (ℕ × Text)} {s t : State L} {i k : ℕ} {c d : Call}
    (hothers : ∀ (j : ℕ) (e : Call), j ≠ i → s.calls[j]? = some e → ¬ e.inside)
    (h : Section os s) (hi : s.calls[i]? = some c) (hpc : c.pc = .looping k) (hk : ¬ k < 3)
    (ht : t.calls = s.calls.set i d) (hd : d.inside = false) (hcnt : t.cnt = s.cnt)
    (hlog : t.log = s.log) : Section os t := by
  obtain ⟨earlier, rfl, ⟨hle, hbase⟩, hblocks⟩ := h.holding hi hpc rfl
  obtain rfl : k = 3 := by omega
  constructor
  · intro _
    rw [hcnt, hlog]
    constructor
    · rw [List.length_append, Nat.mul_add]
      exact hbase
    · rw [List.map_append, List.map_singleton, blocks, numbered_snoc, List.length_map]
      rw [Pc.printed, block, take_triple] at hblocks
      exact hblocks
  · intro j e hj he
    rw [ht] at hj
    rcases entry_of_set hj with ⟨rfl, rfl⟩ | ⟨hne, hj⟩
    · simp [hd] at he
    · exact absurd he (hothers j e hne hj)

theorem section_step {K : Lock L} {os : List (ℕ × Text)} {s t : State L} {e : Event}
    (hK : K.free K.init = 1) (hA : Accounted K os s) (h : Section os s) (hstep : Step K s e t) :
    Section (os ++ acquisitions s e) t := by
  have hcap := hA.capacity
  have hsole {i c pc} (hi : s.calls[i]? = some c) (hpc : c.pc = pc) (hin : pc.inside) :
      ∀ (j : ℕ) (e : Call), j ≠ i → s.calls[j]? = some e → ¬ e.inside := fun j e hne hj he =>
    hne (eq_of_countP_le_one (show holders s ≤ 1 by omega) hj hi he (Call.inside_of hpc ▸ hin))
  cases hstep with
  | write buf =>
    simp only [acquisitions, List.append_nil]
    exact section_spawn h buf
  | fault i c ret hi hpc | copy i c hi hpc =>
    simp only [acquisitions, List.append_nil]
    exact section_outside h hi (Call.inside_of hpc) rfl
  | acquire i c l hi hpc hl =>
    have hfree := K.free_acquire hl
    have hz : holders s = 0 := by omega
    obtain ⟨hcnt, hlog⟩ := h.idle hz
    have hnobody : ∀ (j : ℕ) (e : Call), j ≠ i → s.calls[j]? = some e → ¬ e.inside :=
      fun j e _ hj he => absurd (holders_pos hj he) (by omega)
    simp only [acquisitions, hi, Option.toList_some, List.map_cons, List.map_nil]
    exact section_holder hnobody hi rfl rfl
      ⟨os, rfl, ⟨Nat.zero_le 3, hcnt⟩, by simpa [Pc.printed, State.put] using hlog⟩
  | load i c k hi hpc hk =>
    simp only [acquisitions, List.append_nil]
    obtain ⟨earlier, hos, ⟨-, hcnt⟩, hlog⟩ := h.holding hi hpc rfl
    exact section_holder (hsole hi hpc rfl) hi rfl rfl ⟨earlier, hos, ⟨hk, hcnt, hcnt⟩, hlog⟩
  | store i c k old hi hpc =>
    simp only [acquisitions, List.append_nil]
    obtain ⟨earlier, hos, ⟨hk, rfl, -⟩, hlog⟩ := h.holding hi hpc rfl
    exact section_holder (hsole hi hpc rfl) hi rfl rfl
      ⟨earlier, hos, ⟨hk, rfl, BitVec.ofNat_add _ _ |>.symm⟩, hlog⟩
  | print i c k old hi hpc =>
    simp only [acquisitions, List.append_nil]
    obtain ⟨earlier, hos, ⟨hk, rfl, hcnt⟩, hlog⟩ := h.holding hi hpc rfl
    have htext : cString c.kbuf = c.text := by
      rw [hA.terminated i c hi (.inr (Call.inside_of hpc))]
      rfl
    refine section_holder (hsole hi hpc rfl) hi rfl rfl ⟨earlier, hos, ⟨hk, hcnt⟩, ?_⟩
    change s.log ++ [_] = _ ++ List.take (k + 1) (block earlier.length c.text)
    rw [block, take_triple_succ _ _ hk, hlog, htext, List.append_assoc]
    rfl
  | release i c k hi hpc hk =>
    simp only [acquisitions, List.append_nil]
    exact section_release (hsole hi hpc rfl) h hi hpc hk rfl rfl rfl rfl

theorem trace_section {K : Lock L} (hK : K.free K.init = 1) {es : List Event} {s : State L}
    (h : (lockedWrite K).Trace es s) : Section ((lockedWrite K).observe acquisitions es) s :=
  h.invariant_observed ⟨fun _ => ⟨rfl, rfl⟩, by simp [lockedWrite, myMiscInit]⟩
    fun hs hI hstep => section_step hK (trace_accounted hs) hI (step_sound hstep)

/-- The log at one moment of a run, and what each finished call left in it. -/
structure WriteLaw (K : Lock L) (es : List Event) (s : State L) : Prop where
  log : ∃ earlier cut, s.log = blocks (earlier.map Prod.snd) ++ cut ∧
    ((lockedWrite K).observe acquisitions es = earlier ∧ cut = [] ∨
      ∃ i text, (lockedWrite K).observe acquisitions es = earlier ++ [(i, text)] ∧
        cut <+: block earlier.length text)
  written : ∀ (i : ℕ) (c : Call), s.calls[i]? = some c → c.rc = some (c.count : ℤ) →
    ∃ n, ((lockedWrite K).observe acquisitions es)[n]? = some (i, c.text) ∧
      (s.log.drop (3 * n)).take 3 = block n c.text ∧
      ∀ m, ((lockedWrite K).observe acquisitions es)[m]?.map Prod.fst = some i → m = n
  refused : ∀ (i : ℕ) (c : Call), s.calls[i]? = some c → c.rc = some (-EFAULT) →
    i ∉ ((lockedWrite K).observe acquisitions es).map Prod.fst ∧
    ∀ pre e post p q, es = pre ++ e :: post → e.caller = some i →
      (lockedWrite K).Trace pre p → step K p e = some q →
      q.lock = p.lock ∧ q.cnt = p.cnt ∧ q.log = p.log
  unlocked : (∀ c ∈ s.calls, ¬ c.inside) → s.lock = K.init

theorem pc_of_rc_count {c : Call} (h : c.rc = some (c.count : ℤ)) : c.pc = .done := by
  unfold Call.rc at h
  split at h
  · have := Option.some.inj h
    simp only [EFAULT] at this
    omega
  · assumption
  · cases h

theorem pc_of_rc_fault {c : Call} (h : c.rc = some (-EFAULT)) : c.pc = .fault := by
  unfold Call.rc at h
  split at h
  · assumption
  · have := Option.some.inj h
    simp only [EFAULT] at this
    omega
  · cases h

theorem step_untouched {K : Lock L} {s t : State L} {e : Event} {i : ℕ} (h : Step K s e t)
    (he : e.caller = some i) :
    (t.lock = s.lock ∧ t.cnt = s.cnt ∧ t.log = s.log) ∨
      ∃ c : Call, t.calls[i]? = some c ∧ c.pc.pastLock := by
  cases h with
  | write => cases he
  | fault j c ret hj hpc => exact .inl ⟨rfl, rfl, rfl⟩
  | copy j c hj hpc => exact .inl ⟨rfl, rfl, rfl⟩
  | _ =>
    obtain rfl := Option.some.inj he
    exact .inr ⟨_, set_entry (by assumption), by simp⟩

theorem block_of_done {os : List (ℕ × Text)} {s : State L} (h : Section os s) {n i : ℕ}
    {c : Call} (hi : s.calls[i]? = some c) (hout : ¬ c.inside) (hn : os[n]? = some (i, c.text)) :
    (s.log.drop (3 * n)).take 3 = block n c.text := by
  have hslice {xs : List (ℕ × Text)} (rest) (hx : xs[n]? = some (i, c.text)) :=
    numbered_slice length_block 0 rest (show (xs.map Prod.snd)[n]? = some c.text by simp [hx])
  simp only [Nat.zero_add] at hslice
  by_cases hz : holders s = 0
  · rw [(h.idle hz).2, blocks]
    simpa using hslice [] hn
  · obtain ⟨j, d, hj, hd⟩ := exists_of_countP_pos (Nat.pos_of_ne_zero hz)
    obtain ⟨earlier, rfl, -, hlog⟩ := h.busy j d hj hd
    rw [hlog]
    refine hslice _ ?_
    have hlt := lt_length hn
    by_cases hlast : n < earlier.length
    · rwa [List.getElem?_append_left hlast] at hn
    · obtain rfl : n = earlier.length := by simp at hlt; omega
      have hij : j = i := by simpa using congrArg (Option.map Prod.fst) hn
      subst hij
      obtain rfl := Option.some.inj (hi.symm.trans hj)
      exact absurd hd hout

theorem acquisition_of_pastLock {K : Lock L} {os : List (ℕ × Text)} {s : State L}
    (h : Accounted K os s) {i : ℕ} {c : Call} (hi : s.calls[i]? = some c)
    (hpc : c.pc.pastLock) : ∃ n : ℕ, os[n]? = some (i, c.text) := by
  rcases List.mem_map.mp ((h.acquirer i c hi).mpr hpc) with ⟨a, ha, hai⟩
  obtain ⟨d, hd, htext⟩ := h.known a ha
  obtain rfl := Option.some.inj (hi.symm.trans (hai ▸ hd))
  rcases List.mem_iff_getElem?.mp ha with ⟨n, hn⟩
  exact ⟨n, by rw [hn, ← hai, ← htext]⟩

theorem refused_untouched {K : Lock L} {pre post : List Event} {e : Event} {s p q : State L}
    {i : ℕ} {c : Call} (h : (lockedWrite K).Trace (pre ++ e :: post) s)
    (hi : s.calls[i]? = some c) (hpc : c.pc = .fault) (he : e.caller = some i)
    (hp : (lockedWrite K).Trace pre p) (hstep : step K p e = some q) :
    q.lock = p.lock ∧ q.cnt = p.cnt ∧ q.log = p.log := by
  rcases step_untouched (step_sound hstep) he with hsame | ⟨d, hd, hpast⟩
  · exact hsame
  · have hq : (lockedWrite K).Trace (pre ++ [e]) q := .snoc hp hstep
    have hin := ((trace_accounted hq).acquirer i d hd).mpr hpast
    have hgrow := (System.trace_iff_path.mp hq).observeFrom_append (f := acquisitions) post
    rw [List.append_assoc] at hgrow
    have hlate : i ∈ ((lockedWrite K).observe acquisitions (pre ++ e :: post)).map Prod.fst := by
      rw [System.observe, show pre ++ e :: post = pre ++ ([e] ++ post) from rfl, hgrow,
        List.map_append]
      exact List.mem_append_left _ hin
    have hend := ((trace_accounted h).acquirer i c hi).mp hlate
    simp [hpc] at hend

theorem log_of_section {os : List (ℕ × Text)} {s : State L} (h : Section os s) :
    ∃ earlier cut, s.log = blocks (earlier.map Prod.snd) ++ cut ∧
      (os = earlier ∧ cut = [] ∨
        ∃ i text, os = earlier ++ [(i, text)] ∧ cut <+: block earlier.length text) := by
  by_cases hz : holders s = 0
  · refine ⟨os, [], ?_, .inl ⟨rfl, rfl⟩⟩
    rw [List.append_nil]
    exact (h.idle hz).2
  · obtain ⟨i, c, hi, hc⟩ := exists_of_countP_pos (Nat.pos_of_ne_zero hz)
    obtain ⟨earlier, hos, -, hlog⟩ := h.busy i c hi hc
    exact ⟨earlier, _, hlog, .inr ⟨i, c.text, hos, List.take_prefix _ _⟩⟩

theorem acquired_once {K : Lock L} {os : List (ℕ × Text)} {s : State L} (h : Accounted K os s)
    {n m i : ℕ} {text : Text} (hn : os[n]? = some (i, text))
    (hm : os[m]?.map Prod.fst = some i) : m = n := by
  have hlt : m < (os.map Prod.fst).length := by
    apply lt_length (a := i)
    rw [List.getElem?_map, hm]
  apply (List.getElem?_inj hlt h.once).mp
  rw [List.getElem?_map, List.getElem?_map, hm, hn]
  rfl

theorem write_law {K : Lock L} (hK : K.free K.init = 1) {es : List Event} {s : State L}
    (h : (lockedWrite K).Trace es s) : WriteLaw K es s := by
  have hA := trace_accounted h
  have hS := trace_section hK h
  constructor
  · exact log_of_section hS
  · intro i c hi hrc
    have hpc := pc_of_rc_count hrc
    obtain ⟨n, hn⟩ := acquisition_of_pastLock hA hi (by simp [hpc])
    have hblock := block_of_done hS hi (by simp [Call.inside, hpc]) hn
    exact ⟨n, hn, hblock, fun m hm => acquired_once hA hn hm⟩
  · intro i c hi hrc
    have hpc := pc_of_rc_fault hrc
    constructor
    · rw [hA.acquirer i c hi, hpc]
      simp
    · rintro pre e post p q rfl he hp hstep
      exact refused_untouched h hi hpc he hp hstep
  · intro hfree
    have hz : holders s = 0 := List.countP_eq_zero.mpr hfree
    have hcap := hA.capacity
    apply K.eq_init
    omega

/-- The law of the mutex driver and of the spinlock driver, in every state of every run. -/
theorem write_critical_section :
    (∀ es s, mutexWrite.Trace es s → WriteLaw mutex es s) ∧
    (∀ es s, spinlockWrite.Trace es s → WriteLaw spinlock es s) :=
  ⟨fun _ _ h => write_law rfl h, fun _ _ h => write_law rfl h⟩

def oneWritten : List Event :=
  [.write [97], .write [98], .copy 0 0, .acquire 0, .load 0, .store 0, .copy 1 1, .print 0,
    .load 0, .store 0, .print 0, .load 0, .store 0, .print 0, .release 0]

theorem write_critical_section_oneWritten :
    let calls : List Call := [⟨[97], [97, 0], .done⟩, ⟨[98], [], .fault⟩]
    let log : List (BitVec 32 × Text) := [(0, [97]), (1, [97]), (2, [97])]
    WriteLaw mutex oneWritten ⟨none, 3, log, calls⟩ ∧
      WriteLaw spinlock oneWritten ⟨false, 3, log, calls⟩ :=
  ⟨write_critical_section.1 _ _ (System.trace_of_run (by decide)),
    write_critical_section.2 _ _ (System.trace_of_run (by decide))⟩

end SyncLockedWrite
