import LinuxDriver.KernelMemory
import Mathlib.Data.List.OfFn

/-!
# mem: loading and unloading the modules that allocate

Each module allocates in init and frees in exit. `04kmem_cache` does not look at the objects it
gets from its cache; `06dma` looks for its block in the linear mapping; `07err` passes its failure
on as an error value.
-/
namespace MemoryLoading

open KernelTypes TransitionSystem ModuleRuns KernelMemory

variable {ω γ : Type}

/-- The init that `01alloc_pages`, `02kmalloc`, `03vmalloc` and `06dma` share, and their exit. -/
def oneBlock (alloc : ω → MemoryM γ) (virt : γ → Word) (use release : γ → MemoryM Unit) :
    Loadable Memory ω γ where
  init o := do
    let g ← alloc o
    if virt g = 0 then
      return (-ENOMEM, g)
    else
      use g
      return (0, g)
  exit := release

def unused (_ : γ) : MemoryM Unit := pure ()

def allocPages : Loadable Memory Word Word :=
  oneBlock (getFreePages (getOrder 1234)) id unused fun virt => freePages virt (getOrder 1234)

def kmallocTest : Loadable Memory Word Word := oneBlock (kmalloc 0x400000) id unused kfree

def vmallocTest : Loadable Memory Word Word :=
  oneBlock (KernelMemory.vmalloc 0x800000) id unused vfree

/-- `virt = phys + PAGE_OFFSET - PHYS_OFFSET` -/
def linear (P : Platform) (phys : Word) : Word := phys + P.PAGE_OFFSET - P.PHYS_OFFSET

/-- The store through `virt`, and the load from where the linear mapping would have the block; the
value is only printed. -/
def dmaUse (P : Platform) (g : Word × Word) : MemoryM Unit := do
  store g.1
  P.load (linear P g.2)

def dmaTest (P : Platform) : Loadable Memory (Word × Word) (Word × Word) :=
  oneBlock (fun o => dmaAllocCoherent 100 o.1 o.2) Prod.fst (dmaUse P)
    fun g => dmaFreeCoherent 100 g.1 g.2

def sizeofTest : ℕ := 4

def testCreate (a : Word) : MemoryM Word := do
  let po ← kmalloc sizeofTest a
  if po = 0 then return ERR_PTR (-ENOMEM) else return po

def testDestroy (p : Word) : MemoryM Unit := kfree p

def errTest : Loadable Memory Word Word where
  init a := do
    let p ← testCreate a
    if IS_ERR p then return (PTR_ERR p, p) else return (0, p)
  exit := testDestroy

structure CacheCalls where
  kc : Word
  p : Fin 5 → Word

structure CacheGlobals where
  kc : Word
  p : List Word

def kmemCache : Loadable Memory CacheCalls CacheGlobals where
  init o := do
    let kc ← kmemCacheCreate o.kc
    if kc = 0 then
      return (-ENOMEM, ⟨kc, []⟩)
    else
      let p ← (List.ofFn o.p).mapM (kmemCacheAlloc kc)
      return (0, ⟨kc, p⟩)
  exit g := do
    g.p.forM (kmemCacheFree g.kc)
    kmemCacheDestroy g.kc

section

variable {m t : Memory} {kind : Kind} {a : Word} {b : Block}

theorem allocate_cases (kind : Kind) (a : Word) (m : Memory) :
    (m.Usable a ∧ allocate kind a m = some (a, m.hold ⟨kind, a⟩)) ∨
      (¬ m.Usable a ∧ allocate kind a m = some (0, m)) := by
  by_cases h : m.Usable a
  · exact .inl ⟨h, by simp [allocate, h]⟩
  · exact .inr ⟨h, by simp [allocate, h]⟩

theorem held_hold : account.held (m.hold b) = account.held m ∪ {b} := by
  ext x
  simp [account]

theorem held_release : account.held (m.release b) = account.held m \ {b} := by
  ext x
  simp [account, Memory.mem_release, and_comm]

theorem good_hold (h : account.Good m) (ha : a ≠ 0) : account.Good (m.hold ⟨kind, a⟩) := by
  intro b hb
  rcases Memory.mem_hold.mp hb with rfl | hb
  · exact ha
  · exact h b hb

theorem good_release (h : account.Good m) : account.Good (m.release b) :=
  fun c hc => h c (Memory.mem_release.mp hc).2

theorem closed_singleton (h : account.parent b = none) : account.Closed {b} := by
  rintro r rfl p hp
  rw [h] at hp
  cases hp

theorem free_block (hgood : account.Good m) (h : ⟨kind, a⟩ ∈ m.held) :
    free kind a m = some ((), m.release ⟨kind, a⟩) := if_neg (hgood _ h)

/-- What a module with one allocation owns. -/
def block (kind : γ → Kind) (virt : γ → Word) : Owner γ Block where
  Valid _ := True
  own g := {⟨kind g, virt g⟩}

theorem tidy_exit {kind : γ → Kind} {virt : γ → Word} {release : γ → MemoryM Unit} {g : γ}
    (hrelease : release g = free (kind g) (virt g)) (hgood : account.Good m)
    (hown : (block kind virt).own g ⊆ account.held m) :
    ∃ t, release g m = some ((), t) ∧ account.Good t ∧ account.misuses t = account.misuses m ∧
      account.held t = account.held m \ (block kind virt).own g := by
  have hmem : ⟨kind g, virt g⟩ ∈ m.held := hown rfl
  exact ⟨_, (congrFun hrelease m).trans (free_block hgood hmem), good_release hgood,
    Memory.misuses_release_of_mem hmem, held_release⟩

/-- What the allocation of such a module does, that it can use its block under the condition, and
that it frees what it has allocated. -/
structure Allocates (alloc : ω → MemoryM γ) (virt : γ → Word) (use release : γ → MemoryM Unit)
    (kind : γ → Kind) (C : ω → Memory → Prop) : Prop where
  alloc : ∀ o m, ∃ g t, alloc o m = some (g, t) ∧ (virt g = 0 → t = m) ∧
    (virt g ≠ 0 → t = m.hold ⟨kind g, virt g⟩ ∧ ⟨kind g, virt g⟩ ∉ m.held ∧
      (C o m → use g t = some ((), t)))
  release : ∀ g, release g = free (kind g) (virt g)
  parent : ∀ g a, account.parent ⟨kind g, a⟩ = none

theorem tidy_oneBlock {alloc : ω → MemoryM γ} {virt : γ → Word} {use release : γ → MemoryM Unit}
    {kind : γ → Kind} {C : ω → Memory → Prop} (h : Allocates alloc virt use release kind C) :
    Tidy (oneBlock alloc virt use release) account C (block kind virt) where
  init {m o} hgood hC := by
    obtain ⟨g, t, halloc, hnull, hsome⟩ := h.alloc o m
    by_cases hg : virt g = 0
    · obtain rfl := hnull hg
      refine ⟨-ENOMEM, g, t, ?_, hgood, rfl, fun _ => rfl, fun hrc => absurd hrc (by decide)⟩
      change (alloc o t).bind _ = _
      rw [halloc]
      exact congrFun (if_pos hg) t
    · obtain ⟨rfl, hnew, huse⟩ := hsome hg
      refine ⟨0, g, m.hold ⟨kind g, virt g⟩, ?_, good_hold hgood hg, rfl,
        fun hrc => absurd rfl hrc,
        fun _ => ⟨held_hold, ?_, closed_singleton (h.parent g _), trivial⟩⟩
      · change (alloc o m).bind _ = _
        rw [halloc]
        refine (congrFun (if_neg hg) _).trans ?_
        change (use g _).bind _ = _
        rw [huse hC]
        rfl
      · exact Set.disjoint_singleton_right.mpr hnew
  exit {m g} hgood _ hown _ := tidy_exit (h.release g) hgood hown

theorem allocates_allocate {kind : Kind} (hparent : ∀ a, account.parent ⟨kind, a⟩ = none) :
    Allocates (allocate kind) id unused (free kind) (fun _ => kind) fun _ _ => True where
  alloc a m := by
    obtain ⟨husable, hrun⟩ | ⟨-, hrun⟩ := allocate_cases kind a m
    · exact ⟨a, _, hrun, fun ha => absurd ha husable.1, fun _ =>
        ⟨rfl, Memory.notMem_of_usable husable kind, fun _ => rfl⟩⟩
    · exact ⟨0, m, hrun, fun _ => rfl, fun ha => absurd rfl ha⟩
  release _ := rfl
  parent _ := hparent

/-- The allocation is refused, or the block is in the linear mapping too. -/
def Reachable (P : Platform) (o : Word × Word) (m : Memory) : Prop :=
  ¬ m.Usable o.1 ∨ P.mapped (linear P o.2)

instance decidableReachable (P : Platform) (o : Word × Word) (m : Memory) :
    Decidable (Reachable P o m) :=
  inferInstanceAs (Decidable (_ ∨ _))

theorem dmaUse_held {P : Platform} {g : Word × Word} (h : ⟨kind, g.1⟩ ∈ m.held) :
    dmaUse P g m = P.load (linear P g.2) m := by
  change (store g.1 m).bind _ = _
  rw [store, if_pos ⟨_, h, rfl⟩]
  rfl

theorem allocates_dma (P : Platform) :
    Allocates (fun o : Word × Word => dmaAllocCoherent 100 o.1 o.2) Prod.fst (dmaUse P)
      (fun g => dmaFreeCoherent 100 g.1 g.2) (fun g => .coherent 100 g.2) (Reachable P) where
  alloc o m := by
    obtain ⟨husable, hrun⟩ | ⟨-, hrun⟩ := allocate_cases (.coherent 100 o.2) o.1 m
    · refine ⟨o, _, ?_, fun ha => absurd ha husable.1, fun _ =>
        ⟨rfl, Memory.notMem_of_usable husable _, fun hreach => ?_⟩⟩
      · change (allocate _ _ m).bind _ = _
        rw [hrun]
        rfl
      · rw [dmaUse_held (Memory.mem_hold.mpr (.inl rfl))]
        exact if_pos (hreach.resolve_left (not_not_intro husable))
    · refine ⟨(0, o.2), m, ?_, fun _ => rfl, fun ha => absurd rfl ha⟩
      change (allocate _ _ m).bind _ = _
      rw [hrun]
      rfl
  release _ := rfl
  parent _ _ := rfl

theorem dma_returns_iff {P : Platform} {o : Word × Word} (hgood : account.Good m) :
    ((dmaTest P).init o m).isSome ↔ Reachable P o m := by
  constructor
  · intro hreturns
    by_contra hno
    obtain ⟨husable, hmapped⟩ := not_or.mp hno
    obtain ⟨husable, hrun⟩ | ⟨hrefused, -⟩ := allocate_cases (.coherent 100 o.2) o.1 m
    · have halloc : dmaAllocCoherent 100 o.1 o.2 m = some (o, m.hold ⟨.coherent 100 o.2, o.1⟩) := by
        change (allocate _ _ m).bind _ = _
        rw [hrun]
        rfl
      have hfault : (dmaTest P).init o m = none := by
        change (dmaAllocCoherent 100 o.1 o.2 m).bind _ = _
        rw [halloc]
        refine (congrFun (if_neg husable.1) _).trans ?_
        change (dmaUse P o _).bind _ = _
        rw [dmaUse_held (Memory.mem_hold.mpr (.inl rfl)), Platform.load, if_neg hmapped]
        rfl
      rw [hfault] at hreturns
      cases hreturns
    · exact husable hrefused
  · intro hreach
    obtain ⟨rc, g, t, hinit, -⟩ := (tidy_oneBlock (allocates_dma P)).init hgood hreach
    exact Option.isSome_of_eq_some hinit

theorem ptrErr_errPtr {e : ℤ} (hlow : -MAX_ERRNO ≤ e) (hneg : e < 0) :
    IS_ERR (ERR_PTR e) ∧ PTR_ERR (ERR_PTR e) = e := by
  simp only [MAX_ERRNO] at hlow
  constructor
  · rw [toNat_of_isErr, ERR_PTR, BitVec.toNat_ofInt]
    omega
  · rw [PTR_ERR, ERR_PTR, BitVec.toInt_ofInt]
    simp only [Int.bmod_def]
    omega

theorem testCreate_cases (a : Word) (m : Memory) :
    (m.Usable a ∧ testCreate a m = some (a, m.hold ⟨.slab, a⟩)) ∨
      (¬ m.Usable a ∧ testCreate a m = some (ERR_PTR (-ENOMEM), m)) := by
  obtain ⟨husable, hrun⟩ | ⟨hno, hrun⟩ := allocate_cases .slab a m
  · refine .inl ⟨husable, ?_⟩
    change (allocate .slab a m).bind _ = _
    rw [hrun]
    exact congrFun (if_neg husable.1) _
  · refine .inr ⟨hno, ?_⟩
    change (allocate .slab a m).bind _ = _
    rw [hrun]
    rfl

theorem tidy_errTest : Tidy errTest account (fun _ _ => True) (block (fun _ => .slab) id) where
  init {m a} hgood _ := by
    obtain ⟨husable, hrun⟩ | ⟨hno, hrun⟩ := testCreate_cases a m
    · refine ⟨0, a, m.hold ⟨.slab, a⟩, ?_, good_hold hgood husable.1, rfl,
        fun hrc => absurd rfl hrc, fun _ => ⟨held_hold, ?_, closed_singleton rfl, trivial⟩⟩
      · change (testCreate a m).bind _ = _
        rw [hrun]
        exact congrFun (if_neg husable.2.1) _
      · exact Set.disjoint_singleton_right.mpr (Memory.notMem_of_usable husable .slab)
    · obtain ⟨hisErr, hptrErr⟩ := ptrErr_errPtr (e := -ENOMEM) (by decide) (by decide)
      refine ⟨-ENOMEM, ERR_PTR (-ENOMEM), m, ?_, hgood, rfl, fun _ => rfl,
        fun hrc => absurd hrc (by decide)⟩
      change (testCreate a m).bind _ = _
      rw [hrun]
      change (if IS_ERR (ERR_PTR (-ENOMEM)) then
        (pure (PTR_ERR (ERR_PTR (-ENOMEM)), ERR_PTR (-ENOMEM)) : MemoryM (ℤ × Word))
        else pure (0, ERR_PTR (-ENOMEM))) m = _
      rw [if_pos hisErr, hptrErr]
      rfl
  exit hgood _ hown _ := tidy_exit rfl hgood hown

def GrantsAll (kc : Word) : List Word → Memory → Prop
  | [], _ => True
  | a :: as, m => m.Usable a ∧ GrantsAll kc as (m.hold ⟨.object kc, a⟩)

instance decidableGrantsAll (kc : Word) : ∀ as m, Decidable (GrantsAll kc as m)
  | [], _ => .isTrue trivial
  | a :: as, m =>
    have := decidableGrantsAll kc as (m.hold ⟨.object kc, a⟩)
    inferInstanceAs (Decidable (_ ∧ _))

def objects (kc : Word) (ps : List Word) : Set Block := {b | ∃ p ∈ ps, b = ⟨.object kc, p⟩}

theorem objects_cons {kc p : Word} {ps : List Word} :
    objects kc (p :: ps) = {⟨.object kc, p⟩} ∪ objects kc ps := by
  ext b
  simp [objects]

/-- What the loop of init has done, whether or not it got all objects. -/
structure Filled (kc : Word) (as : List Word) (m : Memory) (ps : List Word) (t : Memory) :
    Prop where
  misuses : t.misuses = m.misuses
  good : account.Good m → account.Good t
  missing : ¬ GrantsAll kc as m → 0 ∈ ps
  all : GrantsAll kc as m → ps.Nodup ∧ account.held t = account.held m ∪ objects kc ps ∧
    ∀ p ∈ ps, m.Usable p

theorem filled_cons_some {kc a : Word} {as ps : List Word} (husable : m.Usable a)
    (h : Filled kc as (m.hold ⟨.object kc, a⟩) ps t) : Filled kc (a :: as) m (a :: ps) t := by
  refine ⟨h.misuses, fun hgood => h.good (good_hold hgood husable.1), ?_, ?_⟩
  · intro hno
    exact List.mem_cons_of_mem a (h.missing fun hall => hno ⟨husable, hall⟩)
  · rintro ⟨-, hall⟩
    obtain ⟨hnodup, hheld, hnew⟩ := h.all hall
    have hfresh : ∀ p ∈ ps, m.Usable p ∧ a ≠ p := fun p hp =>
      ⟨⟨(hnew p hp).1, (hnew p hp).2.1, fun b hb =>
        (hnew p hp).2.2 b (Memory.mem_hold.mpr (.inr hb))⟩,
        (hnew p hp).2.2 _ (Memory.mem_hold.mpr (.inl rfl))⟩
    refine ⟨List.nodup_cons.mpr ⟨fun hmem => (hfresh a hmem).2 rfl, hnodup⟩, ?_, ?_⟩
    · rw [hheld, held_hold, objects_cons, Set.union_assoc]
    · exact List.forall_mem_cons.mpr ⟨husable, fun p hp => (hfresh p hp).1⟩

theorem filled_cons_none {kc a : Word} {as ps : List Word} (hno : ¬ m.Usable a)
    (h : Filled kc as m ps t) : Filled kc (a :: as) m (0 :: ps) t :=
  ⟨h.misuses, h.good, fun _ => List.mem_cons_self, fun hall => absurd hall.1 hno⟩

theorem fill (kc : Word) (as : List Word) (m : Memory) :
    ∃ ps t, as.mapM (kmemCacheAlloc kc) m = some (ps, t) ∧ Filled kc as m ps t := by
  induction as generalizing m with
  | nil =>
    refine ⟨[], m, rfl, rfl, id, fun hno => absurd trivial hno, fun _ => ⟨List.nodup_nil, ?_, ?_⟩⟩
    · simp [objects]
    · simp
  | cons a as ih =>
    rw [List.mapM_cons]
    obtain ⟨husable, hrun⟩ | ⟨hno, hrun⟩ := allocate_cases (.object kc) a m
    · obtain ⟨ps, t, hrest, hfilled⟩ := ih (m.hold ⟨.object kc, a⟩)
      refine ⟨a :: ps, t, ?_, filled_cons_some husable hfilled⟩
      change (allocate _ a m).bind _ = _
      rw [hrun]
      change (as.mapM (kmemCacheAlloc kc) _).bind _ = _
      rw [hrest]
      rfl
    · obtain ⟨ps, t, hrest, hfilled⟩ := ih m
      refine ⟨0 :: ps, t, ?_, filled_cons_none hno hfilled⟩
      change (allocate _ a m).bind _ = _
      rw [hrun]
      change (as.mapM (kmemCacheAlloc kc) _).bind _ = _
      rw [hrest]
      rfl

/-- What the loop of exit has done; the null pointer is never an object. -/
structure Drained (kc : Word) (ps : List Word) (m t : Memory) : Prop where
  held : account.held t = account.held m \ objects kc ps
  le : m.misuses ≤ t.misuses
  clean : ps.Nodup → objects kc ps ⊆ account.held m → t.misuses = m.misuses
  null : account.Good m → 0 ∈ ps → m.misuses < t.misuses

theorem misuses_le_release : m.misuses ≤ (m.release b).misuses := by
  unfold Memory.release
  split
  · exact le_rfl
  · exact Nat.le_succ _

theorem misuses_release_null (hgood : account.Good m) (kind : Kind) :
    (m.release ⟨kind, 0⟩).misuses = m.misuses + 1 := by
  rw [Memory.release, if_neg]
  intro hmem
  exact hgood _ hmem rfl

theorem drained_cons {kc p : Word} {ps : List Word}
    (h : Drained kc ps (m.release ⟨.object kc, p⟩) t) : Drained kc (p :: ps) m t := by
  refine ⟨?_, misuses_le_release.trans h.le, ?_, ?_⟩
  · rw [h.held, held_release, objects_cons, Set.sdiff_sdiff]
  · intro hnodup hsub
    obtain ⟨hp, hnodup⟩ := List.nodup_cons.mp hnodup
    rw [objects_cons, Set.union_subset_iff] at hsub
    have hmem : ⟨.object kc, p⟩ ∈ m.held := hsub.1 rfl
    rw [h.clean hnodup ?_, Memory.misuses_release_of_mem hmem]
    rintro b ⟨q, hq, rfl⟩
    rw [held_release]
    refine ⟨hsub.2 ⟨q, hq, rfl⟩, ?_⟩
    rintro heq
    obtain rfl : q = p := congrArg Block.addr heq
    exact hp hq
  · intro hgood hnull
    rcases List.mem_cons.mp hnull with rfl | hnull
    · have hle := h.le
      rw [misuses_release_null hgood] at hle
      exact hle
    · exact misuses_le_release.trans_lt (h.null (good_release hgood) hnull)

theorem drain (kc : Word) (ps : List Word) (m : Memory) :
    ∃ t, ps.forM (kmemCacheFree kc) m = some ((), t) ∧ Drained kc ps m t := by
  induction ps generalizing m with
  | nil => exact ⟨m, rfl, by simp [objects], le_rfl, fun _ _ => rfl, by simp⟩
  | cons p ps ih =>
    obtain ⟨t, hrest, hdrained⟩ := ih (m.release ⟨.object kc, p⟩)
    exact ⟨t, hrest, drained_cons hdrained⟩

def CacheCalls.Granted (o : CacheCalls) (m : Memory) : Prop :=
  GrantsAll o.kc (List.ofFn o.p) (m.hold ⟨.cache, o.kc⟩)

/-- The cache is refused, or all that is asked of it is granted. -/
def CacheCalls.AllOrNone (o : CacheCalls) (m : Memory) : Prop := ¬ m.Usable o.kc ∨ o.Granted m

instance decidableAllOrNone (o : CacheCalls) (m : Memory) : Decidable (o.AllOrNone m) :=
  inferInstanceAs (Decidable (¬ _ ∨ GrantsAll _ _ _))

def cacheOwner : Owner CacheGlobals Block where
  Valid g := g.p.Nodup
  own g := {⟨.cache, g.kc⟩} ∪ objects g.kc g.p

theorem kmemCache_refused {o : CacheCalls} (h : ¬ m.Usable o.kc) :
    kmemCache.init o m = some ((-ENOMEM, ⟨0, []⟩), m) := by
  obtain ⟨husable, -⟩ | ⟨-, hrun⟩ := allocate_cases .cache o.kc m
  · exact absurd husable h
  · change (allocate .cache o.kc m).bind _ = _
    rw [hrun]
    rfl

theorem kmemCache_created {o : CacheCalls} (h : m.Usable o.kc) :
    ∃ ps t, kmemCache.init o m = some ((0, ⟨o.kc, ps⟩), t) ∧
      Filled o.kc (List.ofFn o.p) (m.hold ⟨.cache, o.kc⟩) ps t := by
  obtain ⟨-, hrun⟩ | ⟨hno, -⟩ := allocate_cases .cache o.kc m
  · obtain ⟨ps, t, hfill, hfilled⟩ := fill o.kc (List.ofFn o.p) (m.hold ⟨.cache, o.kc⟩)
    refine ⟨ps, t, ?_, hfilled⟩
    change (allocate .cache o.kc m).bind _ = _
    rw [hrun]
    refine (congrFun (if_neg h.1) _).trans ?_
    change ((List.ofFn o.p).mapM (kmemCacheAlloc o.kc) _).bind _ = _
    rw [hfill]
    rfl
  · exact absurd h hno

theorem kmemCacheDestroy_le (kc : Word) (m : Memory) :
    ∃ t, kmemCacheDestroy kc m = some ((), t) ∧ m.misuses ≤ t.misuses := by
  by_cases hnull : kc = 0
  · exact ⟨m, if_pos hnull, le_rfl⟩
  · by_cases hused : ∃ b ∈ m.held, b.kind = .object kc
    · exact ⟨_, (if_neg hnull).trans (if_pos hused), Nat.le_succ _⟩
    · exact ⟨_, (if_neg hnull).trans (if_neg hused), misuses_le_release⟩

theorem kmemCache_exit {g : CacheGlobals} {u : Memory} (h : g.p.forM (kmemCacheFree g.kc) m =
    some ((), u)) : kmemCache.exit g m = kmemCacheDestroy g.kc u := by
  change (g.p.forM (kmemCacheFree g.kc) m).bind _ = _
  rw [h]
  rfl

theorem good_of_subset (hgood : account.Good m) (hsub : account.held t ⊆ account.held m) :
    account.Good t := fun b hb => hgood b (hsub hb)

theorem kmemCache_unloads {g : CacheGlobals} (hgood : account.Good m) (hvalid : cacheOwner.Valid g)
    (hown : cacheOwner.own g ⊆ account.held m) (hsealed : account.Sealed m (cacheOwner.own g)) :
    ∃ t, kmemCache.exit g m = some ((), t) ∧ account.Good t ∧
      account.misuses t = account.misuses m ∧
      account.held t = account.held m \ cacheOwner.own g := by
  obtain ⟨u, hdrain, hdrained⟩ := drain g.kc g.p m
  have hcache : ⟨.cache, g.kc⟩ ∈ m.held := hown (.inl rfl)
  have hsub : objects g.kc g.p ⊆ account.held m := Set.subset_union_right.trans hown
  have hcache' : ⟨.cache, g.kc⟩ ∈ u.held := by
    change _ ∈ account.held u
    rw [hdrained.held]
    refine ⟨hcache, ?_⟩
    rintro ⟨p, -, heq⟩
    cases congrArg Block.kind heq
  have hempty : ¬ ∃ b ∈ u.held, b.kind = .object g.kc := by
    rintro ⟨b, hb, hkind⟩
    have hb : b ∈ account.held m \ objects g.kc g.p := hdrained.held ▸ hb
    have hparent : account.parent b = some ⟨.cache, g.kc⟩ := by simp [account, hkind]
    rcases hsealed b hb.1 _ (.inl rfl) hparent with rfl | hobject
    · cases hkind
    · exact hb.2 hobject
  have hheld : account.held (u.release ⟨.cache, g.kc⟩) = account.held m \ cacheOwner.own g := by
    rw [held_release, hdrained.held, Set.sdiff_sdiff, Set.union_comm]
    rfl
  refine ⟨u.release ⟨.cache, g.kc⟩, ?_, ?_, ?_, hheld⟩
  · rw [kmemCache_exit hdrain]
    exact (if_neg (hgood _ hcache)).trans (if_neg hempty)
  · exact good_of_subset hgood (hheld ▸ Set.sdiff_subset)
  · exact (Memory.misuses_release_of_mem hcache').trans (hdrained.clean hvalid hsub)

theorem kmemCache_added {o : CacheCalls} {ps : List Word} (husable : m.Usable o.kc)
    (hall : o.Granted m) (h : Filled o.kc (List.ofFn o.p) (m.hold ⟨.cache, o.kc⟩) ps t) :
    Added account cacheOwner m t ⟨o.kc, ps⟩ := by
  obtain ⟨hnodup, hheld, hnew⟩ := h.all hall
  constructor
  · rw [hheld, held_hold, Set.union_assoc]
    rfl
  · rw [Set.disjoint_right]
    rintro b (rfl | ⟨p, hp, rfl⟩) hb
    · exact Memory.notMem_of_usable husable .cache hb
    · exact (hnew p hp).2.2 _ (Memory.mem_hold.mpr (.inr hb)) rfl
  · rintro b (rfl | ⟨p, -, rfl⟩) q hq
    · cases hq
    · obtain rfl := Option.some.inj hq
      exact .inl rfl
  · exact hnodup

theorem tidy_kmemCache :
    Tidy kmemCache account (fun o m => o.AllOrNone m) cacheOwner where
  init {m o} hgood hall := by
    by_cases husable : m.Usable o.kc
    · obtain ⟨ps, t, hrun, hfilled⟩ := kmemCache_created husable
      exact ⟨0, _, t, hrun, hfilled.good (good_hold hgood husable.1), hfilled.misuses,
        fun hrc => absurd rfl hrc, fun _ =>
          kmemCache_added husable (hall.resolve_left (not_not_intro husable)) hfilled⟩
    · exact ⟨-ENOMEM, _, m, kmemCache_refused husable, hgood, rfl, fun _ => rfl,
        fun hrc => absurd hrc (by decide)⟩
  exit hgood hvalid hown hsealed := kmemCache_unloads hgood hvalid hown hsealed

/-- The cache is there and has refused an object: exit gives a null pointer back to it. -/
theorem kmemCache_null {o : CacheCalls} (hgood : account.Good m) (hno : ¬ o.AllOrNone m) :
    ∃ ps t u, kmemCache.init o m = some ((0, ⟨o.kc, ps⟩), t) ∧ 0 ∈ ps ∧
      kmemCache.exit ⟨o.kc, ps⟩ t = some ((), u) ∧ m.misuses < u.misuses := by
  obtain ⟨husable, hmissing⟩ := not_or.mp hno
  have husable := not_not.mp husable
  obtain ⟨ps, t, hrun, hfilled⟩ := kmemCache_created husable
  obtain ⟨w, hdrain, hdrained⟩ := drain o.kc ps t
  obtain ⟨u, hdestroy, hle⟩ := kmemCacheDestroy_le o.kc w
  have hnull := hfilled.missing hmissing
  have hlt := hdrained.null (hfilled.good (good_hold hgood husable.1)) hnull
  have hmisuses : t.misuses = m.misuses := hfilled.misuses
  exact ⟨ps, t, u, hrun, hnull, (kmemCache_exit hdrain).trans hdestroy, by omega⟩

/-- `04kmem_cache` is loaded and unloaded without a fault exactly where the cache is refused or
gives all five objects: otherwise init returns 0 and exit gives a null pointer back to it. -/
theorem kmemCache_clean_iff {o : CacheCalls} (hgood : account.Good m)
    (hclosed : account.Closed (account.held m)) :
    (Clean kmemCache account o m ↔ o.AllOrNone m) ∧
      (¬ o.AllOrNone m → ∃ ps t u, kmemCache.init o m = some ((0, ⟨o.kc, ps⟩), t) ∧ 0 ∈ ps ∧
        kmemCache.exit ⟨o.kc, ps⟩ t = some ((), u) ∧ m.misuses < u.misuses) := by
  refine ⟨⟨?_, tidy_kmemCache.clean hgood hclosed⟩, kmemCache_null hgood⟩
  rintro ⟨rc, g, t, hinit, -, -, hloaded⟩
  by_contra hno
  obtain ⟨ps, t', u, hrun, -, hexit, hlt⟩ := kmemCache_null hgood hno
  obtain ⟨heq, rfl⟩ := Prod.mk.inj (Option.some.inj (hinit.symm.trans hrun))
  obtain ⟨rfl, rfl⟩ := Prod.mk.inj heq
  obtain ⟨v, hexit', -, hsame⟩ := hloaded rfl
  obtain ⟨-, rfl⟩ := Prod.mk.inj (Option.some.inj (hexit.symm.trans hexit'))
  exact absurd hsame hlt.ne'

end

theorem kmemCache_clean_short :
    ¬ Clean kmemCache account ⟨4096, fun i => if i = 3 then 0 else BitVec.ofNat 64 (64 * i + 64)⟩
      ⟨∅, 0⟩ := by
  rw [(kmemCache_clean_iff (fun b hb => by cases hb) (fun b hb => by cases hb)).1]
  decide

inductive Test where
  | allocPages
  | kmalloc
  | vmalloc
  | kmemCache
  | dma
  | err
  deriving DecidableEq, Repr

def Calls : Test → Type
  | .kmemCache => CacheCalls
  | .dma => Word × Word
  | _ => Word

def Globals : Test → Type
  | .kmemCache => CacheGlobals
  | .dma => Word × Word
  | _ => Word

def tests (P : Platform) : ∀ i, Loadable Memory (Calls i) (Globals i)
  | .allocPages => allocPages
  | .kmalloc => kmallocTest
  | .vmalloc => vmallocTest
  | .kmemCache => kmemCache
  | .dma => dmaTest P
  | .err => errTest

/-- `04kmem_cache` depends on what it is granted, and `06dma` on where its block lies. -/
def Condition (P : Platform) : ∀ i, Calls i → Memory → Prop
  | .kmemCache, o, m => CacheCalls.AllOrNone o m
  | .dma, o, m => Reachable P o m
  | _, _, _ => True

def owners : ∀ i, Owner (Globals i) Block
  | .allocPages => block (fun _ => .pages (getOrder 1234)) id
  | .kmalloc => block (fun _ => .slab) id
  | .vmalloc => block (fun _ => .vmalloc) id
  | .kmemCache => cacheOwner
  | .dma => block (fun g => .coherent 100 g.2) Prod.fst
  | .err => block (fun _ => .slab) id

theorem tidy_tests (P : Platform) (i : Test) :
    Tidy (tests P i) account (Condition P i) (owners i) := by
  cases i with
  | allocPages => exact tidy_oneBlock (allocates_allocate fun _ => rfl)
  | kmalloc => exact tidy_oneBlock (allocates_allocate fun _ => rfl)
  | vmalloc => exact tidy_oneBlock (allocates_allocate fun _ => rfl)
  | kmemCache => exact tidy_kmemCache
  | dma => exact tidy_oneBlock (allocates_dma P)
  | err => exact tidy_errTest

instance (P : Platform) (i : Test) (o : Calls i) (m : Memory) : Decidable (Condition P i o m) := by
  cases i with
  | kmemCache => exact decidableAllOrNone o m
  | dma => exact decidableReachable P o m
  | _ => exact .isTrue trivial

/-- In every order of loads and unloads the memory in use is what was in use before and what the
loaded modules have allocated, nothing is freed twice or in the wrong way, no load or unload
crashes, and nothing is left when all modules are gone. A load of `06dma` outside its condition
does crash. -/
theorem memory_balanced {P : Platform} {m : Memory} {es : List (ModuleRuns.Event Calls)}
    {s : ModuleRuns.State Memory Globals} (hgood : account.Good m)
    (hclosed : account.Closed (account.held m)) (h : (modules (tests P) m).Trace es s)
    (hallowed : (modules (tests P) m).EachStep (Allowed (Condition P)) es) :
    Balanced account owners m s ∧
      (∀ i, s.loaded i = none → ∀ o, Condition P i o s.kernel →
        ∃ t, step (tests P) s (.load i o) = some t) ∧
      (∀ o, ¬ Condition P .dma o s.kernel → step (tests P) s (.load .dma o) = none) ∧
      (∀ i g, s.loaded i = some g → ∃ t, step (tests P) s (.unload i) = some t) ∧
      ((∀ i, s.loaded i = none) → s.kernel.held = m.held) := by
  have hbalanced := trace_balanced (tidy_tests P) hgood hclosed h hallowed
  refine ⟨hbalanced, fun i => (hbalanced.goes (tidy_tests P) hclosed i).1, fun o hno => ?_,
    fun i => (hbalanced.goes (tidy_tests P) hclosed i).2, fun hnone => ?_⟩
  · have hcrash : (dmaTest P).init o s.kernel = none :=
      Option.not_isSome_iff_eq_none.mp (mt (dma_returns_iff hbalanced.good).mp hno)
    exact load_crashes hcrash
  · exact Finset.coe_injective (hbalanced.restored hnone)

def allMapped : Platform := ⟨0x8000000000000000, 0, fun _ => true⟩

def mixed : List (ModuleRuns.Event Calls) :=
  [.load .kmalloc 4096#64, .load .dma (8192#64, 1#64), .unload .kmalloc,
    .load .kmemCache ⟨4096, fun i => BitVec.ofNat 64 (64 * i + 64)⟩, .load .err 8192#64,
    .unload .dma, .load .err 8192#64, .unload .kmemCache, .unload .err]

theorem memory_balanced_mixed : ∃ s, (modules (tests allMapped) ⟨∅, 0⟩).run mixed = some s ∧
    s.kernel.held = ∅ ∧ s.kernel.misuses = 0 := by
  obtain ⟨s, hs⟩ : ∃ s, (modules (tests allMapped) ⟨∅, 0⟩).run mixed = some s := ⟨_, rfl⟩
  have hnone : ∀ i, s.loaded i = none := by
    obtain rfl := Option.some.inj hs
    intro i
    cases i <;> rfl
  obtain ⟨hbalanced, -, -, -, hrestored⟩ :=
    memory_balanced (m := ⟨∅, 0⟩) (fun b hb => by cases hb) (fun b hb => by cases hb)
      (System.trace_of_run hs) (System.eachStep_of_check (by decide))
  exact ⟨s, hs, hrestored hnone, hbalanced.misuses⟩

end MemoryLoading
