/-
  Concurrent callers over the buffer pool.

  The callers of `Concurrent` again, whose regions now fetch, evict and write back pages of a pool that the
  table has for itself.  Every region gives its pins back, so the next one finds the pool unpinned,
  whoever runs it.

  1. **`concurrentPool_forwardSim`**: the pool and the ideal store take the same steps, region by region.

  2. `linearizable_over_pool` — **the main result**: three frames are enough for any number of callers.
     Their history is one of the atomic object, no region fails, and between two regions every page can be
     evicted.
-/
import BusTub.Table.Footprint
import BusTub.Table.OverPool

set_option linter.unusedSectionVars false

namespace BusTub

open Command HashPartition AtomicObject BufferPoolManagerInstance

/-- The pool and the table's callers. -/
structure PoolShared (ι Disk K V : Type) where
  pool : BufferPoolManagerInstance Disk (PageData K V)
  phase : ι → Phase K V

/-- The id counter can advance without wrapping. -/
def BufferPoolManagerInstance.CounterHasRoom {Disk Data : Type} (s : BufferPoolManagerInstance Disk Data) : Prop :=
  (s.nextPageId : ℤ) + s.cfg.numInstances < 2 ^ 31

namespace HashTableType

variable {Disk K V : Type} [DiskManager Disk (PageData K V)]
variable [Inhabited K] [Inhabited V] [DecidableEq K] [DecidableEq V]
variable {ι : Type} [DecidableEq ι]

/-- **The callers `ι` over the table whose directory is at `dirId`**, from the pool `s₁`, as long as the id
    counter does not wrap. -/
def concurrentPool (ι : Type) [DecidableEq ι] (T : HashTableType K V) (dirId : PageId)
    (s₁ : BufferPoolManagerInstance Disk (PageData K V)) :
    StepSystem (PoolShared ι Disk K V) (SharedEvent ι K V) where
  init s := s = ⟨s₁, fun _ => .idle⟩
  step s e s' := match e with
    | .call i c => s.phase i = .idle ∧
        s' = { s with phase := Function.update s.phase i (.before (.entry c)) }
    | .region i => s.pool.CounterHasRoom ∧ ∃ x y pool, s.phase i = .before x ∧
        callPool .debug (T.region .debug dirId x) s.pool = .ok (y, pool) ∧
        s' = ⟨pool, Function.update s.phase i y⟩
    | .ret i c r => s.phase i = .returning c r ∧ s' = { s with phase := Function.update s.phase i .idle }

instance (s : BufferPoolManagerInstance Disk (PageData K V)) : Decidable s.CounterHasRoom := by
  unfold CounterHasRoom; infer_instance

/-- A step of the callers, where it can be made. -/
def advancePool (T : HashTableType K V) (dirId : PageId) (s : PoolShared ι Disk K V) :
    SharedEvent ι K V → Option (PoolShared ι Disk K V)
  | .call i c =>
    if s.phase i = .idle then some { s with phase := Function.update s.phase i (.before (.entry c)) } else none
  | .region i =>
    match s.phase i with
    | .before x =>
      if s.pool.CounterHasRoom then
        (callPool .debug (T.region .debug dirId x) s.pool).toOption.map fun r => ⟨r.2, Function.update s.phase i r.1⟩
      else none
    | _ => none
  | .ret i c r =>
    if s.phase i = .returning c r then some { s with phase := Function.update s.phase i .idle } else none

theorem advancePool_step {T : HashTableType K V} {dirId : PageId} {s₁ : BufferPoolManagerInstance Disk (PageData K V)}
    {s t : PoolShared ι Disk K V} {e : SharedEvent ι K V} (h : T.advancePool dirId s e = some t) :
    (concurrentPool ι T dirId s₁).step s e t := by
  cases e with
  | call i c =>
    obtain ⟨hidle, ht⟩ := Option.ite_none_right_eq_some.mp h
    exact ⟨hidle, (Option.some.inj ht).symm⟩
  | region i =>
    cases hx : s.phase i with
    | before x =>
      simp only [advancePool, hx] at h
      obtain ⟨hroom, h⟩ := Option.ite_none_right_eq_some.mp h
      obtain ⟨⟨y, pool⟩, hrun, rfl⟩ := Option.map_eq_some_iff.mp h
      exact ⟨hroom, x, y, pool, hx, eq_ok_of_toOption hrun, rfl⟩
    | _ =>
      simp only [advancePool, hx] at h
      cases h
  | ret i c r =>
    obtain ⟨hret, ht⟩ := Option.ite_none_right_eq_some.mp h
    exact ⟨hret, (Option.some.inj ht).symm⟩

/-- Pair `e` is found by the table whose pages the pool holds. -/
def HoldsPool (T : HashTableType K V) (s : BufferPoolManagerInstance Disk (PageData K V)) (dirId : PageId)
    (e : K × V) : Prop :=
  e ∈ (T.asBucket (s.shown (T.keyToPageId e.1 (T.asDirectory (s.shown dirId))))).pairs T.bucketArraySize

variable [LawfulDiskManager Disk] {T : HashTableType K V} {cfg : PoolConfig} {dirId : PageId} {P : Pages K V}
  {A : Partition PageId} {s : BufferPoolManagerInstance Disk (PageData K V)}

theorem Layout.holdsPool_iff (h : T.Layout cfg.idAt P dirId A) {pins : List Pin} (hbacks : Backs cfg P pins s)
    (e : K × V) : T.HoldsPool s dirId e ↔ T.Holds P dirId e := by
  have hdir : T.asDirectory (s.shown dirId) = T.directoryAt P dirId := congrArg T.asDirectory (hbacks.shown h.dir_created)
  unfold HoldsPool Holds pairsAt bucketAt
  rw [hdir, h.page, hbacks.shown (h.created _)]

/-- A region creates at most one page. -/
theorem RegionStep.next_le_succ {ids : ℕ → PageId} {P' : Pages K V} {A' : Partition PageId} {x : Region K V}
    {y : Phase K V} (h : RegionStep ids dirId P A x y P' A') : P'.next ≤ P.next + 1 := by
  cases h <;> omega

/-- **A region does the same over a pool that backs its pages.** -/
theorem Layout.region_agrees (hpool : 3 ≤ cfg.poolSize) (h : T.Layout cfg.idAt P dirId A) (hbacks : Backs cfg P [] s)
    (hroom : s.CounterHasRoom) (x : Region K V) : ∃ y P' A' s',
      T.runRegion cfg.idAt .debug dirId x P = .ok (y, P') ∧
      callPool .debug (T.region .debug dirId x) s = .ok (y, s') ∧
      T.Layout cfg.idAt P' dirId A' ∧ Backs cfg P' [] s' := by
  obtain ⟨y, P', A', hdisc, hlayout, hstep⟩ := h.region_step (Nat.le_refl 3) cfg.idAt_injective x
  have hcount : cfg.idAt P'.next < 2 ^ 31 := by
    refine lt_of_le_of_lt (cfg.idAt_le hstep.next_le_succ) ?_
    unfold CounterHasRoom at hroom
    rw [hbacks.counter, hbacks.cfg_eq] at hroom
    rw [cfg.idAt_succ]
    exact hroom
  obtain ⟨s', hcall, hbacks'⟩ := Disciplined.callPool hpool hdisc .debug hcount hbacks
  exact ⟨y, P', A', s', (runRegion_eq x P).trans (Disciplined.callIdeal_same hdisc), hcall, hlayout, hbacks'⟩

/-- The pool backs the pages of the ideal store, and the callers are where they are there. -/
structure SamePhases (T : HashTableType K V) (cfg : PoolConfig) (dirId : PageId) (s : PoolShared ι Disk K V)
    (t : Shared ι K V) : Prop where
  backs : Backs cfg t.pages [] s.pool
  phase : s.phase = t.phase
  layout : ∃ A, T.Layout cfg.idAt t.pages dirId A

/-- **One step**: the ideal store follows the pool. -/
theorem SamePhases.step (hpool : 3 ≤ cfg.poolSize) {s₁ : BufferPoolManagerInstance Disk (PageData K V)}
    {P₁ : Pages K V} {a a' : PoolShared ι Disk K V} {t : Shared ι K V} {e : SharedEvent ι K V}
    (hR : SamePhases T cfg dirId a t) (hstep : (concurrentPool ι T dirId s₁).step a e a') :
    ∃ t', (concurrent ι T cfg.idAt .debug dirId P₁).step t e t' ∧ SamePhases T cfg dirId a' t' := by
  obtain ⟨hb, hphase, A, hlayout⟩ := hR
  cases e with
  | call i c =>
    obtain ⟨hidle, rfl⟩ := hstep
    exact ⟨_, ⟨hphase ▸ hidle, rfl⟩, hb, by rw [hphase], A, hlayout⟩
  | ret i c r =>
    obtain ⟨hret, rfl⟩ := hstep
    exact ⟨_, ⟨hphase ▸ hret, rfl⟩, hb, by rw [hphase], A, hlayout⟩
  | region i =>
    obtain ⟨hroom, x, y, pool, hx, hcall, rfl⟩ := hstep
    obtain ⟨y', P', A', s', hideal, hcall', hlayout', hb'⟩ := hlayout.region_agrees hpool hb hroom x
    rw [hcall] at hcall'
    cases hcall'
    exact ⟨⟨P', Function.update t.phase i y⟩, ⟨x, y, P', hphase ▸ hx, hideal, rfl⟩, hb', by rw [hphase], A', hlayout'⟩

/-- **Region by region the pool does what the ideal store does.** -/
theorem concurrentPool_forwardSim (hpool : 3 ≤ cfg.poolSize) (h : T.Layout cfg.idAt P dirId A)
    (hbacks : Backs cfg P [] s) :
    (concurrentPool ι T dirId s).ForwardSim (concurrent ι T cfg.idAt .debug dirId P) SharedEvent.seen
      SharedEvent.seen (SamePhases T cfg dirId) where
  init a ha := by
    subst ha
    exact ⟨⟨P, fun _ => .idle⟩, rfl, hbacks, rfl, A, h⟩
  step a t e a' hR hstep := by
    obtain ⟨t', hstep', hR'⟩ := hR.step hpool hstep
    refine ⟨[e], t', .single hstep', hR', ?_⟩
    cases he : SharedEvent.seen e <;> simp [he]

/-- Event by event, too. -/
theorem SamePhases.run (hpool : 3 ≤ cfg.poolSize) {s₁ : BufferPoolManagerInstance Disk (PageData K V)}
    {P₁ : Pages K V} {a a' : PoolShared ι Disk K V} {t : Shared ι K V} {es : List (SharedEvent ι K V)}
    (hR : SamePhases T cfg dirId a t) (hrun : (concurrentPool ι T dirId s₁).Run a es a') :
    ∃ t', (concurrent ι T cfg.idAt .debug dirId P₁).Run t es t' ∧ SamePhases T cfg dirId a' t' := by
  induction hrun with
  | nil => exact ⟨t, .nil t, hR⟩
  | snoc _ hstep ih =>
    obtain ⟨t₁, hrun₁, hR₁⟩ := ih
    obtain ⟨t', hstep', hR'⟩ := hR₁.step hpool hstep
    exact ⟨t', hrun₁.snoc hstep', hR'⟩

/-- What a fresh pool holds after a successful construction. -/
theorem construct_backs (hpool : 3 ≤ cfg.poolSize) (hcount : cfg.idAt 2 < 2 ^ 31) (disk : Disk) {dir₀ : PageId}
    {s₁ : BufferPoolManagerInstance Disk (PageData K V)}
    (hopen : callPool .debug (T.construct .debug dir₀) (create cfg disk) = .ok ((dirId, true), s₁)) :
    dirId = cfg.idAt 0 ∧ Backs cfg (firstPages cfg.idAt (Pages.empty : Pages K V)) [] s₁ := by
  have hdisc : Disciplined cfg.idAt 3 (T.construct .debug dir₀) Pages.empty _ _ :=
    construct_run cfg.idAt_injective (Nat.le_succ 2) Pages.empty dir₀
  obtain ⟨s', hcall, hbacks⟩ := Disciplined.callPool hpool hdisc .debug hcount (.fresh hcount disk)
  rw [hopen] at hcall
  cases hcall
  exact ⟨rfl, hbacks⟩

/-- The split and the merge over three frames. -/
theorem splitAndMerge_over_pool : ∃ s₁ a,
    callPool .debug (smallTable.construct .debug 0) (create threeFrames fun _ => 0 :
      BufferPoolManagerInstance (PageId → PageData ℤ ℤ) (PageData ℤ ℤ)) = .ok ((0, true), s₁) ∧
    (concurrentPool Bool smallTable 0 s₁).Run ⟨s₁, fun _ => .idle⟩ splitAndMerge a ∧
    s₁.nextPageId = 2 ∧ a.pool.nextPageId = 3 := by
  have hsee : ((callPool .debug (smallTable.construct .debug 0) (create threeFrames fun _ => 0 :
      BufferPoolManagerInstance (PageId → PageData ℤ ℤ) (PageData ℤ ℤ))).toOption.bind fun x =>
        (splitAndMerge.foldlM (smallTable.advancePool 0) ⟨x.2, fun _ => .idle⟩).map fun a =>
          (x.1, x.2.nextPageId, a.pool.nextPageId)) = some ((0, true), 2, 3) := by decide +kernel
  obtain ⟨⟨r, s₁⟩, hopen, hevents⟩ := Option.bind_eq_some_iff.mp hsee
  obtain ⟨a, hevents, hseen⟩ := Option.map_eq_some_iff.mp hevents
  simp only [Prod.mk.injEq] at hseen
  obtain ⟨rfl, hfirst, hlast⟩ := hseen
  exact ⟨s₁, a, eq_ok_of_toOption hopen, .of_foldlM advancePool_step hevents, hfirst, hlast⟩

/-- **Three frames are enough for any number of callers.**  Over a fresh pool that the table has for itself, and as
    long as the id counter does not wrap: no region fails, however the callers `ι` take turns; their history is one
    of the atomic object, whose set is what the pool holds; and no page is pinned between two regions. -/
theorem linearizable_over_pool (hcmp : ∀ k k', T.comparator k k' = 0 ↔ k = k') (hpool : 3 ≤ cfg.poolSize)
    (hcount : cfg.idAt 2 < 2 ^ 31) (disk : Disk) {dir₀ : PageId}
    {s₁ : BufferPoolManagerInstance Disk (PageData K V)}
    (hopen : callPool .debug (T.construct .debug dir₀) (create cfg disk) = .ok ((dirId, true), s₁))
    {es : List (SharedEvent ι K V)} {a : PoolShared ι Disk K V}
    (hrun : (concurrentPool ι T dirId s₁).Run ⟨s₁, fun _ => .idle⟩ es a) :
    (∀ i x, a.phase i = .before x → a.pool.CounterHasRoom →
      ∃ a', (concurrentPool ι T dirId s₁).step a (.region i) a') ∧
    (∃ as t, (system T.RefStep ∅).Run ⟨∅, fun _ => .idle⟩ as t ∧
      as.filterMap AtomicObject.Event.seen = es.filterMap SharedEvent.seen ∧
      ∀ e, T.HoldsPool a.pool dirId e ↔ e ∈ t.obj) ∧
    ∀ p, a.pool.pinCountOf p = 0 := by
  have hids := cfg.idAt_injective
  obtain ⟨rfl, hbacks⟩ := construct_backs hpool hcount disk hopen
  have hinv : T.TableInv cfg.idAt (firstPages cfg.idAt Pages.empty) (cfg.idAt 0) (.whole (cfg.idAt 1)) ∅ :=
    firstPages_inv hids Pages.empty fun p hp => (by cases hp)
  obtain ⟨t₀, ds, t, rfl, hideal, ⟨hb, hphase, A, hlayout⟩, hseen⟩ :=
    (concurrentPool_forwardSim hpool hinv.toLayout hbacks).traces rfl hrun
  obtain ⟨u₀, as, u, rfl, hatomic, ⟨⟨B, hinv'⟩, -⟩, hseen'⟩ :=
    (concurrent_forwardSim (ι := ι) hcmp hids hinv .debug).traces rfl hideal
  refine ⟨fun i x hx hroom => ?_, ⟨as, u, hatomic, hseen'.trans hseen, fun e => ?_⟩, fun p => ?_⟩
  · obtain ⟨y, P', A', s', -, hcall, -⟩ := hlayout.region_agrees hpool hb hroom x
    exact ⟨_, hroom, x, y, s', hx, hcall, rfl⟩
  · rw [hlayout.holdsPool_iff hb, hinv'.holds_iff]
  · have hpin := hb.linked.pin_count p
    simpa [Pages.ledger, Ledger.held] using hpin

/-- A caller splits a bucket and another one merges it, and no page is left pinned. -/
theorem linearizable_over_pool_two_callers : ∃ s₁ a,
    callPool .debug (smallTable.construct .debug 0) (create threeFrames fun _ => 0 :
      BufferPoolManagerInstance (PageId → PageData ℤ ℤ) (PageData ℤ ℤ)) = .ok ((0, true), s₁) ∧
    (concurrentPool Bool smallTable 0 s₁).Run ⟨s₁, fun _ => .idle⟩ splitAndMerge a ∧
    a.pool.nextPageId = 3 ∧ ∀ p, a.pool.pinCountOf p = 0 := by
  obtain ⟨s₁, a, hopen, hrun, -, hnext⟩ := splitAndMerge_over_pool
  obtain ⟨-, -, hpins⟩ :=
    linearizable_over_pool smallTable_comparator (Nat.le_refl 3) (by decide) (fun _ => 0) hopen hrun
  exact ⟨s₁, a, hopen, hrun, hnext, hpins⟩

end HashTableType

end BusTub
