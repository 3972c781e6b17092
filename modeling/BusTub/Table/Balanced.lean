/-
  Pins are balanced.

  1. **`sharing`** is a table on a pool that others use too.  They make calls and change pages through their pins as
     the clients of `Traffic` do, between the operations of the table; they may pin the table's pages and write its
     buckets, but not its directory page.

  2. **`SharedInv`**: the pool backs some pages with the pins of the others alone, and once there is a table these
     are laid out (`SharedInv.reachable`).

  3. `pins_balanced` — **the main result**: in the build that evaluates asserts, an operation that returns leaves
     every pin count as it was.
-/
import BusTub.Table.Requests

set_option linter.unusedSectionVars false

namespace BusTub

open Command BufferPoolManagerInstance

/-! ## A shared pool -/

/-- A pool that a table shares with other clients. -/
structure SharedPool (Disk K V : Type) where
  pool : BufferPoolManagerInstance Disk (PageData K V)
  /-- The pins that the others hold. -/
  others : List Pin
  /-- `directory_page_id_`, once the table is constructed. -/
  table : Option PageId

/-- An operation of the table. -/
inductive PoolOp (K V : Type) where
  | construct (dir₀ : PageId)
  | call (c : PublicCall K V)

/-- What happens to a shared pool. -/
inductive PoolEvent (K V : Type) where
  | client (e : ClientEvent (PageData K V))
  | table (op : PoolOp K V)

namespace BufferPoolManagerInstance

variable {Disk K V : Type} [DiskManager Disk (PageData K V)]

/-- The ids that were handed out, as the counter tells. -/
def handedOut (s : BufferPoolManagerInstance Disk (PageData K V)) : List PageId :=
  (List.range ((s.nextPageId - s.cfg.instanceIndex) / s.cfg.numInstances).toNat).map s.cfg.idAt

/-- What the clients of a pool did, as the pool shows it, with the pins that they hold. -/
def record (s : BufferPoolManagerInstance Disk (PageData K V)) (pins : List Pin) : Ledger (PageData K V) :=
  ⟨s.handedOut, s.shown, pins⟩

end BufferPoolManagerInstance

namespace HashTableType

variable {Disk K V : Type} [DiskManager Disk (PageData K V)]
variable [Inhabited K] [Inhabited V] [DecidableEq K] [DecidableEq V]

/-- An operation of the table that returns; the constructor, with both of its pages.  The id counter does not
    wrap. -/
def Operates (T : HashTableType K V) (fuel : ℕ) (s : SharedPool Disk K V) : PoolOp K V → SharedPool Disk K V → Prop
  | .construct dir₀, s' => s.table = none ∧ CountsUp .debug (T.construct .debug dir₀) ⟨s.pool, fun _ => none⟩ ∧
      ∃ dirId, callPool .debug (T.construct .debug dir₀) s.pool = .ok ((dirId, true), s'.pool) ∧ s'.table = some dirId
  | .call c, s' => ∃ dirId, s.table = some dirId ∧
      CountsUp .debug (T.publicMethod .debug dirId fuel c) ⟨s.pool, fun _ => none⟩ ∧
      (∃ r, callPool .debug (T.publicMethod .debug dirId fuel c) s.pool = .ok (r, s'.pool)) ∧ s'.table = some dirId

/-- The runs of a fresh pool that a table shares with others. -/
def sharing (T : HashTableType K V) (cfg : PoolConfig) (disk : Disk) (fuel : ℕ) :
    StepSystem (SharedPool Disk K V) (PoolEvent K V) where
  init s := s = ⟨create cfg disk, [], none⟩ ∧ Traffic.Unwrapped ⟨s.pool, Ledger.empty⟩
  step s e s' :=
    match e with
    | .client e => (∃ g, (Traffic.system .debug cfg disk).step ⟨s.pool, s.pool.record s.others⟩ e ⟨s'.pool, g⟩ ∧
        s'.others = g.pins) ∧ s'.table = s.table ∧ ∀ k x, e = .write k x → s.table ≠ some k.page
    | .table op => T.Operates fuel s op s' ∧ s'.others = s.others

end HashTableType

/-! ## The pages that the pool backs -/

section backs

variable {Disk K V : Type} [DiskManager Disk (PageData K V)] [LawfulDiskManager Disk]
variable {cfg : PoolConfig} {P : Pages K V} {pins : List Pin} {s s' : BufferPoolManagerInstance Disk (PageData K V)}

theorem Backs.handedOut (h : Backs cfg P pins s) : s.handedOut = (List.range P.next).map cfg.idAt := by
  have hpos : (cfg.numInstances : ℤ) ≠ 0 :=
    Int.natCast_ne_zero.mpr (Nat.ne_of_gt (Nat.lt_of_le_of_lt (Nat.zero_le _) cfg.index_lt))
  unfold BufferPoolManagerInstance.handedOut
  rw [h.counter, h.cfg_eq, PoolConfig.idAt, add_sub_cancel_left, Int.mul_ediv_cancel_left _ hpos, Int.toNat_natCast]

/-- Only pages that were made are pinned. -/
theorem Backs.pinned_created (h : Backs cfg P pins s) {p : PageId} (hp : p ∈ (pins.map Pin.page).toFinset) :
    P.Created cfg.idAt p := by
  obtain ⟨k, hk, rfl⟩ := List.mem_map.mp (List.mem_toFinset.mp hp)
  obtain ⟨j, hj, he⟩ := List.mem_map.mp (h.linked.resident _ _ (h.linked.pin_frame k hk))
  exact ⟨j, List.mem_range.mp hj, he⟩

/-- Nobody has pinned a page that was not made. -/
theorem Backs.next_unpinned (h : Backs cfg P pins s) : cfg.idAt P.next ∉ (pins.map Pin.page).toFinset := by
  intro hmem
  obtain ⟨j, hj, he⟩ := h.pinned_created hmem
  exact Nat.ne_of_lt hj (cfg.idAt_injective he)

/-- The record of a pool that backs its pages is right. -/
theorem Backs.record_linked (h : Backs cfg P pins s) : s.Linked (s.record pins) := by
  have hlinked := h.linked.congr (x := s.shown) fun p hp => by
    obtain ⟨j, hj, rfl⟩ := List.mem_map.mp hp
    exact h.shown ⟨j, List.mem_range.mp hj, rfl⟩
  rw [BufferPoolManagerInstance.record, h.handedOut]
  exact hlinked

/-- **What another client does** leaves the pages as they are that it neither creates nor writes. -/
theorem Backs.client {disk : Disk} {e : ClientEvent (PageData K V)} {g : Ledger (PageData K V)}
    (h : Backs cfg P pins s) (hlt : cfg.idAt P.next < 2 ^ 31)
    (hstep : (Traffic.system .debug cfg disk).step ⟨s, s.record pins⟩ e ⟨s', g⟩) :
    ∃ P' : Pages K V, Backs cfg P' g.pins s' ∧ cfg.idAt P'.next < 2 ^ 31 ∧ P.next ≤ P'.next ∧ P'.deleted = [] ∧
      ∀ p, P.Created cfg.idAt p → (∀ k x, e = .write k x → k.page ≠ p) → P'.mem p = P.mem p := by
  have hcreated : (s.record pins).created = (List.range P.next).map cfg.idAt := h.handedOut
  have hunwrapped : Traffic.Unwrapped ⟨s, s.record pins⟩ := by
    show s.nextPageId = s.cfg.instanceIndex + s.cfg.numInstances * ((s.record pins).created.length : ℤ)
    rw [hcreated, List.length_map, List.length_range, h.cfg_eq]
    exact h.counter
  obtain ⟨hlinked, hcount, hwritten⟩ := Traffic.linked_step h.record_linked hunwrapped hstep
  have hshown : ∀ p, P.Created cfg.idAt p → (s.record pins).written p = P.mem p := fun p hp => h.shown hp
  -- the pages are those of the new ledger, once its ids are known
  suffices hids : ∃ n, P.next ≤ n ∧ g.created = (List.range n).map cfg.idAt ∧ s'.cfg = cfg ∧ s'.nextPageId < 2 ^ 31 ∧
      ∀ p, P.Created cfg.idAt p → (∀ k x, e = .write k x → k.page ≠ p) → g.written p = P.mem p by
    obtain ⟨n, hle, hnew, hcfg, hend, hmem⟩ := hids
    have hcounter : s'.nextPageId = cfg.idAt n := by
      have hcount : s'.nextPageId = s'.cfg.instanceIndex + s'.cfg.numInstances * (g.created.length : ℤ) := hcount
      rwa [hnew, List.length_map, List.length_range, hcfg] at hcount
    refine ⟨⟨n, g.written, []⟩, ⟨?_, hcfg, hcounter⟩, hcounter ▸ hend, hle, rfl, hmem⟩
    have hledger : Pages.ledger cfg.idAt ⟨n, g.written, []⟩ g.pins = g := by
      rw [Pages.ledger, ← hnew]
    exact hledger ▸ hlinked
  cases e with
  | write k x =>
    obtain ⟨-, heq⟩ := hstep
    obtain ⟨rfl, rfl⟩ := Traffic.mk.inj heq
    refine ⟨P.next, Nat.le_refl _, hcreated, h.cfg_eq, h.counter ▸ hlt, fun p hp hne => ?_⟩
    show Function.update (s.record pins).written k.page x p = _
    rw [Function.update_of_ne (hne k x rfl).symm, hshown p hp]
  | call c ret =>
    obtain ⟨hexec, hnext, -⟩ := hstep
    have he : s.Effect c ret s' := exec_effect h.linked.inv.toConsistent hexec
    have hnew : g.created = (s.record pins).created ++ newIds c ret := hnext.created he
    have hend := he.counter_lt (h.counter ▸ hlt)
    rcases Session.newIds_eq he with hnone | hone
    · refine ⟨P.next, Nat.le_refl _, by rw [hnew, hnone, hcreated, List.append_nil],
        (Session.effect_cfg he).trans h.cfg_eq, hend, fun p hp _ => ?_⟩
      rw [show g.written = Traffic.leave (s.record pins).written (.call c ret) from hwritten]
      cases he with
      | new => cases hnone
      | _ => exact hshown p hp
    · refine ⟨P.next + 1, Nat.le_succ _, by
        rw [hnew, hone, hcreated, h.counter, List.range_succ, List.map_append, List.map_singleton],
        (Session.effect_cfg he).trans h.cfg_eq, hend, fun p hp _ => ?_⟩
      rw [show g.written = Traffic.leave (s.record pins).written (.call c ret) from hwritten]
      cases he with
      | new =>
        obtain ⟨j, hj, rfl⟩ := hp
        have hne : cfg.idAt j ≠ s.nextPageId := by
          rw [h.counter]
          exact Int.ne_of_lt (cfg.idAt_lt hj)
        show Function.update (s.record pins).written s.nextPageId 0 (cfg.idAt j) = _
        rw [Function.update_of_ne hne, hshown _ ⟨j, hj, rfl⟩]
      | _ => cases hone

end backs

/-! ## Every reachable state -/

namespace HashTableType

variable {Disk K V : Type} [DiskManager Disk (PageData K V)] [LawfulDiskManager Disk]
variable [Inhabited K] [Inhabited V] [DecidableEq K] [DecidableEq V]
variable {T : HashTableType K V} {cfg : PoolConfig} {disk : Disk} {fuel : ℕ} {s s' : SharedPool Disk K V}

/-- The pool backs the pages `P` with the pins of the others alone, and the table is laid out on them. -/
structure SharedInv (T : HashTableType K V) (cfg : PoolConfig) (P : Pages K V) (s : SharedPool Disk K V) : Prop where
  backs : Backs cfg P s.others s.pool
  count : cfg.idAt P.next < 2 ^ 31
  none_deleted : P.deleted = []
  layout : ∀ dirId, s.table = some dirId → ∃ A, T.Layout cfg.idAt P dirId A

omit [DiskManager Disk (PageData K V)] [LawfulDiskManager Disk] [Inhabited K] [Inhabited V] [DecidableEq K]
  [DecidableEq V] in
/-- Pages, as if none had been deleted. -/
theorem covers_forget (P : Pages K V) : P.Covers { P with deleted := [] } := ⟨rfl, rfl, fun _ hp => by cases hp⟩

/-- A constructor that makes the table leaves its first pages, and no pins. -/
theorem SharedInv.constructed {P : Pages K V} {dir₀ : PageId} (h : SharedInv T cfg P s)
    (hop : T.Operates fuel s (.construct dir₀) s') : Backs cfg (firstPages cfg.idAt P) s.others s'.pool ∧
      cfg.idAt (firstPages cfg.idAt P).next < 2 ^ 31 ∧ s'.table = some (cfg.idAt P.next) := by
  obtain ⟨-, hcount, dirId, hcall, htable⟩ := hop
  have hdisc : Disciplined cfg.idAt 2 (T.construct .debug dir₀) P _ _ :=
    construct_run cfg.idAt_injective (Nat.le_refl 2) P dir₀
  obtain ⟨heq, hbacks, hlt⟩ := hdisc.shared .debug (construct_needsAll dir₀) h.backs h.count hcount
    (callPool_inv hcall) rfl
  obtain ⟨rfl, -⟩ := Prod.mk.inj heq
  exact ⟨hbacks, hlt, htable⟩

/-- A public call that returns leaves the pages that it leaves over the checked store, and no pins. -/
theorem SharedInv.called {P P' : Pages K V} {dirId : PageId} {c : PublicCall K V} {r : PublicRet V}
    (h : SharedInv T cfg P s) (htable : s.table = some dirId)
    (hdisc : Disciplined cfg.idAt 3 (T.publicMethod .debug dirId fuel c) P r P')
    (hop : T.Operates fuel s (.call c) s') :
    Backs cfg P' s.others s'.pool ∧ cfg.idAt P'.next < 2 ^ 31 ∧ s'.table = some dirId := by
  obtain ⟨dirId', hdir, hcount, ⟨r', hcall⟩, htable'⟩ := hop
  obtain rfl : dirId' = dirId := Option.some.inj (hdir.symm.trans htable)
  obtain ⟨-, hbacks, hlt⟩ := hdisc.shared .debug (publicMethod_givesUp dirId' fuel c) h.backs h.count hcount
    (callPool_inv hcall) trivial
  exact ⟨hbacks, hlt, htable'⟩

/-- A state that backs a table's pages is sound, as if nothing had been deleted. -/
theorem SharedInv.forget {P : Pages K V} {dirId : PageId} {A : HashPartition.Partition PageId}
    (hbacks : Backs cfg P s.others s.pool) (hlt : cfg.idAt P.next < 2 ^ 31) (htable : s.table = some dirId)
    (hlayout : T.Layout cfg.idAt P dirId A) : SharedInv T cfg { P with deleted := [] } s := by
  refine ⟨hbacks.covers (covers_forget P), hlt, rfl, fun dirId' hdir => ?_⟩
  obtain rfl : dirId' = dirId := Option.some.inj (hdir.symm.trans htable)
  exact ⟨A, hlayout.covers (covers_forget P)⟩

/-- **What an operation leaves**: pages that are laid out again, and no pins. -/
theorem SharedInv.operates {P : Pages K V} (h : SharedInv T cfg P s) (hfuel : 10 ≤ fuel) {op : PoolOp K V}
    (hop : T.Operates fuel s op s') (hothers : s'.others = s.others) : ∃ P' : Pages K V, SharedInv T cfg P' s' := by
  have hids := cfg.idAt_injective
  cases op with
  | construct dir₀ =>
    obtain ⟨hbacks, hlt, htable⟩ := h.constructed hop
    rw [← hothers] at hbacks
    refine ⟨_, .forget hbacks hlt htable (firstPages_layout hids P fun p hp => ?_)⟩
    rw [h.none_deleted] at hp
    cases hp
  | call c =>
    obtain ⟨dirId, htable, -⟩ := id hop
    obtain ⟨A, hA⟩ := h.layout dirId htable
    obtain ⟨r, P', A', hdisc, hlayout⟩ := hA.publicCall_run (Nat.le_refl 3) hids hfuel c
    obtain ⟨hbacks, hlt, htable'⟩ := h.called htable hdisc hop
    rw [← hothers] at hbacks
    exact ⟨_, .forget hbacks hlt htable' hlayout⟩

/-- **Every reachable state is sound.** -/
theorem SharedInv.reachable (hfuel : 10 ≤ fuel) (h : (sharing T cfg disk fuel).Reachable s) :
    ∃ P : Pages K V, SharedInv T cfg P s := by
  refine h.invariant (I := fun s => ∃ P : Pages K V, SharedInv T cfg P s) (fun s h₀ => ?_) fun s e s' hs hstep => ?_
  · obtain ⟨rfl, hunwrapped⟩ := h₀
    have hnext : int32 cfg.instanceIndex = cfg.instanceIndex := by
      simpa [Traffic.Unwrapped, Ledger.empty, create] using hunwrapped
    have hlt : cfg.idAt 0 < 2 ^ 31 := by
      have hlt := int32_lt cfg.instanceIndex
      rw [hnext] at hlt
      simpa [PoolConfig.idAt] using hlt
    exact ⟨Pages.empty, .fresh hlt disk, hlt, rfl, fun dirId hdir => by cases hdir⟩
  · obtain ⟨P, hP⟩ := hs
    cases e with
    | table op => exact hP.operates hfuel hstep.1 hstep.2
    | client e =>
      obtain ⟨⟨g, hclient, hothers⟩, htable, hdir⟩ := hstep
      obtain ⟨P', hbacks, hlt, hle, hdel, hmem⟩ := hP.backs.client hP.count hclient
      refine ⟨P', hothers ▸ hbacks, hlt, hdel, fun dirId hdirId => ?_⟩
      rw [htable] at hdirId
      obtain ⟨A, hA⟩ := hP.layout dirId hdirId
      refine ⟨A, hA.grow hle (fun p hp => ?_) (hmem dirId hA.dir_created fun k x he hk => ?_)⟩
      · rw [hdel] at hp
        cases hp
      · exact hdir k x he (hk ▸ hdirId)

/-- A page that was not handed out has no pin. -/
theorem SharedInv.unborn {P : Pages K V} (h : SharedInv T cfg P s) {p : PageId} (hp : s.pool.nextPageId ≤ p) :
    s.pool.pinCountOf p = 0 := by
  cases hpage : s.pool.pageTable p with
  | none => exact pinCountOf_none hpage
  | some f =>
    obtain ⟨j, hj, rfl⟩ := List.mem_map.mp (h.backs.linked.resident p f hpage)
    rw [h.backs.counter] at hp
    exact absurd (cfg.idAt_lt (List.mem_range.mp hj)) (Int.not_lt.mpr hp)

/-- **Pins are balanced.**  Take any state that a pool and a table on it can reach while others use the pool.
    Whatever operation of the table returns, every page has the pin count that it had before; so the pages that the
    operation created have none. -/
theorem pins_balanced (hfuel : 10 ≤ fuel) (h : (sharing T cfg disk fuel).Reachable s) {op : PoolOp K V}
    (hstep : (sharing T cfg disk fuel).step s (.table op) s') :
    (∀ p, s'.pool.pinCountOf p = s.pool.pinCountOf p) ∧
      ∀ p, s.pool.nextPageId ≤ p → s'.pool.pinCountOf p = 0 := by
  obtain ⟨P, hP⟩ := SharedInv.reachable hfuel h
  obtain ⟨P', hP'⟩ := SharedInv.reachable hfuel (h.step hstep)
  -- before and after, the pins are those of the others
  have hsame : ∀ p, s'.pool.pinCountOf p = s.pool.pinCountOf p := by
    intro p
    rw [hP'.backs.linked.pin_count, hP.backs.linked.pin_count]
    show ((s'.others.countP fun k => k.page = p : ℕ) : ℤ) = (s.others.countP fun k => k.page = p : ℕ)
    rw [hstep.2]
  exact ⟨hsame, fun p hp => (hsame p).trans (hP.unborn hp)⟩

/-! ## A run -/

/-- Carry out an operation. -/
def operate (T : HashTableType K V) (fuel : ℕ) (s : SharedPool Disk K V) : PoolOp K V → Option (SharedPool Disk K V)
  | .construct dir₀ =>
    if s.table = none ∧ CountsUp .debug (T.construct .debug dir₀) ⟨s.pool, fun _ => none⟩ then
      match callPool .debug (T.construct .debug dir₀) s.pool with
      | .ok ((dirId, true), pool) => some ⟨pool, s.others, some dirId⟩
      | _ => none
    else none
  | .call c =>
    match s.table with
    | none => none
    | some dirId =>
      if CountsUp .debug (T.publicMethod .debug dirId fuel c) ⟨s.pool, fun _ => none⟩ then
        match callPool .debug (T.publicMethod .debug dirId fuel c) s.pool with
        | .ok (_, pool) => some ⟨pool, s.others, some dirId⟩
        | .error _ => none
      else none

omit [LawfulDiskManager Disk] in
theorem operate_step {op : PoolOp K V} (h : T.operate fuel s op = some s') :
    (sharing T cfg disk fuel).step s (.table op) s' := by
  cases op with
  | construct dir₀ =>
    simp only [operate] at h
    split at h
    · next hok =>
      split at h
      · next dirId pool hcall =>
        cases h
        exact ⟨⟨hok.1, hok.2, dirId, hcall, rfl⟩, rfl⟩
      · cases h
    · cases h
  | call c =>
    simp only [operate] at h
    split at h
    · cases h
    · next dirId htable =>
      split at h
      · next hcount =>
        split at h
        · next r pool hcall =>
          cases h
          exact ⟨⟨dirId, htable, hcount, ⟨r, hcall⟩, rfl⟩, rfl⟩
        · cases h
      · cases h

omit [LawfulDiskManager Disk] in
theorem operates_reachable {M : StepSystem (SharedPool Disk K V) (PoolEvent K V)}
    (hstep : ∀ {s op s'}, T.operate fuel s op = some s' → M.step s (.table op) s') :
    ∀ {ops : List (PoolOp K V)} {s s' : SharedPool Disk K V}, M.Reachable s →
      ops.foldlM (T.operate fuel) s = some s' → M.Reachable s' := by
  intro ops
  induction ops with
  | nil =>
    intro s s' h hops
    cases hops
    exact h
  | cons op ops ih =>
    intro s s' h hops
    rw [List.foldlM_cons, Option.bind_eq_bind, Option.bind_eq_some_iff] at hops
    obtain ⟨s₁, hop, hops⟩ := hops
    exact ih (h.step (hstep hop)) hops

/-- A pool of four frames. -/
def fourFrameConfig : PoolConfig := (Session.fresh 4).pool.cfg

/-- A table is to come on it. -/
def untouched : SharedPool (PageId → PageData ℤ ℤ) ℤ ℤ := ⟨create fourFrameConfig fun _ => 0, [], none⟩

/-- Another client has made a page first, and keeps it. -/
def keptPage : SharedPool (PageId → PageData ℤ ℤ) ℤ ℤ :=
  match untouched.pool.exec .debug .newPg with
  | .ok (_, pool) => ⟨pool, [⟨0, 3, false⟩], none⟩
  | .error _ => untouched

theorem keptPage_reachable : (sharing smallTable fourFrameConfig (fun _ : PageId => (0 : PageData ℤ ℤ)) 10).Reachable
    keptPage := by
  have hempty : Traffic.Unwrapped ⟨untouched.pool, Ledger.empty⟩ := by decide
  have hkept : Traffic.Unwrapped ⟨keptPage.pool, (untouched.pool.record []).create 0 3⟩ := by decide
  have hret : (untouched.pool.exec .debug .newPg).toOption.map Prod.fst = some (.page (some 3) 0) := by decide +kernel
  obtain ⟨⟨ret, pool⟩, hpool, hfst⟩ := Option.map_eq_some_iff.mp hret
  obtain rfl : ret = .page (some 3) 0 := hfst
  have hexec : untouched.pool.exec .debug .newPg = .ok (.page (some 3) 0, pool) := eq_ok_of_toOption hpool
  have hkeep : keptPage = ⟨pool, [⟨0, 3, false⟩], none⟩ := by rw [keptPage, hexec]
  refine StepSystem.Reachable.step (.init ⟨rfl, hempty⟩) (e := .client (.call .newPg (.page (some 3) 0))) ?_
  rw [hkeep] at hkept ⊢
  exact ⟨⟨_, ⟨hexec, rfl, hkept⟩, rfl⟩, rfl, fun k x he => by cases he⟩

/-- What is seen after the operations `ops`. -/
def watch {α : Type} (see : SharedPool (PageId → PageData ℤ ℤ) ℤ ℤ → α) (ops : List (PoolOp ℤ ℤ)) : Option α :=
  (ops.foldlM (smallTable.operate 10) keptPage).map see

/-- An insertion that splits a bucket twice makes two pages, and only the kept page stays pinned. -/
theorem pins_balanced_kept : ∃ s s' : SharedPool (PageId → PageData ℤ ℤ) ℤ ℤ,
    s.pool.nextPageId = 3 ∧ s.pool.pinCountOf 0 = 1 ∧ s'.pool.nextPageId = 5 ∧
    (∀ p, s'.pool.pinCountOf p = s.pool.pinCountOf p) ∧ ∀ p, 3 ≤ p → s'.pool.pinCountOf p = 0 := by
  have hsee : watch (fun s => (s.pool.nextPageId, s.pool.pinCountOf 0,
      (smallTable.operate 10 s (.call (.call (.insert 4 7)))).map fun s' => s'.pool.nextPageId))
      [.construct 0, .call (.call (.insert 0 7)), .call (.call (.insert 2 7))] = some (3, 1, some 5) := by
    decide +kernel
  obtain ⟨s, hops, hseen⟩ := Option.map_eq_some_iff.mp hsee
  obtain ⟨hnext, hrest⟩ := Prod.mk.inj hseen
  obtain ⟨hkept, hlast⟩ := Prod.mk.inj hrest
  obtain ⟨s', hop, hnext'⟩ := Option.map_eq_some_iff.mp hlast
  have hbalanced := pins_balanced (Nat.le_refl 10) (operates_reachable operate_step keptPage_reachable hops)
    (operate_step hop)
  exact ⟨s, s', hnext, hkept, hnext', hbalanced.1, fun p hp => hbalanced.2 p (hnext.trans_le hp)⟩

end HashTableType

end BusTub
