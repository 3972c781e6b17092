/-
  Several tables over one buffer pool.

  The constructor takes a pool that others may use as well, so tables with different hash functions, comparators
  and bucket sizes can share one.  Here a client constructs tables at any time, some of them more than once, and
  calls them in turn.

  1. **`Grown`** is what a call of one table does to the pages of the others: nothing.  It holds of a region
     (`RegionStep.grown`) and is transitive, so it holds of calls (`TableInv.call_grown`).

  2. **`TablesInv`**: every table has its own set, and no two tables own a page in common.  A table that moves
     on leaves the others where they are (`TablesInv.move`).

  3. `tables_apart` — **the main result**: every table answers like a set of its own, and three frames are
     still enough for all of them.
-/
import BusTub.Table.ConcurrentPool

set_option linter.unusedSectionVars false

namespace BusTub

open Command HashPartition BufferPoolManagerInstance

/-- What a client of the tables `τ` does. -/
inductive TablesOp (τ K V : Type) where
  | construct (t : τ)
  | call (t : τ) (c : TableCall K V)

/-- Whether a constructor got both pages, or what a call returned. -/
inductive TablesRet (V : Type) where
  | constructed (res : Bool)
  | returned (r : TableRet V)
  deriving DecidableEq

namespace HashTableType

variable {K V : Type} [Inhabited K] [Inhabited V] [DecidableEq K] [DecidableEq V]
variable {T : HashTableType K V} {ids : ℕ → PageId} {cap : ℕ} {dirId : PageId} {P P' P₁ : Pages K V}
  {A A' A₁ : Partition PageId} {S S' : Finset (K × V)}

/-! ## What a table does to others -/

/-- Page `p` belongs to the table. -/
def Owns (dirId : PageId) (A : Partition PageId) (p : PageId) : Prop := p = dirId ∨ ∃ n, A.page n = p

theorem Layout.owns_created (h : T.Layout ids P dirId A) {p : PageId} (hp : Owns dirId A p) : P.Created ids p := by
  rcases hp with rfl | ⟨n, rfl⟩
  · exact h.dir_created
  · exact h.created n

/-- **From the pages `P` to `P'` a table changed only pages of its own**, and took only pages that were not
    there before. -/
structure Grown (ids : ℕ → PageId) (dirId : PageId) (P : Pages K V) (A : Partition PageId) (P' : Pages K V)
    (A' : Partition PageId) : Prop where
  next_le : P.next ≤ P'.next
  frame : ∀ p, P.Created ids p → ¬ Owns dirId A p → P'.mem p = P.mem p
  deleted : ∀ p ∈ P'.deleted, p ∈ P.deleted ∨ Owns dirId A p ∨ ¬ P.Created ids p
  owns : ∀ p, Owns dirId A' p → Owns dirId A p ∨ ¬ P.Created ids p

theorem Grown.refl : Grown ids dirId P A P A :=
  ⟨Nat.le_refl _, fun _ _ _ => rfl, fun _ hp => .inl hp, fun _ hp => .inl hp⟩

theorem created_of_le (hle : P.next ≤ P'.next) {p : PageId} (hp : P.Created ids p) : P'.Created ids p := by
  obtain ⟨j, hj, rfl⟩ := hp
  exact ⟨j, by omega, rfl⟩

theorem Grown.trans (h : Grown ids dirId P A P₁ A₁) (h' : Grown ids dirId P₁ A₁ P' A') :
    Grown ids dirId P A P' A' where
  next_le := h.next_le.trans h'.next_le
  frame p hp hno := by
    refine (h'.frame p (created_of_le h.next_le hp) fun hown => ?_).trans (h.frame p hp hno)
    rcases h.owns p hown with hown | hnew
    · exact hno hown
    · exact hnew hp
  deleted p hp := by
    rcases h'.deleted p hp with hdel | hown | hnew
    · exact h.deleted p hdel
    · exact .inr (h.owns p hown)
    · exact .inr (.inr fun hc => hnew (created_of_le h.next_le hc))
  owns p hp := by
    rcases h'.owns p hp with hown | hnew
    · exact h.owns p hown
    · exact .inr fun hc => hnew (created_of_le h.next_le hc)

section

variable (hids : Function.Injective ids)
include hids

theorem Layout.next_not_created (h : T.Layout ids P dirId A) : ¬ P.Created ids (ids P.next) :=
  fun hc => h.created_ne hids hc rfl

theorem RegionStep.grown (h : T.Layout ids P dirId A) {x : Region K V} {y : Phase K V}
    (hstep : RegionStep ids dirId P A x y P' A') : Grown ids dirId P A P' A' where
  next_le := hstep.next_le
  frame p hp hno := hstep.frame (fun he => hno (.inl he)) (fun n hn => hno (.inr ⟨n, hn⟩)) (h.created_ne hids hp)
  deleted p hp := (hstep.deleted hp).imp_right fun hown => .inl (.inr hown)
  owns p hp := by
    rcases hp with rfl | ⟨n, rfl⟩
    · exact .inl (.inl rfl)
    · rcases hstep.page n with ⟨m, hm⟩ | ⟨hnew, -⟩
      · exact .inl (.inr ⟨m, hm.symm⟩)
      · rw [hnew]
        exact .inr (h.next_not_created hids)

variable (hcap : 3 ≤ cap)
include hcap

/-- A region that was run took one of the steps. -/
theorem Layout.grown_of_run (h : T.Layout ids P dirId A) (x : Region K V) {y : Phase K V}
    (hrun : Disciplined ids cap (T.region .debug dirId x) P y P') (h' : T.Layout ids P' dirId A') :
    Grown ids dirId P A P' A' := by
  obtain ⟨y₁, P₁, A₁, hrun₁, hlayout, hstep⟩ := h.region_step hcap hids x
  obtain ⟨rfl, rfl⟩ := Disciplined.unique hrun hrun₁
  obtain rfl := h'.unique hlayout
  exact RegionStep.grown hids h hstep

variable (hcmp : ∀ k k', T.comparator k k' = 0 ↔ k = k') {fuel : ℕ} (hfuel : 10 ≤ fuel)
include hcmp hfuel

theorem TableInv.insert_grown (h : T.TableInv ids P dirId A S) (key : K) (value : V) : ∃ r P' A' S',
    Disciplined ids cap (T.insert .debug dirId key value fuel) P r P' ∧ T.TableInv ids P' dirId A' S' ∧
      T.RefStep S (.insert key value) (.flag r) S' ∧ Grown ids dirId P A P' A' := by
  have hregion : ∀ {P₁ A₁} (x : Region K V) {y P' A'}, T.Layout ids P₁ dirId A₁ → Grown ids dirId P A P₁ A₁ →
      Disciplined ids cap (T.region .debug dirId x) P₁ y P' → T.Layout ids P' dirId A' →
      Grown ids dirId P A P' A' := by
    intro P₁ A₁ x y P' A' h₁ hgrown hrun h'
    exact hgrown.trans (h₁.grown_of_run hids hcap x hrun h')
  obtain ⟨r, P', hrun, A', S', hinv, href, hgrown⟩ := insert_rule
    (I := fun P₁ A₁ => T.TableInv ids P₁ dirId A₁ S ∧ Grown ids dirId P A P₁ A₁)
    (J := fun r P' => ∃ A' S', T.TableInv ids P' dirId A' S' ∧ T.RefStep S (.insert key value) (.flag r) S' ∧
      Grown ids dirId P A P' A')
    (fun P₁ A₁ h₁ => h₁.1.depth_le (T.hash key))
    (fun P₁ A₁ ⟨h₁, hgrown⟩ => (h₁.insertRegion_spec hcap hcmp key value).imp_left
      fun ⟨r, P', S', hrun, hinv, href⟩ => ⟨r, P', hrun, A₁, S', hinv, href,
        hregion (.entry (.insert key value)) h₁.toLayout hgrown (hrun.bind (.pure _ P')) hinv.toLayout⟩)
    (fun P₁ A₁ ⟨h₁, hgrown⟩ => (h₁.splitInsertRegion_spec hcap hcmp hids key value).imp
      (fun ⟨r, P', S', hrun, hinv, href⟩ => ⟨r, P', hrun, A₁, S', hinv, href,
        hregion (.splitInsert key value) h₁.toLayout hgrown (hrun.bind (.pure _ P')) hinv.toLayout⟩)
      fun ⟨P', A', hrun, hinv, hmore⟩ => ⟨P', A', hrun, ⟨hinv,
        hregion (.splitInsert key value) h₁.toLayout hgrown (hrun.bind (.pure _ P')) hinv.toLayout⟩, hmore⟩)
    fuel P A ⟨h, .refl⟩ (by omega)
  exact ⟨r, P', A', S', hrun, hinv, href, hgrown⟩

/-- **A call takes a step of the reference and leaves the pages of others alone.** -/
theorem TableInv.call_grown (h : T.TableInv ids P dirId A S) (c : TableCall K V) : ∃ r P' A' S',
    Disciplined ids cap (T.method .debug dirId fuel c) P r P' ∧ T.TableInv ids P' dirId A' S' ∧
      T.RefStep S c r S' ∧ Grown ids dirId P A P' A' := by
  cases c with
  | insert key value =>
    obtain ⟨r, P', A', S', hrun, hinv, href, hgrown⟩ := h.insert_grown hids hcap hcmp hfuel key value
    exact ⟨_, P', A', S', hrun.bind (.pure _ P'), hinv, href, hgrown⟩
  | remove key value =>
    obtain ⟨r, P₁, S', hrun, hinv, href⟩ := h.removeRegion_spec hcap hcmp key value
    obtain ⟨P', A', hmerge, hinv'⟩ := hinv.merge_spec hcap key
    refine ⟨_, P', A', S', (hrun.bind (hmerge.bind (.pure r P'))).bind (.pure _ P'), hinv', href, ?_⟩
    exact (h.toLayout.grown_of_run hids hcap (.entry (.remove key value)) (hrun.bind (.pure _ P₁))
      hinv.toLayout).trans <|
        hinv.toLayout.grown_of_run hids hcap (.merge key value r) (hmerge.bind (.pure _ P')) hinv'.toLayout
  | getValue key result =>
    obtain ⟨r, hrun, href⟩ := h.getValue_spec hcap hcmp key result
    exact ⟨_, P, A, S, hrun.bind (.pure _ P), h, href, .refl⟩

end

/-- **A table stands where others have moved**, as long as they kept off its pages. -/
theorem TableInv.beside (h : T.TableInv ids P dirId A S) (hnext : P.next ≤ P'.next)
    (hcreated : ∀ p ∈ P'.deleted, P'.Created ids p)
    (hdel : ∀ p ∈ P'.deleted, p ∈ P.deleted ∨ ¬ Owns dirId A p)
    (hmem : ∀ p, Owns dirId A p → P'.mem p = P.mem p) : T.TableInv ids P' dirId A S := by
  -- with fewer pages deleted it would be `grow`
  have hgrow : T.TableInv ids { P' with deleted := P.deleted } dirId A S :=
    h.grow hnext (fun p hp => hp) (hmem dirId (.inl rfl)) fun n => hmem _ (.inr ⟨n, rfl⟩)
  have halive : ∀ p, Owns dirId A p → p ∉ P.deleted → p ∉ P'.deleted := by
    intro p hown hno hp
    rcases hdel p hp with hp | hp
    · exact hno hp
    · exact hp hown
  exact ⟨⟨hgrow.dir_created, halive _ (.inl rfl) h.dir_alive, hgrow.self, hgrow.shows_dir, hgrow.global_le,
    hgrow.tight, hgrow.created, fun n => halive _ (.inr ⟨n, rfl⟩) (h.alive n), hgrow.ne_dir, hcreated⟩,
    hgrow.bucket, hgrow.placed, hgrow.mem_iff⟩

/-! ## All tables together -/

variable {τ : Type} [DecidableEq τ]

/-- An operation, where the table objects hold `dir` in `directory_page_id_`; the result with what they hold
    afterwards. -/
def tablesOp (T : τ → HashTableType K V) (fuel : ℕ) (dir : τ → PageId) :
    TablesOp τ K V → TableProg K V (TablesRet V × (τ → PageId))
  | .construct t => do
    let r ← (T t).construct .debug (dir t)
    pure (.constructed r.2, Function.update dir t r.1)
  | .call t c => do
    let r ← (T t).method .debug (dir t) fuel c
    pure (.returned r, dir)

/-- The operations over the ideal store. -/
def tablesIdeal (T : τ → HashTableType K V) (ids : ℕ → PageId) (fuel : ℕ) : List (TablesOp τ K V) →
    (τ → PageId) × Pages K V → Except Fault (List (TablesRet V) × ((τ → PageId) × Pages K V)) :=
  runCalls fun op s => do
    let ((r, dir), P) ← callIdeal ids (tablesOp T fuel s.1 op) s.2
    .ok (r, (dir, P))

/-- The operations over a pool. -/
def tablesPool {Disk : Type} [DiskManager Disk (PageData K V)] (T : τ → HashTableType K V) (fuel : ℕ) :
    List (TablesOp τ K V) → (τ → PageId) × BufferPoolManagerInstance Disk (PageData K V) →
      Except Fault (List (TablesRet V) × ((τ → PageId) × BufferPoolManagerInstance Disk (PageData K V))) :=
  runCalls fun op s => do
    let ((r, dir), pool) ← callPool .debug (tablesOp T fuel s.1 op) s.2
    .ok (r, (dir, pool))

/-- No table is called before it was constructed. -/
def Constructed (ops : List (TablesOp τ K V)) : Prop :=
  ∀ pre t c post, ops = pre ++ .call t c :: post → .construct t ∈ pre

/-- **The reference: a set for every table**, none before it is constructed. -/
inductive RefTables (T : τ → HashTableType K V) (S : τ → Option (Finset (K × V))) :
    TablesOp τ K V → TablesRet V → (τ → Option (Finset (K × V))) → Prop where
  | constructed {t : τ} : RefTables T S (.construct t) (.constructed true) (Function.update S t (some ∅))
  | returned {t : τ} {c : TableCall K V} {r : TableRet V} {s s' : Finset (K × V)} (hs : S t = some s)
      (hstep : (T t).RefStep s c r s') : RefTables T S (.call t c) (.returned r) (Function.update S t (some s'))

/-- A run of the reference. -/
inductive RefTablesRun (T : τ → HashTableType K V) : (τ → Option (Finset (K × V))) → List (TablesOp τ K V) →
    List (TablesRet V) → (τ → Option (Finset (K × V))) → Prop where
  | nil (S : τ → Option (Finset (K × V))) : RefTablesRun T S [] [] S
  | cons {S S₁ S' : τ → Option (Finset (K × V))} {op : TablesOp τ K V} {r : TablesRet V}
      {ops : List (TablesOp τ K V)} {rs : List (TablesRet V)} (hstep : RefTables T S op r S₁)
      (hrun : RefTablesRun T S₁ ops rs S') : RefTablesRun T S (op :: ops) (r :: rs) S'

/-- **Every table holds its set, and no two own a page in common.** -/
structure TablesInv (T : τ → HashTableType K V) (ids : ℕ → PageId) (P : Pages K V) (dir : τ → PageId)
    (A : τ → Partition PageId) (S : τ → Option (Finset (K × V))) : Prop where
  table : ∀ t s, S t = some s → (T t).TableInv ids P (dir t) (A t) s
  apart : ∀ t u, t ≠ u → S t ≠ none → S u ≠ none → ∀ p, Owns (dir t) (A t) p → ¬ Owns (dir u) (A u) p
  deleted_created : ∀ p ∈ P.deleted, P.Created ids p

variable {T : τ → HashTableType K V} {dir : τ → PageId} {A : τ → Partition PageId}
  {S S' : τ → Option (Finset (K × V))}

/-- What table `u` is found with. -/
theorem TablesInv.find (h : TablesInv T ids P dir A S) {u : τ} (hu : S u ≠ none) :
    ∃ s, (T u).TableInv ids P (dir u) (A u) s := by
  obtain ⟨s, hs⟩ := Option.ne_none_iff_exists'.mp hu
  exact ⟨s, h.table u s hs⟩

/-- **A table moves on**, and the others stay where they are. -/
theorem TablesInv.move (h : TablesInv T ids P dir A S) {t : τ} {d : PageId} {B : Partition PageId}
    {s : Finset (K × V)} (hinv : (T t).TableInv ids P' d B s) (hnext : P.next ≤ P'.next)
    (hmem : ∀ u, u ≠ t → S u ≠ none → ∀ p, Owns (dir u) (A u) p → P'.mem p = P.mem p)
    (hdel : ∀ u, u ≠ t → S u ≠ none → ∀ p ∈ P'.deleted, p ∈ P.deleted ∨ ¬ Owns (dir u) (A u) p)
    (hapart : ∀ u, u ≠ t → S u ≠ none → ∀ p, Owns (dir u) (A u) p → ¬ Owns d B p) :
    TablesInv T ids P' (Function.update dir t d) (Function.update A t B) (Function.update S t (some s)) where
  table u s' hs' := by
    by_cases hu : u = t
    · subst hu
      rw [Function.update_self] at hs' ⊢
      rw [Function.update_self]
      cases hs'
      exact hinv
    · rw [Function.update_of_ne hu] at hs' ⊢
      rw [Function.update_of_ne hu]
      have hsome : S u ≠ none := fun he => by rw [he] at hs'; cases hs'
      exact (h.table u s' hs').beside hnext hinv.deleted_created (hdel u hu hsome) (hmem u hu hsome)
  apart u v huv hu hv p := by
    by_cases hut : u = t
    · subst hut
      rw [Function.update_of_ne huv.symm] at hv ⊢
      rw [Function.update_self, Function.update_self, Function.update_of_ne huv.symm]
      exact fun hown hown' => hapart v huv.symm hv p hown' hown
    · rw [Function.update_of_ne hut] at hu ⊢
      rw [Function.update_of_ne hut]
      by_cases hvt : v = t
      · subst hvt
        rw [Function.update_self, Function.update_self]
        exact hapart u hut hu p
      · rw [Function.update_of_ne hvt] at hv ⊢
        rw [Function.update_of_ne hvt]
        exact h.apart u v huv hu hv p
  deleted_created := hinv.deleted_created

section

variable (hids : Function.Injective ids)
include hids

/-- A table that is constructed takes two pages that nobody has. -/
theorem TablesInv.construct (h : TablesInv T ids P dir A S) (t : τ) :
    TablesInv T ids (firstPages ids P) (Function.update dir t (ids P.next))
      (Function.update A t (.whole (ids (P.next + 1)))) (Function.update S t (some ∅)) := by
  have hnext : (firstPages ids P).next = P.next + 2 := rfl
  have hnew : ∀ u, S u ≠ none → ∀ p, Owns (dir u) (A u) p → p ≠ ids P.next ∧ p ≠ ids (P.next + 1) := by
    intro u hu p hp
    obtain ⟨s, hinv⟩ := h.find hu
    obtain ⟨j, hj, rfl⟩ := hinv.toLayout.owns_created hp
    constructor
    · intro he
      have := hids he
      omega
    · intro he
      have := hids he
      omega
  refine h.move (firstPages_inv hids P h.deleted_created) (by omega) (fun u _ hu p hp => ?_)
    (fun u _ _ p hp => .inl hp) (fun u _ hu p hp => ?_)
  · obtain ⟨h1, h2⟩ := hnew u hu p hp
    simp only [firstPages, Pages.write_mem, Pages.create_mem, Pages.create_next, Pages.write_next,
      Function.update_of_ne h1, Function.update_of_ne h2]
  · obtain ⟨h1, h2⟩ := hnew u hu p hp
    rintro (he | ⟨n, he⟩)
    · exact h1 he
    · exact h2 he.symm

variable (hcmp : ∀ t k k', (T t).comparator k k' = 0 ↔ k = k') {fuel : ℕ} (hfuel : 10 ≤ fuel)
include hcmp hfuel

/-- **Every operation takes a step of the reference.** -/
theorem TablesInv.op_spec (h : TablesInv T ids P dir A S) (op : TablesOp τ K V)
    (hop : ∀ t c, op = .call t c → S t ≠ none) : ∃ r dir' P' A' S',
      Disciplined ids 3 (tablesOp T fuel dir op) P (r, dir') P' ∧ TablesInv T ids P' dir' A' S' ∧
        RefTables T S op r S' := by
  cases op with
  | construct t =>
    exact ⟨_, _, _, _, _, (construct_run hids (Nat.le_succ 2) P (dir t)).bind (.pure _ _), h.construct hids t,
      .constructed⟩
  | call t c =>
    obtain ⟨s, hs⟩ := Option.ne_none_iff_exists'.mp (hop t c rfl)
    have hinv := h.table t s hs
    obtain ⟨r, P', B, s', hrun, hinv', href, hgrown⟩ :=
      hinv.call_grown hids (Nat.le_refl 3) (hcmp t) hfuel c
    refine ⟨_, dir, P', Function.update A t B, _, hrun.bind (.pure _ P'), ?_, .returned hs href⟩
    have happart : ∀ u, u ≠ t → S u ≠ none → ∀ p, Owns (dir u) (A u) p →
        P.Created ids p ∧ ¬ Owns (dir t) (A t) p := by
      intro u hu hsome p hp
      obtain ⟨s₂, hinv₂⟩ := h.find hsome
      exact ⟨hinv₂.toLayout.owns_created hp, h.apart u t hu hsome (fun he => by rw [he] at hs; cases hs) p hp⟩
    have hmove := h.move hinv' hgrown.next_le (fun u hu hsome p hp => ?_) (fun u hu hsome p hp => ?_)
      (fun u hu hsome p hp => ?_)
    · rwa [Function.update_eq_self] at hmove
    · obtain ⟨hc, hno⟩ := happart u hu hsome p hp
      exact hgrown.frame p hc hno
    · rcases hgrown.deleted p hp with hdel | hown | hnew
      · exact .inl hdel
      · exact .inr fun hown' => (happart u hu hsome p hown').2 hown
      · exact .inr fun hown' => hnew (happart u hu hsome p hown').1
    · obtain ⟨hc, hno⟩ := happart u hu hsome p hp
      intro hown
      rcases hgrown.owns p hown with hown | hnew
      · exact hno hown
      · exact hnew hc

end

section

variable {Disk : Type} [DiskManager Disk (PageData K V)] [LawfulDiskManager Disk] {cfg : PoolConfig}
variable (hcmp : ∀ t k k', (T t).comparator k k' = 0 ↔ k = k') {fuel : ℕ} (hfuel : 10 ≤ fuel)
  (hpool : 3 ≤ cfg.poolSize)
include hcmp hfuel hpool

variable (Disk) in
/-- **Operations over the ideal store and over a pool that backs its pages** return the same. -/
theorem TablesInv.ops_agree : ∀ (ops : List (TablesOp τ K V)) {P : Pages K V} {dir : τ → PageId}
    {A : τ → Partition PageId} {S : τ → Option (Finset (K × V))}, TablesInv T cfg.idAt P dir A S →
    (∀ pre t c post, ops = pre ++ .call t c :: post → S t ≠ none ∨ .construct t ∈ pre) →
    ∃ rets dir' P' A' S', tablesIdeal T cfg.idAt fuel ops (dir, P) = .ok (rets, (dir', P')) ∧
      TablesInv T cfg.idAt P' dir' A' S' ∧ RefTablesRun T S ops rets S' ∧ P.next ≤ P'.next ∧
      (cfg.idAt P'.next < 2 ^ 31 → ∀ s : BufferPoolManagerInstance Disk (PageData K V), Backs cfg P [] s →
        ∃ s', tablesPool T fuel ops (dir, s) = .ok (rets, (dir', s')) ∧ Backs cfg P' [] s') := by
  intro ops
  induction ops with
  | nil =>
    intro P dir A S h _
    exact ⟨[], dir, P, A, S, rfl, h, .nil S, Nat.le_refl _, fun _ s hs => ⟨s, rfl, hs⟩⟩
  | cons op ops ih =>
    intro P dir A S h hvalid
    obtain ⟨r, dir₁, P₁, A₁, S₁, hdisc, hinv, href⟩ := h.op_spec cfg.idAt_injective hcmp hfuel op fun t c he => by
      rcases hvalid [] t c ops (by rw [he]; rfl) with hsome | hmem
      · exact hsome
      · cases hmem
    -- a table in use after the first operation was in use before it, or is the one just constructed
    have hvalid₁ : ∀ pre t c post, ops = pre ++ .call t c :: post → S₁ t ≠ none ∨ .construct t ∈ pre := by
      intro pre t c post he
      -- no operation takes a table away
      have hsome : S t ≠ none ∨ op = .construct t → S₁ t ≠ none := by
        intro hsome
        cases href with
        | @constructed u =>
          rw [Function.update_apply]
          split
          · exact Option.some_ne_none _
          · next hne => exact hsome.resolve_right fun heq => hne (by cases heq; rfl)
        | @returned u c r s s' hs hstep =>
          rw [Function.update_apply]
          split
          · exact Option.some_ne_none _
          · exact hsome.resolve_right fun heq => by cases heq
      rcases hvalid (op :: pre) t c post (by rw [he]; rfl) with hold | hmem
      · exact .inl (hsome (.inl hold))
      · rcases List.mem_cons.mp hmem with hfirst | hmem
        · exact .inl (hsome (.inr hfirst.symm))
        · exact .inr hmem
    obtain ⟨rs, dir', P', A', S', hideal, hinv', hrun, hle, hpools⟩ := ih hinv hvalid₁
    -- the discipline of one operation carries it over to the ideal store and, below, to the pool
    have hfirst : callIdeal cfg.idAt (tablesOp T fuel dir op) P = .ok ((r, dir₁), P₁) :=
      Disciplined.callIdeal_same hdisc
    refine ⟨r :: rs, dir', P', A', S', runCalls_cons ?_ hideal, hinv', .cons href hrun,
      hdisc.next_le.trans hle, fun hcount s hs => ?_⟩
    · rw [hfirst]
      rfl
    · have hcount₁ : cfg.idAt P₁.next < 2 ^ 31 := lt_of_le_of_lt (cfg.idAt_le hle) hcount
      obtain ⟨s₁, hcall, hs₁⟩ := Disciplined.callPool hpool hdisc .debug hcount₁ hs
      obtain ⟨s', hcalls, hs'⟩ := hpools hcount s₁ hs₁
      refine ⟨s', runCalls_cons ?_ hcalls, hs'⟩
      rw [hcall]
      rfl

/-- **Tables that share a pool do not notice each other.**  Whatever a client does with the tables `τ`, as long as it
    constructs a table before it calls it: the operations return, and every table answers like a set of its own
    that starts empty when it is constructed.  Over a fresh pool of three frames or more they return the same,
    and afterwards the pool holds these sets; the id counter, which ends at `idAt P'.next`, has not wrapped. -/
theorem tables_apart (disk : Disk) (dir : τ → PageId) {ops : List (TablesOp τ K V)} (hops : Constructed ops) :
    ∃ rets dir' P' S', tablesIdeal T cfg.idAt fuel ops (dir, Pages.empty) = .ok (rets, (dir', P')) ∧
      RefTablesRun T (fun _ => none) ops rets S' ∧
      (cfg.idAt P'.next < 2 ^ 31 → ∃ s' : BufferPoolManagerInstance Disk (PageData K V),
        tablesPool T fuel ops (dir, create cfg disk) = .ok (rets, (dir', s')) ∧
        ∀ t s, S' t = some s → ∀ e, (T t).HoldsPool s' (dir' t) e ↔ e ∈ s) := by
  have hnone : TablesInv T cfg.idAt Pages.empty dir (fun _ => .whole 0) fun _ => none :=
    ⟨fun t s hs => (by cases hs), fun t u _ ht => absurd rfl ht, fun p hp => (by cases hp)⟩
  obtain ⟨rets, dir', P', A', S', hideal, hinv, hrun, hle, hpools⟩ := TablesInv.ops_agree Disk hcmp hfuel hpool ops
    hnone fun pre t c post he => .inr (hops pre t c post he)
  refine ⟨rets, dir', P', S', hideal, hrun, fun hcount => ?_⟩
  obtain ⟨s', hcalls, hbacks⟩ := hpools hcount (create cfg disk)
    (.fresh (lt_of_le_of_lt (cfg.idAt_le hle) hcount) disk)
  refine ⟨s', hcalls, fun t s hs e => ?_⟩
  have htable := hinv.table t s hs
  rw [htable.toLayout.holdsPool_iff hbacks, htable.holds_iff]

end

/-- Two tables over three frames, the second one constructed while the first one is in use. -/
theorem tables_apart_two : ∃ rets dir' P' S',
    tablesIdeal (fun _ : Bool => smallTable) threeFrames.idAt 10
      [.construct true, .call true (.insert 5 7), .construct false, .call false (.getValue 5 [])]
      (fun _ => 0, Pages.empty) = .ok (rets, (dir', P')) ∧
    RefTablesRun (fun _ : Bool => smallTable) (fun _ => none)
      [.construct true, .call true (.insert 5 7), .construct false, .call false (.getValue 5 [])] rets S' := by
  have hops : Constructed ([.construct true, .call true (.insert 5 7), .construct false,
      .call false (.getValue 5 [])] : List (TablesOp Bool ℤ ℤ)) := by
    intro pre t c post he
    match pre, he with
    | [_], he => cases he; exact List.mem_cons_self ..
    | [_, _, _], he => cases he; simp
    | [], he => cases he
    | [_, _], he => cases he
    | _ :: _ :: _ :: _ :: _, he => simp at he
  obtain ⟨rets, dir', P', S', hideal, hrun, -⟩ := tables_apart (fun _ => smallTable_comparator) (Nat.le_refl 10)
    (show 3 ≤ threeFrames.poolSize from Nat.le_refl 3) (fun _ => 0 : PageId → PageData ℤ ℤ) (fun _ => 0) hops
  exact ⟨rets, dir', P', S', hideal, hrun⟩

end HashTableType

end BusTub
