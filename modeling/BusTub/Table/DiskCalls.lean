/-
  How often the table goes to disk.

  A hash table on disk is meant to find a key with few page accesses.  Here the `ReadPage` and `WritePage` calls of
  the pool are counted while callers use the table.

  1. **`meteredCallers`**: the callers over one pool of `ConcurrentPool`, with a meter of the calls to the disk.

  2. **`within_region`**: no region asks the pool for more than two pages that are there, and a new one.

  3. `disk_calls_bounded` — **the main result**: a lookup reads and writes at most two pages.  In the long run an
     `Insert` reads four and a `Remove` eight, whatever the splits and merges and however the callers take turns.
-/
import BusTub.Lib.Costs
import BusTub.Buffer.LargerPool
import BusTub.Buffer.Writes
import BusTub.Table.ConcurrentPool
import BusTub.Table.Evicted
import BusTub.Table.Progress

set_option linter.unusedSectionVars false

namespace BusTub

open Command HashPartition StepSystem BufferPoolManagerInstance

/-- The calls of `ReadPage` and `WritePage` so far. -/
structure DiskMeter where
  reads : ℕ
  writes : ℕ

/-! ## What one command adds -/

section command

variable {K V : Type}

/-- What a command costs, if the three calls that may go to disk cost so much. -/
def Cmd.price (fetch new delete : ℕ) : Cmd K V → ℕ
  | .newPage _ => new
  | .fetchPage _ _ => fetch
  | .deletePage _ => delete
  | _ => 0

variable {Disk : Type} [DiskManager Disk (PageData K V)]

/-- The meter after a command. -/
def DiskMeter.next (b : Build) (c : Cmd K V) (s : PoolStore Disk K V) (n : DiskMeter) : DiskMeter :=
  match c.poolCall with
  | some call => ⟨n.reads + s.pool.readsOf (s.pool.opOf call), n.writes + (s.pool.writes b call).length⟩
  | none => n

end command

namespace BufferPoolManagerInstance

section writes

variable {Disk Data : Type} [DiskManager Disk Data] [Zero Data] (s : BufferPoolManagerInstance Disk Data)

/-- A frame is written back once or not at all. -/
theorem writeBackWrites_length (f : FrameId) : (s.writeBackWrites f).length ≤ 1 := by
  unfold writeBackWrites
  split <;> simp

/-- One victim at most is written back. -/
theorem pickFrameWrites_length : s.pickFrameWrites.length ≤ 1 := by
  unfold pickFrameWrites
  split
  · exact Nat.zero_le 1
  · split
    · exact s.writeBackWrites_length _
    · exact Nat.zero_le 1

/-- `NewPgImp` writes the victim's page, if that is dirty, and the new one. -/
theorem newPgWrites_length (b : Build) : (s.newPgWrites b).length ≤ 2 := by
  unfold newPgWrites
  split
  · exact Nat.zero_le 2
  · split
    · exact Nat.zero_le 2
    · split
      · exact Nat.zero_le 2
      · next s₁ _ =>
        split
        · exact Nat.zero_le 2
        · have hpick := s₁.pickFrameWrites_length
          simp only [List.length_append, List.length_cons, List.length_nil]
          omega

/-- `FetchPgImp` writes the victim's page at most. -/
theorem fetchPgWrites_length (p : PageId) : (s.fetchPgWrites p).length ≤ 1 := by
  unfold fetchPgWrites
  split
  · exact Nat.zero_le 1
  · split
    · exact Nat.zero_le 1
    · exact s.pickFrameWrites_length

/-- `DeletePgImp` writes the deleted page, if that is dirty. -/
theorem deletePgWrites_length (p : PageId) : (s.deletePgWrites p).length ≤ 1 := by
  unfold deletePgWrites
  split
  · exact Nat.zero_le 1
  · split
    · exact Nat.zero_le 1
    · exact s.writeBackWrites_length _

end writes

end BufferPoolManagerInstance

section

variable {K V Disk : Type} [DiskManager Disk (PageData K V)]

/-- **A command reads and writes what it costs**, at most. -/
theorem DiskMeter.next_le (b : Build) (c : Cmd K V) (s : PoolStore Disk K V) (n : DiskMeter) :
    (n.next b c s).reads ≤ n.reads + c.price 1 0 0 ∧ (n.next b c s).writes ≤ n.writes + c.price 1 2 1 := by
  cases c with
  | newPage v => exact ⟨Nat.le_refl _, Nat.add_le_add_left (s.pool.newPgWrites_length b) _⟩
  | fetchPage v p =>
    refine ⟨Nat.add_le_add_left ?_ _, Nat.add_le_add_left (s.pool.fetchPgWrites_length p) _⟩
    show (if _ then 0 else 1) ≤ 1
    split <;> omega
  | unpinPage p d => exact ⟨Nat.le_refl _, Nat.le_refl _⟩
  | deletePage p => exact ⟨Nat.le_refl _, Nat.add_le_add_left (s.pool.deletePgWrites_length p) _⟩
  | load v => exact ⟨Nat.le_refl _, Nat.le_refl _⟩
  | store v x => exact ⟨Nat.le_refl _, Nat.le_refl _⟩
  | latch l => exact ⟨Nat.le_refl _, Nat.le_refl _⟩

end

/-! ## What a region costs -/

namespace TableProg

variable {K V : Type} {f n d : ℕ} {b : Build}

theorem within_latch (l : LatchOp) : Within (Cmd.price (K := K) (V := V) f n d) 0 (latch l) := .call (Nat.le_refl 0)

theorem within_load (v : PtrVar) : Within (Cmd.price (K := K) (V := V) f n d) 0 (load v) := .call (Nat.le_refl 0)

theorem within_store (v : PtrVar) (x : PageData K V) : Within (Cmd.price f n d) 0 (store v x) := .call (Nat.le_refl 0)

theorem within_unpinPage (p : PageId) (dirty : Bool) :
    Within (Cmd.price (K := K) (V := V) f n d) 0 (unpinPage p dirty) := .call (Nat.le_refl 0)

/-- An assertion about a result costs nothing more. -/
theorem within_assert {k : ℕ} {p : TableProg K V Bool} (h : Within (Cmd.price f n d) k p) :
    Within (Cmd.price f n d) k (assert_ b p) := by
  cases b with
  | debug =>
    have hcheck := h.bind (m := 0) (f := fun res => if res = true then pure () else Prog.fail .assertion) fun res => by
      split
      · exact .pure ()
      · exact .fail _
    exact hcheck
  | ndebug => exact .pure ()

end TableProg

/-- What a region may cost beside the pages that it fetches. -/
def Region.extra {K V : Type} (new delete : ℕ) : Region K V → ℕ
  | .entry _ => 0
  | .splitInsert _ _ => new
  | .merge _ _ _ => delete

namespace HashTableType

open TableProg

section costs

variable {K V : Type} [Inhabited K] [Inhabited V] [DecidableEq K] [DecidableEq V]
variable {T : HashTableType K V} {b : Build} {f n d : ℕ} (dirId : PageId)

/-- Pages that are pinned are read for nothing. -/
theorem within_loadDirectory : Within (Cmd.price f n d) 0 T.loadDirectory := (within_load _).free_bind fun _ => .pure _

theorem within_loadBucket (v : PtrVar) : Within (Cmd.price f n d) 0 (T.loadBucket v) :=
  (within_load v).free_bind fun _ => .pure _

theorem within_unpinDirectory (dirty : Bool) : Within (Cmd.price f n d) 0 (T.unpinDirectory b dirty) :=
  within_assert <| within_loadDirectory.free_bind fun _ => within_unpinPage _ dirty

/-- The head that the methods share fetches two pages. -/
theorem within_fetchFor (key : K) : Within (Cmd.price f n d) (f + f) (T.fetchFor b dirId key) := by
  have hfetch : ∀ (v : PtrVar) (p : PageId), Within (Cmd.price (K := K) (V := V) f n d) f (fetchPage v p) :=
    fun v p => .call (Nat.le_refl f)
  have hdir : Within (Cmd.price (K := K) (V := V) f n d) f (fetchDirectoryPage b dirId) :=
    ((hfetch _ _).bind (m := 0) fun _ => Within.free_bind (.lift _) fun _ => .pure _)
  refine hdir.bind fun _ => .free_bind (.lift _) fun _ => within_loadDirectory.free_bind fun dir => ?_
  have hbucket : Within (Cmd.price (K := K) (V := V) f n d) f (fetchBucketPage b (T.keyToPageId key dir)) :=
    ((hfetch _ _).bind (m := 0) fun _ => Within.free_bind (.lift _) fun _ => .pure _)
  exact hbucket.bind (m := 0) fun _ => Within.free_bind (.lift _) fun _ => .pure _

/-- `GetValue` is charged for two fetches: the directory page and the bucket page. -/
theorem within_getValue (key : K) (result : List V) :
    Within (Cmd.price f n d) (f + f) (T.getValue b dirId key result) :=
  (within_latch _).free_bind fun _ => (within_fetchFor dirId key).bind (m := 0) fun _ =>
    (within_latch _).free_bind fun _ => (within_loadBucket _).free_bind fun _ =>
    (within_unpinDirectory _).free_bind fun _ => (within_assert (within_unpinPage _ _)).free_bind fun _ =>
    (within_latch _).free_bind fun _ => (within_latch _).free_bind fun _ => .pure _

/-- So is the first region of `Insert`, -/
theorem within_insertRegion (key : K) (value : V) :
    Within (Cmd.price f n d) (f + f) (T.insertRegion b dirId key value) := by
  refine (within_latch _).free_bind fun _ => (within_fetchFor dirId key).bind (m := 0) fun _ =>
    (within_latch _).free_bind fun _ => (within_loadBucket _).free_bind fun bucket => ?_
  split
  · exact (within_store _ _).free_bind fun _ => (within_unpinDirectory _).free_bind fun _ =>
      (within_assert (within_unpinPage _ _)).free_bind fun _ => (within_latch _).free_bind fun _ =>
      (within_latch _).free_bind fun _ => .pure _
  · exact (within_assert (within_unpinPage _ _)).free_bind fun _ => (within_unpinDirectory _).free_bind fun _ =>
      (within_latch _).free_bind fun _ => (within_latch _).free_bind fun _ => .pure _

/-- and that of `Remove`. -/
theorem within_removeRegion (key : K) (value : V) :
    Within (Cmd.price f n d) (f + f) (T.removeRegion b dirId key value) :=
  (within_latch _).free_bind fun _ => (within_fetchFor dirId key).bind (m := 0) fun _ =>
    (within_latch _).free_bind fun _ => (within_loadBucket _).free_bind fun _ =>
    (within_store _ _).free_bind fun _ => (within_assert (within_unpinPage _ _)).free_bind fun _ =>
    (within_unpinDirectory _).free_bind fun _ => (within_latch _).free_bind fun _ =>
    (within_latch _).free_bind fun _ => .pure _

/-- Moving pairs costs nothing. -/
theorem within_redistribute (p : PageId) : ∀ remaining arr_idx : ℕ,
    Within (Cmd.price f n d) 0 (T.redistribute p remaining arr_idx)
  | 0, _ => .pure ()
  | remaining + 1, arr_idx => by
    have hrest := within_redistribute p remaining (arr_idx + 1)
    refine (within_loadBucket _).free_bind fun bucket => ?_
    split
    · refine within_loadDirectory.free_bind fun dir => ?_
      split
      · exact (within_loadBucket _).free_bind fun _ => (within_store _ _).free_bind fun _ =>
          (within_store _ _).free_bind fun _ => hrest
      · exact hrest
    · exact hrest

/-- A round of `SplitInsert` is charged for a new page besides. -/
theorem within_splitInsertRegion (key : K) (value : V) :
    Within (Cmd.price f n d) (f + f + n) (T.splitInsertRegion b dirId key value) := by
  refine (within_latch _).free_bind fun _ => (within_fetchFor dirId key).bind fun _ =>
    within_loadDirectory.free_bind fun dir => (within_loadBucket _).free_bind fun bucket => ?_
  split
  · exact (within_store _ _).free_bind fun _ => (within_unpinDirectory _).free_bind fun _ =>
      (within_assert (within_unpinPage _ _)).free_bind fun _ => (within_latch _).free_bind fun _ => .pure _
  · refine Within.free_bind (.lift _) fun deeper => ?_
    split
    · exact (within_unpinDirectory _).free_bind fun _ => (within_assert (within_unpinPage _ _)).free_bind fun _ =>
        (within_latch _).free_bind fun _ => .pure _
    · have hnew : Within (Cmd.price (K := K) (V := V) f n d) n (newPage .splitBucketPage) := .call (Nat.le_refl n)
      refine (within_store _ _).free_bind fun _ => hnew.bind (m := 0) fun _ => Within.free_bind (.lift _) fun _ =>
        Within.free_bind (.lift _) fun _ => (within_store _ _).free_bind fun _ => ?_
      have hlook : ∀ v (g : HashTableBucketPage K V → Bool), Within (Cmd.price f n d) 0 (assert_ b do
          let bucket ← T.loadBucket v
          pure (g bucket)) := fun v g => within_assert ((within_loadBucket v).free_bind fun _ => .pure _)
      exact (hlook _ _).free_bind fun _ => (hlook _ _).free_bind fun _ =>
        (within_redistribute _ _ _).free_bind fun _ => (within_unpinDirectory _).free_bind fun _ =>
        (within_assert (within_unpinPage _ _)).free_bind fun _ =>
        (within_assert (within_unpinPage _ _)).free_bind fun _ => (within_latch _).free_bind fun _ => .pure _

/-- `Merge` is charged for a deletion besides. -/
theorem within_merge (key : K) : Within (Cmd.price f n d) (f + f + d) (T.merge b dirId key) := by
  have hback : ∀ p, Within (Cmd.price f n d) d (do
      assert_ b (unpinPage p false)
      T.unpinDirectory b false
      latch .tableWUnlock) := fun p => ((within_assert (within_unpinPage p false)).free_bind fun _ =>
    (within_unpinDirectory (T := T) false).free_bind fun _ => within_latch _).mono (Nat.zero_le d)
  refine (within_latch _).free_bind fun _ => (within_fetchFor dirId key).bind fun p =>
    within_loadDirectory.free_bind fun dir => (within_loadBucket _).free_bind fun bucket => ?_
  split
  · exact hback p
  · refine Within.free_bind (.lift _) fun _ => ?_
    split
    · exact hback p
    · have hdelete : Within (Cmd.price (K := K) (V := V) f n d) d (assert_ b (deletePage p)) :=
        within_assert (.call (Nat.le_refl d))
      exact Within.free_bind (.lift _) fun _ => (within_assert (within_unpinPage _ _)).free_bind fun _ =>
        hdelete.bind (m := 0) fun _ => Within.free_bind (.lift _) fun _ => Within.free_bind (.lift _) fun _ =>
        (within_store _ _).free_bind fun _ => (within_unpinDirectory _).free_bind fun _ => within_latch _

/-- The fetches of a region cost `f` each; a split has a new page besides, a merge a page to delete. -/
theorem within_region (x : Region K V) : Within (Cmd.price f n d) (f + f + x.extra n d) (T.region b dirId x) := by
  cases x with
  | entry c =>
    cases c with
    | insert key value => exact (within_insertRegion dirId key value).bind fun _ => .pure _
    | remove key value => exact (within_removeRegion dirId key value).bind fun _ => .pure _
    | getValue key result => exact (within_getValue dirId key result).bind fun _ => .pure _
  | splitInsert key value => exact (within_splitInsertRegion dirId key value).bind (m := 0) fun _ => .pure _
  | merge key value res => exact (within_merge dirId key).bind (m := 0) fun _ => .pure _

end costs

/-! ## The callers over a pool with a meter -/

variable {Disk K V : Type} [DiskManager Disk (PageData K V)]
variable [Inhabited K] [Inhabited V] [DecidableEq K] [DecidableEq V]
variable {ι : Type} [DecidableEq ι]

/-- **The callers of `concurrentPool`, with a meter of the calls to the disk**, which a region moves on. -/
def meteredCallers (ι : Type) [DecidableEq ι] (T : HashTableType K V) (dirId : PageId)
    (s₁ : BufferPoolManagerInstance Disk (PageData K V)) :
    StepSystem (PoolShared ι Disk K V × DiskMeter) (SharedEvent ι K V) where
  init a := a = (⟨s₁, fun _ => .idle⟩, ⟨0, 0⟩)
  step a e a' := (concurrentPool ι T dirId s₁).step a.1 e a'.1 ∧
    match e with
    | .region i => ∃ x y u, a.1.phase i = .before x ∧
        run (metered (poolMachine .debug) (fun c s n => n.next .debug c s)) (T.region .debug dirId x)
          (⟨a.1.pool, fun _ => none⟩, a.2) = .ok (y, u) ∧ a'.2 = u.2
    | _ => a'.2 = a.2

variable [LawfulDiskManager Disk] {T : HashTableType K V} {cfg : PoolConfig} {dirId : PageId}
  {s₁ : BufferPoolManagerInstance Disk (PageData K V)} {a a' : PoolShared ι Disk K V × DiskMeter}

/-- Every run of the callers has a meter. -/
theorem metered_of_run {w w' : PoolShared ι Disk K V} {es : List (SharedEvent ι K V)}
    (hrun : (concurrentPool ι T dirId s₁).Run w es w') (n : DiskMeter) :
    ∃ n', (meteredCallers ι T dirId s₁).Run (w, n) es (w', n') := by
  induction hrun with
  | nil => exact ⟨n, .nil _⟩
  | @snoc u v es e hrun hstep ih =>
    obtain ⟨n₁, hrun₁⟩ := ih
    cases e with
    | call i c => exact ⟨n₁, hrun₁.snoc ⟨hstep, rfl⟩⟩
    | ret i c r => exact ⟨n₁, hrun₁.snoc ⟨hstep, rfl⟩⟩
    | region i =>
      obtain ⟨hroom, x, y, pool, hx, hcall, rfl⟩ := hstep
      obtain ⟨ptr, hregion⟩ := callPool_inv hcall
      obtain ⟨n', hmetered⟩ : ∃ n', run (metered (poolMachine .debug) fun c s n => n.next .debug c s)
          (T.region .debug dirId x) (⟨u.pool, fun _ => none⟩, n₁) = .ok (y, (⟨pool, ptr⟩, n')) := run_metered n₁ hregion
      exact ⟨n', hrun₁.snoc ⟨⟨hroom, x, y, pool, hx, hcall, rfl⟩, x, y, _, hx, hmetered, rfl⟩⟩

/-- Without the meter it is a run of the callers. -/
theorem run_of_meteredCallers {es : List (SharedEvent ι K V)} (hrun : (meteredCallers ι T dirId s₁).Run a es a') :
    (concurrentPool ι T dirId s₁).Run a.1 es a'.1 := by
  induction hrun with
  | nil => exact .nil _
  | snoc _ hstep ih => exact ih.snoc hstep.1

/-- **What a region reads and writes.** -/
theorem meteredCallers_region {i : ι} {x : Region K V} (hx : a.1.phase i = .before x)
    (hstep : (meteredCallers ι T dirId s₁).step a (.region i) a') :
    a'.2.reads ≤ a.2.reads + 2 ∧ a'.2.writes ≤ a.2.writes + 2 + x.extra 2 1 := by
  obtain ⟨-, x', y, u, hx', hrun, hmeter⟩ := hstep
  obtain rfl : x = x' := by
    rw [hx] at hx'
    exact Phase.before.inj hx'
  have hreads := (within_region (b := .debug) (T := T) (f := 1) (n := 0) (d := 0) dirId x).run
    (fun u => u.2.reads) (fun c u r u' hc => (by
      rw [(metered_inv hc).2]
      exact (DiskMeter.next_le .debug c u.1 u.2).1)) hrun
  have hwrites := (within_region (b := .debug) (T := T) (f := 1) (n := 2) (d := 1) dirId x).run
    (fun u => u.2.writes) (fun c u r u' hc => (by
      rw [(metered_inv hc).2]
      exact (DiskMeter.next_le .debug c u.1 u.2).2)) hrun
  have hnone : x.extra 0 0 = 0 := by
    cases x <;> rfl
  simp only at hreads hwrites
  rw [hmeter]
  omega

/-- A run reads two pages for every region at most, and writes four. -/
theorem meteredCallers_run {es : List (SharedEvent ι K V)} (hrun : (meteredCallers ι T dirId s₁).Run a es a') :
    a'.2.reads ≤ a.2.reads + 2 * total SharedEvent.regions es ∧
      a'.2.writes ≤ a.2.writes + 4 * total SharedEvent.regions es := by
  induction hrun with
  | nil => exact ⟨Nat.le_refl _, Nat.le_refl _⟩
  | @snoc u v es e hrun hstep ih =>
    rw [total_append, total_single]
    cases e with
    | call i c =>
      have hmeter : v.2 = u.2 := hstep.2
      rw [hmeter]
      exact ih
    | ret i c r =>
      have hmeter : v.2 = u.2 := hstep.2
      rw [hmeter]
      exact ih
    | region i =>
      obtain ⟨x, y, w, hx, -⟩ := hstep.2
      obtain ⟨hreads, hwrites⟩ := meteredCallers_region hx hstep
      have hextra : x.extra 2 1 ≤ 2 := by
        cases x <;> simp [Region.extra]
      simp only [SharedEvent.regions]
      omega

/-- **The calls to the disk are few.**  Over a fresh pool that the table has for itself a region reads two pages at
    most, and so does a lookup, which is one region.  However the callers `ι` take turns, all reads come to two for
    each region that the calls are due to run without splits (one for `GetValue`, two for `Insert`, four for
    `Remove`), and 2044 besides, which pay for all splits; and there are at most twice as many writes. -/
theorem disk_calls_bounded [Fintype ι] (hpool : 3 ≤ cfg.poolSize) (hcount : cfg.idAt 2 < 2 ^ 31) (disk : Disk)
    {dir₀ : PageId} (hopen : callPool .debug (T.construct .debug dir₀) (create cfg disk) = .ok ((dirId, true), s₁))
    {es : List (SharedEvent ι K V)} (hrun : (meteredCallers ι T dirId s₁).Run (⟨s₁, fun _ => .idle⟩, ⟨0, 0⟩) es a) :
    (∀ i x a', a.1.phase i = .before x → (meteredCallers ι T dirId s₁).step a (.region i) a' →
      a'.2.reads ≤ a.2.reads + 2 ∧ a'.2.writes ≤ a.2.writes + 2 + x.extra 2 1) ∧
    a.2.reads ≤ 2 * (total SharedEvent.due es + 1022) ∧ a.2.writes ≤ 4 * (total SharedEvent.due es + 1022) := by
  refine ⟨fun i x a' hx hstep => meteredCallers_region hx hstep, ?_⟩
  have hids := cfg.idAt_injective
  obtain ⟨rfl, hbacks⟩ := construct_backs hpool hcount disk hopen
  have hlayout : T.Layout cfg.idAt (firstPages cfg.idAt Pages.empty) (cfg.idAt 0) _ :=
    firstPages_layout hids Pages.empty fun p hp => (by cases hp)
  have hsame : SamePhases T cfg (cfg.idAt 0) (⟨s₁, fun _ => .idle⟩ : PoolShared ι Disk K V)
      ⟨firstPages cfg.idAt Pages.empty, fun _ => .idle⟩ := ⟨hbacks, rfl, _, hlayout⟩
  obtain ⟨t, hideal, -⟩ := hsame.run hpool (run_of_meteredCallers hrun)
  obtain ⟨-, hregions⟩ := regions_le_due hids .debug hlayout hideal
  obtain ⟨hreads, hwrites⟩ := meteredCallers_run hrun
  simp only at hreads hwrites
  omega

/-- Four calls of two callers, which are due to run ten regions; one splits and one merges. -/
theorem disk_calls_bounded_two_callers : ∃ s₁ a,
    callPool .debug (smallTable.construct .debug 0) (create threeFrames fun _ => 0 :
      BufferPoolManagerInstance (PageId → PageData ℤ ℤ) (PageData ℤ ℤ)) = .ok ((0, true), s₁) ∧
    (meteredCallers Bool smallTable 0 s₁).Run (⟨s₁, fun _ => .idle⟩, ⟨0, 0⟩) splitAndMerge a ∧
    a.1.pool.nextPageId = 3 ∧ a.2.reads ≤ 2 * (10 + 1022) := by
  obtain ⟨s₁, w, hopen, hrun, -, hnext⟩ := splitAndMerge_over_pool
  obtain ⟨n, hmetered⟩ := metered_of_run hrun ⟨0, 0⟩
  obtain ⟨-, hreads, -⟩ := disk_calls_bounded (Nat.le_refl 3) (by decide) (fun _ => 0) hopen hmetered
  exact ⟨s₁, _, hopen, hmetered, hnext, hreads⟩

end HashTableType

end BusTub
