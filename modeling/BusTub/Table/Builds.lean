/-
  The two builds of the table over a pool.

  Every `UnpinPage` and `DeletePage` of the table stands inside an `assert`, so the build without asserts
  never gives a pin back.

  1. **`SamePages`** compares what the two builds leave: the pages in the pool, with their pin counts and
     dirty flags.  **`Agrees`** says that the build without asserts does what the other does, for runs that
     the other completes.

  2. **`Pins`** counts pins along a program, for both builds at once.  In the debug build an operation
     leaves as many as it found; in the other it leaves at least one more (`operation_pins`).

  3. `builds_agree_iff` — **the main result**: the builds agree throughout a run exactly when nothing is
     ever unpinned in it, that is when the run consists of constructions on a pool without two frames to
     take.
-/
import BusTub.Table.OverPool

set_option linter.unusedSectionVars false

namespace BusTub

open Command BufferPoolManagerInstance

/-! ## Operations of a table over a pool -/

/-- An operation on a table. -/
inductive TableOp (K V : Type) where
  | construct
  | call (c : TableCall K V)
  | getGlobalDepth

/-- What an operation returns. -/
inductive OpRet (V : Type) where
  | constructed
  | call (r : TableRet V)
  | depth (global_depth : ℕ)
  deriving DecidableEq

/-- A table over a pool: its members `directory_page_id_` and `buffer_pool_manager_`. -/
structure PoolTable (Disk K V : Type) where
  directoryPageId : PageId
  pool : BufferPoolManagerInstance Disk (PageData K V)

namespace HashTableType

variable {Disk K V : Type} [DiskManager Disk (PageData K V)]
variable [Inhabited K] [Inhabited V] [DecidableEq K] [DecidableEq V]

/-- The program of an operation: what it returns, and `directory_page_id_` afterwards. -/
def operation (T : HashTableType K V) (b : Build) (fuel : ℕ) (dirId : PageId) :
    TableOp K V → TableProg K V (OpRet V × PageId)
  | .construct => do
    let res ← T.construct b dirId
    pure (.constructed, res.1)
  | .call c => do
    let ret ← T.method b dirId fuel c
    pure (.call ret, dirId)
  | .getGlobalDepth => do
    let global_depth ← T.getGlobalDepth b dirId
    pure (.depth global_depth, dirId)

/-- Run an operation. -/
def runOp (T : HashTableType K V) (b : Build) (fuel : ℕ) (op : TableOp K V) (t : PoolTable Disk K V) :
    Except Fault (OpRet V × PoolTable Disk K V) :=
  match callPool b (T.operation b fuel t.directoryPageId op) t.pool with
  | .ok ((ret, dirId), pool) => .ok (ret, ⟨dirId, pool⟩)
  | .error e => .error e

/-- Run operations one after another. -/
def runOps (T : HashTableType K V) (b : Build) (fuel : ℕ) :
    List (TableOp K V) → PoolTable Disk K V → Except Fault (List (OpRet V) × PoolTable Disk K V) :=
  runCalls (T.runOp b fuel)

end HashTableType

namespace BufferPoolManagerInstance

variable {Disk Data : Type}

/-- The page id, pin count and dirty flag of every page of the pool, whichever frame it is in. -/
def labels (s : BufferPoolManagerInstance Disk Data) : Multiset (PageId × Int × Bool) :=
  (Multiset.range s.cfg.poolSize).map fun i : ℕ =>
    ((s.pages i).pageId, (s.pages i).pinCount, (s.pages i).isDirty)

/-- Two pools hold the same pages, with the same pin counts and dirty flags. -/
def SamePages (s₁ s₂ : BufferPoolManagerInstance Disk Data) : Prop := s₁.labels = s₂.labels

/-- Pools with the same pages have the same number of pins. -/
theorem SamePages.pinTotal {s₁ s₂ : BufferPoolManagerInstance Disk Data} (h : s₁.SamePages s₂) :
    s₁.pinTotal = s₂.pinTotal := by
  have hsum : ∀ s : BufferPoolManagerInstance Disk Data, s.pinTotal = (s.labels.map fun l => l.2.1).sum := by
    intro s
    unfold labels
    rw [Multiset.map_map]
    rfl
  rw [hsum, hsum, show s₁.labels = s₂.labels from h]

end BufferPoolManagerInstance

/-- **The builds agree on `ops`**: if the debug build completes them, the build without asserts does so
    too, with the same results, and leaves the same pages, pin counts and dirty flags. -/
def HashTableType.Agrees {Disk K V : Type} [DiskManager Disk (PageData K V)] [Inhabited K] [Inhabited V]
    [DecidableEq K] [DecidableEq V] (T : HashTableType K V) (ops : List (TableOp K V))
    (t : PoolTable Disk K V) : Prop :=
  ∀ fuel rets t₁, T.runOps .debug fuel ops t = .ok (rets, t₁) →
    ∃ fuel' t₂, T.runOps .ndebug fuel' ops t = .ok (rets, t₂) ∧ t₁.pool.SamePages t₂.pool

/-! ## One command -/

section commands

variable {Disk K V : Type} [DiskManager Disk (PageData K V)] {b : Build} {t t' : PoolStore Disk K V}

/-- The pins that a command hands out, less those it takes back. -/
def Cmd.pinChange : (c : Cmd K V) → Cmd.Res c → ℤ
  | .newPage _, id => if id.isSome then 1 else 0
  | .fetchPage _ _, page => if page then 1 else 0
  | .unpinPage _ _, res => if res then -1 else 0
  | _, _ => 0

/-- A command of the table over a consistent pool changes the pins by its `pinChange`. -/
theorem poolMachine_pins (h : t.pool.Consistent) {c : Cmd K V} {r : Cmd.Res c}
    (hrun : poolMachine b c t = .ok (r, t')) :
    t'.pool.Consistent ∧ t'.pool.pinTotal = t.pool.pinTotal + c.pinChange r := by
  -- a command that calls the pool does to the pins what that call does
  have hcall : ∀ {c : Call} {ret : Return} {pool : BufferPoolManagerInstance Disk (PageData K V)},
      t.pool.exec b c = .ok (ret, pool) → t.pool.Effect c ret pool ∧ pool.Consistent ∧
        pool.pinTotal = t.pool.pinTotal + BufferPoolManagerInstance.pinChange c ret := by
    intro c ret pool hexec
    have he := exec_effect h hexec
    exact ⟨he, h.step he, h.pinTotal_step he⟩
  cases c with
  | newPage v =>
    obtain ⟨⟨ret, pool⟩, hexec, hret⟩ := except_bind_inv hrun
    cases hret
    obtain ⟨he, hcons, htotal⟩ := hcall hexec
    refine ⟨hcons, htotal.trans ?_⟩
    cases he with
    | newFull => rfl
    | new => rfl
  | fetchPage v p =>
    obtain ⟨⟨ret, pool⟩, hexec, hret⟩ := except_bind_inv hrun
    cases hret
    obtain ⟨he, hcons, htotal⟩ := hcall hexec
    refine ⟨hcons, htotal.trans ?_⟩
    cases he with
    | fetchHit => rfl
    | fetchFull => rfl
    | fetchMiss => rfl
  | unpinPage p d =>
    obtain ⟨⟨ret, pool⟩, hexec, hret⟩ := except_bind_inv hrun
    cases hret
    obtain ⟨he, hcons, htotal⟩ := hcall hexec
    refine ⟨hcons, htotal.trans ?_⟩
    cases he with
    | unpinAbsent => rfl
    | unpinZero => rfl
    | unpin => rfl
    | unpinLast => rfl
  | deletePage p =>
    obtain ⟨⟨ret, pool⟩, hexec, hret⟩ := except_bind_inv hrun
    cases hret
    obtain ⟨-, hcons, htotal⟩ := hcall hexec
    exact ⟨hcons, htotal⟩
  | load v =>
    obtain ⟨rfl, -⟩ := poolMachine_load hrun
    exact ⟨h, (Int.add_zero _).symm⟩
  | store v x =>
    obtain ⟨f, -, rfl⟩ := poolMachine_store hrun
    refine ⟨h.store f x, ?_⟩
    show (t.pool.setPage f { t.pool.pages f with data := x }).pinTotal = t.pool.pinTotal + 0
    rw [Int.add_zero]
    -- new data in a frame, and the pin count with it
    refine Finset.sum_congr rfl fun i _ => ?_
    by_cases hif : (i : Int) = f <;> simp [hif]
  | latch l =>
    cases hrun
    exact ⟨h, (Int.add_zero _).symm⟩

/-- What a command does in the debug build, it does without asserts. -/
theorem poolMachine_ndebug {c : Cmd K V} {x : Cmd.Res c × PoolStore Disk K V}
    (hrun : poolMachine .debug c t = .ok x) : poolMachine .ndebug c t = .ok x := by
  have hcall : ∀ {c : Call} {α : Type} {f : Return × BufferPoolManagerInstance Disk (PageData K V) → Except Fault α}
      {y : α}, (t.pool.exec .debug c >>= f) = .ok y → (t.pool.exec .ndebug c >>= f) = .ok y := by
    intro c α f y hy
    obtain ⟨x, hexec, hx⟩ := except_bind_inv hy
    rw [exec_ndebug hexec]
    exact hx
  cases c with
  | newPage v => exact hcall hrun
  | fetchPage v p => exact hcall hrun
  | unpinPage p d => exact hcall hrun
  | deletePage p => exact hcall hrun
  | _ => exact hrun

end commands

/-! ## Counting pins along a program -/

/-- An amount that only the build with asserts has. -/
def asserted (b : Build) (k : ℤ) : ℤ :=
  match b with
  | .debug => k
  | .ndebug => 0

/-- The pool is consistent and has `n` pins; without asserts it may have more. -/
def Pinned {Disk K V : Type} [DiskManager Disk (PageData K V)] (b : Build) (n : ℤ)
    (t : PoolStore Disk K V) : Prop :=
  t.pool.Consistent ∧ n ≤ t.pool.pinTotal ∧ (b = .debug → n = t.pool.pinTotal)

/-- `p` adds `k` pins; without asserts it may add more. -/
def Pins (Disk : Type) {K V α : Type} [DiskManager Disk (PageData K V)] (b : Build) (k : ℤ)
    (p : TableProg K V α) : Prop :=
  ∀ n, Triple (poolMachine b) (Pinned b n : PoolStore Disk K V → Prop) p fun _ => Pinned b (n + k)

section pins

variable {Disk K V α β : Type} [DiskManager Disk (PageData K V)] {b : Build} {n m k : ℤ}
  {t t' : PoolStore Disk K V}

/-- In the release build an `UnpinPage` inside an `assert` is not made, so there a bound from below is all that is
    known. -/
theorem Pinned.weaken (h : Pinned b n t) (hm : m ≤ n ∧ (b = .debug → m = n)) : Pinned b m t :=
  ⟨h.1, hm.1.trans h.2.1, fun hb => (hm.2 hb).trans (h.2.2 hb)⟩

/-- One command and what it does to the number of pins. -/
theorem Pinned.command (h : Pinned b n t) {c : Cmd K V} {r : Cmd.Res c}
    (hrun : poolMachine b c t = .ok (r, t')) : Pinned b (n + c.pinChange r) t' := by
  obtain ⟨hcons, hle, heq⟩ := h
  obtain ⟨hcons', htotal⟩ := poolMachine_pins hcons hrun
  rw [Pinned, htotal]
  exact ⟨hcons', by omega, fun hb => by rw [heq hb]⟩

namespace Pins

/-- The last part of a program. -/
theorem last {p : TableProg K V α} (h : Pins Disk b k p) (hm : m ≤ k ∧ (b = .debug → m = k)) :
    Pins Disk b m p := by
  intro n
  exact (h n).mono fun _ _ ht => ht.weaken ⟨by omega, fun hb => by rw [hm.2 hb]⟩

/-- The pins of two parts add up. -/
theorem bind {p : TableProg K V α} {f : α → TableProg K V β} (h : Pins Disk b k p)
    (hf : ∀ a, Pins Disk b (m - k) (f a)) : Pins Disk b m (p >>= f) := by
  intro n
  refine (h n).bind fun a => ?_
  have hrest := hf a (n + k)
  rwa [show n + k + (m - k) = n + m from by omega] at hrest

/-- A value pins nothing. -/
theorem pure (a : α) : Pins Disk b 0 (Pure.pure a : TableProg K V α) := fun _ => .pure fun _ ht => by
  rwa [Int.add_zero]

/-- A program that fails has not to account for its pins. -/
theorem fail (e : Fault) : Pins Disk b k (Prog.fail e : TableProg K V α) := fun _ => .fail e

/-- A check pins nothing. -/
theorem check (x : Except Fault α) : Pins Disk b 0 (TableProg.check x : TableProg K V α) := fun _ =>
  .lift fun _ _ _ ht => by rwa [Int.add_zero]

/-- A command that changes the number of pins by `k`, whatever it returns. -/
theorem command {c : Cmd K V} (hc : ∀ r, c.pinChange r = k) : Pins Disk b k (Prog.call c : TableProg K V _) :=
  fun _ => .call fun _ r _ ht hrun => hc r ▸ ht.command hrun

/-- A latch pins nothing, -/
theorem latch (l : LatchOp) : Pins Disk b 0 (TableProg.latch l : TableProg K V Unit) := command fun _ => rfl

/-- nor does a read, -/
theorem load (v : PtrVar) : Pins Disk b 0 (TableProg.load v : TableProg K V _) := command fun _ => rfl

/-- nor a write. -/
theorem store (v : PtrVar) (x : PageData K V) : Pins Disk b 0 (TableProg.store v x) := command fun _ => rfl

/-- An assert, by what it does when it is evaluated and holds. -/
theorem assert {p : TableProg K V Bool} (hp : ∀ n, Triple (poolMachine .debug)
    (Pinned .debug n : PoolStore Disk K V → Prop) p fun res t => res = true → Pinned .debug (n + k) t) :
    Pins Disk b (asserted b k) (TableProg.assert_ b p) := by
  intro n
  cases b with
  | debug =>
    refine (hp n).bind fun res => ?_
    cases res with
    | true => exact .pure fun t ht => ht rfl
    | false => exact .fail _
  | ndebug => exact pure () n

/-- **The release build does not make this call**, and keeps the pin. -/
theorem assert_unpinPage (p : PageId) (d : Bool) :
    Pins Disk b (asserted b (-1)) (TableProg.assert_ b (TableProg.unpinPage p d) : TableProg K V Unit) :=
  assert fun _ => .call fun _ res _ ht hrun hres => by
    have h := ht.command hrun
    rwa [show Cmd.pinChange (.unpinPage p d : Cmd K V) res = -1 from if_pos hres] at h

/-- A deletion changes no pin count, made or not. -/
theorem assert_deletePage (p : PageId) :
    Pins Disk b (asserted b 0) (TableProg.assert_ b (TableProg.deletePage p) : TableProg K V Unit) :=
  assert fun _ => .call fun _ _ _ ht hrun _ => ht.command hrun

/-- A page that a variable was made to point to, and that an assert saw: one pin more. -/
theorem fetched (v : PtrVar) (p : PageId) : Pins Disk b (asserted b 1) (do
    let page ← TableProg.fetchPage v p
    TableProg.check (assertThat b page)
    Pure.pure page : TableProg K V Bool) := by
  intro n
  refine .bind (.call fun _ _ _ ht hrun => ht.command hrun) fun page => ?_
  cases b with
  | debug =>
    refine .bind (.lift (Q := fun _ t => Pinned .debug (n + 1) t) fun _ _ hx ht => ?_) fun _ => .pure fun _ ht => ht
    cases page with
    | true => exact ht
    | false => cases hx
  | ndebug =>
    refine .pure fun _ ht => ht.weaken ⟨?_, fun hb => (by cases hb)⟩
    cases page with
    | true =>
      show n + 0 ≤ n + 1
      omega
    | false => exact Int.le_refl _

/-- A new page that an assert saw. -/
theorem newPage {v : PtrVar} {f : Option PageId → TableProg K V α}
    (hf : ∀ page, Pins Disk b (m - asserted b 1) (f page)) : Pins Disk b m (do
    let page ← TableProg.newPage v
    TableProg.check (assertThat b page.isSome)
    f page) := by
  intro n
  refine .bind (.call fun _ _ _ ht hrun => ht.command hrun) fun page => ?_
  refine .bind (Q := fun _ => Pinned b (n + asserted b 1)) (.lift fun _ _ hx ht => ?_) fun _ => ?_
  · cases b with
    | debug =>
      cases page with
      | some p => exact ht
      | none => cases hx
    | ndebug =>
      refine ht.weaken ⟨?_, fun hb => (by cases hb)⟩
      cases page with
      | some p =>
        show n + 0 ≤ n + 1
        omega
      | none => exact Int.le_refl _
  · have hrest := hf page (n + asserted b 1)
    rwa [show n + asserted b 1 + (m - asserted b 1) = n + m from by omega] at hrest

end Pins

end pins

/-! ## The methods -/

namespace HashTableType

open TableProg

variable {Disk K V α : Type} [DiskManager Disk (PageData K V)]
variable [Inhabited K] [Inhabited V] {T : HashTableType K V} {b : Build} {n m : ℤ}

theorem loadDirectory_pins : Pins Disk b 0 T.loadDirectory := .bind (.load _) fun _ => .pure _

theorem loadBucket_pins (v : PtrVar) : Pins Disk b 0 (T.loadBucket v) := .bind (.load _) fun _ => .pure _

/-- The directory's pin is given back by the debug build only. -/
theorem unpinDirectory_pins (d : Bool) : Pins Disk b (asserted b (-1)) (T.unpinDirectory b d) := by
  refine Pins.assert fun n => .bind (loadDirectory_pins n) fun dir => .call fun t res t' ht hrun hres => ?_
  have h := ht.command hrun
  rw [show Cmd.pinChange (.unpinPage dir.getPageId d : Cmd K V) res = -1 from if_pos hres] at h
  rwa [Int.add_zero] at h

/-- After `FetchDirectoryPage`: one pin more, or, without asserts, a null pointer. -/
def Fetched (b : Build) (n : ℤ) (t : PoolStore Disk K V) : Prop :=
  Pinned b (n + 1) t ∨ t.ptr .dirPage = none

/-- The fetch of the directory page is outside its `assert`, so both builds pin it. -/
theorem fetchDirectoryPage_fetched (dirId : PageId) : Triple (poolMachine b)
    (Pinned b n : PoolStore Disk K V → Prop) (fetchDirectoryPage b dirId) fun _ => Fetched b n := by
  refine .bind (Q := fun page t => Pinned b (n + 1) t ∨ page = false ∧ t.ptr .dirPage = none)
    (.call fun t page t' ht hrun => ?_) fun page => .bind (Q := fun _ => Fetched b n)
      (.lift fun _ t _ ht => ht.imp_right And.right) fun _ => .pure fun t ht => ht
  have h := ht.command hrun
  cases page with
  | true => exact .inl h
  | false =>
    obtain ⟨⟨ret, pool⟩, -, hret⟩ := except_bind_inv hrun
    obtain ⟨hframe, rfl⟩ := Prod.mk.inj (Except.ok.inj hret)
    exact .inr ⟨rfl, by simpa using hframe⟩

/-- Only through a pointer that is not null can the directory be read. -/
theorem loadDirectory_fetched : Triple (poolMachine b) (Fetched b n : PoolStore Disk K V → Prop)
    T.loadDirectory fun _ => Pinned b (n + 1) := by
  refine .bind (Q := fun _ => Pinned b (n + 1)) (.call fun t x t' ht hrun => ?_) fun x => .pure fun t ht => ht
  rcases ht with h | hnull
  · have h' := h.command hrun
    rwa [show Cmd.pinChange (.load .dirPage : Cmd K V) x = 0 from rfl, Int.add_zero] at h'
  · exact absurd hnull (poolMachine_load hrun).2

/-- At the head of an operation the directory is fetched; the fetch of the bucket page is made in both builds as
    well. -/
theorem fetchFor_pins (dirId : PageId) (key : K) :
    Pins Disk b (1 + asserted b 1) (T.fetchFor b dirId key) := by
  intro n
  refine .bind (fetchDirectoryPage_fetched dirId) fun page => .bind (Q := fun _ => Fetched b n)
    (.lift fun _ t _ ht => ht) fun _ => .bind loadDirectory_fetched fun dir => ?_
  have hrest : Pins Disk b (asserted b 1) (do
      let page ← fetchBucketPage b (T.keyToPageId key dir)
      check (assertThat b page)
      pure (T.keyToPageId key dir)) :=
    .bind (.fetched _ _) fun _ => .bind (.check _) fun _ => .last (.pure _) (by cases b <;> decide)
  have h := hrest (n + 1)
  rwa [Int.add_assoc] at h

/-- `GetValue` leaves no pin in the debug build, and one at least in the release build. -/
theorem getValue_pins (dirId : PageId) (key : K) (result : List V) :
    Pins Disk b (1 - asserted b 1) (T.getValue b dirId key result) :=
  .bind (.latch _) fun _ => .bind (fetchFor_pins dirId key) fun _ => .bind (.latch _) fun _ =>
    .bind (loadBucket_pins _) fun _ => .bind (unpinDirectory_pins _) fun _ =>
    .bind (.assert_unpinPage _ _) fun _ => .bind (.latch _) fun _ => .bind (.latch _) fun _ =>
    .last (.pure _) (by cases b <;> decide)

/-- `GetGlobalDepth` leaves the directory's pin in the release build. -/
theorem getGlobalDepth_pins (dirId : PageId) : Pins Disk b (1 - asserted b 1) (T.getGlobalDepth b dirId) := by
  intro n
  refine .bind (Pins.latch _ n) fun _ => .bind (fetchDirectoryPage_fetched dirId) fun _ =>
    .bind loadDirectory_fetched fun dir => ?_
  have hrest : Pins Disk b (asserted b (-1)) (do
      assert_ b (unpinPage dirId false)
      latch .tableRUnlock
      pure dir.getGlobalDepth : TableProg K V ℕ) :=
    .bind (.assert_unpinPage _ _) fun _ => .bind (.latch _) fun _ => .last (.pure _) (by cases b <;> decide)
  have h := hrest (n + 0 + 1)
  rwa [show n + 0 + 1 + asserted b (-1) = n + (1 - asserted b 1) by cases b <;> simp [asserted]] at h

/-- `Merge` gives back what it took in the debug build only. -/
theorem merge_pins (dirId : PageId) (key : K) : Pins Disk b (1 - asserted b 1) (T.merge b dirId key) := by
  have hback : ∀ p : PageId, Pins Disk b (-asserted b 1 - asserted b 1)
      (do assert_ b (unpinPage p false); T.unpinDirectory b false; latch .tableWUnlock) := fun p =>
    .bind (.assert_unpinPage _ _) fun _ => .bind (unpinDirectory_pins _) fun _ =>
      .last (.latch _) (by cases b <;> decide)
  unfold merge
  refine .bind (.latch _) fun _ => .bind (fetchFor_pins dirId key) fun p => .bind loadDirectory_pins fun dir =>
    .bind (loadBucket_pins _) fun bucket => ?_
  split
  · exact .last (hback p) (by cases b <;> decide)
  · refine .bind (.check _) fun _ => ?_
    split
    · exact .last (hback p) (by cases b <;> decide)
    · exact .bind (.check _) fun _ => .bind (.assert_unpinPage _ _) fun _ =>
        .bind (.assert_deletePage _) fun _ => .bind (.check _) fun _ => .bind (.check _) fun _ =>
        .bind (.store _ _) fun _ => .bind (unpinDirectory_pins _) fun _ =>
        .last (.latch _) (by cases b <;> decide)

variable [DecidableEq V]

/-- A split moves pairs between pages that are pinned anyhow. -/
theorem redistribute_pins (p : PageId) : ∀ remaining arr_idx : ℕ,
    Pins Disk b 0 (T.redistribute p remaining arr_idx) := by
  intro remaining
  induction remaining with
  | zero => exact fun _ => .pure _
  | succ remaining ih =>
    intro arr_idx
    unfold redistribute
    refine .bind (loadBucket_pins _) fun bucket => ?_
    split
    · refine .bind loadDirectory_pins fun dir => ?_
      split
      · exact .bind (loadBucket_pins _) fun split => .bind (.store _ _) fun _ => .bind (.store _ _) fun _ => ih _
      · exact ih _
    · exact ih _

/-- `Insert` leaves a pin on each of its branches. -/
theorem insertRegion_pins (dirId : PageId) (key : K) (value : V) :
    Pins Disk b (1 - asserted b 1) (T.insertRegion b dirId key value) := by
  unfold insertRegion
  refine .bind (.latch _) fun _ => .bind (fetchFor_pins dirId key) fun _ => .bind (.latch _) fun _ =>
    .bind (loadBucket_pins _) fun _ => ?_
  split
  · exact .bind (.store _ _) fun _ => .bind (unpinDirectory_pins _) fun _ =>
      .bind (.assert_unpinPage _ _) fun _ => .bind (.latch _) fun _ => .bind (.latch _) fun _ =>
      .last (.pure _) (by cases b <;> decide)
  · exact .bind (.assert_unpinPage _ _) fun _ => .bind (unpinDirectory_pins _) fun _ =>
      .bind (.latch _) fun _ => .bind (.latch _) fun _ => .last (.pure _) (by cases b <;> decide)

/-- So does every round of `SplitInsert`. -/
theorem splitInsertRegion_pins (dirId : PageId) (key : K) (value : V) :
    Pins Disk b (1 - asserted b 1) (T.splitInsertRegion b dirId key value) := by
  have hlook : ∀ (v : PtrVar) (f : HashTableBucketPage K V → Bool),
      Pins Disk b (asserted b 0) (assert_ b (do let x ← T.loadBucket v; pure (f x))) := fun v f =>
    .assert fun n => (Pins.bind (loadBucket_pins v) (fun _ => .pure _) n).mono fun _ _ ht _ => ht
  unfold splitInsertRegion
  refine .bind (.latch _) fun _ => .bind (fetchFor_pins dirId key) fun p => .bind loadDirectory_pins fun dir =>
    .bind (loadBucket_pins _) fun bucket => ?_
  split
  · exact .bind (.store _ _) fun _ => .bind (unpinDirectory_pins _) fun _ =>
      .bind (.assert_unpinPage _ _) fun _ => .bind (.latch _) fun _ => .last (.pure _) (by cases b <;> decide)
  · refine .bind (.check _) fun dir => ?_
    cases dir with
    | none =>
      exact .bind (unpinDirectory_pins _) fun _ => .bind (.assert_unpinPage _ _) fun _ =>
        .bind (.latch _) fun _ => .last (.pure _) (by cases b <;> decide)
    | some dir =>
      exact .bind (.store _ _) fun _ => .newPage fun page => .bind (.check _) fun dir =>
        .bind (.store _ _) fun _ => .bind (hlook _ _) fun _ => .bind (hlook _ _) fun _ =>
        .bind (redistribute_pins _ _ _) fun _ => .bind (unpinDirectory_pins _) fun _ =>
        .bind (.assert_unpinPage _ _) fun _ => .bind (.assert_unpinPage _ _) fun _ =>
        .bind (.latch _) fun _ => .last (.pure _) (by cases b <;> decide)

/-- All rounds together, by induction on the fuel. -/
theorem insert_pins (dirId : PageId) (key : K) (value : V) : ∀ fuel : ℕ,
    Pins Disk b (1 - asserted b 1) (T.insert b dirId key value fuel) := by
  -- without asserts every round leaves more pins behind; one is enough here
  intro fuel
  induction fuel with
  | zero => exact .fail _
  | succ fuel ih =>
    refine .bind (insertRegion_pins dirId key value) fun res => ?_
    cases res with
    | some res => exact .last (.pure _) (by cases b <;> decide)
    | none =>
      refine .bind (splitInsertRegion_pins dirId key value) fun res => ?_
      cases res with
      | some res => exact .last (.pure _) (by cases b <;> decide)
      | none => exact .last ih (by cases b <;> decide)

/-- `Remove` before its merge. -/
theorem removeRegion_pins (dirId : PageId) (key : K) (value : V) :
    Pins Disk b (1 - asserted b 1) (T.removeRegion b dirId key value) :=
  .bind (.latch _) fun _ => .bind (fetchFor_pins dirId key) fun _ => .bind (.latch _) fun _ =>
    .bind (loadBucket_pins _) fun _ => .bind (.store _ _) fun _ => .bind (.assert_unpinPage _ _) fun _ =>
    .bind (unpinDirectory_pins _) fun _ => .bind (.latch _) fun _ => .bind (.latch _) fun _ =>
    .last (.pure _) (by cases b <;> decide)

/-- `Remove` with its merge. -/
theorem remove_pins (dirId : PageId) (key : K) (value : V) :
    Pins Disk b (1 - asserted b 1) (T.remove b dirId key value) :=
  .bind (removeRegion_pins dirId key value) fun _ => .bind (merge_pins dirId key) fun _ =>
    .last (.pure _) (by cases b <;> decide)

/-! ## The constructor -/

/-- `Pinned`, with `k` frames that a page can be put into. -/
def Rooms (b : Build) (n : ℤ) (k : ℕ) (t : PoolStore Disk K V) : Prop :=
  Pinned b n t ∧ t.pool.obtainable = k

variable {k : ℕ} {t t' : PoolStore Disk K V}

/-- A `NewPage` takes one of the frames that can be had, and fails when there is none. -/
theorem newPage_rooms (v : PtrVar) : Triple (poolMachine b) (Rooms b n k : PoolStore Disk K V → Prop) (newPage v)
    fun page t => Rooms b (n + if page.isSome then 1 else 0) (k - 1) t ∧ (page = none ↔ k = 0) := by
  refine .call fun t page t' ht hrun => ?_
  obtain ⟨hpins, hk⟩ := ht
  have hpins' := hpins.command hrun
  obtain ⟨⟨ret, pool⟩, hexec, hret⟩ := except_bind_inv hrun
  have he := exec_effect hpins.1 hexec
  cases he with
  | newFull hfull =>
    obtain ⟨-, hzero⟩ := hpins.1.obtainable_full (.newFull hfull)
    cases hret
    refine ⟨⟨hpins', ?_⟩, fun _ => hk.symm.trans hzero, fun _ => rfl⟩
    show t.pool.obtainable = k - 1
    omega
  | new hpick hr =>
    have hone := obtainable_new (.new hpick hr)
    cases hret
    exact ⟨⟨hpins', Nat.eq_sub_of_add_eq (hone.trans hk)⟩, fun hno => (by cases hno), fun hzero => (by omega)⟩

/-- A latch takes no frame, -/
theorem latch_rooms (l : LatchOp) : Triple (poolMachine b) (Rooms b n k : PoolStore Disk K V → Prop) (latch l)
    fun _ => Rooms b n k := by
  refine .call fun t _ t' ht hrun => ?_
  cases hrun
  exact ht

/-- nor does reading the directory, -/
theorem loadDirectory_rooms : Triple (poolMachine b) (Rooms b n k : PoolStore Disk K V → Prop) T.loadDirectory
    fun _ => Rooms b n k := by
  refine .bind (.call fun t x t' ht hrun => ?_) fun x => .pure fun t ht => ht
  obtain ⟨rfl, -⟩ := poolMachine_load hrun
  exact ht

/-- nor writing it. -/
theorem storeDirectory_rooms (d : HashTableDirectoryPage) : Triple (poolMachine b)
    (Rooms b n k : PoolStore Disk K V → Prop) (storeDirectory d) fun _ => Rooms b n k := by
  refine .call fun t _ t' ht hrun => ?_
  have hpins := ht.1.command hrun
  rw [show Cmd.pinChange (.store .dirPage (.directory d) : Cmd K V) _ = 0 from rfl, Int.add_zero] at hpins
  obtain ⟨f, -, rfl⟩ := poolMachine_store hrun
  exact ⟨hpins, ht.2⟩

/-- With two frames to take the constructor does not end before its asserts. -/
theorem construct_pins (hroom : 2 ≤ k) (dirId : PageId) : Triple (poolMachine b)
    (Rooms b n k : PoolStore Disk K V → Prop) (T.construct b dirId)
    fun _ => Pinned b (n + (1 - asserted b 1)) := by
  refine .bind (latch_rooms _) fun _ => .bind (newPage_rooms _) fun page => ?_
  cases page with
  | none =>
    rintro t r t' ⟨-, hnone⟩ -
    have := hnone.mp rfl
    omega
  | some dirId =>
    refine .bind (Q := fun _ => Rooms b (n + 1) (k - 1)) (fun t dir t' ht hrun =>
      loadDirectory_rooms t dir t' ht.1 hrun) fun dir => .bind (storeDirectory_rooms _) fun _ =>
      .bind (newPage_rooms _) fun page => ?_
    cases page with
    | none =>
      rintro t r t' ⟨-, hnone⟩ -
      have := hnone.mp rfl
      omega
    | some bucketId =>
      -- two pins more, and the asserts give both back
      have hrest : Pins Disk b (-asserted b 1 - asserted b 1) (do
          let dir ← T.loadDirectory
          let dir ← check ((dir.setBucketPageId 0 bucketId).setLocalDepth b 0 0)
          storeDirectory dir
          assert_ b (unpinPage bucketId false)
          assert_ b (unpinPage dirId true)
          latch .tableWUnlock
          pure (dirId, true)) :=
        .bind loadDirectory_pins fun _ => .bind (.check _) fun _ => .bind (.store _ _) fun _ =>
          .bind (.assert_unpinPage _ _) fun _ => .bind (.assert_unpinPage _ _) fun _ =>
          .bind (.latch _) fun _ => .last (.pure _) (by cases b <;> decide)
      intro t r t' ht hrun
      refine (hrest (n + 1 + 1) t r t' ht.1.1 hrun).weaken ?_
      cases b with
      | debug =>
        simp [asserted]
        omega
      | ndebug => simp [asserted]

/-- What the debug build does, the other does with the same program. -/
theorem same_run {α : Type} {p : TableProg K V α} {x : α × PoolStore Disk K V}
    (hrun : run (poolMachine .debug) p t = .ok x) : run (poolMachine .ndebug) p t = .ok x := by
  obtain ⟨a, t'⟩ := x
  have hsame : Follows (poolMachine .debug) (poolMachine .ndebug) (· = · : PoolStore Disk K V → _ → Prop) p p :=
    .same (fun c s t r s' hst hc => ⟨s', hst ▸ poolMachine_ndebug hc, rfl⟩) p
  obtain ⟨t'', hrun', rfl⟩ := hsame t t a t' rfl hrun
  exact hrun'

/-- **With fewer than two frames to take the constructor ends before its asserts**, in the same way in
    both builds. -/
theorem construct_stuck (h : t.pool.Consistent) (hroom : t.pool.obtainable < 2) {dirId : PageId} {r : PageId × Bool}
    (hrun : run (poolMachine .debug) (T.construct .debug dirId) t = .ok (r, t')) :
    run (poolMachine .ndebug) (T.construct .ndebug dirId) t = .ok (r, t') ∧ t'.pool.Consistent ∧
      t'.pool.obtainable < 2 ∧ r.2 = false := by
  have hstart : Rooms .debug t.pool.pinTotal t.pool.obtainable t := ⟨⟨h, Int.le_refl _, fun _ => rfl⟩, rfl⟩
  unfold construct at hrun ⊢
  obtain ⟨_, t₁, hlatch, hrun⟩ := run_bind_inv hrun
  obtain ⟨page, t₂, hnew, hrun⟩ := run_bind_inv hrun
  rw [run_bind_ok (same_run hlatch), run_bind_ok (same_run hnew)]
  have hrooms₁ := latch_rooms _ t _ t₁ hstart hlatch
  obtain ⟨hrooms₂, hfull⟩ := newPage_rooms _ t₁ page t₂ hrooms₁ hnew
  have hend : ∀ {n k} {t : PoolStore Disk K V} {p : PageId}, Rooms .debug n k t → k < 2 →
      run (poolMachine .debug) (do latch .tableWUnlock; pure (p, false)) t = .ok (r, t') →
      run (poolMachine .ndebug) (do latch .tableWUnlock; pure (p, false)) t = .ok (r, t') ∧
        t'.pool.Consistent ∧ t'.pool.obtainable < 2 ∧ r.2 = false := by
    intro n k t p ht hk hrun
    have hkeep : Triple (poolMachine .debug) (Rooms .debug n k : PoolStore Disk K V → Prop)
        (do latch .tableWUnlock; pure (p, false)) fun _ => Rooms .debug n k :=
      .bind (latch_rooms _) fun _ => .pure fun _ ht => ht
    have hrooms := hkeep t r t' ht hrun
    obtain ⟨_, t₁, -, hret⟩ := run_bind_inv hrun
    cases hret
    exact ⟨same_run hrun, hrooms.1.1, hrooms.2 ▸ hk, rfl⟩
  cases page with
  | none => exact hend hrooms₂ (by omega) hrun
  | some dirId =>
    obtain ⟨dir, t₃, hload, hrun⟩ := run_bind_inv hrun
    obtain ⟨_, t₄, hstore, hrun⟩ := run_bind_inv hrun
    obtain ⟨page, t₅, hnew', hrun⟩ := run_bind_inv hrun
    rw [run_bind_ok (same_run hload), run_bind_ok (same_run hstore), run_bind_ok (same_run hnew')]
    have hrooms₃ := loadDirectory_rooms t₂ dir t₃ hrooms₂ hload
    have hrooms₄ := storeDirectory_rooms _ t₃ _ t₄ hrooms₃ hstore
    obtain ⟨hrooms₅, hfull'⟩ := newPage_rooms _ t₄ page t₅ hrooms₄ hnew'
    cases page with
    | none => exact hend hrooms₅ (by omega) hrun
    | some bucketId =>
      have := mt hfull'.mpr (by simp)
      omega

/-! ## Whole operations -/

variable [DecidableEq K] {fuel : ℕ} {op : TableOp K V} {s s' : PoolTable Disk K V} {ret : OpRet V}

/-- **Every method of the release build keeps a pin at least.** -/
theorem method_pins (fuel : ℕ) (dirId : PageId) (c : TableCall K V) :
    Pins Disk b (1 - asserted b 1) (T.method b dirId fuel c) := by
  cases c with
  | insert key value => exact .bind (insert_pins dirId key value fuel) fun _ => .last (.pure _) (by cases b <;> decide)
  | remove key value => exact .bind (remove_pins dirId key value) fun _ => .last (.pure _) (by cases b <;> decide)
  | getValue key result =>
    exact .bind (getValue_pins dirId key result) fun _ => .last (.pure _) (by cases b <;> decide)

/-- An operation on the table is a run of its program over the pool. -/
theorem runOp_inv (hrun : T.runOp b fuel op s = .ok (ret, s')) : ∃ t : PoolStore Disk K V,
    run (poolMachine b) (T.operation b fuel s.directoryPageId op) ⟨s.pool, fun _ => none⟩ =
      .ok ((ret, s'.directoryPageId), t) ∧ s'.pool = t.pool := by
  unfold runOp at hrun
  split at hrun
  · next ret' dirId pool hcall =>
    cases hrun
    obtain ⟨ptr, hrun⟩ := callPool_inv hcall
    exact ⟨_, hrun, rfl⟩
  · cases hrun

/-- **An operation gives back the pins it took only if asserts are evaluated**, unless it is a
    construction that lacks frames. -/
theorem operation_pins (h : s.pool.Consistent) (hop : op = .construct → 2 ≤ s.pool.obtainable)
    (hrun : T.runOp b fuel op s = .ok (ret, s')) :
    s.pool.pinTotal + (1 - asserted b 1) ≤ s'.pool.pinTotal ∧
      (b = .debug → s'.pool.pinTotal = s.pool.pinTotal) := by
  obtain ⟨t, hrun, hpool⟩ := runOp_inv hrun
  have hstart : Pinned b s.pool.pinTotal (⟨s.pool, fun _ => none⟩ : PoolStore Disk K V) :=
    ⟨h, Int.le_refl _, fun _ => rfl⟩
  have hend : Pinned b (s.pool.pinTotal + (1 - asserted b 1)) t := by
    cases op with
    | construct =>
      have hall : Triple (poolMachine b) (Rooms b s.pool.pinTotal s.pool.obtainable : PoolStore Disk K V → Prop)
          (T.operation b fuel s.directoryPageId .construct) fun _ =>
            Pinned b (s.pool.pinTotal + (1 - asserted b 1)) :=
        .bind (construct_pins (hop rfl) _) fun _ => .pure fun _ ht => ht
      exact hall _ _ t ⟨hstart, rfl⟩ hrun
    | call c =>
      have hall : Pins Disk b (1 - asserted b 1) (T.operation b fuel s.directoryPageId (.call c)) :=
        .bind (method_pins fuel _ c) fun _ => .last (.pure _) (by cases b <;> decide)
      exact hall _ _ _ t hstart hrun
    | getGlobalDepth =>
      have hall : Pins Disk b (1 - asserted b 1) (T.operation b fuel s.directoryPageId .getGlobalDepth) :=
        .bind (getGlobalDepth_pins _) fun _ => .last (.pure _) (by cases b <;> decide)
      exact hall _ _ _ t hstart hrun
  rw [hpool]
  refine ⟨hend.2.1, fun hb => ?_⟩
  rw [← hend.2.2 hb, hb]
  exact Int.add_zero _

/-- A construction that lacks frames does the same in both builds, and still lacks them. -/
theorem runOp_stuck (h : s.pool.Consistent) (hroom : s.pool.obtainable < 2)
    (hrun : T.runOp .debug fuel .construct s = .ok (ret, s')) :
    T.runOp .ndebug fuel .construct s = .ok (ret, s') ∧ s'.pool.Consistent ∧ s'.pool.obtainable < 2 := by
  obtain ⟨t, hrun, hpool⟩ := runOp_inv hrun
  obtain ⟨r, t₁, hcons, hret⟩ := run_bind_inv hrun
  obtain ⟨hsame, hconsistent, hend, -⟩ := construct_stuck h hroom hcons
  obtain ⟨hpair, rfl⟩ := Prod.mk.inj (Except.ok.inj hret)
  have hrun' : run (poolMachine .ndebug) (T.operation .ndebug fuel s.directoryPageId .construct)
      ⟨s.pool, fun _ => none⟩ = .ok ((.constructed, r.1), t₁) := run_bind_ok hsame _
  rw [show ((.constructed, r.1) : OpRet V × PageId) = (ret, s'.directoryPageId) from hpair] at hrun'
  refine ⟨?_, hpool ▸ hconsistent, hpool ▸ hend⟩
  simp only [runOp, callPool, hrun', ← hpool]

/-- Where nothing is done the builds agree. -/
theorem agrees_nil (s : PoolTable Disk K V) : T.Agrees [] s := by
  intro fuel rets s₁ hrun
  cases hrun
  exact ⟨fuel, s, rfl, rfl⟩

/-- A constructor that gets fewer than two frames does the same in both builds. -/
theorem agrees_stuck (h : s.pool.Consistent) (hroom : s.pool.obtainable < 2)
    (hrun : T.runOp .debug fuel .construct s = .ok (ret, s')) {ops : List (TableOp K V)} :
    T.Agrees (.construct :: ops) s ↔ T.Agrees ops s' := by
  obtain ⟨hsame, -⟩ := runOp_stuck h hroom hrun
  constructor
  · intro hagree fuel' rets s₁ hops
    -- a construction uses no fuel
    obtain ⟨fuel₂, s₂, hrun₂, hpages⟩ := hagree fuel' (ret :: rets) s₁ (runCalls_cons hrun hops)
    obtain ⟨r, rets', s₃, hrets, hcons, hops₂⟩ := runCalls_cons_inv hrun₂
    rw [show T.runOp .ndebug fuel₂ .construct s = .ok (ret, s') from hsame] at hcons
    cases hcons
    cases hrets
    exact ⟨fuel₂, s₂, hops₂, hpages⟩
  · intro hagree fuel' rets s₁ hops
    obtain ⟨r, rets', s₃, rfl, hcons, hops⟩ := runCalls_cons_inv hops
    rw [show T.runOp .debug fuel' .construct s = .ok (ret, s') from hrun] at hcons
    cases hcons
    obtain ⟨fuel₂, s₂, hrun₂, hpages⟩ := hagree fuel' rets' s₁ hops
    exact ⟨fuel₂, s₂, runCalls_cons hsame hrun₂, hpages⟩

/-- **The builds agree as long as nothing is unpinned.**  Take a run that the debug build completes.  The
    other build agrees with it on every initial part exactly when every operation is a construction and
    the pool starts with fewer than two frames to take, so that `NewPage` fails before the constructor
    reaches an `UnpinPage`. -/
theorem builds_agree_iff {ops : List (TableOp K V)} (hs : s.pool.Consistent) {rets : List (OpRet V)}
    (hdebug : T.runOps .debug fuel ops s = .ok (rets, s')) :
    (∀ ops', ops' <+: ops → T.Agrees ops' s) ↔
      ∀ op ∈ ops, op = .construct ∧ s.pool.obtainable < 2 := by
  induction ops generalizing s rets with
  | nil =>
    refine ⟨fun _ op hop => (by cases hop), fun _ ops' hprefix => ?_⟩
    rw [List.prefix_nil.mp hprefix]
    exact agrees_nil s
  | cons op ops ih =>
    obtain ⟨ret, rets', s₁, rfl, hop, hops⟩ := runCalls_cons_inv hdebug
    by_cases hstuck : op = .construct ∧ s.pool.obtainable < 2
    · -- both builds reach the same state, from which the rest of the run is compared
      obtain ⟨rfl, hroom⟩ := hstuck
      obtain ⟨-, hs₁, hroom₁⟩ := runOp_stuck hs hroom hop
      rw [List.forall_mem_cons]
      constructor
      · intro hagree
        refine ⟨⟨rfl, hroom⟩, fun op hmem => ⟨?_, hroom⟩⟩
        have hrest := (ih hs₁ hops).mp fun ops' hprefix =>
          (agrees_stuck hs hroom hop).mp (hagree _ (List.prefix_cons_inj _ |>.mpr hprefix))
        exact (hrest op hmem).1
      · rintro ⟨-, hall⟩ ops' hprefix
        rcases List.prefix_cons_iff.mp hprefix with rfl | ⟨rest, rfl, hrest⟩
        · exact agrees_nil s
        · refine (agrees_stuck hs hroom hop).mpr ?_
          exact (ih hs₁ hops).mpr (fun op hmem => ⟨(hall op hmem).1, hroom₁⟩) rest hrest
    · -- the first operation already leaves more pins without asserts
      refine iff_of_false (fun hagree => ?_) fun hall => hstuck (hall op List.mem_cons_self)
      have hfirst : op = .construct → 2 ≤ s.pool.obtainable := fun hop => by
        have := mt (And.intro hop) hstuck
        omega
      obtain ⟨fuel₂, s₂, hrun₂, hpages⟩ := hagree [op] (List.prefix_cons_inj op |>.mpr List.nil_prefix) fuel [ret] s₁
        (runCalls_cons hop rfl)
      obtain ⟨r, rets₂, s₃, hrets, hop₂, hnil⟩ := runCalls_cons_inv hrun₂
      cases hnil
      have hdebug := (operation_pins hs hfirst hop).2 rfl
      have hmore := (operation_pins hs hfirst hop₂).1
      have hsame := hpages.pinTotal
      simp only [asserted] at hmore
      omega

/-- A table before its construction, over a fresh pool of `frames` frames. -/
def unconstructed (frames : ℕ) : PoolTable (PageId → PageData ℤ ℤ) ℤ ℤ :=
  ⟨0, create (Session.fresh frames).pool.cfg fun _ => 0⟩

/-- On one frame the builds agree on a construction, which gets no page for its bucket. -/
theorem builds_agree_iff_one_frame : smallTable.Agrees [.construct] (unconstructed 1) := by
  have hs : (unconstructed 1).pool.Consistent := create_consistent _ _
  have hdebug : ∃ rets s', smallTable.runOps .debug 0 [.construct] (unconstructed 1) = .ok (rets, s') := ⟨_, _, rfl⟩
  obtain ⟨rets, s', hdebug⟩ := hdebug
  refine (builds_agree_iff hs hdebug).mpr (fun op hop => ⟨?_, by decide⟩) _ (List.prefix_refl _)
  exact List.mem_singleton.mp hop

/-- **They do not agree on a construction over two frames**: the build without asserts leaves both pages
    pinned. -/
theorem construct_leaves_pins : ¬ smallTable.Agrees [.construct] (unconstructed 2) := by
  intro hagree
  have hdebug : ∃ s₁, smallTable.runOps .debug 0 [.construct] (unconstructed 2) = .ok ([.constructed], s₁) ∧
      s₁.pool.pinTotal = 0 := ⟨_, rfl, by decide⟩
  obtain ⟨s₁, hrun₁, hnone⟩ := hdebug
  obtain ⟨fuel, s₂, hrun₂, hpages⟩ := hagree 0 _ s₁ hrun₁
  have hndebug : ∃ s, smallTable.runOps .ndebug fuel [.construct] (unconstructed 2) = .ok ([.constructed], s) ∧
      s.pool.pinTotal = 2 := ⟨_, rfl, by decide⟩
  obtain ⟨s, hrun, htwo⟩ := hndebug
  rw [hrun] at hrun₂
  cases hrun₂
  have hsame := hpages.pinTotal
  omega

end HashTableType

end BusTub
