/-
  The extendible hash table: `src/container/hash/extendible_hash_table.cpp`.

  1. **Programs.**  A method is a program over the calls it makes to the buffer pool and its
     accesses to page memory (`Cmd`), so that the same text runs over the pool of `Buffer`, over an
     idealised page store, and step by step against other callers.  `Page *` variables are the slots
     `PtrVar`; `load` and `store` go through one, and fail when it is null.

  2. **Regions.**  A method holds `table_latch_` for a stretch of its body and gives it up before it
     calls another method.  Each such stretch is a program of its own: `insertRegion` and
     `splitInsertRegion` return none when `Insert` goes on with the other, `removeRegion` is
     followed by `merge`.

  3. **Asserts.**  `assert(e)` is `assert_ b e`: the build `debug` evaluates `e`, calls and all, and
     fails if it is false; `ndebug` skips it.

  4. **Bytes.**  What a page holds is the object last laid over it (`PageData`).  Reading it as the
     other kind of object is possible in C++, and gives what the two unknown functions in
     `HashTableType` say.
-/
import BusTub.Page.Bucket
import BusTub.Page.Directory
import BusTub.Lib.Command
import BusTub.Lib.Loop

namespace BusTub

open Command

/-- The contents of a page, as the object that lies on it. -/
inductive PageData (K V : Type) where
  | zeroed
  | directory (d : HashTableDirectoryPage)
  | bucket (p : HashTableBucketPage K V)

instance (K V : Type) : Zero (PageData K V) := ⟨.zeroed⟩

/-- The template arguments and constants of `ExtendibleHashTable`. -/
structure HashTableType (K V : Type) where
  /-- `BUCKET_ARRAY_SIZE`. -/
  bucketArraySize : ℕ
  /-- `comparator_`. -/
  comparator : K → K → Int
  /-- `hash_fn_.GetHash`. -/
  getHash : K → UInt64
  /-- The bytes of a bucket, read as a directory. -/
  bucketAsDirectory : HashTableBucketPage K V → HashTableDirectoryPage
  /-- The bytes of a directory, read as a bucket. -/
  directoryAsBucket : HashTableDirectoryPage → HashTableBucketPage K V

/-- The pointer variables of the methods. -/
inductive PtrVar where
  | dirPage
  | bucketPage
  | splitBucketPage
  deriving DecidableEq, Repr

/-- Operations on `table_latch_` and on the latch of the page a variable points to. -/
inductive LatchOp where
  | tableRLock
  | tableRUnlock
  | tableWLock
  | tableWUnlock
  | pageRLatch (v : PtrVar)
  | pageRUnlatch (v : PtrVar)
  | pageWLatch (v : PtrVar)
  | pageWUnlatch (v : PtrVar)
  deriving DecidableEq, Repr

/-- What a method does to the world outside its local variables. -/
inductive Cmd (K V : Type) where
  | newPage (v : PtrVar)
  | fetchPage (v : PtrVar) (page_id : PageId)
  | unpinPage (page_id : PageId) (is_dirty : Bool)
  | deletePage (page_id : PageId)
  | load (v : PtrVar)
  | store (v : PtrVar) (x : PageData K V)
  | latch (l : LatchOp)

/-- The results: the new id unless `NewPage` returned nullptr, whether `FetchPage` did not, what
    `UnpinPage` and `DeletePage` returned, the contents of a page. -/
abbrev Cmd.Res {K V : Type} : Cmd K V → Type
  | .newPage _ => Option PageId
  | .fetchPage _ _ => Bool
  | .unpinPage _ _ => Bool
  | .deletePage _ => Bool
  | .load _ => PageData K V
  | .store _ _ => Unit
  | .latch _ => Unit

abbrev TableProg (K V α : Type) : Type := Prog (Cmd.Res (K := K) (V := V)) Fault α

namespace TableProg

variable {K V α : Type}

def newPage (v : PtrVar) : TableProg K V (Option PageId) := Prog.call (Cmd.newPage v)
def fetchPage (v : PtrVar) (page_id : PageId) : TableProg K V Bool := Prog.call (Cmd.fetchPage v page_id)
def unpinPage (page_id : PageId) (is_dirty : Bool) : TableProg K V Bool :=
  Prog.call (Cmd.unpinPage page_id is_dirty)
def deletePage (page_id : PageId) : TableProg K V Bool := Prog.call (Cmd.deletePage page_id)
def load (v : PtrVar) : TableProg K V (PageData K V) := Prog.call (Cmd.load v)
def store (v : PtrVar) (x : PageData K V) : TableProg K V Unit := Prog.call (Cmd.store v x)
def latch (l : LatchOp) : TableProg K V Unit := Prog.call (Cmd.latch l)

/-- `assert(p)`. -/
def assert_ (b : Build) (p : TableProg K V Bool) : TableProg K V Unit :=
  match b with
  | .debug => do
    if ← p then pure () else Prog.fail .assertion
  | .ndebug => pure ()

/-- A directory method, which may fail an assertion. -/
def check {α : Type} (x : Except Fault α) : TableProg K V α := Prog.lift x

end TableProg

namespace HashTableType

open TableProg HashTableDirectoryPage

variable {K V : Type} [Inhabited K] [Inhabited V] (T : HashTableType K V) (b : Build)

/-- Read a page's bytes as a directory. -/
def asDirectory : PageData K V → HashTableDirectoryPage
  | .zeroed => HashTableDirectoryPage.zeroed
  | .directory d => d
  | .bucket p => T.bucketAsDirectory p

/-- Read a page's bytes as a bucket. -/
def asBucket : PageData K V → HashTableBucketPage K V
  | .zeroed => HashTableBucketPage.zeroed
  | .directory d => T.directoryAsBucket d
  | .bucket p => p

def loadDirectory : TableProg K V HashTableDirectoryPage := do
  let x ← load .dirPage
  pure (T.asDirectory x)

def storeDirectory (d : HashTableDirectoryPage) : TableProg K V Unit := store .dirPage (.directory d)

def loadBucket (v : PtrVar) : TableProg K V (HashTableBucketPage K V) := do
  let x ← load v
  pure (T.asBucket x)

def storeBucket (v : PtrVar) (p : HashTableBucketPage K V) : TableProg K V Unit := store v (.bucket p)

/-! ## Helpers -/

/-- `Hash`. -/
def hash (key : K) : ℕ := (T.getHash key).toNat % 2 ^ 32

/-- `KeyToDirectoryIndex`. -/
def keyToDirectoryIndex (key : K) (dir_page : HashTableDirectoryPage) : ℕ :=
  T.hash key &&& dir_page.getGlobalDepthMask

/-- `KeyToPageId`. -/
def keyToPageId (key : K) (dir_page : HashTableDirectoryPage) : PageId :=
  dir_page.getBucketPageId (T.keyToDirectoryIndex key dir_page)

/-- `FetchDirectoryPage`: whether the pointer is not null. -/
def fetchDirectoryPage (directory_page_id : PageId) : TableProg K V Bool := do
  let page ← fetchPage .dirPage directory_page_id
  check (assertThat b page)
  pure page

/-- `FetchBucketPage`. -/
def fetchBucketPage (bucket_page_id : PageId) : TableProg K V Bool := do
  let page ← fetchPage .bucketPage bucket_page_id
  check (assertThat b page)
  pure page

/-- `assert(buffer_pool_manager_->UnpinPage(dir_page->GetPageId(), is_dirty, nullptr))`. -/
def unpinDirectory (is_dirty : Bool) : TableProg K V Unit :=
  assert_ b do
    let dir_page ← T.loadDirectory
    unpinPage dir_page.getPageId is_dirty

/-- The head that the methods share: fetch the directory and the bucket that `key` belongs to. -/
def fetchFor (directory_page_id : PageId) (key : K) : TableProg K V PageId := do
  let dir_page ← fetchDirectoryPage b directory_page_id
  check (assertThat b dir_page)
  let dir ← T.loadDirectory
  let bucket_page_id := T.keyToPageId key dir
  let page ← fetchBucketPage b bucket_page_id
  check (assertThat b page)
  pure bucket_page_id

/-- The constructor.  `directory_page_id` is what the member holds before it is set; the result is
    what it holds afterwards, and whether both pages could be allocated. -/
def construct (directory_page_id : PageId) : TableProg K V (PageId × Bool) := do
  latch .tableWLock
  match ← newPage .dirPage with
  | none =>
    latch .tableWUnlock
    pure (directory_page_id, false)
  | some directory_page_id =>
    let dir ← T.loadDirectory
    storeDirectory (dir.setPageId directory_page_id)
    match ← newPage .bucketPage with
    | none =>
      latch .tableWUnlock
      pure (directory_page_id, false)
    | some bucket_page_id =>
      let dir ← T.loadDirectory
      let dir ← check ((dir.setBucketPageId 0 bucket_page_id).setLocalDepth b 0 0)
      storeDirectory dir
      assert_ b (unpinPage bucket_page_id false)
      assert_ b (unpinPage directory_page_id true)
      latch .tableWUnlock
      pure (directory_page_id, true)

/-! ## Search -/

/-- `GetValue`: whether there was a value, and `*result` with the values appended. -/
def getValue (directory_page_id : PageId) (key : K) (result : List V) :
    TableProg K V (Bool × List V) := do
  latch .tableRLock
  let bucket_page_id ← T.fetchFor b directory_page_id key
  latch (.pageRLatch .bucketPage)
  let bucket ← T.loadBucket .bucketPage
  let res := bucket.getValue T.bucketArraySize T.comparator key result
  T.unpinDirectory b false
  assert_ b (unpinPage bucket_page_id false)
  latch (.pageRUnlatch .bucketPage)
  latch .tableRUnlock
  pure res

variable [DecidableEq V]

/-! ## Insertion -/

/-- `Insert` up to the `RUnlock`: the result, or none when it goes on with `SplitInsert`. -/
def insertRegion (directory_page_id : PageId) (key : K) (value : V) : TableProg K V (Option Bool) := do
  latch .tableRLock
  let bucket_page_id ← T.fetchFor b directory_page_id key
  latch (.pageWLatch .bucketPage)
  let bucket ← T.loadBucket .bucketPage
  if !bucket.isFull T.bucketArraySize then
    let res := bucket.insert T.bucketArraySize T.comparator key value
    storeBucket .bucketPage res.2
    T.unpinDirectory b false
    assert_ b (unpinPage bucket_page_id true)
    latch (.pageWUnlatch .bucketPage)
    latch .tableRUnlock
    pure (some res.1)
  else
    assert_ b (unpinPage bucket_page_id false)
    T.unpinDirectory b false
    latch (.pageWUnlatch .bucketPage)
    latch .tableRUnlock
    pure none

omit [Inhabited K] [Inhabited V] [DecidableEq V] in
/-- Make room for one more bit at `bucket_idx`; none if the directory cannot grow. -/
def deepen (dir : HashTableDirectoryPage) (bucket_idx : ℕ) :
    Except Fault (Option HashTableDirectoryPage) :=
  if dir.getLocalDepth bucket_idx < dir.getGlobalDepth then do
    let dir ← dir.incrLocalDepth b bucket_idx
    .ok (some dir)
  else if dir.size > directoryArraySize >>> 1 then .ok none
  else do
    let dir ← dir.incrGlobalDepth b
    let dir ← dir.incrLocalDepth b bucket_idx
    .ok (some dir)

omit [Inhabited K] [Inhabited V] [DecidableEq V] in
/-- Give half of the entries of `bucket_idx` to the split image. -/
def repoint (dir : HashTableDirectoryPage) (bucket_idx split_bucket_idx : ℕ)
    (split_bucket_page_id : PageId) : Except Fault HashTableDirectoryPage := do
  let dir := dir.setBucketPageId split_bucket_idx split_bucket_page_id
  let dir ← dir.setLocalDepth b split_bucket_idx (dir.getLocalDepth bucket_idx)
  assertThat b (dir.getLocalDepthMask split_bucket_idx = dir.getLocalDepthMask bucket_idx)
  let step := dir.getLocalHighBit split_bucket_idx <<< 1
  let dir ← Loop.forStride .diverges dir.size step
    (fun curr_idx (dir : HashTableDirectoryPage) => do
      let dir := dir.setBucketPageId curr_idx split_bucket_page_id
      dir.setLocalDepth b curr_idx (dir.getLocalDepth split_bucket_idx))
    dir.size (split_bucket_idx &&& dir.getLocalDepthMask split_bucket_idx) dir
  let dir ← Loop.forStride .diverges dir.size step
    (fun curr_idx (dir : HashTableDirectoryPage) =>
      dir.setLocalDepth b curr_idx (dir.getLocalDepth bucket_idx))
    dir.size (bucket_idx &&& dir.getLocalDepthMask bucket_idx) dir
  assertThat b (dir.getLocalDepthMask split_bucket_idx = dir.getLocalDepthMask bucket_idx)
  .ok dir

/-- The loop that moves the pairs of the split image out of the old bucket. -/
def redistribute (bucket_page_id : PageId) : (remaining arr_idx : ℕ) → TableProg K V Unit
  | 0, _ => pure ()
  | remaining + 1, arr_idx => do
    let bucket ← T.loadBucket .bucketPage
    if bucket.isReadable T.bucketArraySize arr_idx then
      let temp_key := bucket.keyAt T.bucketArraySize arr_idx
      let temp_value := bucket.valueAt T.bucketArraySize arr_idx
      let dir ← T.loadDirectory
      if T.keyToPageId temp_key dir ≠ bucket_page_id then
        let split ← T.loadBucket .splitBucketPage
        storeBucket .splitBucketPage
          (split.insert T.bucketArraySize T.comparator temp_key temp_value).2
        storeBucket .bucketPage (bucket.removeAt T.bucketArraySize arr_idx)
    redistribute bucket_page_id remaining (arr_idx + 1)

/-- `SplitInsert` up to the `WUnlock`: the result, or none when it goes on with `Insert`. -/
def splitInsertRegion (directory_page_id : PageId) (key : K) (value : V) :
    TableProg K V (Option Bool) := do
  latch .tableWLock
  let bucket_page_id ← T.fetchFor b directory_page_id key
  let dir ← T.loadDirectory
  let bucket_idx := T.keyToDirectoryIndex key dir
  let bucket ← T.loadBucket .bucketPage
  if !bucket.isFull T.bucketArraySize then
    let res := bucket.insert T.bucketArraySize T.comparator key value
    storeBucket .bucketPage res.2
    T.unpinDirectory b false
    assert_ b (unpinPage bucket_page_id true)
    latch .tableWUnlock
    pure (some res.1)
  else
    match ← check (deepen b dir bucket_idx) with
    | none =>
      T.unpinDirectory b false
      assert_ b (unpinPage bucket_page_id false)
      latch .tableWUnlock
      pure (some false)
    | some dir =>
      storeDirectory dir
      let split_bucket_idx := dir.getSplitImageIndex bucket_idx
      let page ← newPage .splitBucketPage
      check (assertThat b page.isSome)
      -- `split_bucket_page_id` is 0 until `NewPage` sets it
      let split_bucket_page_id := page.getD 0
      let dir ← check (repoint b dir bucket_idx split_bucket_idx split_bucket_page_id)
      storeDirectory dir
      assert_ b do
        let bucket ← T.loadBucket .bucketPage
        pure (bucket.isFull T.bucketArraySize)
      assert_ b do
        let split ← T.loadBucket .splitBucketPage
        pure (split.isEmpty T.bucketArraySize)
      T.redistribute bucket_page_id T.bucketArraySize 0
      T.unpinDirectory b true
      assert_ b (unpinPage bucket_page_id true)
      assert_ b (unpinPage split_bucket_page_id true)
      latch .tableWUnlock
      pure none

/-- `Insert`, with at most `fuel` calls of itself. -/
def insert (directory_page_id : PageId) (key : K) (value : V) : (fuel : ℕ) → TableProg K V Bool
  | 0 => Prog.fail .diverges
  | fuel + 1 => do
    match ← T.insertRegion b directory_page_id key value with
    | some res => pure res
    | none =>
      match ← T.splitInsertRegion b directory_page_id key value with
      | some res => pure res
      | none => insert directory_page_id key value fuel

/-! ## Remove -/

/-- `Remove` up to the call of `Merge`. -/
def removeRegion (directory_page_id : PageId) (key : K) (value : V) : TableProg K V Bool := do
  latch .tableRLock
  let bucket_page_id ← T.fetchFor b directory_page_id key
  latch (.pageWLatch .bucketPage)
  let bucket ← T.loadBucket .bucketPage
  let res := bucket.remove T.bucketArraySize T.comparator key value
  storeBucket .bucketPage res.2
  assert_ b (unpinPage bucket_page_id true)
  T.unpinDirectory b false
  latch (.pageWUnlatch .bucketPage)
  latch .tableRUnlock
  pure res.1

omit [Inhabited K] [Inhabited V] [DecidableEq V] in
/-- Give the entries of `bucket_idx` to the split image and take a bit off both. -/
def joinEntries (dir : HashTableDirectoryPage) (bucket_idx split_bucket_idx : ℕ)
    (split_bucket_page_id : PageId) : Except Fault HashTableDirectoryPage := do
  assertThat b (dir.getLocalDepthMask bucket_idx = dir.getLocalDepthMask split_bucket_idx)
  let step := dir.getLocalHighBit bucket_idx <<< 1
  let dir ← Loop.forStride .diverges dir.size step
    (fun curr_idx (dir : HashTableDirectoryPage) =>
      (dir.setBucketPageId curr_idx split_bucket_page_id).decrLocalDepth b curr_idx)
    dir.size (bucket_idx &&& dir.getLocalDepthMask bucket_idx) dir
  let dir ← Loop.forStride .diverges dir.size step
    (fun curr_idx (dir : HashTableDirectoryPage) => dir.decrLocalDepth b curr_idx)
    dir.size (split_bucket_idx &&& dir.getLocalDepthMask split_bucket_idx) dir
  assertThat b (dir.getLocalDepthMask bucket_idx = dir.getLocalDepthMask split_bucket_idx)
  .ok dir

omit [Inhabited K] [Inhabited V] [DecidableEq V] in
/-- `while (dir_page->CanShrink()) dir_page->DecrGlobalDepth()`. -/
def shrink (dir : HashTableDirectoryPage) : (fuel : ℕ) → Except Fault HashTableDirectoryPage
  | 0 => .error .diverges
  | fuel + 1 =>
    if dir.canShrink then do
      let dir ← dir.decrGlobalDepth b
      shrink dir fuel
    else .ok dir

omit [DecidableEq V] in
/-- `Merge`. -/
def merge (directory_page_id : PageId) (key : K) : TableProg K V Unit := do
  latch .tableWLock
  let bucket_page_id ← T.fetchFor b directory_page_id key
  let dir ← T.loadDirectory
  let bucket_idx := T.keyToDirectoryIndex key dir
  let bucket ← T.loadBucket .bucketPage
  if dir.getLocalDepth bucket_idx = 0 ∨ !bucket.isEmpty T.bucketArraySize then
    assert_ b (unpinPage bucket_page_id false)
    T.unpinDirectory b false
    latch .tableWUnlock
  else
    let split_bucket_idx := dir.getSplitImageIndex bucket_idx
    let split_bucket_page_id := dir.getBucketPageId split_bucket_idx
    check (assertThat b (split_bucket_page_id ≠ bucket_page_id))
    if dir.getLocalDepth bucket_idx ≠ dir.getLocalDepth split_bucket_idx then
      assert_ b (unpinPage bucket_page_id false)
      T.unpinDirectory b false
      latch .tableWUnlock
    else
      let local_depth := dir.getLocalDepth bucket_idx
      let split_local_depth := dir.getLocalDepth split_bucket_idx
      check (assertThat b (local_depth ≠ 0 ∧ local_depth = split_local_depth))
      assert_ b (unpinPage bucket_page_id false)
      assert_ b (deletePage bucket_page_id)
      let dir ← check (joinEntries b dir bucket_idx split_bucket_idx split_bucket_page_id)
      let dir ← check (shrink b dir (dir.getGlobalDepth + 1))
      storeDirectory dir
      T.unpinDirectory b true
      latch .tableWUnlock

/-- `Remove`. -/
def remove (directory_page_id : PageId) (key : K) (value : V) : TableProg K V Bool := do
  let res ← T.removeRegion b directory_page_id key value
  T.merge b directory_page_id key
  pure res

omit [DecidableEq V] in
/-- `GetGlobalDepth`. -/
def getGlobalDepth (directory_page_id : PageId) : TableProg K V ℕ := do
  latch .tableRLock
  let _ ← fetchDirectoryPage b directory_page_id
  let dir ← T.loadDirectory
  let global_depth := dir.getGlobalDepth
  assert_ b (unpinPage directory_page_id false)
  latch .tableRUnlock
  pure global_depth

omit [DecidableEq V] in
/-- `VerifyIntegrity`. -/
def verifyIntegrity (directory_page_id : PageId) : TableProg K V Unit := do
  latch .tableRLock
  let _ ← fetchDirectoryPage b directory_page_id
  let dir ← T.loadDirectory
  check (dir.verifyIntegrity b)
  assert_ b (unpinPage directory_page_id false)
  latch .tableRUnlock

end HashTableType

end BusTub
