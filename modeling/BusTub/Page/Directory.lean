/-
  The directory page: `src/storage/page/hash_table_directory_page.cpp`.

  The directory has `2 ^ global_depth_` entries, each a bucket page id with a local depth, in two
  arrays of `DIRECTORY_ARRAY_SIZE` places.  What lies beyond the current size is stale.

  1. **Numbers.**  Depths and indices are natural numbers; where a C++ counter can wrap, `++` and
     `--` say so (`local_depths_` holds `uint8_t`s, `global_depth_` is a `uint32_t`).  `lsn_` is left
     out: nothing reads it.

  2. **Asserts.**  A method with an `assert` takes the build and returns `Except Fault`.

  3. **`VerifyIntegrity`** builds two hash maps over the page ids it meets.  They have the same keys;
     `Tally` holds these in the order of their first occurrence, which stands for whatever order the
     second loop visits them in.
-/
import BusTub.Common
import Mathlib.Logic.Function.Basic

namespace BusTub

/-- `DIRECTORY_ARRAY_SIZE`. -/
def directoryArraySize : ℕ := 512

/-- `HashTableDirectoryPage`. -/
structure HashTableDirectoryPage where
  pageId : PageId
  globalDepth : ℕ
  localDepths : ℕ → ℕ
  bucketPageIds : ℕ → PageId

namespace HashTableDirectoryPage

/-- A page of zeros, laid out as a directory. -/
def zeroed : HashTableDirectoryPage :=
  { pageId := 0, globalDepth := 0, localDepths := fun _ => 0, bucketPageIds := fun _ => 0 }

variable (b : Build) (d : HashTableDirectoryPage)

/-- `GetPageId`. -/
def getPageId : PageId := d.pageId

/-- `SetPageId`. -/
def setPageId (page_id : PageId) : HashTableDirectoryPage := { d with pageId := page_id }

/-- `GetGlobalDepth`. -/
def getGlobalDepth : ℕ := d.globalDepth

/-- `GetGlobalDepthMask`. -/
def getGlobalDepthMask : ℕ := 1 <<< d.globalDepth - 1

/-- `Size`. -/
def size : ℕ := 1 <<< d.globalDepth

/-- `IncrGlobalDepth`: both arrays are copied behind themselves. -/
def incrGlobalDepth : Except Fault HashTableDirectoryPage := do
  assertThat b (d.size ≤ directoryArraySize >>> 1)
  .ok { d with
    localDepths := fun i =>
      if d.size ≤ i ∧ i < d.size + d.size then d.localDepths (i - d.size) else d.localDepths i
    bucketPageIds := fun i =>
      if d.size ≤ i ∧ i < d.size + d.size then d.bucketPageIds (i - d.size) else d.bucketPageIds i
    globalDepth := (d.globalDepth + 1) % 2 ^ 32 }

/-- `DecrGlobalDepth`. -/
def decrGlobalDepth : Except Fault HashTableDirectoryPage := do
  assertThat b (d.globalDepth > 0)
  .ok { d with globalDepth := (d.globalDepth + (2 ^ 32 - 1)) % 2 ^ 32 }

/-- `GetBucketPageId`. -/
def getBucketPageId (bucket_idx : ℕ) : PageId := d.bucketPageIds bucket_idx

/-- `SetBucketPageId`. -/
def setBucketPageId (bucket_idx : ℕ) (bucket_page_id : PageId) : HashTableDirectoryPage :=
  { d with bucketPageIds := Function.update d.bucketPageIds bucket_idx bucket_page_id }

/-- `GetLocalDepth`. -/
def getLocalDepth (bucket_idx : ℕ) : ℕ := d.localDepths bucket_idx

/-- `GetLocalDepthMask`. -/
def getLocalDepthMask (bucket_idx : ℕ) : ℕ := 1 <<< d.getLocalDepth bucket_idx - 1

/-- `SetLocalDepth`. -/
def setLocalDepth (bucket_idx local_depth : ℕ) : Except Fault HashTableDirectoryPage := do
  assertThat b (local_depth ≤ d.globalDepth)
  .ok { d with localDepths := Function.update d.localDepths bucket_idx local_depth }

/-- `IncrLocalDepth`. -/
def incrLocalDepth (bucket_idx : ℕ) : Except Fault HashTableDirectoryPage := do
  assertThat b (d.localDepths bucket_idx < d.globalDepth)
  .ok { d with localDepths :=
    Function.update d.localDepths bucket_idx ((d.localDepths bucket_idx + 1) % 2 ^ 8) }

/-- `DecrLocalDepth`. -/
def decrLocalDepth (bucket_idx : ℕ) : Except Fault HashTableDirectoryPage := do
  assertThat b (d.localDepths bucket_idx > 0)
  .ok { d with localDepths :=
    Function.update d.localDepths bucket_idx ((d.localDepths bucket_idx + (2 ^ 8 - 1)) % 2 ^ 8) }

/-- `GetLocalHighBit`. -/
def getLocalHighBit (bucket_idx : ℕ) : ℕ := (1 <<< d.localDepths bucket_idx) >>> 1

/-- `GetSplitImageIndex`. -/
def getSplitImageIndex (bucket_idx : ℕ) : ℕ := bucket_idx ^^^ d.getLocalHighBit bucket_idx

/-- The loop of `CanShrink`. -/
def shrinkFrom : (remaining curr_idx : ℕ) → Bool
  | 0, _ => true
  | remaining + 1, curr_idx =>
    if d.localDepths curr_idx ≥ d.globalDepth then false else shrinkFrom remaining (curr_idx + 1)

/-- `CanShrink`. -/
def canShrink : Bool := d.shrinkFrom d.size 0

/-- `page_id_to_count` and `page_id_to_ld` of `VerifyIntegrity`. -/
structure Tally where
  keys : List PageId
  count : PageId → ℕ
  depth : PageId → Option ℕ

/-- `++page_id_to_count[page_id]`. -/
def Tally.bump (t : Tally) (page_id : PageId) : Tally :=
  { t with
    keys := if page_id ∈ t.keys then t.keys else t.keys ++ [page_id]
    count := Function.update t.count page_id (t.count page_id + 1) }

/-- The first loop of `VerifyIntegrity`. -/
def tallyFrom : (remaining curr_idx : ℕ) → Tally → Except Fault Tally
  | 0, _, t => .ok t
  | remaining + 1, curr_idx, t => do
    let curr_page_id := d.bucketPageIds curr_idx
    let curr_ld := d.localDepths curr_idx
    assertThat b (curr_ld ≤ d.globalDepth)
    let t := t.bump curr_page_id
    if (t.depth curr_page_id).isSome ∧ t.depth curr_page_id ≠ some curr_ld then
      assertThat b (t.depth curr_page_id = some curr_ld)
      tallyFrom remaining (curr_idx + 1) t
    else
      tallyFrom remaining (curr_idx + 1)
        { t with depth := Function.update t.depth curr_page_id (some curr_ld) }

/-- The second loop of `VerifyIntegrity`. -/
def checkCounts (t : Tally) : List PageId → Except Fault Unit
  | [] => .ok ()
  | curr_page_id :: rest => do
    let curr_ld := (t.depth curr_page_id).getD 0
    assertThat b (t.count curr_page_id = 1 <<< (d.globalDepth - curr_ld))
    checkCounts t rest

/-- `VerifyIntegrity`. -/
def verifyIntegrity : Except Fault Unit := do
  let t ← d.tallyFrom b d.size 0 { keys := [], count := fun _ => 0, depth := fun _ => none }
  d.checkCounts b t t.keys

end HashTableDirectoryPage

end BusTub
