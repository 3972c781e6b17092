/-
  A bucket page: `src/storage/page/hash_table_bucket_page.cpp`.

  A bucket holds `BUCKET_ARRAY_SIZE` slots for key-value pairs with two bitmaps: a slot is READABLE
  when it holds a pair, OCCUPIED when it holds or once held one.  `BUCKET_ARRAY_SIZE` depends on the
  size of a pair and is the parameter `n`.

  1. **Bytes.**  `occupied_` and `readable_` are arrays of `char`.  `char` is a signed 8-bit type
     here, so both operands of a mask are promoted to `int` by sign extension and the result of an
     assignment is cut back to 8 bits (`maskBit`, `setBit`, `flipBit`).  Arrays are functions on the
     index; nothing below stops an index beyond the array's end, as nothing in the source does
     (`IsReadable` calls such an index readable).

  2. **Loops.**  Each scan over the slots is a recursion on the number of slots left, `idx` being
     the slot it looks at.
-/
import Mathlib.Data.Nat.Init
import Mathlib.Logic.Function.Basic

namespace BusTub

/-- `byte & (static_cast<char>(1) << i)`, as a condition. -/
def maskBit (byte : BitVec 8) (i : ℕ) : Bool :=
  (byte.signExtend 32 &&& ((1#8).signExtend 32 <<< i)) != 0#32

/-- `byte |= (static_cast<char>(1) << i)`. -/
def setBit (byte : BitVec 8) (i : ℕ) : BitVec 8 :=
  (byte.signExtend 32 ||| ((1#8).signExtend 32 <<< i)).setWidth 8

/-- `byte ^= (static_cast<char>(1) << i)`. -/
def flipBit (byte : BitVec 8) (i : ℕ) : BitVec 8 :=
  (byte.signExtend 32 ^^^ ((1#8).signExtend 32 <<< i)).setWidth 8

/-- `HashTableBucketPage`. -/
structure HashTableBucketPage (K V : Type) where
  occupied : ℕ → BitVec 8
  readable : ℕ → BitVec 8
  array : ℕ → K × V

namespace HashTableBucketPage

variable {K V : Type} [Inhabited K] [Inhabited V]

/-- A page of zeros, laid out as a bucket. -/
def zeroed : HashTableBucketPage K V :=
  { occupied := fun _ => 0, readable := fun _ => 0, array := fun _ => default }

variable (n : ℕ)

/-- `IsOccupied`: an illegal index is not occupied. -/
def isOccupied (b : HashTableBucketPage K V) (bucket_idx : ℕ) : Bool :=
  if n ≤ bucket_idx then false
  else
    let arr_idx := bucket_idx / 8
    let bucket_idx := bucket_idx - 8 * arr_idx
    maskBit (b.occupied arr_idx) bucket_idx

/-- `SetOccupied`. -/
def setOccupied (b : HashTableBucketPage K V) (bucket_idx : ℕ) : HashTableBucketPage K V :=
  if n ≤ bucket_idx then b
  else
    let arr_idx := bucket_idx / 8
    let bucket_idx := bucket_idx - 8 * arr_idx
    { b with occupied := Function.update b.occupied arr_idx (setBit (b.occupied arr_idx) bucket_idx) }

/-- `IsReadable`: an illegal index is readable. -/
def isReadable (b : HashTableBucketPage K V) (bucket_idx : ℕ) : Bool :=
  if n ≤ bucket_idx then true
  else
    let arr_idx := bucket_idx / 8
    let bucket_idx := bucket_idx - 8 * arr_idx
    maskBit (b.readable arr_idx) bucket_idx

/-- `SetReadable`. -/
def setReadable (b : HashTableBucketPage K V) (bucket_idx : ℕ) : HashTableBucketPage K V :=
  if n ≤ bucket_idx then b
  else
    let arr_idx := bucket_idx / 8
    let bucket_idx := bucket_idx - 8 * arr_idx
    { b with readable := Function.update b.readable arr_idx (setBit (b.readable arr_idx) bucket_idx) }

/-- `RemoveAt`: only the readable bit goes, the slot stays occupied. -/
def removeAt (b : HashTableBucketPage K V) (bucket_idx : ℕ) : HashTableBucketPage K V :=
  if !b.isReadable n bucket_idx then b
  else
    let arr_idx := bucket_idx / 8
    { b with readable :=
        Function.update b.readable arr_idx (flipBit (b.readable arr_idx) (bucket_idx - 8 * arr_idx)) }

/-- `KeyAt`. -/
def keyAt (b : HashTableBucketPage K V) (bucket_idx : ℕ) : K :=
  if b.isReadable n bucket_idx then (b.array bucket_idx).1 else default

/-- `ValueAt`. -/
def valueAt (b : HashTableBucketPage K V) (bucket_idx : ℕ) : V :=
  if b.isReadable n bucket_idx then (b.array bucket_idx).2 else default

/-! ## Scans -/

/-- The loop of `IsFull`. -/
def fullFrom (b : HashTableBucketPage K V) : (remaining idx : ℕ) → Bool
  | 0, _ => true
  | remaining + 1, idx => if !b.isReadable n idx then false else fullFrom b remaining (idx + 1)

/-- `IsFull`. -/
def isFull (b : HashTableBucketPage K V) : Bool := b.fullFrom n n 0

/-- The loop of `IsEmpty`. -/
def emptyFrom (b : HashTableBucketPage K V) : (remaining idx : ℕ) → Bool
  | 0, _ => true
  | remaining + 1, idx =>
    if !b.isOccupied n idx then true
    else if b.isReadable n idx then false
    else emptyFrom b remaining (idx + 1)

/-- `IsEmpty`. -/
def isEmpty (b : HashTableBucketPage K V) : Bool := b.emptyFrom n n 0

/-- The loop of `NumReadable`. -/
def countFrom (b : HashTableBucketPage K V) : (remaining idx count : ℕ) → ℕ
  | 0, _, count => count
  | remaining + 1, idx, count =>
    if !b.isOccupied n idx then count
    else countFrom b remaining (idx + 1) (if b.isReadable n idx then count + 1 else count)

/-- `NumReadable`. -/
def numReadable (b : HashTableBucketPage K V) : ℕ := b.countFrom n n 0 0

/-- The loop of `PrintBucket`. -/
def printFrom (b : HashTableBucketPage K V) : (remaining idx size taken free : ℕ) → ℕ × ℕ × ℕ
  | 0, _, size, taken, free => (size, taken, free)
  | remaining + 1, idx, size, taken, free =>
    if !b.isOccupied n idx then (size, taken, free)
    else if b.isReadable n idx then printFrom b remaining (idx + 1) (size + 1) (taken + 1) free
    else printFrom b remaining (idx + 1) (size + 1) taken (free + 1)

/-- `PrintBucket`: the capacity and the counts that it logs. -/
def printBucket (b : HashTableBucketPage K V) : ℕ × ℕ × ℕ × ℕ := (n, b.printFrom n n 0 0 0 0)

variable (cmp : K → K → Int)

/-- The loop of `GetValue`, appending to `result`. -/
def getValueFrom (b : HashTableBucketPage K V) (key : K) :
    (remaining idx : ℕ) → List V → Bool → Bool × List V
  | 0, _, result, res => (res, result)
  | remaining + 1, idx, result, res =>
    if b.isReadable n idx ∧ cmp key (b.keyAt n idx) = 0 then
      getValueFrom b key remaining (idx + 1) (result ++ [b.valueAt n idx]) true
    else if !b.isOccupied n idx then (res, result)
    else getValueFrom b key remaining (idx + 1) result res

/-- `GetValue`. -/
def getValue (b : HashTableBucketPage K V) (key : K) (result : List V) : Bool × List V :=
  b.getValueFrom n cmp key n 0 result false

variable [DecidableEq V]

/-- The loop of `Insert`: none when the pair is already there, else `insert_idx`. -/
def insertFrom (b : HashTableBucketPage K V) (key : K) (value : V) :
    (remaining idx insert_idx : ℕ) → Option ℕ
  | 0, _, insert_idx => some insert_idx
  | remaining + 1, idx, insert_idx =>
    if b.isReadable n idx then
      if cmp key (b.keyAt n idx) = 0 ∧ value = b.valueAt n idx then none
      else if !b.isOccupied n idx then some insert_idx
      else insertFrom b key value remaining (idx + 1) insert_idx
    else
      let insert_idx := if insert_idx = n then idx else insert_idx
      if !b.isOccupied n idx then some insert_idx
      else insertFrom b key value remaining (idx + 1) insert_idx

/-- `Insert`. -/
def insert (b : HashTableBucketPage K V) (key : K) (value : V) : Bool × HashTableBucketPage K V :=
  if b.isFull n then (false, b)
  else match b.insertFrom n cmp key value n 0 n with
    | none => (false, b)
    | some insert_idx =>
      if insert_idx = n then (false, b)
      else
        let b := { b with array := Function.update b.array insert_idx (key, value) }
        (true, (b.setReadable n insert_idx).setOccupied n insert_idx)

/-- The loop of `Remove`: the slot of the pair. -/
def removeFrom (b : HashTableBucketPage K V) (key : K) (value : V) : (remaining idx : ℕ) → Option ℕ
  | 0, _ => none
  | remaining + 1, idx =>
    if !b.isOccupied n idx then none
    else if !b.isReadable n idx then removeFrom b key value remaining (idx + 1)
    else if cmp key (b.keyAt n idx) = 0 ∧ value = b.valueAt n idx then some idx
    else removeFrom b key value remaining (idx + 1)

/-- `Remove`. -/
def remove (b : HashTableBucketPage K V) (key : K) (value : V) : Bool × HashTableBucketPage K V :=
  if b.isEmpty n then (false, b)
  else match b.removeFrom n cmp key value n 0 with
    | none => (false, b)
    | some bucket_idx => (true, b.removeAt n bucket_idx)

end HashTableBucketPage

end BusTub
