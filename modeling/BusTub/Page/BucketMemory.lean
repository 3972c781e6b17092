/-
  The methods of a bucket page, run on its bytes.

  `Insert`, `Remove` and `GetValue` scan the slots of a page that lies in memory as raw bytes.  Here they run there:
  every bit is tested in its byte, and a pair is written as the bytes of its key and of its value.

  1. **`BucketEncoding`**: a layout together with the bytes that a key and a value are written as.

  2. **Each method acts on the page that the bytes show** as the method of `HashTableBucketPage` does
     (`acts_insert`, `acts_remove`, `acts_getValue`, …), and stays within the page.
-/
import BusTub.Lib.MemoryView
import BusTub.Page.BucketBytes
import BusTub.Page.BucketScans
import BusTub.Page.BucketSet

set_option linter.unusedSectionVars false

namespace BusTub

open MemoryM

/-- A layout of the page, and the bytes that its members are written as. -/
structure BucketEncoding (K V : Type) extends BucketLayout K V where
  keyBytes : K → List (BitVec 8)
  valueBytes : V → List (BitVec 8)
  length_keyBytes : ∀ key, (keyBytes key).length = keySize
  length_valueBytes : ∀ value, (valueBytes value).length = valueSize
  keyOf_keyBytes : ∀ key, keyOf (keyBytes key) = key
  valueOf_valueBytes : ∀ value, valueOf (valueBytes value) = value
  /-- `first` lies before `second`. -/
  key_before_value : keySize ≤ valueOffset

namespace BucketLayout

variable {K V : Type} [Inhabited K] [Inhabited V] (p : BucketLayout K V)

/-- The bytes of the page. -/
def pageBytes : Set ℕ := {a | a < p.arrayAt + p.size * p.pairSize}

/-! ## The methods that scan -/

/-- The loop of `IsFull`. -/
def fullFrom : (remaining idx : ℕ) → MemoryM ℕ (BitVec 8) Bool
  | 0, _ => pure true
  | remaining + 1, idx => do
    let readable ← p.isReadable idx
    if !readable then pure false else fullFrom remaining (idx + 1)

/-- `IsFull`. -/
def isFull : MemoryM ℕ (BitVec 8) Bool := p.fullFrom p.size 0

/-- The loop of `IsEmpty`. -/
def emptyFrom : (remaining idx : ℕ) → MemoryM ℕ (BitVec 8) Bool
  | 0, _ => pure true
  | remaining + 1, idx => do
    let occupied ← p.isOccupied idx
    if !occupied then pure true
    else do
      let readable ← p.isReadable idx
      if readable then pure false else emptyFrom remaining (idx + 1)

/-- `IsEmpty`. -/
def isEmpty : MemoryM ℕ (BitVec 8) Bool := p.emptyFrom p.size 0

/-- The loop of `NumReadable`. -/
def countFrom : (remaining idx count : ℕ) → MemoryM ℕ (BitVec 8) ℕ
  | 0, _, count => pure count
  | remaining + 1, idx, count => do
    let occupied ← p.isOccupied idx
    if !occupied then pure count
    else do
      let readable ← p.isReadable idx
      countFrom remaining (idx + 1) (if readable then count + 1 else count)

/-- `NumReadable`. -/
def numReadable : MemoryM ℕ (BitVec 8) ℕ := p.countFrom p.size 0 0

/-- The loop of `PrintBucket`. -/
def printFrom : (remaining idx size taken free : ℕ) → MemoryM ℕ (BitVec 8) (ℕ × ℕ × ℕ)
  | 0, _, size, taken, free => pure (size, taken, free)
  | remaining + 1, idx, size, taken, free => do
    let occupied ← p.isOccupied idx
    if !occupied then pure (size, taken, free)
    else do
      let readable ← p.isReadable idx
      if readable then printFrom remaining (idx + 1) (size + 1) (taken + 1) free
      else printFrom remaining (idx + 1) (size + 1) taken (free + 1)

/-- `PrintBucket`: the capacity and the counts that it logs. -/
def printBucket : MemoryM ℕ (BitVec 8) (ℕ × ℕ × ℕ × ℕ) := do
  let counts ← p.printFrom p.size 0 0 0 0
  pure (p.size, counts)

variable (cmp : K → K → Int)

/-- `cmp(key, KeyAt(bucket_idx)) == 0`. -/
def keyMatches (key : K) (bucket_idx : ℕ) : MemoryM ℕ (BitVec 8) Bool := do
  let k ← p.keyAt bucket_idx
  pure (decide (cmp key k = 0))

/-- The loop of `GetValue`, appending to `result`. -/
def getValueFrom (key : K) : (remaining idx : ℕ) → List V → Bool → MemoryM ℕ (BitVec 8) (Bool × List V)
  | 0, _, result, res => pure (res, result)
  | remaining + 1, idx, result, res => do
    let readable ← p.isReadable idx
    let found ← (if readable then p.keyMatches cmp key idx else pure false)
    if found then do
      let value ← p.valueAt idx
      getValueFrom key remaining (idx + 1) (result ++ [value]) true
    else do
      let occupied ← p.isOccupied idx
      if !occupied then pure (res, result) else getValueFrom key remaining (idx + 1) result res

/-- `GetValue`. -/
def getValue (key : K) (result : List V) : MemoryM ℕ (BitVec 8) (Bool × List V) :=
  p.getValueFrom cmp key p.size 0 result false

variable [DecidableEq V]

/-- `cmp(key, KeyAt(bucket_idx)) == 0 && value == ValueAt(bucket_idx)`. -/
def pairMatches (key : K) (value : V) (bucket_idx : ℕ) : MemoryM ℕ (BitVec 8) Bool := do
  let same ← p.keyMatches cmp key bucket_idx
  if same then do
    let v ← p.valueAt bucket_idx
    pure (decide (value = v))
  else pure false

/-- The loop of `Insert`: none when the pair is already there, else `insert_idx`. -/
def insertFrom (key : K) (value : V) : (remaining idx insert_idx : ℕ) → MemoryM ℕ (BitVec 8) (Option ℕ)
  | 0, _, insert_idx => pure (some insert_idx)
  | remaining + 1, idx, insert_idx => do
    let readable ← p.isReadable idx
    let found ← (if readable then p.pairMatches cmp key value idx else pure false)
    if found then pure none
    else do
      let insert_idx := if !readable ∧ insert_idx = p.size then idx else insert_idx
      let occupied ← p.isOccupied idx
      if !occupied then pure (some insert_idx) else insertFrom key value remaining (idx + 1) insert_idx

/-- The loop of `Remove`: the slot of the pair. -/
def removeFrom (key : K) (value : V) : (remaining idx : ℕ) → MemoryM ℕ (BitVec 8) (Option ℕ)
  | 0, _ => pure none
  | remaining + 1, idx => do
    let occupied ← p.isOccupied idx
    if !occupied then pure none
    else do
      let readable ← p.isReadable idx
      if !readable then removeFrom key value remaining (idx + 1)
      else do
        let found ← p.pairMatches cmp key value idx
        if found then pure (some idx) else removeFrom key value remaining (idx + 1)

/-- `Remove`. -/
def remove (key : K) (value : V) : MemoryM ℕ (BitVec 8) Bool := do
  let empty ← p.isEmpty
  if empty then pure false
  else do
    let slot ← p.removeFrom cmp key value p.size 0
    match slot with
    | none => pure false
    | some bucket_idx => do
      p.removeAt bucket_idx
      pure true

variable {p} {m : ℕ → BitVec 8} {i : ℕ} {cmp}

/-! ## One slot -/

/-- A bitmap that ends before the pairs lies in the page. -/
theorem bitmapBytes_subset {start : ℕ} (h : start + p.bitmapLength ≤ p.arrayAt) :
    p.bitmapBytes start ⊆ p.pageBytes := by
  intro a ha
  have hlt : a < start + p.bitmapLength := ha.2
  show a < p.arrayAt + p.size * p.pairSize
  omega

/-- So does `occupied_`, which comes first, -/
theorem occupiedBytes_subset : p.occupiedBytes ⊆ p.pageBytes := by
  have hbelow := p.bitmaps_below
  exact bitmapBytes_subset (show 0 + p.bitmapLength ≤ p.arrayAt by omega)

/-- and `readable_`, which comes right after it. -/
theorem readableBytes_subset : p.readableBytes ⊆ p.pageBytes := bitmapBytes_subset p.bitmaps_below

/-- The slots lie one behind the other. -/
theorem pairAt_add_le {j : ℕ} (h : i < j) : p.pairAt i + p.pairSize ≤ p.pairAt j := by
  have hmul : (i + 1) * p.pairSize ≤ j * p.pairSize := Nat.mul_le_mul_right _ h
  rw [Nat.succ_mul] at hmul
  unfold pairAt
  omega

/-- The bytes of a legal slot. -/
theorem mem_pageBytes (hi : i < p.size) {a : ℕ} (ha : a < p.pairAt i + p.pairSize) : a ∈ p.pageBytes :=
  Nat.lt_of_lt_of_le ha (pairAt_add_le hi)

/-- A test of one bit does the same wherever the page lies. -/
theorem plain_testAt {start : ℕ} {illegal : Bool} : Plain (p.testAt start illegal i) := by
  unfold testAt
  split
  · exact .pure illegal
  · exact (Plain.load _).bind fun byte => .pure _

/-- So does the setting of one. -/
theorem plain_setAt {start : ℕ} : Plain (p.setAt start i) := by
  unfold setAt
  split
  · exact .pure ()
  · exact .change _ _

variable {b : HashTableBucketPage K V}

/-- `IsReadable` answers what the page says, and reads no byte outside of it. -/
theorem acts_isReadable (i : ℕ) :
    Acts p.page p.pageBytes p.pageBytes (p.isReadable i) b (b.isReadable p.size i) b :=
  .of_reading plain_testAt ((touches_testAt ∅).mono readableBytes_subset (Set.Subset.refl ∅))
    fun _ hm => hm ▸ result_isReadable

/-- `IsOccupied` does the same with the other bitmap. -/
theorem acts_isOccupied (i : ℕ) :
    Acts p.page p.pageBytes p.pageBytes (p.isOccupied i) b (b.isOccupied p.size i) b :=
  .of_reading plain_testAt ((touches_testAt ∅).mono occupiedBytes_subset (Set.Subset.refl ∅))
    fun _ hm => hm ▸ result_isOccupied

section Member

variable {α : Type} [Inhabited α] {start length : ℕ} {ofBytes : List (BitVec 8) → α}

/-- A member of a pair is read byte by byte, from where the pair lies. -/
theorem plain_memberAt : Plain (p.memberAt i start length ofBytes) := by
  apply plain_testAt.bind
  intro readable
  split
  · exact (Plain.loads _).bind fun bytes => .pure _
  · exact .pure default

/-- These bytes are the page's if the slot is one of its slots. -/
theorem touches_memberAt (hi : i < p.size) (hlast : start + length ≤ p.pairAt i + p.pairSize) :
    Touches p.pageBytes ∅ (p.memberAt i start length ofBytes) := by
  apply ((touches_testAt ∅).mono readableBytes_subset (Set.Subset.refl ∅)).bind
  intro readable
  split
  · refine (Touches.loads fun a ha => mem_pageBytes hi ?_).bind fun bytes => .pure _
    have hlt := (List.mem_range'_1.mp ha).2
    omega
  · exact .pure default

end Member

/-- `KeyAt` gives the key that the slot holds. -/
theorem acts_keyAt (hi : i < p.size) :
    Acts p.page p.pageBytes p.pageBytes (p.keyAt i) b (b.keyAt p.size i) b := by
  have hfits := p.key_fits
  exact .of_reading plain_memberAt (touches_memberAt hi (by omega)) fun _ hm => hm ▸ result_keyAt

/-- `ValueAt` gives its value. -/
theorem acts_valueAt (hi : i < p.size) :
    Acts p.page p.pageBytes p.pageBytes (p.valueAt i) b (b.valueAt p.size i) b := by
  have hfits := p.value_fits
  exact .of_reading plain_memberAt (touches_memberAt hi (by omega)) fun _ hm => hm ▸ result_valueAt

/-- `SetReadable` sets one bit of the page and changes nothing outside of it. -/
theorem acts_setReadable (i : ℕ) :
    Acts p.page p.pageBytes p.pageBytes (p.setReadable i) b () (b.setReadable p.size i) :=
  .of_plain plain_setAt (touches_setAt.mono readableBytes_subset readableBytes_subset) (fun _ _ => rfl)
    fun _ hm => hm ▸ page_setReadable

/-- `SetOccupied` sets the same bit of the other bitmap. -/
theorem acts_setOccupied (i : ℕ) :
    Acts p.page p.pageBytes p.pageBytes (p.setOccupied i) b () (b.setOccupied p.size i) :=
  .of_plain plain_setAt (touches_setAt.mono occupiedBytes_subset occupiedBytes_subset) (fun _ _ => rfl)
    fun _ hm => hm ▸ page_setOccupied

/-- `RemoveAt` clears the readable bit, and leaves the pair and the occupied bit. -/
theorem acts_removeAt (hi : i < p.size) :
    Acts p.page p.pageBytes p.pageBytes (p.removeAt i) b () (b.removeAt p.size i) := by
  refine .of_plain ?_ ((touches_removeAt hi).mono readableBytes_subset readableBytes_subset) (fun _ _ => rfl)
    fun _ hm => hm ▸ page_removeAt hi
  apply plain_testAt.bind
  intro readable
  split
  · exact .pure ()
  · exact .change _ _

/-! ## The scans -/

/-- The scan of `IsFull`, from any slot on: the bytes say at each slot what the page says. -/
theorem acts_fullFrom : ∀ remaining idx : ℕ,
    Acts p.page p.pageBytes p.pageBytes (p.fullFrom remaining idx) b (b.fullFrom p.size remaining idx) b
  | 0, _ => .pure b true
  | remaining + 1, idx => by
    refine (acts_isReadable idx).bind ?_
    rw [HashTableBucketPage.fullFrom]
    cases b.isReadable p.size idx with
    | false => exact .pure b false
    | true => exact acts_fullFrom remaining (idx + 1)

/-- The scan of `IsEmpty`, in the same way. -/
theorem acts_emptyFrom : ∀ remaining idx : ℕ,
    Acts p.page p.pageBytes p.pageBytes (p.emptyFrom remaining idx) b (b.emptyFrom p.size remaining idx) b
  | 0, _ => .pure b true
  | remaining + 1, idx => by
    refine (acts_isOccupied idx).bind ?_
    rw [HashTableBucketPage.emptyFrom]
    cases b.isOccupied p.size idx with
    | false => exact .pure b true
    | true =>
      refine (acts_isReadable idx).bind ?_
      cases b.isReadable p.size idx with
      | true => exact .pure b false
      | false => exact acts_emptyFrom remaining (idx + 1)

/-- The scan of `NumReadable`, with its counter general. -/
theorem acts_countFrom : ∀ remaining idx count : ℕ,
    Acts p.page p.pageBytes p.pageBytes (p.countFrom remaining idx count) b (b.countFrom p.size remaining idx count) b
  | 0, _, count => .pure b count
  | remaining + 1, idx, count => by
    refine (acts_isOccupied idx).bind ?_
    rw [HashTableBucketPage.countFrom]
    cases b.isOccupied p.size idx with
    | false => exact .pure b count
    | true => exact (acts_isReadable idx).bind (acts_countFrom remaining (idx + 1) _)

/-- The scan of `PrintBucket`, with its three counters general. -/
theorem acts_printFrom : ∀ remaining idx size taken free : ℕ,
    Acts p.page p.pageBytes p.pageBytes (p.printFrom remaining idx size taken free) b
      (b.printFrom p.size remaining idx size taken free) b
  | 0, _, size, taken, free => .pure b (size, taken, free)
  | remaining + 1, idx, size, taken, free => by
    refine (acts_isOccupied idx).bind ?_
    rw [HashTableBucketPage.printFrom]
    cases b.isOccupied p.size idx with
    | false => exact .pure b (size, taken, free)
    | true =>
      refine (acts_isReadable idx).bind ?_
      cases b.isReadable p.size idx with
      | true => exact acts_printFrom remaining (idx + 1) _ _ _
      | false => exact acts_printFrom remaining (idx + 1) _ _ _

variable (cmp) in
/-- The comparison of one slot's key, on which the scans of `GetValue` decide. -/
theorem acts_keyMatches (key : K) (hi : i < p.size) : Acts p.page p.pageBytes p.pageBytes (p.keyMatches cmp key i) b
    (decide (cmp key (b.keyAt p.size i) = 0)) b := (acts_keyAt hi).bind (.pure b _)

variable (cmp) in
/-- And of the whole pair, for `Insert` and `Remove`; the value is read only where the keys agree. -/
theorem acts_pairMatches (key : K) (value : V) (hi : i < p.size) :
    Acts p.page p.pageBytes p.pageBytes (p.pairMatches cmp key value i) b
      (decide (cmp key (b.keyAt p.size i) = 0 ∧ value = b.valueAt p.size i)) b := by
  refine (acts_keyMatches cmp key hi).bind ?_
  by_cases hkey : cmp key (b.keyAt p.size i) = 0
  · simp only [hkey, decide_true, if_true, true_and]
    exact (acts_valueAt hi).bind (.pure b _)
  · simpa [hkey] using Acts.pure b false

/-- The test of a slot that may not be readable. -/
theorem acts_found {readable q : Bool} {c : MemoryM ℕ (BitVec 8) Bool}
    (h : Acts p.page p.pageBytes p.pageBytes c b q b) :
    Acts p.page p.pageBytes p.pageBytes (if readable then c else pure false) b (readable && q) b := by
  cases readable with
  | true => exact h
  | false => exact .pure b false

/-- The scan of `GetValue`, by induction on the slots left, with the result so far general. -/
theorem acts_getValueFrom (key : K) : ∀ (remaining idx : ℕ) (result : List V) (res : Bool),
    idx + remaining ≤ p.size → Acts p.page p.pageBytes p.pageBytes (p.getValueFrom cmp key remaining idx result res) b
      (b.getValueFrom p.size cmp key remaining idx result res) b
  | 0, _, result, res, _ => .pure b (res, result)
  | remaining + 1, idx, result, res, hle => by
    have hi : idx < p.size := by omega
    have hrest := fun result res => acts_getValueFrom key remaining (idx + 1) result res (by omega)
    refine (acts_isReadable idx).bind ((acts_found (acts_keyMatches cmp key hi)).bind ?_)
    rw [HashTableBucketPage.getValueFrom]
    by_cases hfound : b.isReadable p.size idx = true ∧ cmp key (b.keyAt p.size idx) = 0
    · rw [if_pos hfound]
      simpa [hfound] using (acts_valueAt hi).bind (hrest _ true)
    · rw [if_neg hfound, if_neg (by simpa using hfound)]
      refine (acts_isOccupied idx).bind ?_
      cases b.isOccupied p.size idx with
      | false => exact .pure b (res, result)
      | true => exact hrest result res

/-- The scan of `Insert`, which looks for the pair and for the first free slot. -/
theorem acts_insertFrom (key : K) (value : V) : ∀ remaining idx insert_idx : ℕ, idx + remaining ≤ p.size →
    Acts p.page p.pageBytes p.pageBytes (p.insertFrom cmp key value remaining idx insert_idx) b
      (b.insertFrom p.size cmp key value remaining idx insert_idx) b
  | 0, _, insert_idx, _ => .pure b (some insert_idx)
  | remaining + 1, idx, insert_idx, hle => by
    have hi : idx < p.size := by omega
    have hrest := fun insert_idx => acts_insertFrom key value remaining (idx + 1) insert_idx (by omega)
    refine (acts_isReadable idx).bind ((acts_found (acts_pairMatches cmp key value hi)).bind ?_)
    rw [HashTableBucketPage.insertFrom]
    cases b.isReadable p.size idx with
    | true =>
      by_cases hsame : cmp key (b.keyAt p.size idx) = 0 ∧ value = b.valueAt p.size idx
      · simpa [hsame] using Acts.pure b (none : Option ℕ)
      · rw [if_pos rfl, if_neg hsame, if_neg (by simpa using hsame)]
        refine (acts_isOccupied idx).bind ?_
        cases b.isOccupied p.size idx with
        | false => exact .pure b _
        | true => exact hrest insert_idx
    | false =>
      simp only [Bool.false_and, Bool.false_eq_true, if_false, Bool.not_false, true_and]
      refine (acts_isOccupied idx).bind ?_
      cases b.isOccupied p.size idx with
      | false => exact .pure b _
      | true => exact hrest _

/-- The scan of `Remove`, which stops at the pair. -/
theorem acts_removeFrom (key : K) (value : V) : ∀ remaining idx : ℕ, idx + remaining ≤ p.size →
    Acts p.page p.pageBytes p.pageBytes (p.removeFrom cmp key value remaining idx) b
      (b.removeFrom p.size cmp key value remaining idx) b
  | 0, _, _ => .pure b none
  | remaining + 1, idx, hle => by
    have hrest := acts_removeFrom key value remaining (idx + 1) (by omega)
    refine (acts_isOccupied idx).bind ?_
    rw [HashTableBucketPage.removeFrom]
    cases b.isOccupied p.size idx with
    | false => exact .pure b none
    | true =>
      refine (acts_isReadable idx).bind ?_
      cases b.isReadable p.size idx with
      | false => exact hrest
      | true =>
        refine (acts_pairMatches cmp key value (by omega)).bind ?_
        by_cases hsame : cmp key (b.keyAt p.size idx) = 0 ∧ value = b.valueAt p.size idx
        · simpa [hsame] using Acts.pure b (some idx)
        · simpa [hsame] using hrest

/-- The slot that `Remove` finds is a legal one. -/
theorem removeFrom_lt (b : HashTableBucketPage K V) (key : K) (value : V) (j : ℕ) : ∀ remaining idx : ℕ,
    idx + remaining ≤ p.size → b.removeFrom p.size cmp key value remaining idx = some j → j < p.size
  | 0, _, _, h => by cases h
  | remaining + 1, idx, hle, h => by
    have hrest := removeFrom_lt b key value j remaining (idx + 1) (by omega)
    rw [HashTableBucketPage.removeFrom] at h
    split at h
    · cases h
    · split at h
      · exact hrest h
      · split at h
        · cases h
          omega
        · exact hrest h

/-- The slot that `Insert` takes is a legal one, or it has found none. -/
theorem insertFrom_le (b : HashTableBucketPage K V) (key : K) (value : V) (j : ℕ) :
    ∀ remaining idx insert_idx : ℕ, idx + remaining ≤ p.size → insert_idx ≤ p.size →
      b.insertFrom p.size cmp key value remaining idx insert_idx = some j → j ≤ p.size
  | 0, _, _, _, hins, h => by
    cases h
    exact hins
  | remaining + 1, idx, insert_idx, hle, hins, h => by
    have hrest := fun ins hins => insertFrom_le b key value j remaining (idx + 1) ins (by omega) hins
    rw [HashTableBucketPage.insertFrom] at h
    split at h
    · split at h
      · cases h
      · split at h
        · cases h
          exact hins
        · exact hrest insert_idx hins h
    · have hnext : (if insert_idx = p.size then idx else insert_idx) ≤ p.size := by
        split <;> omega
      simp only at h
      split at h
      · cases h
        exact hnext
      · exact hrest _ hnext h

/-! ## The methods -/

/-- `IsFull` over the bytes. -/
theorem acts_isFull : Acts p.page p.pageBytes p.pageBytes p.isFull b (b.isFull p.size) b := acts_fullFrom p.size 0

/-- `IsEmpty` over the bytes. -/
theorem acts_isEmpty : Acts p.page p.pageBytes p.pageBytes p.isEmpty b (b.isEmpty p.size) b := acts_emptyFrom p.size 0

/-- `NumReadable` over the bytes. -/
theorem acts_numReadable : Acts p.page p.pageBytes p.pageBytes p.numReadable b (b.numReadable p.size) b :=
  acts_countFrom p.size 0 0

/-- `PrintBucket` over the bytes: the numbers that it prints. -/
theorem acts_printBucket : Acts p.page p.pageBytes p.pageBytes p.printBucket b (b.printBucket p.size) b :=
  (acts_printFrom p.size 0 0 0 0).bind (.pure b _)

/-- `GetValue` over the bytes: the values that it collects. -/
theorem acts_getValue (key : K) (result : List V) :
    Acts p.page p.pageBytes p.pageBytes (p.getValue cmp key result) b (b.getValue p.size cmp key result) b :=
  acts_getValueFrom key p.size 0 result false (by omega)

/-- `Remove` over the bytes: its result, and the page after it. -/
theorem acts_remove (key : K) (value : V) : Acts p.page p.pageBytes p.pageBytes (p.remove cmp key value) b
    (b.remove p.size cmp key value).1 (b.remove p.size cmp key value).2 := by
  refine acts_isEmpty.bind ?_
  unfold HashTableBucketPage.remove
  cases b.isEmpty p.size with
  | true => exact .pure b false
  | false =>
    refine (acts_removeFrom key value p.size 0 (by omega)).bind ?_
    cases hslot : b.removeFrom p.size cmp key value p.size 0 with
    | none => exact .pure b false
    | some j =>
      have hj := removeFrom_lt b key value j p.size 0 (by omega) hslot
      exact (acts_removeAt hj).bind (.pure _ true)

end BucketLayout

namespace BucketEncoding

variable {K V : Type} [Inhabited K] [Inhabited V] (p : BucketEncoding K V)

/-- `array_[bucket_idx] = std::make_pair(key, value)`. -/
def storePair (bucket_idx : ℕ) (key : K) (value : V) : MemoryM ℕ (BitVec 8) Unit := do
  stores (p.pairAt bucket_idx) (p.keyBytes key)
  stores (p.pairAt bucket_idx + p.valueOffset) (p.valueBytes value)

variable [DecidableEq V] (cmp : K → K → Int)

/-- `Insert`. -/
def insert (key : K) (value : V) : MemoryM ℕ (BitVec 8) Bool := do
  let full ← p.isFull
  if full then pure false
  else do
    let slot ← p.insertFrom cmp key value p.size 0 p.size
    match slot with
    | none => pure false
    | some insert_idx =>
      if insert_idx = p.size then pure false
      else do
        p.storePair insert_idx key value
        p.setReadable insert_idx
        p.setOccupied insert_idx
        pure true

variable {p} {cmp} {m : ℕ → BitVec 8} {i : ℕ}

/-! ## A pair is written -/

/-- Every pair lies behind both bitmaps. -/
theorem pairAt_below {j : ℕ} : p.bitmapLength + p.bitmapLength ≤ p.pairAt j := by
  have hbelow := p.bitmaps_below
  unfold BucketLayout.pairAt
  omega

/-- A pair is stored byte by byte, wherever the page lies. -/
theorem plain_storePair (key : K) (value : V) : Plain (p.storePair i key value) :=
  (Plain.stores _ _).bind fun _ => .stores _ _

/-- These bytes are the page's if the slot is one of its slots. -/
theorem touches_storePair (hi : i < p.size) (key : K) (value : V) :
    Touches p.pageBytes p.pageBytes (p.storePair i key value) := by
  have hkey := p.key_fits
  have hvalue := p.value_fits
  refine (Touches.stores _ _ fun a _ ha => ?_).bind fun _ => .stores _ _ fun a _ ha => ?_
  · rw [p.length_keyBytes] at ha
    exact BucketLayout.mem_pageBytes hi (by omega)
  · rw [p.length_valueBytes] at ha
    exact BucketLayout.mem_pageBytes hi (by omega)

/-- The key is written before the value. -/
theorem after_storePair (key : K) (value : V) : after (p.storePair i key value) m =
    after (stores (p.pairAt i + p.valueOffset) (p.valueBytes value)) (after (stores (p.pairAt i) (p.keyBytes key)) m) :=
  Plain.after_bind fun _ => .stores _ _

/-- Bytes of no member of the pair are as they were. -/
theorem after_storePair_of_outside (key : K) (value : V) {a : ℕ} (ha : a < p.pairAt i ∨ p.pairAt i + p.pairSize ≤ a) :
    after (p.storePair i key value) m a = m a := by
  have hkey := p.key_fits
  have hvalue := p.value_fits
  have hfirst := p.length_keyBytes key
  have hsecond := p.length_valueBytes value
  rw [after_storePair, after_stores_of_outside _ _ _ (by omega), after_stores_of_outside _ _ _ (by omega)]

/-- A member of another slot is as it was. -/
theorem map_storePair_of_ne {j start n : ℕ} (key : K) (value : V) (hne : j ≠ i) (hle : p.pairAt j ≤ start)
    (hlast : start + n ≤ p.pairAt j + p.pairSize) :
    (List.range' start n).map (after (p.storePair i key value) m) = (List.range' start n).map m := by
  apply List.map_congr_left
  intro a ha
  have hmem := List.mem_range'_1.mp ha
  apply after_storePair_of_outside
  rcases Nat.lt_or_gt_of_ne hne with hlt | hlt
  · have hnext := BucketLayout.pairAt_add_le (p := p.toBucketLayout) hlt
    omega
  · have hnext := BucketLayout.pairAt_add_le (p := p.toBucketLayout) hlt
    omega

/-- The slot holds the pair. -/
theorem page_storePair (key : K) (value : V) : p.page (after (p.storePair i key value) m) =
    { p.page m with array := Function.update (p.page m).array i (key, value) } := by
  have hbitmap : ∀ start, start + p.bitmapLength ≤ p.bitmapLength + p.bitmapLength →
      p.bitmap (after (p.storePair i key value) m) start = p.bitmap m start := by
    intro start hstart
    have hbelow := pairAt_below (p := p) (j := i)
    funext k
    unfold BucketLayout.bitmap
    split
    · exact after_storePair_of_outside key value (by omega)
    · rfl
  apply HashTableBucketPage.eq_of_fields
  · exact hbitmap 0 (by omega)
  · exact hbitmap p.bitmapLength (by omega)
  · funext j
    show _ = Function.update (p.page m).array i (key, value) j
    have hkey := p.key_fits
    have hvalue := p.value_fits
    by_cases hj : j = i
    · rw [hj, Function.update_self]
      have hfirst := map_after_stores (p.keyBytes key) (p.pairAt i) m
      have hsecond := map_after_stores (p.valueBytes value) (p.pairAt i + p.valueOffset)
        (after (stores (p.pairAt i) (p.keyBytes key)) m)
      have hbefore := p.key_before_value
      rw [p.length_keyBytes] at hfirst
      rw [p.length_valueBytes] at hsecond
      apply Prod.ext
      · show p.keyOf _ = key
        rw [after_storePair, map_after_stores_of_apart _ (.inl (by omega)), hfirst, p.keyOf_keyBytes]
      · show p.valueOf _ = value
        rw [after_storePair, hsecond, p.valueOf_valueBytes]
    · rw [Function.update_of_ne hj]
      apply Prod.ext
      · show p.keyOf _ = p.keyOf _
        rw [map_storePair_of_ne key value hj (Nat.le_refl _) (by omega)]
      · show p.valueOf _ = p.valueOf _
        rw [map_storePair_of_ne key value hj (Nat.le_add_right _ _) (by omega)]

/-- Storing a pair changes its slot and no other, and no bit of the bitmaps. -/
theorem acts_storePair {b : HashTableBucketPage K V} (hi : i < p.size) (key : K) (value : V) :
    Acts p.page p.pageBytes p.pageBytes (p.storePair i key value) b ()
      { b with array := Function.update b.array i (key, value) } :=
  .of_plain (plain_storePair key value) (touches_storePair hi key value) (fun _ _ => rfl)
    fun _ hm => hm ▸ page_storePair key value

/-- `Insert` over the bytes: its result, and the page after it. -/
theorem acts_insert {b : HashTableBucketPage K V} (key : K) (value : V) :
    Acts p.page p.pageBytes p.pageBytes (p.insert cmp key value) b
      (b.insert p.size cmp key value).1 (b.insert p.size cmp key value).2 := by
  refine BucketLayout.acts_isFull.bind ?_
  unfold HashTableBucketPage.insert
  cases b.isFull p.size with
  | true => exact .pure b false
  | false =>
    refine (BucketLayout.acts_insertFrom key value p.size 0 p.size (by omega)).bind ?_
    cases hslot : b.insertFrom p.size cmp key value p.size 0 p.size with
    | none => exact .pure b false
    | some j =>
      have hj := BucketLayout.insertFrom_le b key value j p.size 0 p.size (by omega) (Nat.le_refl _) hslot
      by_cases he : j = p.size
      · simpa [he] using Acts.pure b false
      · simp only [he, if_false]
        refine (acts_storePair (by omega) key value).bind ?_
        refine (BucketLayout.acts_setReadable j).bind ?_
        exact (BucketLayout.acts_setOccupied j).bind (.pure _ true)

end BucketEncoding

end BusTub
