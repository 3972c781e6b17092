/-
  A bucket page as bytes.

  The class puts `occupied_`, `readable_` and `array_` one behind the other on a page of raw bytes, and an index
  that is not checked reaches into the next of them or past the page.  Here the methods that take a slot's index
  run on memory, from the first byte of the page on.

  1. **`BucketLayout`**: where the members lie, and what the bytes of a key and of a value mean.  `BUCKET_ARRAY_SIZE`
     and the size of a pair are parameters.  Indexes are natural numbers; the casts to `uint32_t` keep them.

  2. **Refinement**: `page` is the bucket page that the bytes show, and on it each method does what the method of
     `HashTableBucketPage` does (`page_setOccupied`, `page_setReadable`, `page_removeAt`, `result_keyAt`).

  3. `bitmaps_are_sets` — **legal indexes**: the two bitmaps are sets of indexes, and each method keeps to the bytes
     of its own.

  4. `illegal_harmless_iff` — **illegal indexes**: `SetOccupied` and `SetReadable` turn them away.  `IsReadable` calls
     them readable, and so the methods that ask it go on.
-/
import BusTub.Common
import BusTub.Lib.Memory
import BusTub.Page.BucketSpec

set_option linter.unusedSectionVars false

namespace BusTub

open MemoryM

/-- Where the members of `HashTableBucketPage` lie, as offsets from its first byte. -/
structure BucketLayout (K V : Type) where
  size : ℕ
  arrayAt : ℕ
  pairSize : ℕ
  keySize : ℕ
  valueOffset : ℕ
  valueSize : ℕ
  keyOf : List (BitVec 8) → K
  valueOf : List (BitVec 8) → V
  size_pos : 1 ≤ size
  array_behind : 2 * ((size - 1) / 8 + 1) ≤ arrayAt
  key_fits : 0 < keySize ∧ keySize ≤ pairSize
  value_fits : 0 < valueSize ∧ valueOffset + valueSize ≤ pairSize

/-- Two buckets are equal when their three members are. -/
theorem HashTableBucketPage.eq_of_fields {K V : Type} {b b' : HashTableBucketPage K V}
    (hoccupied : b.occupied = b'.occupied) (hreadable : b.readable = b'.readable) (harray : b.array = b'.array) :
    b = b' := by
  cases b
  cases b'
  simp only at hoccupied hreadable harray
  rw [hoccupied, hreadable, harray]

namespace BucketLayout

variable {K V : Type} [Inhabited K] [Inhabited V] (p : BucketLayout K V)

/-- The length of `occupied_` and of `readable_`. -/
def bitmapLength : ℕ := (p.size - 1) / 8 + 1

/-- The address of `occupied_`. -/
def occupiedAt (_p : BucketLayout K V) : ℕ := 0

/-- The address of `readable_`. -/
def readableAt : ℕ := p.bitmapLength

/-- The address of `array_[bucket_idx]`. -/
def pairAt (bucket_idx : ℕ) : ℕ := p.arrayAt + bucket_idx * p.pairSize

/-- The bytes of the bitmap at `start`. -/
def bitmapBytes (start : ℕ) : Set ℕ := {a | start ≤ a ∧ a < start + p.bitmapLength}

/-- The bytes of `occupied_`. -/
def occupiedBytes : Set ℕ := p.bitmapBytes p.occupiedAt

/-- The bytes of `readable_`. -/
def readableBytes : Set ℕ := p.bitmapBytes p.readableAt

/-- The bytes of `array_`. -/
def arrayBytes : Set ℕ := {a | p.arrayAt ≤ a ∧ a < p.arrayAt + p.size * p.pairSize}

/-! ## The methods -/

/-- Test the bit of an index in the bitmap at `start`; an illegal index gives `illegal`. -/
def testAt (start : ℕ) (illegal : Bool) (bucket_idx : ℕ) : MemoryM ℕ (BitVec 8) Bool :=
  if p.size ≤ bucket_idx then pure illegal
  else do
    let arr_idx := bucket_idx / 8
    let bucket_idx := bucket_idx - 8 * arr_idx
    let byte ← load (start + arr_idx)
    pure (maskBit byte bucket_idx)

/-- Set the bit of an index in the bitmap at `start`; an illegal index is turned away. -/
def setAt (start : ℕ) (bucket_idx : ℕ) : MemoryM ℕ (BitVec 8) Unit :=
  if p.size ≤ bucket_idx then pure ()
  else
    let arr_idx := bucket_idx / 8
    let bucket_idx := bucket_idx - 8 * arr_idx
    change (start + arr_idx) fun byte => setBit byte bucket_idx

/-- `IsOccupied`. -/
def isOccupied (bucket_idx : ℕ) : MemoryM ℕ (BitVec 8) Bool := p.testAt p.occupiedAt false bucket_idx

/-- `SetOccupied`. -/
def setOccupied (bucket_idx : ℕ) : MemoryM ℕ (BitVec 8) Unit := p.setAt p.occupiedAt bucket_idx

/-- `IsReadable`. -/
def isReadable (bucket_idx : ℕ) : MemoryM ℕ (BitVec 8) Bool := p.testAt p.readableAt true bucket_idx

/-- `SetReadable`. -/
def setReadable (bucket_idx : ℕ) : MemoryM ℕ (BitVec 8) Unit := p.setAt p.readableAt bucket_idx

/-- `RemoveAt`. -/
def removeAt (bucket_idx : ℕ) : MemoryM ℕ (BitVec 8) Unit := do
  let readable ← p.isReadable bucket_idx
  if !readable then pure ()
  else
    let arr_idx := bucket_idx / 8
    change (p.readableAt + arr_idx) fun byte => flipBit byte (bucket_idx - 8 * arr_idx)

/-- The member of slot `bucket_idx` in the `length` bytes from `start` on, if the slot is readable. -/
def memberAt {α : Type} [Inhabited α] (bucket_idx start length : ℕ) (ofBytes : List (BitVec 8) → α) :
    MemoryM ℕ (BitVec 8) α := do
  let readable ← p.isReadable bucket_idx
  if readable then do
    let bytes ← loads (List.range' start length)
    pure (ofBytes bytes)
  else pure default

/-- `KeyAt`. -/
def keyAt (bucket_idx : ℕ) : MemoryM ℕ (BitVec 8) K :=
  p.memberAt bucket_idx (p.pairAt bucket_idx) p.keySize p.keyOf

/-- `ValueAt`. -/
def valueAt (bucket_idx : ℕ) : MemoryM ℕ (BitVec 8) V :=
  p.memberAt bucket_idx (p.pairAt bucket_idx + p.valueOffset) p.valueSize p.valueOf

/-! ## The page that the bytes show -/

/-- The bitmap at `start`. -/
def bitmap (m : ℕ → BitVec 8) (start : ℕ) : ℕ → BitVec 8 := fun arr_idx =>
  if arr_idx < p.bitmapLength then m (start + arr_idx) else 0

/-- The bucket page in memory. -/
def page (m : ℕ → BitVec 8) : HashTableBucketPage K V :=
  { occupied := p.bitmap m p.occupiedAt
    readable := p.bitmap m p.readableAt
    array := fun bucket_idx =>
      (p.keyOf ((List.range' (p.pairAt bucket_idx) p.keySize).map m),
        p.valueOf ((List.range' (p.pairAt bucket_idx + p.valueOffset) p.valueSize).map m)) }

variable {p} {m : ℕ → BitVec 8} {i j k start : ℕ}

/-- A legal index has its byte in the bitmap. -/
theorem byte_lt (hi : i < p.size) : i / 8 < p.bitmapLength := by
  unfold bitmapLength
  omega

/-- The bytes of a bitmap are those from its start on. -/
theorem mem_bitmapBytes (hk : k < p.bitmapLength) : start + k ∈ p.bitmapBytes start := by
  show start ≤ start + k ∧ start + k < start + p.bitmapLength
  omega

/-- Inside its length a bitmap reads the memory. -/
theorem bitmap_apply (hk : k < p.bitmapLength) : p.bitmap m start k = m (start + k) := if_pos hk

/-- A byte written inside a bitmap is written in it. -/
theorem bitmap_update_self (hk : k < p.bitmapLength) (v : BitVec 8) :
    p.bitmap (Function.update m (start + k) v) start = Function.update (p.bitmap m start) k v := by
  funext l
  by_cases hl : l = k
  · rw [hl, bitmap_apply hk, Function.update_self, Function.update_self]
  · rw [Function.update_of_ne hl]
    unfold bitmap
    rw [Function.update_of_ne (by omega)]

/-- A byte written elsewhere leaves a bitmap as it is. -/
theorem bitmap_update_of_notMem {a : ℕ} (ha : a ∉ p.bitmapBytes start) (v : BitVec 8) :
    p.bitmap (Function.update m a v) start = p.bitmap m start := by
  funext l
  unfold bitmap
  split
  · next hl =>
    apply Function.update_of_ne
    intro he
    exact ha (he ▸ mem_bitmapBytes hl)
  · rfl

/-- A change below `array_` leaves the pairs. -/
theorem array_update {a : ℕ} (ha : a < p.arrayAt) (v : BitVec 8) :
    (p.page (Function.update m a v)).array = (p.page m).array := by
  have hsame : ∀ start n : ℕ, p.arrayAt ≤ start →
      (List.range' start n).map (Function.update m a v) = (List.range' start n).map m := by
    intro start n hstart
    apply List.map_congr_left
    intro x hx
    have hle := (List.mem_range'_1.mp hx).1
    exact Function.update_of_ne (by omega) _ _
  funext bucket_idx
  unfold page pairAt
  simp only
  rw [hsame _ _ (by omega), hsame _ _ (by omega)]

/-- Both bitmaps end before the pairs. -/
theorem bitmaps_below (p : BucketLayout K V) : p.bitmapLength + p.bitmapLength ≤ p.arrayAt := by
  have h := p.array_behind
  unfold bitmapLength
  omega

/-- The bitmaps are apart. -/
theorem not_readable_of_occupied {a : ℕ} (ha : a ∈ p.occupiedBytes) : a ∉ p.readableBytes := by
  intro hr
  have hlt : a < 0 + p.bitmapLength := ha.2
  have hge : p.bitmapLength ≤ a := hr.1
  omega

/-- A byte written to `occupied_` changes that member of the page and no other. -/
theorem page_update_occupied (hk : k < p.bitmapLength) (v : BitVec 8) :
    p.page (Function.update m (p.occupiedAt + k) v) =
      { p.page m with occupied := Function.update (p.page m).occupied k v } := by
  have hbelow := p.bitmaps_below
  have hmem : p.occupiedAt + k ∈ p.occupiedBytes := mem_bitmapBytes hk
  apply HashTableBucketPage.eq_of_fields
  · exact bitmap_update_self hk v
  · exact bitmap_update_of_notMem (not_readable_of_occupied hmem) v
  · exact array_update (show 0 + k < _ by omega) v

/-- A byte written to `readable_` changes that member of the page and no other. -/
theorem page_update_readable (hk : k < p.bitmapLength) (v : BitVec 8) :
    p.page (Function.update m (p.readableAt + k) v) =
      { p.page m with readable := Function.update (p.page m).readable k v } := by
  have hbelow := p.bitmaps_below
  have hmem : p.readableAt + k ∈ p.readableBytes := mem_bitmapBytes hk
  apply HashTableBucketPage.eq_of_fields
  · exact bitmap_update_of_notMem (fun hocc => not_readable_of_occupied hocc hmem) v
  · exact bitmap_update_self hk v
  · exact array_update (show p.bitmapLength + k < _ by omega) v

/-! ## Bits of a bitmap -/

/-- What the two tests answer: the bit, and `illegal` beyond the array. -/
theorem result_testAt {illegal : Bool} : result (p.testAt start illegal i) m =
    if p.size ≤ i then illegal else maskBit (p.bitmap m start (i / 8)) (i - 8 * (i / 8)) := by
  unfold testAt
  split
  · rfl
  · next hi =>
    rw [bitmap_apply (byte_lt (by omega))]
    rfl

/-- What the two setters leave: nothing new beyond the array, else one byte with one more bit. -/
theorem after_setAt : after (p.setAt start i) m =
    if p.size ≤ i then m
    else Function.update m (start + i / 8) (setBit (p.bitmap m start (i / 8)) (i - 8 * (i / 8))) := by
  unfold setAt
  split
  · rfl
  · next hi =>
    rw [after_change, bitmap_apply (byte_lt (by omega))]

/-- A test reads its bitmap and writes nothing outside it. -/
theorem touches_testAt {illegal : Bool} (W : Set ℕ) :
    Touches (p.bitmapBytes start) W (p.testAt start illegal i) := by
  unfold testAt
  split
  · exact .pure illegal
  · next hi =>
    have hmem : start + i / 8 ∈ p.bitmapBytes start := mem_bitmapBytes (byte_lt (by omega))
    exact (Touches.load hmem).bind fun byte => .pure _

/-- A setter reads and writes its own bitmap only. -/
theorem touches_setAt : Touches (p.bitmapBytes start) (p.bitmapBytes start) (p.setAt start i) := by
  unfold setAt
  split
  · exact .pure ()
  · next hi =>
    have hmem : start + i / 8 ∈ p.bitmapBytes start := mem_bitmapBytes (byte_lt (by omega))
    exact .change hmem hmem _

/-! ## Each method is the method of the page -/

/-- `IsOccupied` over bytes answers what the page's does. -/
theorem result_isOccupied : result (p.isOccupied i) m = (p.page m).isOccupied p.size i := result_testAt

/-- `IsReadable` over bytes answers what the page's does. -/
theorem result_isReadable : result (p.isReadable i) m = (p.page m).isReadable p.size i := result_testAt

/-- `SetOccupied` over bytes leaves the page that the page's own leaves. -/
theorem page_setOccupied : p.page (after (p.setOccupied i) m) = (p.page m).setOccupied p.size i := by
  unfold setOccupied HashTableBucketPage.setOccupied
  rw [after_setAt]
  split
  · rfl
  · next hi => exact page_update_occupied (byte_lt (by omega)) _

/-- `SetReadable` over bytes leaves the page that the page's own leaves. -/
theorem page_setReadable : p.page (after (p.setReadable i) m) = (p.page m).setReadable p.size i := by
  unfold setReadable HashTableBucketPage.setReadable
  rw [after_setAt]
  split
  · rfl
  · next hi => exact page_update_readable (byte_lt (by omega)) _

/-- `IsReadable` leaves the memory to whatever follows. -/
theorem isReadable_keeps : (p.isReadable i (fresh m)).2.cells = m := (touches_testAt ∅).cells_eq _

/-- `RemoveAt` flips the bit of any index that `IsReadable` accepts. -/
theorem after_removeAt : after (p.removeAt i) m =
    if result (p.isReadable i) m = true then
      Function.update m (p.readableAt + i / 8) (flipBit (m (p.readableAt + i / 8)) (i - 8 * (i / 8)))
    else m := by
  have hstep : after (p.removeAt i) m =
      ((if !result (p.isReadable i) m then pure ()
        else change (p.readableAt + i / 8) fun byte => flipBit byte (i - 8 * (i / 8)) :
          MemoryM ℕ (BitVec 8) Unit) (p.isReadable i (fresh m)).2).2.cells := rfl
  rw [hstep]
  cases result (p.isReadable i) m with
  | false => exact isReadable_keeps
  | true =>
    show Function.update (p.isReadable i (fresh m)).2.cells (p.readableAt + i / 8) _ = _
    rw [isReadable_keeps]
    rfl

/-- On a legal index it is `RemoveAt` of the page. -/
theorem page_removeAt (hi : i < p.size) : p.page (after (p.removeAt i) m) = (p.page m).removeAt p.size i := by
  have hbyte : (p.page m).readable (i / 8) = m (p.readableAt + i / 8) := bitmap_apply (byte_lt hi)
  rw [after_removeAt, result_isReadable]
  unfold HashTableBucketPage.removeAt
  cases (p.page m).isReadable p.size i with
  | false => rfl
  | true =>
    rw [if_pos rfl, page_update_readable (byte_lt hi), ← hbyte]
    rfl

/-- It keeps to `readable_` there. -/
theorem touches_removeAt (hi : i < p.size) : Touches p.readableBytes p.readableBytes (p.removeAt i) := by
  have hmem : p.readableAt + i / 8 ∈ p.readableBytes := mem_bitmapBytes (byte_lt hi)
  unfold removeAt
  apply (touches_testAt _).bind
  intro readable
  split
  · exact .pure ()
  · exact .change hmem hmem _

section Member

variable {α : Type} [Inhabited α] {length : ℕ} {ofBytes : List (BitVec 8) → α}

/-- What `KeyAt` and `ValueAt` do once `IsReadable` has answered. -/
theorem memberAt_apply : p.memberAt i start length ofBytes (fresh m) =
    (if result (p.isReadable i) m = true then do
        let bytes ← loads (List.range' start length)
        pure (ofBytes bytes)
      else pure default : MemoryM ℕ (BitVec 8) α) (p.isReadable i (fresh m)).2 := rfl

/-- `KeyAt` and `ValueAt` alike: a default for a slot that is not readable, else the bytes of the member. -/
theorem result_memberAt : result (p.memberAt i start length ofBytes) m =
    if result (p.isReadable i) m = true then ofBytes ((List.range' start length).map m) else default := by
  show (p.memberAt i start length ofBytes (fresh m)).1 = _
  rw [memberAt_apply]
  split
  · show ofBytes (loads (List.range' start length) (p.isReadable i (fresh m)).2).1 = _
    rw [loads_eq, isReadable_keeps]
  · rfl

/-- All its bytes are read. -/
theorem mem_readsOf_memberAt (hr : result (p.isReadable i) m = true) {a : ℕ}
    (ha : a ∈ List.range' start length) : a ∈ readsOf (p.memberAt i start length ofBytes) m := by
  unfold readsOf
  rw [memberAt_apply, if_pos hr]
  show a ∈ (loads (List.range' start length) (p.isReadable i (fresh m)).2).2.reads
  rw [loads_eq]
  exact List.mem_append_right _ ha

end Member

/-- `KeyAt` over bytes answers what the page's does. -/
theorem result_keyAt : result (p.keyAt i) m = (p.page m).keyAt p.size i := by
  unfold keyAt
  rw [result_memberAt, result_isReadable]
  rfl

/-- `ValueAt` over bytes answers what the page's does. -/
theorem result_valueAt : result (p.valueAt i) m = (p.page m).valueAt p.size i := by
  unfold valueAt
  rw [result_memberAt, result_isReadable]
  rfl

/-! ## Legal indexes -/

/-- **Each bitmap is a set of indexes**: what a method does to it, and that it keeps to the bytes of its own. -/
structure BitmapSets (p : BucketLayout K V) (m : ℕ → BitVec 8) : Prop where
  setReadable : ∀ i < p.size, ∀ j < p.size, result (p.isReadable j) (after (p.setReadable i) m) = true ↔
    j = i ∨ result (p.isReadable j) m = true
  setOccupied : ∀ i < p.size, ∀ j < p.size, result (p.isOccupied j) (after (p.setOccupied i) m) = true ↔
    j = i ∨ result (p.isOccupied j) m = true
  removeAt : ∀ i < p.size, ∀ j < p.size, result (p.isReadable j) (after (p.removeAt i) m) = true ↔
    j ≠ i ∧ result (p.isReadable j) m = true
  occupied_kept : ∀ i < p.size, ∀ a ∈ p.occupiedBytes,
    after (p.setReadable i) m a = m a ∧ after (p.removeAt i) m a = m a
  readable_kept : ∀ i < p.size, ∀ a ∈ p.readableBytes, after (p.setOccupied i) m a = m a
  own_readable : ∀ i < p.size, Touches p.readableBytes ∅ (p.isReadable i) ∧
    Touches p.readableBytes p.readableBytes (p.setReadable i) ∧
    Touches p.readableBytes p.readableBytes (p.removeAt i)
  own_occupied : ∀ i < p.size, Touches p.occupiedBytes ∅ (p.isOccupied i) ∧
    Touches p.occupiedBytes p.occupiedBytes (p.setOccupied i)

/-- **On legal indexes the bitmaps are sets of indexes**, whatever their bytes hold. -/
theorem bitmaps_are_sets (p : BucketLayout K V) (m : ℕ → BitVec 8) : BitmapSets p m := by
  refine
    { setReadable := fun i hi j hj => ?_
      setOccupied := fun i hi j hj => ?_
      removeAt := fun i hi j hj => ?_
      occupied_kept := fun i hi a ha => ?_
      readable_kept := fun i hi a ha => ?_
      own_readable := fun i hi => ⟨touches_testAt ∅, touches_setAt, touches_removeAt hi⟩
      own_occupied := fun i hi => ⟨touches_testAt ∅, touches_setAt⟩ }
  · rw [result_isReadable, result_isReadable, page_setReadable,
      HashTableBucketPage.isReadable_setReadable hi hj]
    simp
  · rw [result_isOccupied, result_isOccupied, page_setOccupied,
      HashTableBucketPage.isOccupied_setOccupied hi hj]
    simp
  · rw [result_isReadable, result_isReadable, page_removeAt hi, HashTableBucketPage.isReadable_removeAt hi hj]
    simp
  · have hno := not_readable_of_occupied ha
    exact ⟨touches_setAt.after_eq m hno, (touches_removeAt hi).after_eq m hno⟩
  · apply touches_setAt.after_eq
    intro hocc
    exact not_readable_of_occupied hocc ha

/-! ## Illegal indexes -/

/-- The methods that take an index and change or read the page. -/
inductive SlotMethod where
  | setOccupied
  | setReadable
  | removeAt
  | keyAt
  | valueAt

/-- No byte is changed, and what is not in `array_` is not read as a member of it. -/
def Harmless (p : BucketLayout K V) (m : ℕ → BitVec 8) (bucket_idx : ℕ) : SlotMethod → Prop
  | .setOccupied => after (p.setOccupied bucket_idx) m = m
  | .setReadable => after (p.setReadable bucket_idx) m = m
  | .removeAt => after (p.removeAt bucket_idx) m = m
  | .keyAt => result (p.keyAt bucket_idx) m = default ∧ ∀ a ∈ readsOf (p.keyAt bucket_idx) m, a ∈ p.arrayBytes
  | .valueAt =>
    result (p.valueAt bucket_idx) m = default ∧ ∀ a ∈ readsOf (p.valueAt bucket_idx) m, a ∈ p.arrayBytes

/-- Beyond the array every slot counts as readable. -/
theorem isReadable_illegal (hi : p.size ≤ i) : result (p.isReadable i) m = true := by
  unfold isReadable
  rw [result_testAt, if_pos hi]

/-- `RemoveAt` of an illegal index flips a bit behind the bitmap's last, or in what follows the bitmap. -/
theorem removeAt_illegal (hi : p.size ≤ i) : after (p.removeAt i) m =
    Function.update m (p.readableAt + i / 8) (flipBit (m (p.readableAt + i / 8)) (i - 8 * (i / 8))) := by
  rw [after_removeAt, if_pos (isReadable_illegal hi)]

/-- Turning a bit over always changes the byte. -/
theorem flipBit_ne (byte : BitVec 8) {k : ℕ} (hk : k < 8) : flipBit byte k ≠ byte := by
  intro he
  have hbit := getLsbD_flipBit byte hk hk
  rw [he] at hbit
  simp at hbit

/-- A member of an illegal slot lies behind `array_`. -/
theorem reads_behind {α : Type} [Inhabited α] {length : ℕ} {ofBytes : List (BitVec 8) → α}
    (hi : p.size ≤ i) (hstart : p.pairAt i ≤ start) (hlen : 0 < length) :
    ¬ ∀ a ∈ readsOf (p.memberAt i start length ofBytes) m, a ∈ p.arrayBytes := by
  intro hall
  have hmem : start ∈ List.range' start length := List.mem_range'_1.mpr ⟨Nat.le_refl _, by omega⟩
  have hlt := (hall start (mem_readsOf_memberAt (isReadable_illegal hi) hmem)).2
  have hmul : p.size * p.pairSize ≤ i * p.pairSize := Nat.mul_le_mul_right _ hi
  unfold pairAt at hstart
  omega

/-- **On an illegal index a method is harmless exactly if it is one of the two that test the index themselves**,
    whatever the page holds: `RemoveAt` always flips a bit, `KeyAt` and `ValueAt` always read behind `array_`. -/
theorem illegal_harmless_iff (hi : p.size ≤ i) (f : SlotMethod) :
    p.Harmless m i f ↔ f = .setOccupied ∨ f = .setReadable := by
  cases f with
  | setOccupied =>
    refine ⟨fun _ => .inl rfl, fun _ => ?_⟩
    show after (p.setAt p.occupiedAt i) m = m
    rw [after_setAt, if_pos hi]
  | setReadable =>
    refine ⟨fun _ => .inr rfl, fun _ => ?_⟩
    show after (p.setAt p.readableAt i) m = m
    rw [after_setAt, if_pos hi]
  | removeAt =>
    refine ⟨fun h => ?_, fun h => by simp at h⟩
    have hbyte := congrFun h (p.readableAt + i / 8)
    rw [removeAt_illegal hi, Function.update_self] at hbyte
    exact absurd hbyte (flipBit_ne _ (bit_lt i))
  | keyAt =>
    refine ⟨fun h => ?_, fun h => by simp at h⟩
    exact absurd h.2 (reads_behind hi (Nat.le_refl _) p.key_fits.1)
  | valueAt =>
    refine ⟨fun h => ?_, fun h => by simp at h⟩
    exact absurd h.2 (reads_behind hi (Nat.le_add_right _ _) p.value_fits.1)

/-! ## Pairs of integers -/

/-- Four bytes as a signed integer, the lowest first. -/
def intOf (bytes : List (BitVec 8)) : Int := int32 (bytes.foldr (fun byte rest => byte.toNat + 256 * rest) 0 : ℕ)

/-- Pairs of two 4-byte integers, 496 of them to a page of 4096 bytes. -/
def intPairs : BucketLayout Int Int where
  size := 496
  arrayAt := 124
  pairSize := 8
  keySize := 4
  valueOffset := 4
  valueSize := 4
  keyOf := intOf
  valueOf := intOf
  size_pos := by omega
  array_behind := by omega
  key_fits := by omega
  value_fits := by omega

theorem illegal_harmless_iff_int :
    intPairs.Harmless (fun _ => 0) 496 .removeAt ↔
      SlotMethod.removeAt = .setOccupied ∨ SlotMethod.removeAt = .setReadable :=
  illegal_harmless_iff (show 496 ≤ 496 by omega) .removeAt

/-- `RemoveAt(496)` flips a bit of the first key. -/
theorem illegal_not_harmless :
    after (intPairs.removeAt 496) (fun _ => 0) (intPairs.pairAt 0) = 1#8 ∧
    ¬ ∀ f, intPairs.Harmless (fun _ => 0) 496 f := by
  have hkey : after (intPairs.removeAt 496) (fun _ => 0) (intPairs.pairAt 0) = 1#8 := by decide
  refine ⟨hkey, fun h => ?_⟩
  have hsame := congrFun (h .removeAt) (intPairs.pairAt 0)
  rw [hkey] at hsame
  simp at hsame

end BucketLayout

end BusTub
