/-
  A bucket page is a bounded set of pairs.

  1. **Bits**: masking, setting and flipping a bit of a `char` through promoted `int`s does what it
     should on the 8 bits of the byte.

  2. **Slots**: `slot n b i` is the pair that slot `i` shows.  `BucketInv` says that the occupied
     slots come first, that every readable slot is occupied, and that no pair is shown twice; so the
     scans that stop at the first unoccupied slot miss nothing.

  3. **The set**: `pairs n b` collects the slots, and each method is the set operation it is named
     after (`insert_spec`, `remove_spec`, `getValue_spec`); the page is full when it has `n` pairs.
     Which slot it touches is said first, for any comparator (`insert_cases`, `remove_cases`), then for
     one whose 0 is equality (`insert_fills`, `remove_clears`, `getValue_eq`).
-/
import BusTub.Page.Bucket
import Mathlib.Data.Finset.Card
import Mathlib.Data.Finset.Image
import Mathlib.Data.List.Range

set_option linter.unusedSectionVars false

namespace BusTub

/-! ## Bits of a char -/

/-- A bit of a byte that C++ promotes to `int` before the shift is the `int` with that bit alone: the sign of the
    byte `1` plays no part. -/
theorem promoted_bit (i : ℕ) : (1#8).signExtend 32 <<< i = BitVec.twoPow 32 i := by
  rw [show (1#8).signExtend 32 = 1#32 from by decide, ← BitVec.twoPow_eq]

/-- Promotion keeps the eight low bits; what sign extension adds lies above them. -/
theorem getLsbD_promoted (byte : BitVec 8) {i : ℕ} (hi : i < 8) :
    (byte.signExtend 32).getLsbD i = byte.getLsbD i := by
  rw [BitVec.getLsbD_signExtend, if_pos hi]
  simp
  omega

/-- The masks of the page read one bit of the byte. -/
theorem maskBit_eq (byte : BitVec 8) {i : ℕ} (hi : i < 8) : maskBit byte i = byte.getLsbD i := by
  have hne : BitVec.twoPow 32 i ≠ 0#32 := by
    intro h0
    have hbit := congrArg (fun x => x.getLsbD i) h0
    simp at hbit
    omega
  unfold maskBit
  rw [promoted_bit, BitVec.and_twoPow, getLsbD_promoted byte hi]
  cases byte.getLsbD i
  · rfl
  · simpa using hne

/-- `|=` with a mask sets its own bit and leaves the other seven. -/
theorem getLsbD_setBit (byte : BitVec 8) {i j : ℕ} (hi : i < 8) (hj : j < 8) :
    (setBit byte i).getLsbD j = (decide (j = i) || byte.getLsbD j) := by
  unfold setBit
  rw [promoted_bit, BitVec.getLsbD_setWidth, BitVec.getLsbD_or, getLsbD_promoted byte hj,
    BitVec.getLsbD_twoPow]
  have hi' : i < 32 := by omega
  simp [hj, hi', Bool.or_comm, eq_comm]

/-- `^=` with a mask turns its own bit over and leaves the other seven. -/
theorem getLsbD_flipBit (byte : BitVec 8) {i j : ℕ} (hi : i < 8) (hj : j < 8) :
    (flipBit byte i).getLsbD j = (decide (j = i) ^^ byte.getLsbD j) := by
  unfold flipBit
  rw [promoted_bit, BitVec.getLsbD_setWidth, BitVec.getLsbD_xor, getLsbD_promoted byte hj,
    BitVec.getLsbD_twoPow]
  have hi' : i < 32 := by omega
  simp [hj, hi', Bool.xor_comm, eq_comm]

/-- An index is the bit `i % 8` of byte `i / 8`. -/
theorem bit_lt (i : ℕ) : i - 8 * (i / 8) < 8 := by omega

/-- Within one byte the offset tells the slots apart. -/
theorem same_bit_iff {i j : ℕ} (h : j / 8 = i / 8) : j - 8 * (j / 8) = i - 8 * (i / 8) ↔ j = i := by
  omega

/-- Changing the bit of index `i` in an array of bytes, if `f` changes a bit of a byte by `g`. -/
theorem bit_update {f : BitVec 8 → ℕ → BitVec 8} {g : Bool → Bool → Bool}
    (hf : ∀ (byte : BitVec 8) {i j : ℕ}, i < 8 → j < 8 → (f byte i).getLsbD j = g (decide (j = i)) (byte.getLsbD j))
    (hg : ∀ x, g false x = x) (bytes : ℕ → BitVec 8) (i j : ℕ) :
    (Function.update bytes (i / 8) (f (bytes (i / 8)) (i - 8 * (i / 8))) (j / 8)).getLsbD (j - 8 * (j / 8)) =
      g (decide (j = i)) ((bytes (j / 8)).getLsbD (j - 8 * (j / 8))) := by
  by_cases hbyte : j / 8 = i / 8
  · rw [← hbyte, Function.update_self, hf _ (hbyte ▸ bit_lt i) (bit_lt j), hbyte]
    simp only [← same_bit_iff hbyte, hbyte]
  · have hne : j ≠ i := fun he => hbyte (by rw [he])
    rw [Function.update_of_ne hbyte, decide_eq_false hne, hg]

namespace HashTableBucketPage

variable {K V : Type} [Inhabited K] [Inhabited V] {n : ℕ} {b : HashTableBucketPage K V}

/-! ## One slot -/

/-- For a legal index the readable flag is its bit of its byte. -/
theorem isReadable_lt {i : ℕ} (hi : i < n) :
    b.isReadable n i = (b.readable (i / 8)).getLsbD (i - 8 * (i / 8)) := by
  unfold isReadable
  rw [if_neg (by omega)]
  exact maskBit_eq _ (bit_lt i)

/-- For a legal index the occupied flag is its bit of its byte. -/
theorem isOccupied_lt {i : ℕ} (hi : i < n) :
    b.isOccupied n i = (b.occupied (i / 8)).getLsbD (i - 8 * (i / 8)) := by
  unfold isOccupied
  rw [if_neg (by omega)]
  exact maskBit_eq _ (bit_lt i)

/-- `SetReadable` makes one slot readable. -/
theorem isReadable_setReadable {i j : ℕ} (hi : i < n) (hj : j < n) :
    (b.setReadable n i).isReadable n j = (decide (j = i) || b.isReadable n j) := by
  rw [isReadable_lt hj, isReadable_lt hj]
  unfold setReadable
  rw [if_neg (by omega)]
  exact bit_update getLsbD_setBit Bool.false_or b.readable i j

/-- `SetOccupied` makes one slot occupied. -/
theorem isOccupied_setOccupied {i j : ℕ} (hi : i < n) (hj : j < n) :
    (b.setOccupied n i).isOccupied n j = (decide (j = i) || b.isOccupied n j) := by
  rw [isOccupied_lt hj, isOccupied_lt hj]
  unfold setOccupied
  rw [if_neg (by omega)]
  exact bit_update getLsbD_setBit Bool.false_or b.occupied i j

/-- `RemoveAt` makes one slot unreadable. -/
theorem isReadable_removeAt {i j : ℕ} (hi : i < n) (hj : j < n) :
    (b.removeAt n i).isReadable n j = (!decide (j = i) && b.isReadable n j) := by
  unfold removeAt
  cases hr : b.isReadable n i with
  | false =>
    by_cases he : j = i
    · simp [he, hr]
    · simp [he]
  | true =>
    -- the bit is set, so that flipping clears it
    simp only [Bool.not_true, Bool.false_eq_true, if_false]
    rw [isReadable_lt hj, isReadable_lt hj]
    refine (bit_update getLsbD_flipBit Bool.false_xor b.readable i j).trans ?_
    by_cases he : j = i
    · subst he
      rw [isReadable_lt hi] at hr
      simp [hr]
    · simp [he]

/-- The pair that slot `i` shows. -/
def slot (n : ℕ) (b : HashTableBucketPage K V) (i : ℕ) : Option (K × V) :=
  if i < n ∧ b.isReadable n i = true then some (b.array i) else none

/-- A slot holds a pair when it is legal, readable, and the array has the pair there. -/
theorem slot_eq_some {i : ℕ} {e : K × V} :
    b.slot n i = some e ↔ i < n ∧ b.isReadable n i = true ∧ b.array i = e := by
  unfold slot
  split
  · next h => simp [h]
  · next h =>
    constructor
    · intro he
      cases he
    · rintro ⟨h1, h2, -⟩
      exact absurd ⟨h1, h2⟩ h

/-- A legal slot is free when its readable bit is off, whatever the array has there. -/
theorem slot_eq_none {i : ℕ} (hi : i < n) : b.slot n i = none ↔ b.isReadable n i = false := by
  unfold slot
  cases b.isReadable n i <;> simp [hi]

/-- Beyond the array there is no slot. -/
theorem slot_ge {i : ℕ} (hi : n ≤ i) : b.slot n i = none := by
  unfold slot
  rw [if_neg (by omega)]

/-- What holds of every bucket page. -/
structure BucketInv (n : ℕ) (b : HashTableBucketPage K V) : Prop where
  occupied_below : ∀ i j, i ≤ j → j < n → b.isOccupied n j = true → b.isOccupied n i = true
  readable_occupied : ∀ i < n, b.isReadable n i = true → b.isOccupied n i = true
  slot_inj : ∀ i j e, b.slot n i = some e → b.slot n j = some e → i = j

/-- A fresh page, all zeros, is a bucket without pairs. -/
theorem BucketInv.zeroed : BucketInv n (zeroed : HashTableBucketPage K V) where
  occupied_below i j _ hj h := by
    rw [isOccupied_lt hj] at h
    simp [HashTableBucketPage.zeroed] at h
  readable_occupied i hi h := by
    rw [isReadable_lt hi] at h
    simp [HashTableBucketPage.zeroed] at h
  slot_inj i j e hi := by
    obtain ⟨hlt, hr, -⟩ := slot_eq_some.mp hi
    rw [isReadable_lt hlt] at hr
    simp [HashTableBucketPage.zeroed] at hr

/-- From the first unoccupied slot on, nothing is shown. -/
theorem BucketInv.slot_none (h : BucketInv n b) {i j : ℕ} (hi : b.isOccupied n i = false) (hij : i ≤ j) :
    b.slot n j = none := by
  rcases Nat.lt_or_ge j n with hj | hj
  · rw [slot_eq_none hj]
    cases hr : b.isReadable n j with
    | false => rfl
    | true =>
      have hocc := h.occupied_below i j hij hj (h.readable_occupied j hj hr)
      rw [hi] at hocc
      cases hocc
  · exact slot_ge hj

/-! ## Changing one slot -/

/-- Filling slot `i` as `Insert` does. -/
theorem slot_fill {i : ℕ} (hi : i < n) (e : K × V) :
    slot n ((setReadable n { b with array := Function.update b.array i e } i).setOccupied n i) =
      Function.update (b.slot n) i (some e) := by
  funext j
  rcases Nat.lt_or_ge j n with hj | hj
  · have hread : ((setReadable n { b with array := Function.update b.array i e } i).setOccupied n
        i).isReadable n j = (decide (j = i) || b.isReadable n j) := by
      have h := isReadable_setReadable (b := { b with array := Function.update b.array i e }) hi hj
      rw [isReadable_lt hj] at h ⊢
      rw [isReadable_lt hj] at h
      rw [isReadable_lt hj, ← h]
      unfold setOccupied
      rw [if_neg (by omega)]
    have harr : ((setReadable n { b with array := Function.update b.array i e } i).setOccupied n
        i).array = Function.update b.array i e := by
      unfold setOccupied setReadable
      rw [if_neg (by omega), if_neg (by omega)]
    unfold slot
    rw [hread, harr]
    by_cases he : j = i
    · simp [he, hi]
    · simp [he]
  · have hne : j ≠ i := by omega
    rw [slot_ge hj, Function.update_of_ne hne, slot_ge hj]

/-- Clearing slot `i` as `RemoveAt` does. -/
theorem slot_removeAt {i : ℕ} (hi : i < n) :
    slot n (b.removeAt n i) = Function.update (b.slot n) i none := by
  have harr : (b.removeAt n i).array = b.array := by
    unfold removeAt
    split <;> rfl
  funext j
  rcases Nat.lt_or_ge j n with hj | hj
  · unfold slot
    rw [isReadable_removeAt hi hj, harr]
    by_cases he : j = i
    · simp [he]
    · simp [he]
  · have hne : j ≠ i := by omega
    rw [slot_ge hj, Function.update_of_ne hne, slot_ge hj]

/-- Filling the first unreadable slot with a pair that is not there. -/
theorem BucketInv.fill (h : BucketInv n b) {i : ℕ} (hi : i < n) {e : K × V}
    (hbelow : ∀ j < i, b.isReadable n j = true) (hnew : ∀ j, b.slot n j ≠ some e) :
    BucketInv n ((setReadable n { b with array := Function.update b.array i e } i).setOccupied n i) := by
  have hocc : ∀ j < n, ((setReadable n { b with array := Function.update b.array i e } i).setOccupied n
      i).isOccupied n j = (decide (j = i) || b.isOccupied n j) := by
    intro j hj
    rw [isOccupied_setOccupied hi hj, isOccupied_lt hj, isOccupied_lt hj]
    unfold setReadable
    rw [if_neg (by omega)]
  refine ⟨fun j k hjk hk ho => ?_, fun j hj hr => ?_, fun j k e' hj hk => ?_⟩
  · have hj : j < n := by omega
    rw [hocc k hk, Bool.or_eq_true, decide_eq_true_eq] at ho
    rw [hocc j hj, Bool.or_eq_true, decide_eq_true_eq]
    rcases ho with rfl | ho
    · rcases Nat.lt_or_eq_of_le hjk with hlt | rfl
      · exact .inr (h.readable_occupied j hj (hbelow j hlt))
      · exact .inl rfl
    · exact .inr (h.occupied_below j k hjk hk ho)
  · rw [hocc j hj, Bool.or_eq_true, decide_eq_true_eq]
    have hs := slot_fill (b := b) hi e
    by_cases he : j = i
    · exact .inl he
    · refine .inr (h.readable_occupied j hj ?_)
      have hsj := congrFun hs j
      rw [Function.update_of_ne he] at hsj
      cases hrj : b.isReadable n j with
      | true => rfl
      | false =>
        rw [(slot_eq_none hj).mpr hrj, slot_eq_none hj, hr] at hsj
        cases hsj
  · rw [slot_fill hi, Function.update_apply] at hj hk
    by_cases hji : j = i
    · by_cases hki : k = i
      · rw [hji, hki]
      · rw [if_pos hji] at hj
        rw [if_neg hki] at hk
        exact absurd (hk.trans hj.symm) (hnew k)
    · rw [if_neg hji] at hj
      by_cases hki : k = i
      · rw [if_pos hki] at hk
        exact absurd (hj.trans hk.symm) (hnew j)
      · rw [if_neg hki] at hk
        exact h.slot_inj j k e' hj hk

/-- Taking a slot out keeps the invariant: no slot gains a pair. -/
theorem BucketInv.removeAt (h : BucketInv n b) {i : ℕ} (hi : i < n) : BucketInv n (b.removeAt n i) := by
  have hocc : ∀ j, (b.removeAt n i).isOccupied n j = b.isOccupied n j := by
    intro j
    unfold HashTableBucketPage.removeAt
    split <;> rfl
  refine ⟨fun j k hjk hk ho => ?_, fun j hj hr => ?_, fun j k e hj hk => ?_⟩
  · rw [hocc] at *
    exact h.occupied_below j k hjk hk ho
  · rw [isReadable_removeAt hi hj, Bool.and_eq_true] at hr
    rw [hocc]
    exact h.readable_occupied j hj hr.2
  · rw [slot_removeAt hi, Function.update_apply] at hj hk
    split at hj
    · cases hj
    · split at hk
      · cases hk
      · exact h.slot_inj j k e hj hk

/-! ## The set of pairs -/

variable [DecidableEq K] [DecidableEq V]

/-- The pairs on the page. -/
def pairs (n : ℕ) (b : HashTableBucketPage K V) : Finset (K × V) :=
  ((Finset.range n).filter fun i => b.isReadable n i = true).image b.array

/-- The pairs of a bucket are those of its slots. -/
theorem mem_pairs {e : K × V} : e ∈ b.pairs n ↔ ∃ i, b.slot n i = some e := by
  unfold pairs
  simp only [Finset.mem_image, Finset.mem_filter, Finset.mem_range, slot_eq_some, and_assoc]

/-- The page has as many pairs as readable slots. -/
theorem BucketInv.card_pairs (h : BucketInv n b) :
    (b.pairs n).card = ((Finset.range n).filter fun i => b.isReadable n i = true).card := by
  apply Finset.card_image_of_injOn
  intro i hi j hj he
  have hi' := Finset.mem_filter.mp hi
  have hj' := Finset.mem_filter.mp hj
  exact h.slot_inj i j (b.array i) (slot_eq_some.mpr ⟨Finset.mem_range.mp hi'.1, hi'.2, rfl⟩)
    (slot_eq_some.mpr ⟨Finset.mem_range.mp hj'.1, hj'.2, he.symm⟩)

/-- A bucket has no more pairs than slots. -/
theorem BucketInv.card_le (h : BucketInv n b) : (b.pairs n).card ≤ n := by
  rw [h.card_pairs]
  exact (Finset.card_filter_le _ _).trans_eq (Finset.card_range n)

/-- The loop of `IsFull` from `idx` on: it runs over `remaining` slots and stops at the first free one. -/
theorem fullFrom_iff (b : HashTableBucketPage K V) : ∀ remaining idx : ℕ,
    b.fullFrom n remaining idx = true ↔ ∀ i, idx ≤ i → i < idx + remaining → b.isReadable n i = true := by
  intro remaining
  induction remaining with
  | zero =>
    intro idx
    exact ⟨fun _ i h1 h2 => by omega, fun _ => rfl⟩
  | succ remaining ih =>
    intro idx
    unfold fullFrom
    cases hr : b.isReadable n idx with
    | false =>
      constructor
      · intro h
        cases h
      · intro h
        rw [h idx (Nat.le_refl _) (by omega)] at hr
        cases hr
    | true =>
      simp only [Bool.not_true, Bool.false_eq_true, if_false]
      rw [ih]
      constructor
      · intro h i h1 h2
        rcases Nat.lt_or_eq_of_le h1 with hlt | rfl
        · exact h i hlt (by omega)
        · exact hr
      · intro h i h1 h2
        exact h i (by omega) (by omega)

/-- `IsFull` says that every slot is readable. -/
theorem isFull_iff : b.isFull n = true ↔ ∀ i < n, b.isReadable n i = true := by
  unfold isFull
  rw [fullFrom_iff]
  exact ⟨fun h i hi => h i (Nat.zero_le _) (by omega), fun h i _ hi => h i (by omega)⟩

/-- **A page is full when it has `n` pairs.** -/
theorem BucketInv.isFull_iff_card (h : BucketInv n b) : b.isFull n = true ↔ (b.pairs n).card = n := by
  rw [isFull_iff, h.card_pairs]
  constructor
  · intro hall
    rw [Finset.filter_true_of_mem fun i hi => hall i (Finset.mem_range.mp hi), Finset.card_range]
  · intro hcard i hi
    have heq : ((Finset.range n).filter fun i => b.isReadable n i = true) = Finset.range n :=
      Finset.eq_of_subset_of_card_le (Finset.filter_subset _ _) (by rw [hcard, Finset.card_range])
    have hmem : i ∈ (Finset.range n).filter fun i => b.isReadable n i = true := by
      rw [heq]
      exact Finset.mem_range.mpr hi
    exact (Finset.mem_filter.mp hmem).2

/-- The loop of `IsEmpty` from `idx` on.  It stops at the first slot that was never occupied, which the invariant
    allows: behind it no slot is readable. -/
theorem BucketInv.emptyFrom_iff (h : BucketInv n b) : ∀ remaining idx : ℕ, idx + remaining = n →
    (b.emptyFrom n remaining idx = true ↔ ∀ i, idx ≤ i → b.slot n i = none) := by
  intro remaining
  induction remaining with
  | zero =>
    intro idx hn
    exact ⟨fun _ i h1 => slot_ge (by omega), fun _ => rfl⟩
  | succ remaining ih =>
    intro idx hn
    unfold emptyFrom
    cases ho : b.isOccupied n idx with
    | false => exact ⟨fun _ i h1 => h.slot_none ho h1, fun _ => rfl⟩
    | true =>
      simp only [Bool.not_true, Bool.false_eq_true, if_false]
      cases hr : b.isReadable n idx with
      | true =>
        constructor
        · intro hf
          cases hf
        · intro hall
          rw [(slot_eq_none (by omega)).mp (hall idx (Nat.le_refl _))] at hr
          cases hr
      | false =>
        simp only [Bool.false_eq_true, if_false]
        rw [ih (idx + 1) (by omega)]
        constructor
        · intro hall i h1
          rcases Nat.lt_or_eq_of_le h1 with hlt | rfl
          · exact hall i hlt
          · exact (slot_eq_none (by omega)).mpr hr
        · intro hall i h1
          exact hall i (by omega)

/-- **A page is empty when it has no pairs.** -/
theorem BucketInv.isEmpty_iff (h : BucketInv n b) : b.isEmpty n = true ↔ b.pairs n = ∅ := by
  unfold isEmpty
  rw [h.emptyFrom_iff n 0 (by omega), Finset.eq_empty_iff_forall_notMem]
  constructor
  · intro hall e he
    obtain ⟨i, hi⟩ := mem_pairs.mp he
    rw [hall i (Nat.zero_le _)] at hi
    cases hi
  · intro hno i _
    rw [Option.eq_none_iff_forall_ne_some]
    exact fun e he => hno e (mem_pairs.mpr ⟨i, he⟩)

/-- A fresh page has no pair. -/
theorem pairs_zeroed : (zeroed : HashTableBucketPage K V).pairs n = ∅ := by
  rw [Finset.eq_empty_iff_forall_notMem]
  intro e he
  obtain ⟨i, hi⟩ := mem_pairs.mp he
  obtain ⟨hlt, hr, -⟩ := slot_eq_some.mp hi
  rw [isReadable_lt hlt] at hr
  simp [zeroed] at hr

/-! ## The scans of `Insert` and `Remove` -/

variable {cmp : K → K → Int}

/-- Slot `i` is readable, and the comparator and `==` call its pair the one given. -/
def Hits (n : ℕ) (b : HashTableBucketPage K V) (cmp : K → K → Int) (key : K) (value : V) (i : ℕ) : Prop :=
  i < n ∧ b.isReadable n i = true ∧ cmp key (b.keyAt n i) = 0 ∧ value = b.valueAt n i

omit [DecidableEq K] [DecidableEq V] in
/-- Beyond the first unoccupied slot nothing is hit. -/
theorem BucketInv.not_hits (h : BucketInv n b) {key : K} {value : V} {i j : ℕ}
    (hi : b.isOccupied n i = false) (hij : i ≤ j) : ¬ b.Hits n cmp key value j := by
  rintro ⟨hj, hr, -⟩
  have hnone := h.slot_none hi hij
  rw [slot_eq_none hj, hr] at hnone
  cases hnone

omit [DecidableEq K] [DecidableEq V] in
/-- The slot of the pair hits, if the comparator calls a key equal to itself. -/
theorem hits_of_slot (hrefl : ∀ k, cmp k k = 0) {key : K} {value : V} {i : ℕ}
    (hs : b.slot n i = some (key, value)) : b.Hits n cmp key value i := by
  obtain ⟨hi, hr, he⟩ := slot_eq_some.mp hs
  unfold Hits keyAt valueAt
  rw [if_pos hr, if_pos hr, he]
  exact ⟨hi, hr, hrefl key, rfl⟩

/-- What `insert_idx` says about the slots before `idx`: the first unreadable one, or `n`. -/
def FirstFree (n : ℕ) (b : HashTableBucketPage K V) (insert_idx idx : ℕ) : Prop :=
  (insert_idx = n ∧ ∀ j < idx, b.isReadable n j = true) ∨
  (insert_idx < n ∧ b.isReadable n insert_idx = false ∧ ∀ j < insert_idx, b.isReadable n j = true)

omit [DecidableEq K] [DecidableEq V] in
/-- Passing a readable slot. -/
theorem FirstFree.next {insert_idx idx : ℕ} (h : FirstFree n b insert_idx idx)
    (hr : b.isReadable n idx = true) : FirstFree n b insert_idx (idx + 1) := by
  refine h.imp (fun ⟨he, hall⟩ => ⟨he, fun j hj => ?_⟩) id
  rcases Nat.lt_or_eq_of_le (Nat.le_of_lt_succ hj) with hlt | rfl
  · exact hall j hlt
  · exact hr

omit [DecidableEq K] [DecidableEq V] in
/-- Passing an unreadable slot. -/
theorem FirstFree.pass {insert_idx idx : ℕ} (h : FirstFree n b insert_idx idx) (hidx : idx < n)
    (hr : b.isReadable n idx = false) :
    (if insert_idx = n then idx else insert_idx) < n ∧
      b.isReadable n (if insert_idx = n then idx else insert_idx) = false ∧
      ∀ j < (if insert_idx = n then idx else insert_idx), b.isReadable n j = true := by
  rcases h with ⟨rfl, hall⟩ | ⟨hlt, hfree, hall⟩
  · rw [if_pos rfl]
    exact ⟨hidx, hr, hall⟩
  · rw [if_neg (by omega)]
    exact ⟨hlt, hfree, hall⟩

/-- The loop of `Insert` from `idx` on, by induction on the slots that are left.  `insert_idx` is the first free
    slot seen so far, or `n`; the loop gives up at a slot that holds the pair already. -/
theorem BucketInv.insertFrom_spec (h : BucketInv n b) (cmp : K → K → Int) (key : K) (value : V) :
    ∀ remaining idx insert_idx : ℕ, idx + remaining = n → FirstFree n b insert_idx idx →
    (b.insertFrom n cmp key value remaining idx insert_idx = none ∧ ∃ i, b.Hits n cmp key value i) ∨
    (∃ i, b.insertFrom n cmp key value remaining idx insert_idx = some i ∧ FirstFree n b i n ∧
      ∀ j, idx ≤ j → ¬ b.Hits n cmp key value j) := by
  -- the scan goes on past a free slot, since the pair may still come
  intro remaining
  induction remaining with
  | zero =>
    intro idx ins hn hfree
    have hidx : idx = n := by omega
    refine .inr ⟨ins, rfl, hidx ▸ hfree, fun j hj hs => ?_⟩
    have hlt := hs.1
    omega
  | succ remaining ih =>
    intro idx ins hn hfree
    have hidx : idx < n := by omega
    -- a slot that is not hit leaves it to the rest of the scan
    have hnext : ∀ ins, FirstFree n b ins (idx + 1) → ¬ b.Hits n cmp key value idx →
        (b.insertFrom n cmp key value remaining (idx + 1) ins = none ∧ ∃ i, b.Hits n cmp key value i) ∨
        (∃ i, b.insertFrom n cmp key value remaining (idx + 1) ins = some i ∧ FirstFree n b i n ∧
          ∀ j, idx ≤ j → ¬ b.Hits n cmp key value j) := by
      intro ins hfree hmiss
      refine (ih (idx + 1) ins (by omega) hfree).imp id fun ⟨i, hi, hf, hno⟩ => ⟨i, hi, hf, fun j hj => ?_⟩
      rcases Nat.lt_or_eq_of_le hj with hlt | rfl
      · exact hno j hlt
      · exact hmiss
    unfold insertFrom
    cases hr : b.isReadable n idx with
    | true =>
      rw [if_pos rfl]
      by_cases hdup : cmp key (b.keyAt n idx) = 0 ∧ value = b.valueAt n idx
      · rw [if_pos hdup]
        exact .inl ⟨rfl, idx, hidx, hr, hdup⟩
      · rw [if_neg hdup, h.readable_occupied idx hidx hr]
        exact hnext ins (hfree.next hr) fun hs => hdup hs.2.2
    | false =>
      have hpass := hfree.pass hidx hr
      simp only [Bool.false_eq_true, if_false]
      cases ho : b.isOccupied n idx with
      | false => exact .inr ⟨_, rfl, .inr hpass, fun j hj => h.not_hits ho hj⟩
      | true =>
        apply hnext _ (.inr hpass)
        intro hs
        rw [hs.2.1] at hr
        cases hr

/-- **`Insert` fills the first unreadable slot**, unless the page is full or a slot hits. -/
theorem BucketInv.insert_cases (h : BucketInv n b) (cmp : K → K → Int) (key : K) (value : V) :
    (b.insert n cmp key value = (false, b) ∧ (b.isFull n = true ∨ ∃ i, b.Hits n cmp key value i)) ∨
    (∃ i < n, b.insert n cmp key value =
        (true, (setReadable n { b with array := Function.update b.array i (key, value) } i).setOccupied n i) ∧
      b.isReadable n i = false ∧ (∀ j < i, b.isReadable n j = true) ∧ ∀ j, ¬ b.Hits n cmp key value j) := by
  unfold HashTableBucketPage.insert
  cases hfull : b.isFull n with
  | true => exact .inl ⟨rfl, .inl rfl⟩
  | false =>
    simp only [Bool.false_eq_true, if_false]
    rcases h.insertFrom_spec cmp key value n 0 n (by omega) (.inl ⟨rfl, fun j hj => by omega⟩) with
      ⟨hnone, hdup⟩ | ⟨i, hsome, hfree, hno⟩
    · rw [hnone]
      exact .inl ⟨rfl, .inr hdup⟩
    · rw [hsome]
      rcases hfree with ⟨-, hall⟩ | ⟨hi, hr, hall⟩
      · rw [isFull_iff.mpr hall] at hfull
        cases hfull
      · exact .inr ⟨i, hi, if_neg (by omega), hr, hall, fun j => hno j (Nat.zero_le _)⟩

/-- The loop of `Remove` from `idx` on: it answers a slot that holds the pair, and none when no slot from there on
    does. -/
theorem BucketInv.removeFrom_spec (h : BucketInv n b) (cmp : K → K → Int) (key : K) (value : V) :
    ∀ remaining idx : ℕ, idx + remaining = n →
    (b.removeFrom n cmp key value remaining idx = none ∧ ∀ j, idx ≤ j → ¬ b.Hits n cmp key value j) ∨
    (∃ i, b.removeFrom n cmp key value remaining idx = some i ∧ b.Hits n cmp key value i) := by
  intro remaining
  induction remaining with
  | zero =>
    intro idx hn
    refine .inl ⟨rfl, fun j hj hs => ?_⟩
    have hlt := hs.1
    omega
  | succ remaining ih =>
    intro idx hn
    have hidx : idx < n := by omega
    have hnext : ¬ b.Hits n cmp key value idx →
        (b.removeFrom n cmp key value remaining (idx + 1) = none ∧
          ∀ j, idx ≤ j → ¬ b.Hits n cmp key value j) ∨
        (∃ i, b.removeFrom n cmp key value remaining (idx + 1) = some i ∧ b.Hits n cmp key value i) := by
      intro hmiss
      refine (ih (idx + 1) (by omega)).imp (fun ⟨hrun, hno⟩ => ⟨hrun, fun j hj => ?_⟩) id
      rcases Nat.lt_or_eq_of_le hj with hlt | rfl
      · exact hno j hlt
      · exact hmiss
    unfold removeFrom
    cases ho : b.isOccupied n idx with
    | false => exact .inl ⟨rfl, fun j hj => h.not_hits ho hj⟩
    | true =>
      simp only [Bool.not_true, Bool.false_eq_true, if_false]
      cases hr : b.isReadable n idx with
      | false =>
        apply hnext
        intro hs
        rw [hs.2.1] at hr
        cases hr
      | true =>
        simp only [Bool.not_true, Bool.false_eq_true, if_false]
        by_cases hdup : cmp key (b.keyAt n idx) = 0 ∧ value = b.valueAt n idx
        · rw [if_pos hdup]
          exact .inr ⟨idx, rfl, hidx, hr, hdup⟩
        · rw [if_neg hdup]
          exact hnext fun hs => hdup hs.2.2

/-- **`Remove` clears a slot that hits**, if there is one. -/
theorem BucketInv.remove_cases (h : BucketInv n b) (cmp : K → K → Int) (key : K) (value : V) :
    (b.remove n cmp key value = (false, b) ∧ ∀ j, ¬ b.Hits n cmp key value j) ∨
    (∃ i < n, b.remove n cmp key value = (true, b.removeAt n i) ∧ b.Hits n cmp key value i) := by
  unfold HashTableBucketPage.remove
  cases hempty : b.isEmpty n with
  | true =>
    refine .inl ⟨rfl, ?_⟩
    rintro j ⟨hj, hr, -⟩
    have hmem : b.array j ∈ b.pairs n := mem_pairs.mpr ⟨j, slot_eq_some.mpr ⟨hj, hr, rfl⟩⟩
    rw [h.isEmpty_iff.mp hempty] at hmem
    simp at hmem
  | false =>
    simp only [Bool.false_eq_true, if_false]
    rcases h.removeFrom_spec cmp key value n 0 (by omega) with ⟨hnone, hno⟩ | ⟨i, hsome, hi⟩
    · rw [hnone]
      exact .inl ⟨rfl, fun j => hno j (Nat.zero_le _)⟩
    · rw [hsome]
      exact .inr ⟨i, hi.1, rfl, hi⟩

/-! ## The methods on the set

The comparator's result 0 is equality of keys. -/

variable (hcmp : ∀ k k', cmp k k' = 0 ↔ k = k')
include hcmp

omit hcmp in
/-- The value that slot `i` shows for `key`. -/
def shownFor (n : ℕ) (b : HashTableBucketPage K V) (key : K) (i : ℕ) : Option V :=
  (b.slot n i).bind fun e => if e.1 = key then some e.2 else none

omit hcmp [DecidableEq V] in
/-- `GetValue` shows a slot when it holds the key itself. -/
theorem shownFor_eq_some {key : K} {i : ℕ} {v : V} :
    b.shownFor n key i = some v ↔ b.slot n i = some (key, v) := by
  unfold shownFor
  cases hs : b.slot n i with
  | none => simp
  | some e => simp [Prod.ext_iff, eq_comm]

omit hcmp in
/-- The values that the page holds for `key`, in slot order. -/
def valuesOf (n : ℕ) (b : HashTableBucketPage K V) (key : K) : List V :=
  (List.range n).filterMap (b.shownFor n key)

omit [DecidableEq V] in
/-- **The scan of `GetValue` appends the values in slot order.** -/
theorem BucketInv.getValueFrom_eq (h : BucketInv n b) (key : K) : ∀ (remaining idx : ℕ)
    (result : List V) (res : Bool), idx + remaining = n →
    b.getValueFrom n cmp key remaining idx result res =
      (res || !((List.range' idx remaining).filterMap (b.shownFor n key)).isEmpty,
        result ++ (List.range' idx remaining).filterMap (b.shownFor n key)) := by
  intro remaining
  induction remaining with
  | zero =>
    intro idx result res _
    simp [getValueFrom]
  | succ remaining ih =>
    intro idx result res hn
    have hidx : idx < n := by omega
    rw [List.range'_succ, List.filterMap_cons]
    unfold getValueFrom
    by_cases hhit : b.isReadable n idx = true ∧ cmp key (b.keyAt n idx) = 0
    · have hslot : b.shownFor n key idx = some (b.valueAt n idx) := by
        have hkey := (hcmp _ _).mp hhit.2
        rw [shownFor_eq_some, slot_eq_some]
        unfold keyAt at hkey
        unfold valueAt
        rw [if_pos hhit.1] at hkey ⊢
        exact ⟨hidx, hhit.1, Prod.ext hkey.symm rfl⟩
      rw [if_pos hhit, ih (idx + 1) _ _ (by omega), hslot]
      simp
    · have hmiss : b.shownFor n key idx = none := by
        rw [Option.eq_none_iff_forall_ne_some]
        intro v hv
        obtain ⟨-, hr, he⟩ := slot_eq_some.mp (shownFor_eq_some.mp hv)
        refine hhit ⟨hr, (hcmp _ _).mpr ?_⟩
        unfold keyAt
        rw [if_pos hr, he]
      rw [if_neg hhit, hmiss]
      cases ho : b.isOccupied n idx with
      | false =>
        -- the scan stops here, and beyond the first unoccupied slot nothing is shown
        have hrest : (List.range' (idx + 1) remaining).filterMap (b.shownFor n key) = [] := by
          refine List.filterMap_eq_nil_iff.mpr fun j hj => ?_
          show (b.slot n j).bind _ = none
          rw [h.slot_none ho (Nat.le_of_succ_le (List.mem_range'_1.mp hj).1)]
          rfl
        simp [hrest]
      | true =>
        simp only [Bool.not_true, Bool.false_eq_true, if_false]
        exact ih (idx + 1) result res (by omega)

omit [DecidableEq V] in
/-- **`GetValue` appends the values of the key in slot order**, and says whether there was one. -/
theorem BucketInv.getValue_eq (h : BucketInv n b) (key : K) (result : List V) :
    b.getValue n cmp key result = (!(b.valuesOf n key).isEmpty, result ++ b.valuesOf n key) := by
  unfold getValue valuesOf
  rw [h.getValueFrom_eq hcmp key n 0 result false (by omega), List.range_eq_range', Bool.false_or]

omit hcmp in
/-- Each value of the key is listed, once. -/
theorem BucketInv.valuesOf_spec (h : BucketInv n b) (key : K) :
    (b.valuesOf n key).Nodup ∧ ∀ v, v ∈ b.valuesOf n key ↔ (key, v) ∈ b.pairs n := by
  constructor
  · refine List.nodup_range.filterMap fun i j v hi hj => ?_
    exact h.slot_inj i j (key, v) (shownFor_eq_some.mp hi) (shownFor_eq_some.mp hj)
  · intro v
    unfold valuesOf
    rw [List.mem_filterMap, mem_pairs]
    constructor
    · rintro ⟨i, -, hi⟩
      exact ⟨i, shownFor_eq_some.mp hi⟩
    · rintro ⟨i, hi⟩
      exact ⟨i, List.mem_range.mpr (slot_eq_some.mp hi).1, shownFor_eq_some.mpr hi⟩

/-- **`GetValue` appends each value of the key once**, and says whether there was one. -/
theorem BucketInv.getValue_spec (h : BucketInv n b) (key : K) (result : List V) :
    ∃ vs, b.getValue n cmp key result = (!vs.isEmpty, result ++ vs) ∧
      vs.Nodup ∧ ∀ v, v ∈ vs ↔ (key, v) ∈ b.pairs n := by
  obtain ⟨hnodup, hmem⟩ := h.valuesOf_spec key
  exact ⟨b.valuesOf n key, h.getValue_eq hcmp key result, hnodup, hmem⟩

/-- With an exact comparator a hit is the pair itself. -/
theorem hits_iff {key : K} {value : V} {i : ℕ} :
    b.Hits n cmp key value i ↔ b.slot n i = some (key, value) := by
  rw [slot_eq_some]
  unfold Hits keyAt valueAt
  rw [hcmp]
  refine and_congr_right fun _ => and_congr_right fun hr => ?_
  rw [if_pos hr, if_pos hr, Prod.ext_iff]
  exact ⟨fun h => ⟨h.1.symm, h.2.symm⟩, fun h => ⟨h.1.symm, h.2.symm⟩⟩

/-- **`Insert` fills the first unreadable slot**, unless the page is full or shows the pair already. -/
theorem BucketInv.insert_fills (h : BucketInv n b) (key : K) (value : V) :
    (b.insert n cmp key value = (false, b) ∧ (b.isFull n = true ∨ (key, value) ∈ b.pairs n)) ∨
    (∃ i < n, b.insert n cmp key value =
        (true, (setReadable n { b with array := Function.update b.array i (key, value) } i).setOccupied n i) ∧
      b.isReadable n i = false ∧ (∀ j < i, b.isReadable n j = true) ∧ ∀ j, b.slot n j ≠ some (key, value)) := by
  have hcases := h.insert_cases cmp key value
  simp only [hits_iff hcmp, ← mem_pairs] at hcases
  exact hcases

omit hcmp in
/-- Filling a slot that shows nothing adds its pair. -/
theorem pairs_fill {i : ℕ} (hi : i < n) (hr : b.isReadable n i = false) (e : K × V) :
    ((setReadable n { b with array := Function.update b.array i e } i).setOccupied n i).pairs n =
      Insert.insert e (b.pairs n) := by
  ext e'
  rw [mem_pairs, slot_fill hi, Finset.mem_insert, mem_pairs]
  constructor
  · rintro ⟨j, hj⟩
    rw [Function.update_apply] at hj
    split at hj
    · cases hj
      exact .inl rfl
    · exact .inr ⟨j, hj⟩
  · rintro (rfl | ⟨j, hj⟩)
    · exact ⟨i, Function.update_self ..⟩
    · have hne : j ≠ i := fun he => by
        rw [he, (slot_eq_none hi).mpr hr] at hj
        cases hj
      exact ⟨j, by rw [Function.update_of_ne hne, hj]⟩

/-- **`Insert` adds a pair that is not there to a page that is not full**, and otherwise changes
    nothing. -/
theorem BucketInv.insert_spec (h : BucketInv n b) (key : K) (value : V) :
    (b.insert n cmp key value = (false, b) ∧ (b.isFull n = true ∨ (key, value) ∈ b.pairs n)) ∨
    (∃ b', b.insert n cmp key value = (true, b') ∧ BucketInv n b' ∧ b.isFull n = false ∧
      (key, value) ∉ b.pairs n ∧ b'.pairs n = Insert.insert (key, value) (b.pairs n)) := by
  rcases h.insert_fills hcmp key value with hno | ⟨i, hi, hrun, hr, hall, hnew⟩
  · exact .inl hno
  · refine .inr ⟨_, hrun, h.fill hi hall hnew, ?_, ?_, pairs_fill hi hr _⟩
    · rw [Bool.eq_false_iff, Ne, isFull_iff]
      intro hfull
      rw [hfull i hi] at hr
      cases hr
    · intro hmem
      obtain ⟨j, hj⟩ := mem_pairs.mp hmem
      exact hnew j hj

omit hcmp in
/-- Clearing the slot of pair `e` takes exactly `e` off the page. -/
theorem BucketInv.pairs_removeAt (h : BucketInv n b) {i : ℕ} {e : K × V} (hi : b.slot n i = some e) :
    (b.removeAt n i).pairs n = (b.pairs n).erase e := by
  have hlt := (slot_eq_some.mp hi).1
  ext e'
  rw [mem_pairs, slot_removeAt hlt, Finset.mem_erase, mem_pairs]
  constructor
  · rintro ⟨j, hj⟩
    rw [Function.update_apply] at hj
    split at hj
    · cases hj
    · next hne =>
      refine ⟨fun he => hne ?_, j, hj⟩
      exact h.slot_inj j i e (he ▸ hj) hi
  · rintro ⟨hne, j, hj⟩
    have hji : j ≠ i := fun he => by
      rw [he, hi] at hj
      cases hj
      exact hne rfl
    exact ⟨j, by rw [Function.update_of_ne hji, hj]⟩

/-- **`Remove` clears the slot of the pair**, if one shows it. -/
theorem BucketInv.remove_clears (h : BucketInv n b) (key : K) (value : V) :
    (b.remove n cmp key value = (false, b) ∧ (key, value) ∉ b.pairs n) ∨
    (∃ i < n, b.remove n cmp key value = (true, b.removeAt n i) ∧ b.slot n i = some (key, value)) := by
  have hcases := h.remove_cases cmp key value
  simp only [hits_iff hcmp] at hcases
  refine hcases.imp (fun ⟨hrun, hno⟩ => ⟨hrun, fun hmem => ?_⟩) id
  obtain ⟨j, hj⟩ := mem_pairs.mp hmem
  exact hno j hj

/-- **`Remove` takes a pair that is there off the page**, and otherwise changes nothing. -/
theorem BucketInv.remove_spec (h : BucketInv n b) (key : K) (value : V) :
    (b.remove n cmp key value = (false, b) ∧ (key, value) ∉ b.pairs n) ∨
    (∃ b', b.remove n cmp key value = (true, b') ∧ BucketInv n b' ∧ (key, value) ∈ b.pairs n ∧
      b'.pairs n = (b.pairs n).erase (key, value)) := by
  rcases h.remove_clears hcmp key value with hno | ⟨i, hi, hrun, hslot⟩
  · exact .inl hno
  · exact .inr ⟨_, hrun, h.removeAt hi, mem_pairs.mpr ⟨i, hslot⟩, h.pairs_removeAt hslot⟩

end HashTableBucketPage

end BusTub
