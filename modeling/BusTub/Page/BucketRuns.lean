/-
  A bucket page of raw bytes, over any sequence of calls.

  The table knows a bucket as a page that the buffer pool gives it, and casts its bytes.  Between two calls the page
  may be written to disk and read again into another frame, and whatever lies around it may change.

  1. **`bucketBytes`**: the methods run on memory, and the page moves between them.  It starts with bitmaps of
     zeros; its pairs may be anything then.

  2. **`boundedSets`**: what a client may rely on, a set of at most `BUCKET_ARRAY_SIZE` pairs and its answers.

  3. `bytes_are_bounded_set` — **the main result**: every run on the bytes is a run of the bounded set, and the
     methods keep to the bytes of the page.
-/
import BusTub.Page.BucketMemory

set_option linter.unusedSectionVars false

namespace BusTub

open MemoryM

/-! ## The two systems -/

/-- A call of a method. -/
inductive BucketCall (K V : Type) where
  | insert (key : K) (value : V)
  | remove (key : K) (value : V)
  | getValue (key : K)
  | isFull
  | isEmpty
  | numReadable
  | printBucket

/-- What a call returns. -/
inductive BucketRet (V : Type) where
  | bool (b : Bool)
  | values (found : Bool) (vs : List V)
  | count (k : ℕ)
  | counts (capacity size taken free : ℕ)
  deriving DecidableEq

variable {K V : Type} [Inhabited K] [Inhabited V] [DecidableEq K] [DecidableEq V]

/-- The method on the bytes. -/
def BucketEncoding.call (p : BucketEncoding K V) (cmp : K → K → Int) :
    BucketCall K V → MemoryM ℕ (BitVec 8) (BucketRet V)
  | .insert key value => .bool <$> p.insert cmp key value
  | .remove key value => .bool <$> p.remove cmp key value
  | .getValue key => (fun r => .values r.1 r.2) <$> p.getValue cmp key []
  | .isFull => .bool <$> p.isFull
  | .isEmpty => .bool <$> p.isEmpty
  | .numReadable => .count <$> p.numReadable
  | .printBucket => (fun r => .counts r.1 r.2.1 r.2.2.1 r.2.2.2) <$> p.printBucket

/-- The method on the page. -/
def HashTableBucketPage.call (n : ℕ) (cmp : K → K → Int) (b : HashTableBucketPage K V) :
    BucketCall K V → BucketRet V × HashTableBucketPage K V
  | .insert key value => (.bool (b.insert n cmp key value).1, (b.insert n cmp key value).2)
  | .remove key value => (.bool (b.remove n cmp key value).1, (b.remove n cmp key value).2)
  | .getValue key => (.values (b.getValue n cmp key []).1 (b.getValue n cmp key []).2, b)
  | .isFull => (.bool (b.isFull n), b)
  | .isEmpty => (.bool (b.isEmpty n), b)
  | .numReadable => (.count (b.numReadable n), b)
  | .printBucket =>
    (.counts (b.printBucket n).1 (b.printBucket n).2.1 (b.printBucket n).2.2.1 (b.printBucket n).2.2.2, b)

/-- **The bytes**: calls with their results, and moves (`none`), which keep the bytes of the page only. -/
def bucketBytes (p : BucketEncoding K V) (cmp : K → K → Int) :
    StepSystem (ℕ → BitVec 8) (Option (BucketCall K V × BucketRet V)) where
  init m := ∀ a < 2 * p.bitmapLength, m a = 0
  step m e m' :=
    match e with
    | some e => result (p.call cmp e.1) m = e.2 ∧ after (p.call cmp e.1) m = m'
    | none => ∀ a ∈ p.pageBytes, m' a = m a

/-- What a call may answer on a set of at most `n` pairs. -/
def SetAnswers (n : ℕ) (s : Finset (K × V)) (r : BucketRet V) : BucketCall K V → Prop
  | .insert key value => r = .bool (decide (s.card < n ∧ (key, value) ∉ s))
  | .remove key value => r = .bool (decide ((key, value) ∈ s))
  | .getValue key => ∃ vs : List V, r = .values (!vs.isEmpty) vs ∧ vs.Nodup ∧ ∀ v, v ∈ vs ↔ (key, v) ∈ s
  | .isFull => r = .bool (decide (s.card = n))
  | .isEmpty => r = .bool (decide (s = ∅))
  | .numReadable => r = .count s.card
  | .printBucket => ∃ size, s.card ≤ size ∧ size ≤ n ∧ r = .counts n size s.card (size - s.card)

/-- What it leaves. -/
def setAfter (n : ℕ) (s : Finset (K × V)) : BucketCall K V → Finset (K × V)
  | .insert key value => if s.card < n then Insert.insert (key, value) s else s
  | .remove key value => s.erase (key, value)
  | _ => s

/-- **The bounded set**, which moves leave alone. -/
def boundedSets (n : ℕ) : StepSystem (Finset (K × V)) (Option (BucketCall K V × BucketRet V)) where
  init s := s = ∅
  step s e s' :=
    match e with
    | some e => SetAnswers n s e.2 e.1 ∧ s' = setAfter n s e.1
    | none => s' = s

/-! ## A page answers as its set of pairs -/

namespace HashTableBucketPage

variable {n : ℕ} {cmp : K → K → Int} {b b' : HashTableBucketPage K V}

theorem BucketInv.numReadable_eq_card (h : BucketInv n b) : b.numReadable n = (b.pairs n).card := by
  rw [h.numReadable_eq, h.card_pairs, Nat.count_eq_card_filter_range]

/-- A page that shows the same in every slot. -/
theorem BucketInv.of_same (h : BucketInv n b) (hocc : b'.occupied = b.occupied) (hread : b'.readable = b.readable)
    (harray : ∀ i < n, b'.array i = b.array i) : BucketInv n b' ∧ b'.pairs n = b.pairs n := by
  have hocc' : ∀ i, b'.isOccupied n i = b.isOccupied n i := by
    intro i
    unfold isOccupied
    rw [hocc]
  have hread' : ∀ i, b'.isReadable n i = b.isReadable n i := by
    intro i
    unfold isReadable
    rw [hread]
  have hslot : ∀ i, b'.slot n i = b.slot n i := by
    intro i
    unfold slot
    rw [hread']
    split
    · next hi => rw [harray i hi.1]
    · rfl
  refine ⟨⟨fun i j => ?_, fun i => ?_, fun i j e => ?_⟩, ?_⟩
  · rw [hocc', hocc']
    exact h.occupied_below i j
  · rw [hocc', hread']
    exact h.readable_occupied i
  · rw [hslot, hslot]
    exact h.slot_inj i j e
  · ext e
    simp only [mem_pairs, hslot]

/-- Nothing is marked yet. -/
theorem BucketInv.of_unmarked (hocc : ∀ i < n, b.isOccupied n i = false)
    (hread : ∀ i < n, b.isReadable n i = false) : BucketInv n b ∧ b.pairs n = ∅ := by
  have hslot : ∀ i, b.slot n i = none := by
    intro i
    rcases Nat.lt_or_ge i n with hi | hi
    · exact (slot_eq_none hi).mpr (hread i hi)
    · exact slot_ge hi
  refine ⟨⟨fun i j _ hj h => ?_, fun i hi h => ?_, fun i j e h => ?_⟩, ?_⟩
  · rw [hocc j hj] at h
    cases h
  · rw [hread i hi] at h
    cases h
  · rw [hslot] at h
    cases h
  · ext e
    simp [mem_pairs, hslot]

/-- **One call**: the invariant is kept, and the page answers as the set of its pairs does. -/
theorem BucketInv.call (hcmp : ∀ k k', cmp k k' = 0 ↔ k = k') (h : BucketInv n b) (c : BucketCall K V) :
    BucketInv n (b.call n cmp c).2 ∧ SetAnswers n (b.pairs n) (b.call n cmp c).1 c ∧
      (b.call n cmp c).2.pairs n = setAfter n (b.pairs n) c := by
  have hle := h.card_le
  cases c with
  | insert key value =>
    show BucketInv n (b.insert n cmp key value).2 ∧ BucketRet.bool (b.insert n cmp key value).1 = _ ∧
      (b.insert n cmp key value).2.pairs n = if _ then _ else _
    rcases h.insert_spec hcmp key value with ⟨hrun, hno⟩ | ⟨b', hrun, hinv, hfull, hnew, hpairs⟩
    · rw [hrun]
      rw [h.isFull_iff_card] at hno
      refine ⟨h, ?_, ?_⟩
      · rw [decide_eq_false]
        rintro ⟨hlt, hnew⟩
        -- refused: no slot was free, or the pair was there
        rcases hno with hfull | hmem
        · omega
        · exact hnew hmem
      · split
        · next hlt =>
          rw [Finset.insert_eq_of_mem]
          exact hno.resolve_left (by omega)
        · rfl
    · -- taken: one slot was free, so the set was not full
      have hlt : (b.pairs n).card < n := by
        refine Nat.lt_of_le_of_ne hle fun he => ?_
        rw [h.isFull_iff_card.mpr he] at hfull
        cases hfull
      rw [hrun, if_pos hlt]
      exact ⟨hinv, by rw [decide_eq_true ⟨hlt, hnew⟩], hpairs⟩
  | remove key value =>
    show BucketInv n (b.remove n cmp key value).2 ∧ BucketRet.bool (b.remove n cmp key value).1 = _ ∧
      (b.remove n cmp key value).2.pairs n = _
    rcases h.remove_spec hcmp key value with ⟨hrun, hno⟩ | ⟨b', hrun, hinv, hmem, hpairs⟩
    · rw [hrun]
      exact ⟨h, by rw [decide_eq_false hno], (Finset.erase_eq_of_notMem hno).symm⟩
    · rw [hrun]
      exact ⟨hinv, by rw [decide_eq_true hmem], hpairs⟩
  | getValue key =>
    obtain ⟨vs, hrun, hnodup, hmem⟩ := h.getValue_spec hcmp key []
    refine ⟨h, ⟨vs, ?_, hnodup, hmem⟩, rfl⟩
    show BucketRet.values (b.getValue n cmp key []).1 (b.getValue n cmp key []).2 = _
    rw [hrun]
    rfl
  | isFull =>
    refine ⟨h, congrArg BucketRet.bool ?_, rfl⟩
    rw [Bool.eq_iff_iff, h.isFull_iff_card, decide_eq_true_iff]
  | isEmpty =>
    refine ⟨h, congrArg BucketRet.bool ?_, rfl⟩
    rw [Bool.eq_iff_iff, h.isEmpty_iff, decide_eq_true_iff]
  | numReadable => exact ⟨h, congrArg BucketRet.count h.numReadable_eq_card, rfl⟩
  | printBucket =>
    have hfew : (b.pairs n).card ≤ occupiedLength n b := by
      rw [← h.numReadable_eq_card, h.numReadable_eq]
      exact Nat.count_mono_left fun i hi => h.readable_occupied i hi
    -- it counts the slots up to the first that was never occupied; the readable ones are among them
    refine ⟨h, ⟨occupiedLength n b, hfew, Nat.count_le _, ?_⟩, rfl⟩
    show BucketRet.counts _ _ _ _ = _
    rw [h.printBucket_eq, h.numReadable_eq_card]

end HashTableBucketPage

/-! ## The bytes answer as the bounded set -/

section Runs

open HashTableBucketPage

variable {p : BucketEncoding K V} {cmp : K → K → Int} {m m' : ℕ → BitVec 8}

variable (cmp) in
theorem acts_call (b : HashTableBucketPage K V) (c : BucketCall K V) : Acts p.page p.pageBytes p.pageBytes (p.call cmp c) b
    (b.call p.size cmp c).1 (b.call p.size cmp c).2 := by
  cases c with
  | insert key value => exact (BucketEncoding.acts_insert key value).map _
  | remove key value => exact (BucketLayout.acts_remove key value).map _
  | getValue key => exact (BucketLayout.acts_getValue key []).map _
  | isFull => exact BucketLayout.acts_isFull.map _
  | isEmpty => exact BucketLayout.acts_isEmpty.map _
  | numReadable => exact BucketLayout.acts_numReadable.map _
  | printBucket => exact BucketLayout.acts_printBucket.map _

/-- The bytes of the page are all that the page shows in its slots. -/
theorem inv_of_moved (h : BucketInv p.size (p.page m)) (hsame : ∀ a ∈ p.pageBytes, m' a = m a) :
    BucketInv p.size (p.page m') ∧ (p.page m').pairs p.size = (p.page m).pairs p.size := by
  have hbitmap : ∀ start, start + p.bitmapLength ≤ p.arrayAt → p.bitmap m' start = p.bitmap m start := by
    intro start hstart
    funext k
    unfold BucketLayout.bitmap
    split
    · apply hsame
      exact BucketLayout.bitmapBytes_subset hstart (BucketLayout.mem_bitmapBytes ‹_›)
    · rfl
  have hbelow := p.bitmaps_below
  refine h.of_same (hbitmap 0 (by omega)) (hbitmap p.bitmapLength (by omega)) fun i hi => ?_
  have hmember : ∀ start n, start + n ≤ p.pairAt i + p.pairSize →
      (List.range' start n).map m' = (List.range' start n).map m := by
    intro start n hlast
    apply List.map_congr_left
    intro a ha
    have hlt := (List.mem_range'_1.mp ha).2
    exact hsame a (BucketLayout.mem_pageBytes hi (by omega))
  have hkey := p.key_fits
  have hvalue := p.value_fits
  apply Prod.ext
  · exact congrArg p.keyOf (hmember _ _ (by omega))
  · exact congrArg p.valueOf (hmember _ _ (by omega))

/-- Bitmaps of zeros mark nothing. -/
theorem inv_of_init (h : (bucketBytes p cmp).init m) :
    BucketInv p.size (p.page m) ∧ (p.page m).pairs p.size = ∅ := by
  have hzero : ∀ start, start ≤ p.bitmapLength → ∀ i < p.size,
      maskBit (p.bitmap m start (i / 8)) (i - 8 * (i / 8)) = false := by
    intro start hstart i hi
    have hbyte := BucketLayout.byte_lt (p := p.toBucketLayout) hi
    rw [BucketLayout.bitmap_apply hbyte, h (start + i / 8) (by omega)]
    simp [maskBit_eq 0#8 (bit_lt i)]
  apply BucketInv.of_unmarked
  · intro i hi
    rw [HashTableBucketPage.isOccupied, if_neg (by omega)]
    exact hzero 0 (Nat.zero_le _) i hi
  · intro i hi
    rw [HashTableBucketPage.isReadable, if_neg (by omega)]
    exact hzero p.bitmapLength (Nat.le_refl _) i hi

/-- **One step of the bytes is one of the bounded set.** -/
theorem step_bounded (hcmp : ∀ k k', cmp k k' = 0 ↔ k = k') {e : Option (BucketCall K V × BucketRet V)}
    (h : BucketInv p.size (p.page m)) (hstep : (bucketBytes p cmp).step m e m') :
    BucketInv p.size (p.page m') ∧
    (boundedSets p.size).step ((p.page m).pairs p.size) e ((p.page m').pairs p.size) := by
  cases e with
  | none => exact inv_of_moved h hstep
  | some e =>
    obtain ⟨hresult, rfl⟩ := hstep
    have hacts := (acts_call (p := p) cmp (p.page m) e.1).eq
    have hcall := h.call hcmp e.1
    rw [← hacts.1, ← hacts.2, hresult] at hcall
    exact ⟨hcall.1, hcall.2.1, hcall.2.2⟩

/-- **The bytes of a page are a bounded set of pairs**: whatever calls are made and wherever the page is moved in
    between, every call answers as the set does, and no call reads or writes a byte outside the page. -/
theorem bytes_are_bounded_set (hcmp : ∀ k k', cmp k k' = 0 ↔ k = k') {es : List (Option (BucketCall K V × BucketRet V))}
    (h₀ : (bucketBytes p cmp).init m) (hrun : (bucketBytes p cmp).Run m es m') :
    (boundedSets p.size).Run ∅ es ((p.page m').pairs p.size) ∧
    ∀ c, Touches p.pageBytes p.pageBytes (p.call cmp c) := by
  refine ⟨?_, fun c => Acts.touches fun b => ⟨_, _, acts_call cmp b c⟩⟩
  have hinv : BucketInv p.size (p.page m') ∧ (boundedSets p.size).Run ∅ es ((p.page m').pairs p.size) := by
    induction hrun with
    | nil =>
      have hinit := inv_of_init h₀
      rw [hinit.2]
      exact ⟨hinit.1, .nil ∅⟩
    | snoc _ hstep ih =>
      have hnext := step_bounded hcmp ih.1 hstep
      exact ⟨hnext.1, .snoc ih.2 hnext.2⟩
  exact hinv.2

end Runs

/-! ## Pairs of 8-byte members -/

/-- The bytes of an 8-byte member, the lowest first. -/
def wordBytes (w : BitVec 64) : List (BitVec 8) := bytesOf 8 w.toNat

/-- The 8-byte member of its bytes. -/
def wordOf (bytes : List (BitVec 8)) : BitVec 64 := BitVec.ofNat 64 (natOf bytes)

theorem wordOf_wordBytes (w : BitVec 64) : wordOf (wordBytes w) = w := by
  apply BitVec.eq_of_toNat_eq
  rw [wordOf, wordBytes, natOf_bytesOf, BitVec.toNat_ofNat]
  have hlt := w.isLt
  omega

/-- Pairs of an 8-byte key and an 8-byte record id, 252 of them to a page of 4096 bytes. -/
def wordPairs : BucketEncoding (BitVec 64) (BitVec 64) where
  size := 252
  arrayAt := 64
  pairSize := 16
  keySize := 8
  valueOffset := 8
  valueSize := 8
  keyOf := wordOf
  valueOf := wordOf
  size_pos := by omega
  array_behind := by omega
  key_fits := by omega
  value_fits := by omega
  keyBytes := wordBytes
  valueBytes := wordBytes
  length_keyBytes _ := length_bytesOf 8 _
  length_valueBytes _ := length_bytesOf 8 _
  keyOf_keyBytes := wordOf_wordBytes
  valueOf_valueBytes := wordOf_wordBytes
  key_before_value := by omega

/-- Members in their order. -/
def compareWords (k k' : BitVec 64) : Int := if k = k' then 0 else if k.slt k' then -1 else 1

theorem compareWords_eq_zero (k k' : BitVec 64) : compareWords k k' = 0 ↔ k = k' := by
  unfold compareWords
  by_cases he : k = k'
  · simp [he]
  · rw [if_neg he]
    split <;> simp [he]

/-- A page with a pair, in the midst of ones. -/
def onePairMoved : ℕ → BitVec 8 := fun a =>
  if a < 4096 then after (wordPairs.call compareWords (.insert 5 7)) (fun _ => 0) a else 1

/-- Insert a pair, move the page, and look the pair up. -/
theorem bytes_are_bounded_set_moved : ∃ s : Finset (BitVec 64 × BitVec 64), (boundedSets 252).Run ∅
    [some (.insert 5 7, .bool true), none, some (.getValue 5, .values true [7])] s := by
  have hinsert : (bucketBytes wordPairs compareWords).step (fun _ => 0) (some (.insert 5 7, .bool true))
      (after (wordPairs.call compareWords (.insert 5 7)) fun _ => 0) := by
    refine ⟨?_, rfl⟩
    decide +kernel
  have hmoved : (bucketBytes wordPairs compareWords).step
      (after (wordPairs.call compareWords (.insert 5 7)) fun _ => 0) none onePairMoved := by
    intro a ha
    exact if_pos ha
  have hlook : (bucketBytes wordPairs compareWords).step onePairMoved (some (.getValue 5, .values true [7]))
      (after (wordPairs.call compareWords (.getValue 5)) onePairMoved) := by
    refine ⟨?_, rfl⟩
    decide +kernel
  have hrun := ((StepSystem.Run.single hinsert).snoc hmoved).snoc hlook
  exact ⟨_, (bytes_are_bounded_set compareWords_eq_zero (fun _ _ => rfl) hrun).1⟩

end BusTub
