/-
  Moving the pairs of a split out of the full bucket.

  `spread` is the loop of `SplitInsert` on the two pages alone.  Its invariant says where every pair
  of the full page is when the loop is at a slot: a pair that stays, or whose slot has not had its
  turn, is still on the old page; a pair that goes, and whose slot had its turn, is on the new one.
  The new page cannot be full while a pair is left to move, since the two never hold more than the
  old page held.

  The code ignores what `Insert` returns there.  `splitInsertRegionNoting` is the region with these results
  noted, and otherwise the same program (`splitInsertRegion_noting`).
-/
import BusTub.Table.HashTable
import BusTub.Page.BucketSpec

set_option linter.unusedSectionVars false

namespace BusTub

open HashTableBucketPage

/-! ## The region with the results noted -/

namespace HashTableType

open Command TableProg HashTableDirectoryPage

variable {K V : Type} [Inhabited K] [Inhabited V] [DecidableEq V] (T : HashTableType K V) (b : Build)

/-- `redistribute`, with what its calls of `Insert` return. -/
def redistributeNoting (bucket_page_id : PageId) : (remaining arr_idx : ℕ) → TableProg K V (List Bool)
  | 0, _ => pure []
  | remaining + 1, arr_idx => do
    let bucket ← T.loadBucket .bucketPage
    if bucket.isReadable T.bucketArraySize arr_idx then
      let temp_key := bucket.keyAt T.bucketArraySize arr_idx
      let temp_value := bucket.valueAt T.bucketArraySize arr_idx
      let dir ← T.loadDirectory
      if T.keyToPageId temp_key dir ≠ bucket_page_id then
        let split ← T.loadBucket .splitBucketPage
        let res := split.insert T.bucketArraySize T.comparator temp_key temp_value
        storeBucket .splitBucketPage res.2
        storeBucket .bucketPage (bucket.removeAt T.bucketArraySize arr_idx)
        let results ← redistributeNoting bucket_page_id remaining (arr_idx + 1)
        pure (res.1 :: results)
      else redistributeNoting bucket_page_id remaining (arr_idx + 1)
    else redistributeNoting bucket_page_id remaining (arr_idx + 1)

/-- `splitInsertRegion`, with what the calls of `Insert` in its loop return. -/
def splitInsertRegionNoting (directory_page_id : PageId) (key : K) (value : V) :
    TableProg K V (Option Bool × List Bool) := do
  latch .tableWLock
  let bucket_page_id ← T.fetchFor b directory_page_id key
  let dir ← T.loadDirectory
  let bucket_idx := T.keyToDirectoryIndex key dir
  let bucket ← T.loadBucket .bucketPage
  if !bucket.isFull T.bucketArraySize then
    let res := bucket.insert T.bucketArraySize T.comparator key value
    storeBucket .bucketPage res.2
    T.unpinDirectory b false
    assert_ b (unpinPage bucket_page_id true)
    latch .tableWUnlock
    pure (some res.1, [])
  else
    match ← check (deepen b dir bucket_idx) with
    | none =>
      T.unpinDirectory b false
      assert_ b (unpinPage bucket_page_id false)
      latch .tableWUnlock
      pure (some false, [])
    | some dir =>
      storeDirectory dir
      let split_bucket_idx := dir.getSplitImageIndex bucket_idx
      let page ← newPage .splitBucketPage
      check (assertThat b page.isSome)
      let split_bucket_page_id := page.getD 0
      let dir ← check (repoint b dir bucket_idx split_bucket_idx split_bucket_page_id)
      storeDirectory dir
      assert_ b do
        let bucket ← T.loadBucket .bucketPage
        pure (bucket.isFull T.bucketArraySize)
      assert_ b do
        let split ← T.loadBucket .splitBucketPage
        pure (split.isEmpty T.bucketArraySize)
      let results ← T.redistributeNoting bucket_page_id T.bucketArraySize 0
      T.unpinDirectory b true
      assert_ b (unpinPage bucket_page_id true)
      assert_ b (unpinPage split_bucket_page_id true)
      latch .tableWUnlock
      pure (none, results)

theorem redistribute_noting (bucket_page_id : PageId) (remaining arr_idx : ℕ) :
    T.redistribute bucket_page_id remaining arr_idx =
      (do let _ ← T.redistributeNoting bucket_page_id remaining arr_idx; pure ()) := by
  induction remaining generalizing arr_idx with
  | zero => rfl
  | succ remaining ih =>
    unfold redistribute redistributeNoting
    rw [Prog.bind_bind]
    refine congrArg _ (funext fun bucket => ?_)
    by_cases hr : bucket.isReadable T.bucketArraySize arr_idx = true
    · simp only [hr, if_true, Prog.bind_bind]
      refine congrArg _ (funext fun dir => ?_)
      by_cases hgo : T.keyToPageId (bucket.keyAt T.bucketArraySize arr_idx) dir ≠ bucket_page_id
      · rw [if_pos hgo, if_pos hgo]
        simp only [Prog.bind_bind, ih]
        rfl
      · rw [if_neg hgo, if_neg hgo]
        exact ih (arr_idx + 1)
    · rw [if_neg hr, if_neg hr]
      exact ih (arr_idx + 1)

/-- The notes change nothing. -/
theorem splitInsertRegion_noting (directory_page_id : PageId) (key : K) (value : V) :
    T.splitInsertRegion b directory_page_id key value =
      (do let r ← T.splitInsertRegionNoting b directory_page_id key value; pure r.1) := by
  unfold splitInsertRegion splitInsertRegionNoting
  simp only [Prog.bind_bind]
  refine congrArg _ (funext fun _ => congrArg _ (funext fun bucket_page_id => congrArg _ (funext fun dir =>
    congrArg _ (funext fun bucket => ?_))))
  by_cases hroom : (!bucket.isFull T.bucketArraySize) = true
  · rw [if_pos hroom, if_pos hroom]
    simp only [Prog.bind_bind]
    rfl
  · rw [if_neg hroom, if_neg hroom]
    simp only [Prog.bind_bind]
    refine congrArg _ (funext fun dir => ?_)
    cases dir with
    | none =>
      simp only [Prog.bind_bind]
      rfl
    | some dir =>
      simp only [Prog.bind_bind, redistribute_noting]
      rfl
end HashTableType

/-! ## The loop on the two pages -/

variable {K V : Type} [Inhabited K] [Inhabited V] [DecidableEq K] [DecidableEq V]
variable (n : ℕ) (cmp : K → K → Int) (goes : K → Bool)

/-- The loop of `SplitInsert` that moves the pairs whose keys go to the split image. -/
def spread : (remaining arr_idx : ℕ) → HashTableBucketPage K V × HashTableBucketPage K V →
    HashTableBucketPage K V × HashTableBucketPage K V
  | 0, _, pages => pages
  | remaining + 1, arr_idx, (bucket, split) =>
    if bucket.isReadable n arr_idx ∧ goes (bucket.keyAt n arr_idx) then
      spread remaining (arr_idx + 1) (bucket.removeAt n arr_idx,
        (split.insert n cmp (bucket.keyAt n arr_idx) (bucket.valueAt n arr_idx)).2)
    else spread remaining (arr_idx + 1) (bucket, split)

/-- What the calls of `Insert` in that loop return. -/
def spreadResults : (remaining arr_idx : ℕ) → HashTableBucketPage K V × HashTableBucketPage K V → List Bool
  | 0, _, _ => []
  | remaining + 1, arr_idx, (bucket, split) =>
    if bucket.isReadable n arr_idx ∧ goes (bucket.keyAt n arr_idx) then
      let res := split.insert n cmp (bucket.keyAt n arr_idx) (bucket.valueAt n arr_idx)
      res.1 :: spreadResults remaining (arr_idx + 1) (bucket.removeAt n arr_idx, res.2)
    else spreadResults remaining (arr_idx + 1) (bucket, split)

/-- Where the pairs of `full` are when the loop is at slot `idx`. -/
structure Spreading (full : HashTableBucketPage K V) (idx : ℕ)
    (pages : HashTableBucketPage K V × HashTableBucketPage K V) : Prop where
  bucket : BucketInv n pages.1
  split : BucketInv n pages.2
  ahead : ∀ j, idx ≤ j → pages.1.slot n j = full.slot n j
  mem_bucket : ∀ e, e ∈ pages.1.pairs n ↔
    e ∈ full.pairs n ∧ (goes e.1 = false ∨ ∃ j, idx ≤ j ∧ full.slot n j = some e)
  mem_split : ∀ e, e ∈ pages.2.pairs n ↔
    goes e.1 = true ∧ ∃ j, j < idx ∧ full.slot n j = some e

variable {n cmp goes} {full : HashTableBucketPage K V}
  {pages : HashTableBucketPage K V × HashTableBucketPage K V} {idx : ℕ}

/-- Before the loop. -/
theorem Spreading.start (hfull : BucketInv n full) : Spreading n goes full 0 (full, zeroed) where
  bucket := hfull
  split := .zeroed
  ahead _ _ := rfl
  mem_bucket e := by
    rw [mem_pairs]
    exact ⟨fun ⟨j, hj⟩ => ⟨⟨j, hj⟩, .inr ⟨j, Nat.zero_le j, hj⟩⟩, fun h => h.1⟩
  mem_split e := by
    rw [pairs_zeroed]
    exact ⟨fun h => absurd h (Finset.notMem_empty e), fun ⟨_, j, hj, _⟩ => absurd hj (Nat.not_lt_zero j)⟩

/-- After the loop. -/
theorem Spreading.done (h : Spreading n goes full n pages) :
    pages.1.pairs n = (full.pairs n).filter (fun e => goes e.1 = false) ∧
    pages.2.pairs n = (full.pairs n).filter (fun e => goes e.1 = true) := by
  have hlast : ∀ {j e}, full.slot n j = some e → j < n := fun hj => (slot_eq_some.mp hj).1
  constructor
  · ext e
    rw [h.mem_bucket, Finset.mem_filter]
    constructor
    · rintro ⟨hmem, hstay | ⟨j, hle, hj⟩⟩
      · exact ⟨hmem, hstay⟩
      · exact absurd (hlast hj) (by omega)
    · exact fun ⟨hmem, hstay⟩ => ⟨hmem, .inl hstay⟩
  · ext e
    rw [h.mem_split, Finset.mem_filter, mem_pairs]
    exact ⟨fun ⟨hgo, j, _, hj⟩ => ⟨⟨j, hj⟩, hgo⟩, fun ⟨⟨j, hj⟩, hgo⟩ => ⟨hgo, j, hlast hj, hj⟩⟩

/-- A slot without a pair that goes is passed over. -/
theorem Spreading.pass (h : Spreading n goes full idx pages)
    (hstay : ∀ e, full.slot n idx = some e → goes e.1 = false) :
    Spreading n goes full (idx + 1) pages where
  bucket := h.bucket
  split := h.split
  ahead j hj := h.ahead j (by omega)
  mem_bucket e := by
    rw [h.mem_bucket]
    refine and_congr_right fun _ => ⟨?_, Or.imp id fun ⟨j, hle, hj⟩ => ⟨j, by omega, hj⟩⟩
    rintro (hs | ⟨j, hle, hj⟩)
    · exact .inl hs
    · rcases Nat.lt_or_eq_of_le hle with hlt | rfl
      · exact .inr ⟨j, hlt, hj⟩
      · exact .inl (hstay e hj)
  mem_split e := by
    rw [h.mem_split]
    refine and_congr_right fun hgo => ⟨fun ⟨j, hlt, hj⟩ => ⟨j, by omega, hj⟩, fun ⟨j, hlt, hj⟩ => ?_⟩
    rcases Nat.lt_or_eq_of_le (Nat.le_of_lt_succ hlt) with hlt' | rfl
    · exact ⟨j, hlt', hj⟩
    · rw [hstay e hj] at hgo
      cases hgo

/-- While the pair of slot `idx` is still to move, the new page has room and does not have it. -/
theorem Spreading.room (h : Spreading n goes full idx pages) (hfull : BucketInv n full) {e : K × V}
    (he : full.slot n idx = some e) : pages.2.isFull n = false ∧ e ∉ pages.2.pairs n := by
  have hno : e ∉ pages.2.pairs n := by
    rw [h.mem_split]
    rintro ⟨-, j, hlt, hj⟩
    have := hfull.slot_inj j idx e hj he
    omega
  refine ⟨?_, hno⟩
  -- with `e` the new page would still hold no more than the full page did
  have hsub : insert e (pages.2.pairs n) ⊆ full.pairs n := by
    intro x hx
    rw [mem_pairs]
    rcases Finset.mem_insert.mp hx with rfl | hx
    · exact ⟨idx, he⟩
    · obtain ⟨-, j, -, hj⟩ := (h.mem_split x).mp hx
      exact ⟨j, hj⟩
  have hcard := (Finset.card_le_card hsub).trans hfull.card_le
  rw [Finset.card_insert_of_notMem hno] at hcard
  cases hf : pages.2.isFull n with
  | false => rfl
  | true =>
    rw [h.split.isFull_iff_card] at hf
    omega

variable (hcmp : ∀ k k', cmp k k' = 0 ↔ k = k')
include hcmp

/-- The new page takes the pair of slot `idx`. -/
theorem Spreading.taken (h : Spreading n goes full idx pages) (hfull : BucketInv n full) {e : K × V}
    (he : full.slot n idx = some e) : (pages.2.insert n cmp e.1 e.2).1 = true := by
  obtain ⟨hroom, hno⟩ := h.room hfull he
  rcases h.split.insert_spec hcmp e.1 e.2 with ⟨-, hcontra⟩ | ⟨split', hins, -⟩
  · rcases hcontra with hf | hdup
    · rw [hroom] at hf
      cases hf
    · exact absurd hdup hno
  · rw [hins]

/-- The pair of slot `idx` moves. -/
theorem Spreading.move (h : Spreading n goes full idx pages) (hfull : BucketInv n full) {e : K × V}
    (he : full.slot n idx = some e) (hgo : goes e.1 = true) :
    Spreading n goes full (idx + 1) (pages.1.removeAt n idx, (pages.2.insert n cmp e.1 e.2).2) := by
  have hslot : pages.1.slot n idx = some e := (h.ahead idx (Nat.le_refl _)).trans he
  have hlt : idx < n := (slot_eq_some.mp hslot).1
  -- the new bucket has room, since the pairs come from as many slots
  obtain ⟨hroom, hno⟩ := h.room hfull he
  rcases h.split.insert_spec hcmp e.1 e.2 with ⟨-, hcontra⟩ | ⟨split', hins, hinv, -, -, hpairs⟩
  · rcases hcontra with hf | hdup
    · rw [hroom] at hf
      cases hf
    · exact absurd hdup hno
  rw [hins]
  refine ⟨h.bucket.removeAt hlt, hinv, fun j hj => ?_, fun x => ?_, fun x => ?_⟩
  · rw [slot_removeAt hlt, Function.update_of_ne (by omega)]
    exact h.ahead j (by omega)
  · -- the old bucket keeps what stays and what is still to come
    rw [h.bucket.pairs_removeAt hslot, Finset.mem_erase, h.mem_bucket]
    constructor
    · rintro ⟨hne, hmem, hs | ⟨j, hle, hj⟩⟩
      · exact ⟨hmem, .inl hs⟩
      · rcases Nat.lt_or_eq_of_le hle with hlt | rfl
        · exact ⟨hmem, .inr ⟨j, hlt, hj⟩⟩
        · rw [he] at hj
          cases hj
          exact absurd rfl hne
    · rintro ⟨hmem, hcase⟩
      refine ⟨?_, hmem, hcase.imp id fun ⟨j, hle, hj⟩ => ⟨j, by omega, hj⟩⟩
      rintro rfl
      rcases hcase with hs | ⟨j, hle, hj⟩
      · rw [hgo] at hs
        cases hs
      · have := hfull.slot_inj j idx x hj he
        omega
  · -- the new one has what moved so far, and this pair
    rw [hpairs, Finset.mem_insert, h.mem_split]
    constructor
    · rintro (rfl | ⟨hg, j, hlt, hj⟩)
      · exact ⟨hgo, idx, Nat.lt_succ_self _, he⟩
      · exact ⟨hg, j, by omega, hj⟩
    · rintro ⟨hg, j, hlt, hj⟩
      rcases Nat.lt_or_eq_of_le (Nat.le_of_lt_succ hlt) with hlt' | rfl
      · exact .inr ⟨hg, j, hlt', hj⟩
      · rw [he] at hj
        cases hj
        exact .inl rfl

/-- Slot by slot: every pair finds its place, and every `Insert` succeeds. -/
theorem Spreading.run (hfull : BucketInv n full) : ∀ (remaining idx : ℕ)
    (pages : HashTableBucketPage K V × HashTableBucketPage K V), idx + remaining = n →
    Spreading n goes full idx pages →
      Spreading n goes full n (spread n cmp goes remaining idx pages) ∧
        ∀ r ∈ spreadResults n cmp goes remaining idx pages, r = true := by
  intro remaining
  induction remaining with
  | zero =>
    intro idx pages hn h
    exact ⟨(show idx = n by omega) ▸ h, nofun⟩
  | succ remaining ih =>
    intro idx pages hn h
    have hidx : idx < n := by omega
    have hahead := h.ahead idx (Nat.le_refl _)
    unfold spread spreadResults
    by_cases hr : pages.1.isReadable n idx = true
    · -- the slot has not had its turn, so it shows what it showed on the full page
      have hslot : pages.1.slot n idx = some (pages.1.array idx) :=
        slot_eq_some.mpr ⟨hidx, hr, rfl⟩
      have hkey : pages.1.keyAt n idx = (pages.1.array idx).1 := if_pos hr
      have hvalue : pages.1.valueAt n idx = (pages.1.array idx).2 := if_pos hr
      rw [hkey, hvalue]
      by_cases hgo : goes (pages.1.array idx).1 = true
      · have hfrom := hahead.symm.trans hslot
        obtain ⟨hend, hall⟩ := ih (idx + 1) _ (by omega) (h.move hcmp hfull hfrom hgo)
        rw [if_pos ⟨hr, hgo⟩, if_pos ⟨hr, hgo⟩]
        exact ⟨hend, List.forall_mem_cons.mpr ⟨h.taken hcmp hfull hfrom, hall⟩⟩
      · rw [if_neg (fun hc => hgo hc.2), if_neg (fun hc => hgo hc.2)]
        refine ih (idx + 1) _ (by omega) (h.pass fun e he => ?_)
        rw [← hahead, hslot] at he
        cases he
        exact Bool.eq_false_iff.mpr hgo
    · rw [if_neg (fun hc => hr hc.1), if_neg (fun hc => hr hc.1)]
      refine ih (idx + 1) _ (by omega) (h.pass fun e he => ?_)
      rw [← hahead] at he
      exact absurd (slot_eq_some.mp he).2.1 hr

/-- **The loop leaves the pairs that stay on the old page and moves the others to the new one**, and no
    `Insert` in it fails. -/
theorem spread_noting (goes : K → Bool) (hfull : BucketInv n full) :
    ∃ bucket split, spread n cmp goes n 0 (full, zeroed) = (bucket, split) ∧ BucketInv n bucket ∧
      BucketInv n split ∧ bucket.pairs n = (full.pairs n).filter (fun e => goes e.1 = false) ∧
      split.pairs n = (full.pairs n).filter (fun e => goes e.1 = true) ∧
      ∀ r ∈ spreadResults n cmp goes n 0 (full, zeroed), r = true := by
  obtain ⟨h, hall⟩ := Spreading.run hcmp hfull n 0 (full, zeroed) (by omega)
    (show Spreading n goes full 0 (full, zeroed) from .start hfull)
  exact ⟨_, _, rfl, h.bucket, h.split, h.done.1, h.done.2, hall⟩

end BusTub
