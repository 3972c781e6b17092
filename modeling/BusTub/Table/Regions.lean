/-
  What each latched region of the table does, over the checked store.

  1. **Runs.**  On every layout each region keeps the pin discipline, with three pins at most, and leaves
     a layout, whatever the buckets hold.  A region is run step by step on the states in between, whose
     pins are known one by one.

  2. **Pairs.**  Where the pairs are `S`, a split keeps them and gives the cell of the key one more bit
     (`TableInv.splitInsertRegion_split`), and so does a merge (`TableInv.merge_spec`).
-/
import BusTub.Table.Discipline
import BusTub.Table.Entries
import BusTub.Table.Spread
import BusTub.Table.Invariant

set_option linter.unusedSectionVars false

namespace BusTub

open Command HashPartition HashTableDirectoryPage HashTableBucketPage

namespace HashTableType

open TableProg

variable {K V : Type} [Inhabited K] [Inhabited V] [DecidableEq K] [DecidableEq V]
variable {T : HashTableType K V} {ids : ℕ → PageId} {cap : ℕ} (hcap : 3 ≤ cap)
variable {P : Pages K V} {dirId : PageId} {A : Partition PageId} {S : Finset (K × V)}

/-! ## Both pages fetched -/

/-- The directory is pinned by token `t`, a bucket by token `t + 1`. -/
def fetched (P : Pages K V) (ptr : PtrVar → Option ℕ) (t : ℕ) (dirId bid : PageId) : CheckedStore K V :=
  ⟨P, Function.update (Function.update ptr .dirPage (some t)) .bucketPage (some (t + 1)),
    [⟨t + 1, bid, false⟩, ⟨t, dirId, false⟩], t + 2⟩

section

variable (h : T.Layout ids P dirId A)
include hcap h

theorem Layout.fetchFor_run (key : K) (ptr : PtrVar → Option ℕ) (t : ℕ) :
    run (checkedMachine ids cap) (T.fetchFor .debug dirId key) ⟨P, ptr, [], t⟩ =
      .ok (A.page (T.hash key), fetched P ptr t dirId (A.page (T.hash key))) := by
  have h0 : 0 < cap := by omega
  have h1 : 1 < cap := by omega
  simp [fetchFor, fetchDirectoryPage, fetchBucketPage, loadDirectory, run_bind, checkedMachine,
    CheckedStore.holdOf, fetched, h.dir_created, h.created, h.page, h0, h1]

/-! ## Search and removal -/

theorem Layout.getValue_run (key : K) (result : List V) :
    Disciplined ids cap (T.getValue .debug dirId key result) P
      ((T.bucketAt P (A.page (T.hash key))).getValue T.bucketArraySize T.comparator key result) P := by
  intro ptr t
  refine ⟨(fetched P ptr t dirId (A.page (T.hash key))).ptr, t + 2, ?_⟩
  simp [getValue, run_bind, checkedMachine, h.fetchFor_run hcap, fetched, loadBucket, loadDirectory,
    unpinDirectory, assert_, CheckedStore.holdOf, getPageId, h.self, h.ne_dir]

theorem Layout.removeRegion_run (key : K) (value : V) :
    Disciplined ids cap (T.removeRegion .debug dirId key value) P
      ((T.bucketAt P (A.page (T.hash key))).remove T.bucketArraySize T.comparator key value).1
      (P.write (A.page (T.hash key)) (.bucket
        ((T.bucketAt P (A.page (T.hash key))).remove T.bucketArraySize T.comparator key value).2)) := by
  intro ptr t
  have hne := (h.ne_dir (T.hash key)).symm
  refine ⟨(fetched P ptr t dirId (A.page (T.hash key))).ptr, t + 2, ?_⟩
  simp [removeRegion, run_bind, checkedMachine, h.fetchFor_run hcap, fetched, loadBucket, storeBucket,
    loadDirectory, unpinDirectory, assert_, CheckedStore.holdOf, markWrote, getPageId,
    directoryAt_write_of_ne hne, h.self]

theorem Layout.getGlobalDepth_run :
    Disciplined ids cap (T.getGlobalDepth .debug dirId) P (T.directoryAt P dirId).globalDepth P := by
  intro ptr t
  have h0 : 0 < cap := by omega
  refine ⟨Function.update ptr .dirPage (some t), t + 1, ?_⟩
  simp [getGlobalDepth, fetchDirectoryPage, run_bind, checkedMachine, loadDirectory, assert_,
    CheckedStore.holdOf, HashTableDirectoryPage.getGlobalDepth, h.dir_created, h0]

theorem Layout.verifyIntegrity_run :
    Disciplined ids cap (T.verifyIntegrity .debug dirId) P () P := by
  intro ptr t
  have h0 : 0 < cap := by omega
  have hok := (h.shows_dir.dirInv h.global_le h.tight).verifyIntegrity_ok .debug
  refine ⟨Function.update ptr .dirPage (some t), t + 1, ?_⟩
  simp [verifyIntegrity, fetchDirectoryPage, run_bind, checkedMachine, loadDirectory, assert_,
    CheckedStore.holdOf, h.dir_created, h0, hok]

/-! ## Insertion into a bucket with room -/

theorem Layout.insertRegion_room (key : K) (value : V)
    (hroom : (T.bucketAt P (A.page (T.hash key))).isFull T.bucketArraySize = false) :
    Disciplined ids cap (T.insertRegion .debug dirId key value) P
      (some ((T.bucketAt P (A.page (T.hash key))).insert T.bucketArraySize T.comparator key value).1)
      (P.write (A.page (T.hash key)) (.bucket
        ((T.bucketAt P (A.page (T.hash key))).insert T.bucketArraySize T.comparator key value).2)) := by
  intro ptr t
  have hne := h.ne_dir (T.hash key)
  refine ⟨(fetched P ptr t dirId (A.page (T.hash key))).ptr, t + 2, ?_⟩
  simp [insertRegion, run_bind, checkedMachine, h.fetchFor_run hcap, fetched, loadBucket, storeBucket,
    loadDirectory, unpinDirectory, assert_, CheckedStore.holdOf, markWrote, getPageId, hroom,
    directoryAt_write_of_ne hne.symm, hne, h.self]

theorem Layout.insertRegion_full (key : K) (value : V)
    (hfull : (T.bucketAt P (A.page (T.hash key))).isFull T.bucketArraySize = true) :
    Disciplined ids cap (T.insertRegion .debug dirId key value) P none P := by
  intro ptr t
  refine ⟨(fetched P ptr t dirId (A.page (T.hash key))).ptr, t + 2, ?_⟩
  simp [insertRegion, run_bind, checkedMachine, h.fetchFor_run hcap, fetched, loadBucket, loadDirectory,
    unpinDirectory, assert_, CheckedStore.holdOf, getPageId, hfull, h.self]

theorem Layout.splitInsertRegion_room (key : K) (value : V)
    (hroom : (T.bucketAt P (A.page (T.hash key))).isFull T.bucketArraySize = false) :
    Disciplined ids cap (T.splitInsertRegion .debug dirId key value) P
      (some ((T.bucketAt P (A.page (T.hash key))).insert T.bucketArraySize T.comparator key value).1)
      (P.write (A.page (T.hash key)) (.bucket
        ((T.bucketAt P (A.page (T.hash key))).insert T.bucketArraySize T.comparator key value).2)) := by
  intro ptr t
  have hne := h.ne_dir (T.hash key)
  refine ⟨(fetched P ptr t dirId (A.page (T.hash key))).ptr, t + 2, ?_⟩
  simp [splitInsertRegion, run_bind, checkedMachine, h.fetchFor_run hcap, fetched, loadBucket, storeBucket,
    loadDirectory, unpinDirectory, assert_, CheckedStore.holdOf, markWrote, getPageId, hroom,
    directoryAt_write_of_ne hne.symm, hne, h.self]

/-! ## Splitting a full bucket -/

/-- The directory cannot grow: the key has nine bits. -/
theorem Layout.splitInsertRegion_stuck (key : K) (value : V)
    (hfull : (T.bucketAt P (A.page (T.hash key))).isFull T.bucketArraySize = true)
    (hnine : A.depth (T.hash key) = 9) :
    Disciplined ids cap (T.splitInsertRegion .debug dirId key value) P (some false) P := by
  have hidx : T.keyToDirectoryIndex key (T.directoryAt P dirId) < 2 ^ (T.directoryAt P dirId).globalDepth := by
    rw [keyToDirectoryIndex_eq]
    exact Nat.mod_lt _ (Nat.two_pow_pos _)
  have hdepth : A.depth (T.keyToDirectoryIndex key (T.directoryAt P dirId)) = 9 := by
    rw [keyToDirectoryIndex_eq, A.depth_mod (h.shows_dir.depth_le _), hnine]
  rcases deepen_spec (b := .debug) h.shows_dir h.global_le hidx hdepth with
    ⟨hstuck, -⟩ | ⟨d', -, -, hlt', hle', -⟩
  · intro ptr t
    refine ⟨(fetched P ptr t dirId (A.page (T.hash key))).ptr, t + 2, ?_⟩
    simp [splitInsertRegion, run_bind, checkedMachine, h.fetchFor_run hcap, fetched, loadBucket, loadDirectory,
      unpinDirectory, assert_, CheckedStore.holdOf, getPageId, hfull, hstuck, h.self, h.ne_dir]
  · omega

end

section redistribute

variable (T ids cap) {bid q : PageId} {d : HashTableDirectoryPage}

/-- The directory, the old bucket and the new one are pinned by tokens `t`, `t + 1` and `t + 2`. -/
def threePins (P : Pages K V) (ptr : PtrVar → Option ℕ) (t : ℕ) (dirId bid q : PageId) (w₁ w₂ : Bool) :
    CheckedStore K V :=
  ⟨P, Function.update (fetched P ptr t dirId bid).ptr .splitBucketPage (some (t + 2)),
    [⟨t + 2, q, w₂⟩, ⟨t + 1, bid, w₁⟩, ⟨t, dirId, true⟩], t + 3⟩

/-- `redistribute` is `spread` on the two buckets, and touches nothing else. -/
theorem redistribute_run (hbd : bid ≠ dirId) (hqd : q ≠ dirId) (hqb : q ≠ bid) :
    ∀ (remaining idx : ℕ) (P : Pages K V), T.directoryAt P dirId = d → ∃ P',
      (∀ ptr t w₁ w₂, ∃ w₁' w₂', run (checkedMachine ids cap) (T.redistributeNoting bid remaining idx)
        (threePins P ptr t dirId bid q w₁ w₂) =
          .ok (spreadResults T.bucketArraySize T.comparator (fun k => T.keyToPageId k d ≠ bid) remaining idx
            (T.bucketAt P bid, T.bucketAt P q), threePins P' ptr t dirId bid q w₁' w₂')) ∧
      P'.next = P.next ∧ P'.deleted = P.deleted ∧ (∀ p, p ≠ bid → p ≠ q → P'.mem p = P.mem p) ∧
      spread T.bucketArraySize T.comparator (fun k => T.keyToPageId k d ≠ bid) remaining idx
        (T.bucketAt P bid, T.bucketAt P q) = (T.bucketAt P' bid, T.bucketAt P' q) := by
  intro remaining
  induction remaining with
  | zero => exact fun idx P _ => ⟨P, fun _ _ w₁ w₂ => ⟨w₁, w₂, rfl⟩, rfl, rfl, fun _ _ _ => rfl, rfl⟩
  | succ remaining ih =>
    intro idx P hd
    by_cases hr : (T.bucketAt P bid).isReadable T.bucketArraySize idx = true
    · by_cases hgo : T.keyToPageId ((T.bucketAt P bid).keyAt T.bucketArraySize idx) d ≠ bid
      · -- the pair of this slot moves
        obtain ⟨P', hrun, hnext, hdel, hmem, hspread⟩ := ih (idx + 1)
          ((P.write q (.bucket ((T.bucketAt P q).insert T.bucketArraySize T.comparator
            ((T.bucketAt P bid).keyAt T.bucketArraySize idx)
            ((T.bucketAt P bid).valueAt T.bucketArraySize idx)).2)).write bid
            (.bucket ((T.bucketAt P bid).removeAt T.bucketArraySize idx)))
          (by rw [directoryAt_write_of_ne hbd.symm, directoryAt_write_of_ne hqd.symm, hd])
        rw [bucketAt_write_self, bucketAt_write_of_ne hqb, bucketAt_write_self] at hrun hspread
        refine ⟨P', fun ptr t w₁ w₂ => ?_, hnext, hdel, fun p h1 h2 => ?_, ?_⟩
        · obtain ⟨w₁', w₂', hrun'⟩ := hrun ptr t true true
          simp only [threePins, fetched] at hrun'
          refine ⟨w₁', w₂', ?_⟩
          simp [redistributeNoting, threePins, fetched, run_bind, checkedMachine, loadBucket, storeBucket,
            loadDirectory, CheckedStore.holdOf, markWrote, hr, hd, hgo, hrun', spreadResults]
        · rw [hmem p h1 h2]
          simp [Pages.write_mem, h1, h2]
        · rw [← hspread]
          simp [spread, hr, hgo]
      · -- no pair moves from this slot: the pages stay as they are
        obtain ⟨P', hrun, hnext, hdel, hmem, hspread⟩ := ih (idx + 1) P hd
        rw [not_not] at hgo
        refine ⟨P', fun ptr t w₁ w₂ => ?_, hnext, hdel, hmem, ?_⟩
        · obtain ⟨w₁', w₂', hrun'⟩ := hrun ptr t w₁ w₂
          simp only [threePins, fetched] at hrun'
          refine ⟨w₁', w₂', ?_⟩
          simp [redistributeNoting, threePins, fetched, run_bind, checkedMachine, loadBucket, loadDirectory,
            CheckedStore.holdOf, hr, hd, hgo, hrun', spreadResults]
        · rw [← hspread]
          simp [spread, hgo]
    · obtain ⟨P', hrun, hnext, hdel, hmem, hspread⟩ := ih (idx + 1) P hd
      refine ⟨P', fun ptr t w₁ w₂ => ?_, hnext, hdel, hmem, ?_⟩
      · obtain ⟨w₁', w₂', hrun'⟩ := hrun ptr t w₁ w₂
        simp only [threePins, fetched] at hrun'
        refine ⟨w₁', w₂', ?_⟩
        simp [redistributeNoting, threePins, fetched, run_bind, checkedMachine, loadBucket, CheckedStore.holdOf,
          hr, hrun', spreadResults]
      · rw [← hspread]
        simp [spread, hr]

end redistribute

section

variable (hids : Function.Injective ids)
include hcap hids

omit hcap hids in
/-- The entry of a key shows the key's page and depth. -/
theorem Layout.index_spec (h : T.Layout ids P dirId A) (key : K) {i : ℕ}
    (hidx : T.keyToDirectoryIndex key (T.directoryAt P dirId) = i) :
    i = T.hash key % 2 ^ (T.directoryAt P dirId).globalDepth ∧
      i < 2 ^ (T.directoryAt P dirId).globalDepth ∧ A.page i = A.page (T.hash key) ∧
      A.depth i = A.depth (T.hash key) := by
  rw [keyToDirectoryIndex_eq] at hidx
  have hle := h.shows_dir.depth_le (T.hash key)
  refine ⟨hidx.symm, ?_, ?_, ?_⟩
  · rw [← hidx]
    exact Nat.mod_lt _ (Nat.two_pow_pos _)
  · rw [← hidx]
    exact A.page_mod hle
  · rw [← hidx]
    exact A.depth_mod hle

omit hcap hids in
/-- **The directory of a split**: it gets room for one more bit, and half of the cell its new page. -/
theorem Layout.directory_split (h : T.Layout ids P dirId A) {i e : ℕ}
    (hi : i < 2 ^ (T.directoryAt P dirId).globalDepth) (he : A.depth i = e) (hlt : e < 9) {q : PageId}
    (hq : ∀ x, A.page x ≠ q) :
    ∃ d₁ d₂, deepen .debug (T.directoryAt P dirId) i = .ok (some d₁) ∧
      repoint .debug d₁ i (d₁.getSplitImageIndex i) q = .ok d₂ ∧ d₂.Shows (A.split i q hq) ∧
      d₂.globalDepth ≤ 9 ∧ Tight d₂.globalDepth (A.split i q hq) ∧ d₂.pageId = dirId := by
  rcases deepen_spec (b := .debug) h.shows_dir h.global_le hi he with
    ⟨-, hnine⟩ | ⟨d, hdeep, hshows, hltd, hglobal, hilt, hpage, hdepth⟩
  · omega
  obtain ⟨d₂, hrepoint, hshows₂, hglobal₂, hpage₂⟩ := repoint_spec (b := .debug) hshows hilt he hltd hq
  refine ⟨_, d₂, hdeep, hrepoint, hshows₂, hglobal₂ ▸ hglobal, ?_, hpage₂.trans (hpage.trans h.self)⟩
  rw [hglobal₂]
  rcases hdepth with hsame | hmore
  · rw [hsame] at hltd ⊢
    exact Tight.split hq h.tight (by omega)
  · refine .inr ⟨i, ?_⟩
    rw [split_depth hq rfl, he, hmore]

/-- **A full bucket is split**: its cell is halved, and its slots are spread over the old page and the
    new one. -/
theorem Layout.splitInsertRegionNoting_split (h : T.Layout ids P dirId A) (key : K) (value : V) {i : ℕ}
    (hidx : T.keyToDirectoryIndex key (T.directoryAt P dirId) = i)
    (hfull : (T.bucketAt P (A.page (T.hash key))).isFull T.bucketArraySize = true)
    (hlt : A.depth (T.hash key) < 9) :
    ∃ (P' : Pages K V) (hq : ∀ x, A.page x ≠ ids P.next),
      Disciplined ids cap (T.splitInsertRegionNoting .debug dirId key value) P
        (none, spreadResults T.bucketArraySize T.comparator
          (fun k => T.keyToPageId k (T.directoryAt P' dirId) ≠ A.page (T.hash key)) T.bucketArraySize 0
          (T.bucketAt P (A.page (T.hash key)), HashTableBucketPage.zeroed)) P' ∧
      T.Layout ids P' dirId (A.split i (ids P.next) hq) ∧ P'.next = P.next + 1 ∧ P'.deleted = P.deleted ∧
      (∀ p, p ≠ dirId → p ≠ A.page (T.hash key) → p ≠ ids P.next → P'.mem p = P.mem p) ∧
      spread T.bucketArraySize T.comparator
        (fun k => T.keyToPageId k (T.directoryAt P' dirId) ≠ A.page (T.hash key)) T.bucketArraySize 0
        (T.bucketAt P (A.page (T.hash key)), HashTableBucketPage.zeroed) =
          (T.bucketAt P' (A.page (T.hash key)), T.bucketAt P' (ids P.next)) := by
  obtain ⟨-, hilt, hipage, hidepth⟩ := h.index_spec key hidx
  have hq : ∀ x, A.page x ≠ ids P.next := fun x => h.created_ne hids (h.created x)
  have hqd : ids P.next ≠ dirId := (h.created_ne hids h.dir_created).symm
  obtain ⟨d₁, d₂, hdeep, hrepoint, hshows₂, hglobal₂, htight₂, hself₂⟩ := h.directory_split hilt hidepth hlt hq
  -- the pages before the loop, and after it
  generalize hP₂ : (((P.write dirId (.directory d₁)).create ids).write
    dirId (.directory d₂) : Pages K V) = P₂
  have hdir₂ : T.directoryAt P₂ dirId = d₂ := hP₂ ▸ directoryAt_write_self
  have hbucket₂ : ∀ x, T.bucketAt P₂ (A.page x) = T.bucketAt P (A.page x) := by
    intro x
    rw [← hP₂, bucketAt_write_of_ne (h.ne_dir x), bucketAt_create_of_ne (by exact hq x),
      bucketAt_write_of_ne (h.ne_dir x)]
  have hsplit₂ : T.bucketAt P₂ (ids P.next) = HashTableBucketPage.zeroed := by
    rw [← hP₂, bucketAt_write_of_ne hqd]
    exact bucketAt_create_self
  have hempty : (HashTableBucketPage.zeroed : HashTableBucketPage K V).isEmpty T.bucketArraySize = true := by
    rw [BucketInv.zeroed.isEmpty_iff, pairs_zeroed]
  obtain ⟨P', hrun, hnext, hdel, hmem, hspread⟩ := redistribute_run T ids cap
    (h.ne_dir (T.hash key)) hqd (hq (T.hash key)).symm T.bucketArraySize 0 P₂ hdir₂
  rw [hbucket₂, hsplit₂] at hrun hspread
  have hmem₂ : ∀ p, p ≠ dirId → p ≠ ids P.next → P₂.mem p = P.mem p := by
    intro p h1 h2
    rw [← hP₂]
    simp [Pages.write_mem, Pages.create_mem, h1, h2]
  have hdir' : T.directoryAt P' dirId = d₂ :=
    (congrArg T.asDirectory (hmem dirId (h.ne_dir _).symm hqd.symm)).trans hdir₂
  have hnext' : P'.next = P.next + 1 := hnext.trans (hP₂ ▸ rfl)
  have hdel' : P'.deleted = P.deleted := hdel.trans (hP₂ ▸ rfl)
  refine ⟨P', hq, ?_, ?_, hnext', hdel', fun p h1 h2 h3 => (hmem p h2 h3).trans (hmem₂ p h1 h3), ?_⟩
  · -- the region itself, command by command
    intro ptr t
    have h2 : 2 < cap := by omega
    have hne := h.ne_dir (T.hash key)
    obtain ⟨w₁', w₂', hrun'⟩ := hrun ptr t false false
    refine ⟨(threePins P ptr t dirId (A.page (T.hash key)) (ids P.next) false false).ptr, t + 3, ?_⟩
    simp only [threePins, fetched] at hrun'
    simp [splitInsertRegionNoting, run_bind, checkedMachine, h.fetchFor_run hcap, fetched, threePins, loadBucket,
      loadDirectory, storeDirectory, unpinDirectory, assert_, CheckedStore.holdOf, markWrote, getPageId, hfull,
      hidx, hdeep, hrepoint, h2, hP₂, hrun', hbucket₂, hsplit₂, hempty, hdir', hself₂, hne, hqd,
      (hq (T.hash key)).symm]
  · exact h.split hids hq hnext' hdel' (hdir' ▸ hself₂)
      (hdir' ▸ hshows₂) (hdir' ▸ hglobal₂) (hdir' ▸ htight₂)
  · rw [hdir']
    exact hspread

theorem Layout.splitInsertRegion_split (h : T.Layout ids P dirId A) (key : K) (value : V)
    (hfull : (T.bucketAt P (A.page (T.hash key))).isFull T.bucketArraySize = true)
    (hlt : A.depth (T.hash key) < 9) :
    ∃ P' A', Disciplined ids cap (T.splitInsertRegion .debug dirId key value) P none P' ∧
      T.Layout ids P' dirId A' ∧ A'.depth (T.hash key) = A.depth (T.hash key) + 1 := by
  obtain ⟨P', hq, hrun, hlayout, -⟩ := h.splitInsertRegionNoting_split hcap hids key value rfl hfull hlt
  obtain ⟨-, -, hipage, hidepth⟩ := h.index_spec key rfl
  refine ⟨P', _, ?_, hlayout, ?_⟩
  · rw [splitInsertRegion_noting]
    exact hrun.bind (.pure _ P')
  · rw [split_depth hq hipage.symm, hidepth]

/-- **A split keeps the pairs**: those that the directory no longer finds on the old page are on the new
    one.  No `Insert` of the loop fails. -/
theorem TableInv.splitInsertRegionNoting_split (h : T.TableInv ids P dirId A S)
    (hcmp : ∀ k k', T.comparator k k' = 0 ↔ k = k') (key : K) (value : V) {i : ℕ}
    (hidx : T.keyToDirectoryIndex key (T.directoryAt P dirId) = i)
    (hfull : (T.bucketAt P (A.page (T.hash key))).isFull T.bucketArraySize = true)
    (hlt : A.depth (T.hash key) < 9) :
    ∃ (P' : Pages K V) (results : List Bool) (hq : ∀ x, A.page x ≠ ids P.next),
      Disciplined ids cap (T.splitInsertRegionNoting .debug dirId key value) P (none, results) P' ∧
      (∀ r ∈ results, r = true) ∧ T.TableInv ids P' dirId (A.split i (ids P.next) hq) S ∧
      P'.next = P.next + 1 ∧
      (∀ p, p ≠ dirId → p ≠ A.page (T.hash key) → p ≠ ids P.next → P'.mem p = P.mem p) ∧
      (∀ e, e ∈ T.pairsAt P' (A.page (T.hash key)) ↔ e ∈ T.pairsAt P (A.page (T.hash key)) ∧
        (A.split i (ids P.next) hq).page (T.hash e.1) = A.page (T.hash key)) ∧
      ∀ e, e ∈ T.pairsAt P' (ids P.next) ↔ e ∈ T.pairsAt P (A.page (T.hash key)) ∧
        (A.split i (ids P.next) hq).page (T.hash e.1) ≠ A.page (T.hash key) := by
  obtain ⟨-, -, hipage, -⟩ := h.index_spec key hidx
  obtain ⟨P', hq, hrun, hlayout, hnext, -, hmem, hspread⟩ :=
    h.toLayout.splitInsertRegionNoting_split hcap hids key value hidx hfull hlt
  obtain ⟨bucket, split, hspread', hbucket, hsplit, hstay, hgo, hall⟩ := spread_noting hcmp
    (fun k => T.keyToPageId k (T.directoryAt P' dirId) ≠ A.page (T.hash key)) (h.bucket (T.hash key))
  rw [hspread'] at hspread
  obtain ⟨rfl, rfl⟩ := Prod.mk.inj hspread
  have hold : ∀ e, e ∈ T.pairsAt P' (A.page (T.hash key)) ↔ e ∈ T.pairsAt P (A.page (T.hash key)) ∧
      (A.split i (ids P.next) hq).page (T.hash e.1) = A.page (T.hash key) := by
    intro e
    unfold pairsAt
    rw [hstay, Finset.mem_filter, hlayout.page]
    simp
  have hnew : ∀ e, e ∈ T.pairsAt P' (ids P.next) ↔ e ∈ T.pairsAt P (A.page (T.hash key)) ∧
      (A.split i (ids P.next) hq).page (T.hash e.1) ≠ A.page (T.hash key) := by
    intro e
    unfold pairsAt
    rw [hgo, Finset.mem_filter, hlayout.page]
    simp
  refine ⟨P', _, hq, hrun, hall, ?_, hnext, hmem, hold, hnew⟩
  rw [← hipage] at hmem hold hnew hbucket
  exact h.split hq hlayout (fun p h1 h2 h3 => congrArg T.asBucket (hmem p h1 h2 h3)) hbucket hsplit hold hnew

/-- **A split keeps the pairs**, and gives the key one more bit. -/
theorem TableInv.splitInsertRegion_split (h : T.TableInv ids P dirId A S)
    (hcmp : ∀ k k', T.comparator k k' = 0 ↔ k = k') (key : K) (value : V)
    (hfull : (T.bucketAt P (A.page (T.hash key))).isFull T.bucketArraySize = true)
    (hlt : A.depth (T.hash key) < 9) :
    ∃ P' A', Disciplined ids cap (T.splitInsertRegion .debug dirId key value) P none P' ∧
      T.TableInv ids P' dirId A' S ∧ A'.depth (T.hash key) = A.depth (T.hash key) + 1 := by
  obtain ⟨P', results, hq, hrun, -, hinv, -⟩ :=
    h.splitInsertRegionNoting_split hcap hids hcmp key value rfl hfull hlt
  obtain ⟨-, -, hipage, hidepth⟩ := h.index_spec key rfl
  refine ⟨P', _, ?_, hinv, ?_⟩
  · rw [splitInsertRegion_noting]
    exact hrun.bind (.pure _ P')
  · rw [split_depth hq hipage.symm, hidepth]

end

/-! ## Merging an empty bucket -/

section

variable (h : T.Layout ids P dirId A)
include hcap h

/-- There is nothing to merge. -/
theorem Layout.merge_keep (key : K) (hkeep : A.depth (T.hash key) = 0 ∨
      (T.bucketAt P (A.page (T.hash key))).isEmpty T.bucketArraySize = false) :
    Disciplined ids cap (T.merge .debug dirId key) P () P := by
  intro ptr t
  refine ⟨(fetched P ptr t dirId (A.page (T.hash key))).ptr, t + 2, ?_⟩
  simp [merge, run_bind, checkedMachine, h.fetchFor_run hcap, fetched, loadBucket, loadDirectory, unpinDirectory,
    assert_, CheckedStore.holdOf, getPageId, h.localDepth, hkeep, h.self]

variable {i s e : ℕ} {key : K} (hidx : T.keyToDirectoryIndex key (T.directoryAt P dirId) = i)
  (himage : (T.directoryAt P dirId).getSplitImageIndex i = s)
  (hslt : s < 2 ^ (T.directoryAt P dirId).globalDepth)
  (hempty : (T.bucketAt P (A.page (T.hash key))).isEmpty T.bucketArraySize = true)
  (hdepth : A.depth (T.hash key) = e + 1) (hne : A.page s ≠ A.page (T.hash key))
include hidx himage hslt hempty hdepth hne

/-- The sibling has another depth. -/
theorem Layout.merge_uneven (huneven : A.depth s ≠ e + 1) :
    Disciplined ids cap (T.merge .debug dirId key) P () P := by
  intro ptr t
  have hlocal := h.localDepth key
  rw [hidx, hdepth] at hlocal
  have hpage : (T.directoryAt P dirId).getBucketPageId s = A.page s := h.shows_dir.page s hslt
  have hsdepth : (T.directoryAt P dirId).getLocalDepth s = A.depth s := h.shows_dir.depth s hslt
  refine ⟨(fetched P ptr t dirId (A.page (T.hash key))).ptr, t + 2, ?_⟩
  simp [merge, run_bind, checkedMachine, h.fetchFor_run hcap, fetched, loadBucket, loadDirectory, unpinDirectory,
    assert_, CheckedStore.holdOf, getPageId, hidx, himage, hlocal, hempty, hpage, hsdepth, hne, huneven.symm,
    h.self]

/-- The cell is joined to its sibling. -/
theorem Layout.merge_join {d₁ d₂ : HashTableDirectoryPage} (heven : A.depth s = e + 1)
    (hjoin : joinEntries .debug (T.directoryAt P dirId) i s (A.page s) = .ok d₁)
    (hshrink : shrink .debug d₁ (d₁.getGlobalDepth + 1) = .ok d₂) (hself : d₂.pageId = dirId) :
    Disciplined ids cap (T.merge .debug dirId key) P ()
      ((P.delete (A.page (T.hash key))).write dirId (.directory d₂)) := by
  intro ptr t
  have hlocal := h.localDepth key
  rw [hidx, hdepth] at hlocal
  have hpage : (T.directoryAt P dirId).getBucketPageId s = A.page s := h.shows_dir.page s hslt
  have hsdepth : (T.directoryAt P dirId).getLocalDepth s = A.depth s := h.shows_dir.depth s hslt
  have hnd := (h.ne_dir (T.hash key)).symm
  refine ⟨(fetched P ptr t dirId (A.page (T.hash key))).ptr, t + 2, ?_⟩
  simp [merge, run_bind, checkedMachine, h.fetchFor_run hcap, fetched, loadBucket, loadDirectory, storeDirectory,
    unpinDirectory, assert_, CheckedStore.holdOf, markWrote, getPageId, hidx, himage, hlocal, hempty, hpage,
    hsdepth, hne, heven, hjoin, hshrink, hself, hnd]

omit hcap hidx himage hslt hempty hdepth hne in
/-- The split image of an entry flips its highest local bit. -/
theorem Layout.splitImage {i e : ℕ} (hilt : i < 2 ^ (T.directoryAt P dirId).globalDepth)
    (hidepth : A.depth i = e + 1) : (T.directoryAt P dirId).getSplitImageIndex i = i ^^^ 2 ^ e ∧
      i ^^^ 2 ^ e < 2 ^ (T.directoryAt P dirId).globalDepth := by
  have hle := h.shows_dir.depth_le i
  refine ⟨?_, Nat.xor_lt_two_pow hilt (Nat.pow_lt_pow_right (by omega) (by omega))⟩
  rw [getSplitImageIndex, getLocalHighBit_succ ((h.shows_dir.depth i hilt).trans hidepth)]

omit hidx himage hslt hempty hdepth hne in
/-- **`Merge` keeps its pages, or joins an empty bucket's cell to that of its split image**, and shrinks
    the directory to the depth `d.globalDepth` of its deepest cell. -/
theorem Layout.merge_cases (key : K) {i s : ℕ} (hidx : T.keyToDirectoryIndex key (T.directoryAt P dirId) = i)
    (himage : (T.directoryAt P dirId).getSplitImageIndex i = s) :
    (Disciplined ids cap (T.merge .debug dirId key) P () P ∧
      ¬ ∃ e, A.depth i = e + 1 ∧ A.depth s = e + 1 ∧
        (T.bucketAt P (A.page (T.hash key))).isEmpty T.bucketArraySize = true) ∨
    ∃ (e : ℕ) (hi : A.depth i = e + 1) (hs : A.depth s = e + 1)
      (hsib : s ≡ i + 2 ^ e [MOD 2 ^ (e + 1)]) (d : HashTableDirectoryPage),
      Disciplined ids cap (T.merge .debug dirId key) P () ((P.delete (A.page i)).write dirId (.directory d)) ∧
      T.Layout ids ((P.delete (A.page i)).write dirId (.directory d)) dirId (A.merge i s e hi hs hsib) ∧
      (T.bucketAt P (A.page (T.hash key))).isEmpty T.bucketArraySize = true ∧
      s < 2 ^ (T.directoryAt P dirId).globalDepth ∧
      d.globalDepth ≤ (T.directoryAt P dirId).globalDepth ∧
      ∀ j < 2 ^ (T.directoryAt P dirId).globalDepth, d.localDepths j = (A.merge i s e hi hs hsib).depth j := by
  obtain ⟨-, hilt, hipage, hidepth⟩ := h.index_spec key hidx
  by_cases hkeep : A.depth (T.hash key) = 0 ∨
      (T.bucketAt P (A.page (T.hash key))).isEmpty T.bucketArraySize = false
  · refine .inl ⟨h.merge_keep hcap key hkeep, fun ⟨e, hi, _, hempty⟩ => ?_⟩
    rcases hkeep with hzero | hsome
    · omega
    · rw [hempty] at hsome
      cases hsome
  obtain ⟨hpos, hempty⟩ := not_or.mp hkeep
  rw [Bool.not_eq_false] at hempty
  obtain ⟨e, hdepth⟩ := Nat.exists_eq_succ_of_ne_zero hpos
  rw [hdepth] at hidepth
  -- the entry of `key` and its split image
  obtain ⟨hs, hslt⟩ := h.splitImage hilt hidepth
  rw [himage] at hs
  rw [← hs] at hslt
  have hsib : s ≡ i + 2 ^ e [MOD 2 ^ (e + 1)] := hs ▸ xor_two_pow_modEq i e
  have hne : A.page s ≠ A.page (T.hash key) := hipage ▸ sibling_page_ne hidepth hsib
  by_cases heven : A.depth s = e + 1
  · obtain ⟨d₁, hjoin, hshows₁, hglobal₁, hpage₁⟩ :=
      joinEntries_spec (b := .debug) h.shows_dir h.global_le hilt hslt hidepth heven hsib
    obtain ⟨d₂, hshrink, hshows₂, hglobal₂, htight₂, hpage₂⟩ :=
      shrink_spec (b := .debug) (d₁.getGlobalDepth + 1) d₁ hshows₁ (hglobal₁ ▸ h.global_le) (Nat.lt_succ_self _)
    have hself : d₂.pageId = dirId := hpage₂.trans (hpage₁.trans h.self)
    rw [hglobal₁] at hglobal₂
    refine .inr ⟨e, hidepth, heven, hsib, d₂, ?_, ?_, hempty, hslt, hglobal₂, fun j hj => ?_⟩
    · rw [hipage]
      exact h.merge_join hcap hidx himage hslt hempty hdepth hne heven hjoin hshrink hself
    · exact h.join hidepth heven hsib hself hshows₂ (hglobal₂.trans h.global_le) htight₂
    · rw [shrink_eq _ _ _ hshrink]
      exact hshows₁.depth j (hglobal₁.symm ▸ hj)
  · refine .inl ⟨h.merge_uneven hcap hidx himage hslt hempty hdepth hne heven, fun ⟨e', hi', hs', _⟩ => ?_⟩
    omega

omit hidx himage hslt hempty hdepth hne in
/-- What `merge_cases` says of the layout. -/
theorem Layout.merge_run (key : K) : Disciplined ids cap (T.merge .debug dirId key) P () P ∨
    ∃ (i s e : ℕ) (hi : A.depth i = e + 1) (hs : A.depth s = e + 1)
      (hsib : s ≡ i + 2 ^ e [MOD 2 ^ (e + 1)]) (d : HashTableDirectoryPage),
      Disciplined ids cap (T.merge .debug dirId key) P () ((P.delete (A.page i)).write dirId (.directory d)) ∧
      T.Layout ids ((P.delete (A.page i)).write dirId (.directory d)) dirId (A.merge i s e hi hs hsib) ∧
      A.page i = A.page (T.hash key) ∧
      (T.bucketAt P (A.page (T.hash key))).isEmpty T.bucketArraySize = true := by
  rcases h.merge_cases hcap key rfl rfl with ⟨hrun, -⟩ | ⟨e, hi, hs, hsib, d, hrun, hlayout, hempty, -⟩
  · exact .inl hrun
  · obtain ⟨-, -, hipage, -⟩ := h.index_spec key rfl
    exact .inr ⟨_, _, e, hi, hs, hsib, d, hrun, hlayout, hipage, hempty⟩

end

include hcap in
/-- **`Merge` leaves the pairs alone.** -/
theorem TableInv.merge_spec (h : T.TableInv ids P dirId A S) (key : K) : ∃ P' A',
    Disciplined ids cap (T.merge .debug dirId key) P () P' ∧ T.TableInv ids P' dirId A' S := by
  rcases h.toLayout.merge_run hcap key with hrun | ⟨i, s, e, hi, hs, hsib, d, hrun, hlayout, hipage, hempty⟩
  · exact ⟨P, A, hrun, h⟩
  · refine ⟨_, A.merge i s e hi hs hsib, hrun, h.join hi hs hsib ?_ hlayout⟩
    rw [hipage]
    exact (h.bucket (T.hash key)).isEmpty_iff.mp hempty

end HashTableType

end BusTub
