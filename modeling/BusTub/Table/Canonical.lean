/-
  What `Insert`s build does not depend on their order.

  `SplitInsert` halves a bucket only for a pair that has no room in it, so no bucket is halved for
  `BUCKET_ARRAY_SIZE` pairs or fewer.  Where all pairs find room within nine bits this leaves no choice.

  1. **`Canonical P S`**: every depth in the directory is the least one possible for the set `S`, and every
     entry's bucket holds the pairs of `S` that agree with the entry in so many bits.

  2. **`insertions_canonical`**: inserting the pairs of a list one after another into a fresh table leaves the
     table canonical for their set, whatever the list's order.
-/
import BusTub.Lib.Crowds
import BusTub.Table.Regions
import BusTub.Table.Calls

set_option linter.unusedSectionVars false

namespace BusTub

open Command HashPartition HashTableDirectoryPage HashTableBucketPage

namespace HashTableType

variable {K V : Type} [Inhabited K] [Inhabited V] [DecidableEq K] [DecidableEq V]

/-- The number of a pair is its key's hash. -/
def hashOf (T : HashTableType K V) (e : K × V) : ℕ := T.hash e.1

/-- **The table that `S` alone determines.** -/
structure Canonical (T : HashTableType K V) (P : Pages K V) (dirId : PageId) (S : Finset (K × V)) : Prop where
  global : IsLeast {g | ∀ x, crowdAt T.hashOf S x g ≤ T.bucketArraySize} (T.directoryAt P dirId).globalDepth
  local_depth : ∀ i < (T.directoryAt P dirId).size,
    IsLeast {d | crowdAt T.hashOf S i d ≤ T.bucketArraySize} ((T.directoryAt P dirId).getLocalDepth i)
  shared : ∀ i < (T.directoryAt P dirId).size, ∀ j < (T.directoryAt P dirId).size,
    ((T.directoryAt P dirId).getBucketPageId i = (T.directoryAt P dirId).getBucketPageId j ↔
      i ≡ j [MOD 2 ^ (T.directoryAt P dirId).getLocalDepth j])
  pairs : ∀ i < (T.directoryAt P dirId).size, T.pairsAt P ((T.directoryAt P dirId).getBucketPageId i) =
    S.filter fun e => T.hash e.1 ≡ i [MOD 2 ^ (T.directoryAt P dirId).getLocalDepth i]

variable {T : HashTableType K V} {ids : ℕ → PageId} {b : Build} {dirId : PageId} {P P' : Pages K V}
  {A : Partition PageId} {S : Finset (K × V)} {fuel : ℕ}

/-! ## Buckets and crowds -/

section

variable (h : T.TableInv ids P dirId A S)
include h

/-- A bucket has the pairs that agree with its numbers. -/
theorem TableInv.pairsAt_eq (x : ℕ) :
    T.pairsAt P (A.page x) = S.filter fun e => T.hash e.1 ≡ x [MOD 2 ^ A.depth x] := by
  ext e
  rw [h.mem_pairsAt, Finset.mem_filter, A.page_eq_iff']

theorem TableInv.crowdAt_eq (x : ℕ) : crowdAt T.hashOf S x (A.depth x) = (T.pairsAt P (A.page x)).card :=
  congrArg Finset.card (h.pairsAt_eq x).symm

theorem TableInv.fits (x : ℕ) : crowdAt T.hashOf S x (A.depth x) ≤ T.bucketArraySize := by
  rw [h.crowdAt_eq]
  exact (h.bucket x).card_le

/-- **A thrifty table is canonical.** -/
theorem TableInv.canonical (hthrifty : A.Thrifty T.hashOf S T.bucketArraySize) : T.Canonical P dirId S := by
  have hpage : ∀ i < (T.directoryAt P dirId).size, (T.directoryAt P dirId).getBucketPageId i = A.page i :=
    fun i hi => h.shows_dir.page i (size_eq ▸ hi)
  have hdepth : ∀ i < (T.directoryAt P dirId).size, (T.directoryAt P dirId).getLocalDepth i = A.depth i :=
    fun i hi => h.shows_dir.depth i (size_eq ▸ hi)
  constructor
  · exact hthrifty.isLeast_all h.fits h.shows_dir.depth_le h.tight
  · intro i hi
    rw [hdepth i hi]
    exact hthrifty.isLeast (h.fits i)
  · intro i hi j hj
    rw [hpage i hi, hpage j hj, hdepth j hj]
    exact A.page_eq_iff' i j
  · intro i hi
    rw [hpage i hi, hdepth i hi]
    exact h.pairsAt_eq i

end

/-! ## `Insert` -/

section

variable (hcmp : ∀ k k', T.comparator k k' = 0 ↔ k = k') (hids : Function.Injective ids) {key : K} {value : V}
include hcmp

/-- A new pair is taken where there is room. -/
theorem TableInv.bucket_takes (h : T.TableInv ids P dirId A S) (hnew : (key, value) ∉ S)
    (hroom : (T.bucketAt P (A.page (T.hash key))).isFull T.bucketArraySize = false) :
    ((T.bucketAt P (A.page (T.hash key))).insert T.bucketArraySize T.comparator key value).1 = true ∧
    T.TableInv ids (P.write (A.page (T.hash key)) (.bucket
      ((T.bucketAt P (A.page (T.hash key))).insert T.bucketArraySize T.comparator key value).2)) dirId A
      (Insert.insert (key, value) S) := by
  obtain ⟨S', hinv, href⟩ := h.bucket_insert hcmp key value hroom
  have hlt := h.crowd_lt hroom
  generalize (T.bucketAt P (A.page (T.hash key))).insert T.bucketArraySize T.comparator key value = res
    at hinv href ⊢
  obtain ⟨r, c⟩ := res
  cases href with
  | inserted => exact ⟨rfl, hinv⟩
  | notInserted hno =>
    rcases hno with hmem | hge
    · exact absurd hmem hnew
    · omega

include hids

/-- **A split for a new pair is thrifty.** -/
theorem TableInv.split_thrifty (h : T.TableInv ids P dirId A S) (hnew : (key, value) ∉ S)
    (hthrifty : A.Thrifty T.hashOf (Insert.insert (key, value) S) T.bucketArraySize)
    (hfull : (T.bucketAt P (A.page (T.hash key))).isFull T.bucketArraySize = true)
    (hlt : A.depth (T.hash key) < 9) :
    ∃ P' A', Disciplined ids 3 (T.splitInsertRegion .debug dirId key value) P none P' ∧
      (T.TableInv ids P' dirId A' S ∧ A'.Thrifty T.hashOf (Insert.insert (key, value) S) T.bucketArraySize) ∧
      A'.depth (T.hash key) = A.depth (T.hash key) + 1 := by
  obtain ⟨-, -, hipage, hidepth⟩ := h.index_spec key rfl
  obtain ⟨P', results, hq, hrun, -, hinv, -⟩ :=
    h.splitInsertRegionNoting_split (Nat.le_refl 3) hids hcmp key value rfl hfull hlt
  have hmod := (A.page_eq_iff' _ _).mp hipage.symm
  refine ⟨P', _, ?_, ⟨hinv, hthrifty.split hq ?_⟩, (split_depth hq hipage.symm).trans (by rw [hidepth])⟩
  · rw [splitInsertRegion_noting]
    exact hrun.bind (.pure _ P')
  · -- the bucket is full without the new pair
    have hcard := (h.bucket (T.hash key)).isFull_iff_card.mp hfull
    have hcrowd : crowdAt T.hashOf S _ _ < crowdAt T.hashOf _ _ _ := crowdAt_lt_insert hnew hmod
    rw [hidepth] at hcrowd ⊢
    rw [← crowdAt_congr (hidepth ▸ hmod), h.crowdAt_eq] at hcrowd
    exact hcard ▸ hcrowd

/-- **`Insert` of a new pair that nine bits tell from a full bucket's.** -/
theorem TableInv.insert_thrifty (hfuel : 10 ≤ fuel) (h : T.TableInv ids P dirId A S)
    (hthrifty : A.Thrifty T.hashOf S T.bucketArraySize) (hnew : (key, value) ∉ S)
    (hfit : T.crowd (Insert.insert (key, value) S) key ≤ T.bucketArraySize) :
    ∃ P', Disciplined ids 3 (T.insert .debug dirId key value fuel) P true P' ∧
      ∃ A', T.TableInv ids P' dirId A' (Insert.insert (key, value) S) ∧
        A'.Thrifty T.hashOf (Insert.insert (key, value) S) T.bucketArraySize := by
  have hcap := Nat.le_refl 3
  suffices hrule : ∃ r P', Disciplined ids 3 (T.insert .debug dirId key value fuel) P r P' ∧
      (r = true ∧ ∃ A', T.TableInv ids P' dirId A' (Insert.insert (key, value) S) ∧
        A'.Thrifty T.hashOf (Insert.insert (key, value) S) T.bucketArraySize) by
    obtain ⟨r, P', hrun, rfl, hJ⟩ := hrule
    exact ⟨P', hrun, hJ⟩
  refine insert_rule (I := fun P A => T.TableInv ids P dirId A S ∧
      A.Thrifty T.hashOf (Insert.insert (key, value) S) T.bucketArraySize)
    (J := fun r P' => r = true ∧ ∃ A', T.TableInv ids P' dirId A' (Insert.insert (key, value) S) ∧
      A'.Thrifty T.hashOf (Insert.insert (key, value) S) T.bucketArraySize)
    (fun P₁ A₁ hI => hI.1.depth_le (T.hash key)) (fun P₁ A₁ hI => ?_) (fun P₁ A₁ hI => ?_) fuel P A
    ⟨h, hthrifty.mono (Finset.subset_insert _ _)⟩ (by omega)
  · cases hfull : (T.bucketAt P₁ (A₁.page (T.hash key))).isFull T.bucketArraySize with
    | false =>
      obtain ⟨hr, hinv⟩ := hI.1.bucket_takes hcmp hnew hfull
      exact .inl ⟨_, _, hI.1.insertRegion_room hcap key value hfull, hr, A₁, hinv, hI.2⟩
    | true => exact .inr (hI.1.insertRegion_full hcap key value hfull)
  · cases hfull : (T.bucketAt P₁ (A₁.page (T.hash key))).isFull T.bucketArraySize with
    | false =>
      obtain ⟨hr, hinv⟩ := hI.1.bucket_takes hcmp hnew hfull
      exact .inl ⟨_, _, hI.1.splitInsertRegion_room hcap key value hfull, hr, A₁, hinv, hI.2⟩
    | true =>
      rcases Nat.lt_or_eq_of_le (hI.1.depth_le (T.hash key)) with hlt | hnine
      · exact .inr (hI.1.split_thrifty hcmp hids hnew hI.2 hfull hlt)
      · -- a full bucket of nine bits would crowd the new pair out
        have hge := hI.1.crowd_ge hnine hfull
        have hmore : T.crowd S key < T.crowd (Insert.insert (key, value) S) key := crowdAt_lt_insert hnew rfl
        omega

/-- **Inserting a list of new pairs.** -/
theorem TableInv.inserts_thrifty (b : Build) (hfuel : 10 ≤ fuel) : ∀ (pairs : List (K × V)) {P : Pages K V}
    {A : Partition PageId} {S : Finset (K × V)}, T.TableInv ids P dirId A S →
    A.Thrifty T.hashOf S T.bucketArraySize → pairs.Nodup → (∀ e ∈ pairs, e ∉ S) →
    (∀ e ∈ pairs, T.crowd (S ∪ pairs.toFinset) e.1 ≤ T.bucketArraySize) →
    ∃ P', T.callsIdeal ids b dirId fuel (pairs.map fun e => .insert e.1 e.2) P =
        .ok (pairs.map fun _ => .flag true, P') ∧
      ∃ A', T.TableInv ids P' dirId A' (S ∪ pairs.toFinset) ∧
        A'.Thrifty T.hashOf (S ∪ pairs.toFinset) T.bucketArraySize := by
  intro pairs
  induction pairs with
  | nil =>
    intro P A S h hthrifty _ _ _
    rw [List.toFinset_nil, Finset.union_empty]
    exact ⟨P, rfl, A, h, hthrifty⟩
  | cons e pairs ih =>
    intro P A S h hthrifty hnodup hnew hfit
    obtain ⟨hnotin, hnodup⟩ := List.nodup_cons.mp hnodup
    have hunion : S ∪ (e :: pairs).toFinset = Insert.insert e S ∪ pairs.toFinset := by
      rw [List.toFinset_cons, Finset.union_insert, Finset.insert_union]
    rw [hunion] at hfit ⊢
    have hroom : T.crowd (Insert.insert e S) e.1 ≤ T.bucketArraySize :=
      (crowdAt_mono Finset.subset_union_left).trans (hfit e List.mem_cons_self)
    obtain ⟨P₁, hrun, A₁, hinv, hthrifty₁⟩ :=
      h.insert_thrifty hcmp hids hfuel hthrifty (hnew e List.mem_cons_self) hroom
    obtain ⟨Q, hcall, hcov⟩ :=
      Disciplined.callIdeal (hrun.bind (.pure (TableRet.flag true) P₁)) (method_follows b fuel (.insert e.1 e.2))
    have hnew₁ : ∀ e' ∈ pairs, e' ∉ Insert.insert e S := by
      intro e' he' hmem
      rcases Finset.mem_insert.mp hmem with rfl | hmem
      · exact hnotin he'
      · exact hnew e' (List.mem_cons_of_mem e he') hmem
    obtain ⟨P', hcalls, hrest⟩ :=
      ih (hinv.covers hcov) hthrifty₁ hnodup hnew₁ fun e' he' => hfit e' (List.mem_cons_of_mem e he')
    exact ⟨P', runCalls_cons hcall hcalls, hrest⟩

end

/-! ## A fresh table -/

/-- **What `Insert`s build is determined by the set of the pairs**: if they all find room within nine bits, every
    `Insert` returns true and the table is canonical for them. -/
theorem insertions_canonical (hcmp : ∀ k k', T.comparator k k' = 0 ↔ k = k') (hids : Function.Injective ids)
    (b : Build) (hfuel : 10 ≤ fuel) {P P₁ : Pages K V} {dir₀ : PageId} (hdel : ∀ p ∈ P.deleted, P.Created ids p)
    (hopen : callIdeal ids (T.construct b dir₀) P = .ok ((dirId, true), P₁)) {pairs : List (K × V)}
    (hnodup : pairs.Nodup) (hfit : ∀ e ∈ pairs, T.crowd pairs.toFinset e.1 ≤ T.bucketArraySize) :
    ∃ P', T.callsIdeal ids b dirId fuel (pairs.map fun e => .insert e.1 e.2) P₁ =
        .ok (pairs.map fun _ => .flag true, P') ∧ T.Canonical P' dirId pairs.toFinset := by
  have hinv := construct_spec (T := T) hids b hdel hopen
  obtain ⟨P', hcalls, A', hinv', hthrifty⟩ := hinv.inserts_thrifty hcmp hids b hfuel pairs
    (Partition.thrifty_whole _) hnodup (fun e _ => Finset.notMem_empty e) (by rwa [Finset.empty_union])
  rw [Finset.empty_union] at hinv' hthrifty
  exact ⟨P', hcalls, hinv'.canonical hthrifty⟩

theorem insertions_canonical_three : ∃ P₁ P',
    callIdeal countingIds (smallTable.construct .debug 0) noPages = .ok ((0, true), P₁) ∧
    smallTable.callsIdeal countingIds .debug 0 10 [.insert 4 7, .insert 6 7, .insert 8 7] P₁ =
      .ok ([.flag true, .flag true, .flag true], P') ∧
    smallTable.Canonical P' 0 {(4, 7), (6, 7), (8, 7)} := by
  obtain ⟨P₁, hopen⟩ := smallTable_opens .debug
  obtain ⟨P', hcalls, hcanonical⟩ := insertions_canonical smallTable_comparator countingIds_injective .debug
    (Nat.le_refl 10) (fun p hp => (by cases hp)) hopen (show [(4, 7), (6, 7), (8, 7)].Nodup by decide) (by decide)
  exact ⟨P₁, P', hopen, hcalls, hcanonical⟩

end HashTableType

end BusTub
