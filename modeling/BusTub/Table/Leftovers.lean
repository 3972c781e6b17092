/-
  Buckets that a merge leaves behind.

  `Merge` looks at the bucket of its key and at no other, and joins it once: it does not merge recursively.
  An empty bucket whose split image has the same local depth may stay behind in two ways: a split in vain
  leaves one beside the key's bucket, and joining two buckets may give an empty third one a split image of
  its own depth.

  1. **`SparesMerges`** rules out these two, call by call, in terms of the state before the call.

  2. **`none_left_behind`**: in a run whose calls all meet it no state has a mergeable bucket; where a call
     does not meet it, there is one after the call.

  3. **`left_behind`**: four calls that leave one.
-/
import BusTub.Lib.Siblings
import BusTub.Table.Rounds

set_option linter.unusedSectionVars false

namespace BusTub

open Command HashPartition HashTableDirectoryPage HashTableBucketPage

namespace HashTableType

variable {K V : Type} [Inhabited K] [Inhabited V] [DecidableEq K] [DecidableEq V]

/-- Entry `j` has local depth above 0 and names an empty bucket whose split image has the same depth. -/
def MergeableAt (T : HashTableType K V) (P : Pages K V) (dirId : PageId) (j : ℕ) : Prop :=
  j < (T.directoryAt P dirId).size ∧ 0 < (T.directoryAt P dirId).getLocalDepth j ∧
  (T.bucketAt P ((T.directoryAt P dirId).getBucketPageId j)).isEmpty T.bucketArraySize = true ∧
  (T.directoryAt P dirId).getLocalDepth ((T.directoryAt P dirId).getSplitImageIndex j) =
    (T.directoryAt P dirId).getLocalDepth j

instance (T : HashTableType K V) (P : Pages K V) (dirId : PageId) (j : ℕ) :
    Decidable (T.MergeableAt P dirId j) := by
  unfold MergeableAt; infer_instance

/-- **What must not be the case before a call**, lest it leave a mergeable bucket.

    `Insert`: the key's bucket is full, with bits left, and all its pairs agree with the key in nine bits.

    `Remove`: the key's bucket has no other pair and a split image of the same depth, so that they are
    joined; the joined bucket has a split image of its own depth, and that one is empty. -/
def SparesMerges (T : HashTableType K V) (P : Pages K V) (dirId : PageId) : TableCall K V → Prop
  | .insert key _ =>
    let page := T.keyToPageId key (T.directoryAt P dirId)
    ¬ ((T.bucketAt P page).isFull T.bucketArraySize = true ∧ T.keyDepth P dirId key < 9 ∧
      ∀ e ∈ T.pairsAt P page, T.hash e.1 ≡ T.hash key [MOD 2 ^ 9])
  | .remove key value =>
    let dir := T.directoryAt P dirId
    let i := T.keyToDirectoryIndex key dir
    ¬ ∃ f, dir.getLocalDepth i = f + 2 ∧ dir.getLocalDepth (i ^^^ 2 ^ (f + 1)) = f + 2 ∧
      (∀ e ∈ T.pairsAt P (dir.getBucketPageId i), e = (key, value)) ∧
      dir.getLocalDepth (i ^^^ 2 ^ f) = f + 1 ∧ T.pairsAt P (dir.getBucketPageId (i ^^^ 2 ^ f)) = ∅
  | .getValue _ _ => True

/-- The depth that the condition on `Remove` asks for can be looked up. -/
instance (T : HashTableType K V) (P : Pages K V) (dirId : PageId) :
    (c : TableCall K V) → Decidable (T.SparesMerges P dirId c)
  | .insert _ _ => inferInstanceAs (Decidable (¬ (_ ∧ _ ∧ _)))
  | .remove key value =>
    let dir := T.directoryAt P dirId
    let i := T.keyToDirectoryIndex key dir
    let joins (f : ℕ) : Prop := dir.getLocalDepth i = f + 2 ∧ dir.getLocalDepth (i ^^^ 2 ^ (f + 1)) = f + 2 ∧
      (∀ e ∈ T.pairsAt P (dir.getBucketPageId i), e = (key, value)) ∧
      dir.getLocalDepth (i ^^^ 2 ^ f) = f + 1 ∧ T.pairsAt P (dir.getBucketPageId (i ^^^ 2 ^ f)) = ∅
    decidable_of_iff (¬ joins (dir.getLocalDepth i - 2))
      (not_congr ⟨fun h => ⟨_, h⟩, fun ⟨_, h⟩ => (Nat.sub_eq_of_eq_add h.1).symm ▸ h⟩)
  | .getValue _ _ => isTrue trivial

variable {T : HashTableType K V} {ids : ℕ → PageId} {b : Build} {dirId : PageId} {P P' : Pages K V}
  {A A' : Partition PageId} {S S' : Finset (K × V)} {fuel : ℕ}

/-! ## Mergeable buckets and mergeable cells -/

/-- The hash values of the pairs. -/
def occupied (T : HashTableType K V) (S : Finset (K × V)) : Set ℕ := {n | ∃ e ∈ S, T.hash e.1 = n}

theorem TableInv.vacant_iff (h : T.TableInv ids P dirId A S) (x : ℕ) :
    A.Vacant (T.occupied S) x ↔ T.pairsAt P (A.page x) = ∅ := by
  rw [Finset.eq_empty_iff_forall_notMem]
  constructor
  · intro hv e he
    obtain ⟨hmem, hpage⟩ := (h.mem_pairsAt x e).mp he
    exact hv _ ⟨e, hmem, rfl⟩ hpage
  · rintro hno n ⟨e, he, rfl⟩ hpage
    exact hno e ((h.mem_pairsAt x e).mpr ⟨he, hpage⟩)

/-- An entry is mergeable if its cell is. -/
theorem TableInv.mergeableAt_iff (h : T.TableInv ids P dirId A S) {j : ℕ}
    (hj : j < 2 ^ (T.directoryAt P dirId).globalDepth) :
    T.MergeableAt P dirId j ↔ A.Mergeable (T.occupied S) j := by
  have hpage : (T.directoryAt P dirId).getBucketPageId j = A.page j := h.shows_dir.page j hj
  have hdepth : (T.directoryAt P dirId).getLocalDepth j = A.depth j := h.shows_dir.depth j hj
  unfold MergeableAt
  rw [hpage, hdepth, size_eq, (h.bucket j).isEmpty_iff]
  constructor
  · rintro ⟨-, hpos, hempty, hsame⟩
    obtain ⟨e, he⟩ := Nat.exists_eq_succ_of_ne_zero (Nat.ne_of_gt hpos)
    obtain ⟨himage, hslt⟩ := h.splitImage hj he
    rw [himage, getLocalDepth, h.shows_dir.depth _ hslt] at hsame
    exact ⟨e, he, hsame.trans he, (h.vacant_iff j).mpr hempty⟩
  · rintro ⟨e, he, hsame, hv⟩
    obtain ⟨himage, hslt⟩ := h.splitImage hj he
    refine ⟨hj, by omega, (h.vacant_iff j).mp hv, ?_⟩
    rw [himage, getLocalDepth, h.shows_dir.depth _ hslt]
    exact hsame.trans he.symm

/-- **The directory has no mergeable entry if the partition is tidy.** -/
theorem TableInv.tidy_iff (h : T.TableInv ids P dirId A S) :
    (∀ j, ¬ T.MergeableAt P dirId j) ↔ A.Tidy (T.occupied S) := by
  constructor
  · intro hno x hx
    have hlt : x % 2 ^ (T.directoryAt P dirId).globalDepth < 2 ^ (T.directoryAt P dirId).globalDepth :=
      Nat.mod_lt _ (Nat.two_pow_pos _)
    refine hno _ ((h.mergeableAt_iff hlt).mpr (hx.congr ?_))
    exact (A.page_mod (h.shows_dir.depth_le x)).symm
  · intro htidy j hj
    have hlt := hj.1
    rw [size_eq] at hlt
    exact htidy j ((h.mergeableAt_iff hlt).mp hj)

/-- A bucket is full if it has the pairs of a full one. -/
theorem TableInv.full_of_subset (h : T.TableInv ids P dirId A S) (h' : T.TableInv ids P' dirId A' S) {x y : ℕ}
    (hfull : (T.bucketAt P (A.page x)).isFull T.bucketArraySize = true)
    (hsub : ∀ e ∈ S, A.page (T.hash e.1) = A.page x → A'.page (T.hash e.1) = A'.page y) :
    (T.bucketAt P' (A'.page y)).isFull T.bucketArraySize = true := by
  have hsubset : T.pairsAt P (A.page x) ⊆ T.pairsAt P' (A'.page y) := by
    intro e he
    obtain ⟨hmem, hpage⟩ := (h.mem_pairsAt x e).mp he
    exact (h'.mem_pairsAt y e).mpr ⟨hmem, hsub e hmem hpage⟩
  have hcard := Finset.card_le_card hsubset
  have hn : (T.pairsAt P (A.page x)).card = T.bucketArraySize := (h.bucket x).isFull_iff_card.mp hfull
  rw [hn] at hcard
  exact (h'.bucket y).isFull_iff_card.mpr (Nat.le_antisymm (h'.bucket y).card_le hcard)

/-! ## `Insert` -/

/-- Between the rounds: `P₁` and `A₁` have come from `P` and `A` by splits for `key`.  Only the key's cell and
    its sibling can be mergeable, and the sibling only if the key's bucket is full again. -/
structure Refilling (T : HashTableType K V) (ids : ℕ → PageId) (P : Pages K V) (dirId : PageId)
    (A : Partition PageId) (S : Finset (K × V)) (key : K) (P₁ : Pages K V) (A₁ : Partition PageId) : Prop where
  inv : T.TableInv ids P₁ dirId A₁ S
  beside : A₁.TidyBeside (T.occupied S) (T.hash key)
  own_or_full : ∀ x, A₁.Mergeable (T.occupied S) x → A₁.page x = A₁.page (T.hash key) ∨
    (T.bucketAt P₁ (A₁.page (T.hash key))).isFull T.bucketArraySize = true
  start_or_split : (P₁ = P ∧ A₁ = A) ∨
    ((T.bucketAt P (A.page (T.hash key))).isFull T.bucketArraySize = true ∧
      ∃ e, A₁.depth (T.hash key) = e + 1 ∧ A.depth (T.hash key) ≤ e ∧ A₁.depth (T.hash key ^^^ 2 ^ e) = e + 1)

section refilling

variable {key : K} {P₁ : Pages K V} {A₁ : Partition PageId}

theorem Refilling.depth_le (hs : T.Refilling ids P dirId A S key P₁ A₁) :
    A.depth (T.hash key) ≤ A₁.depth (T.hash key) := by
  rcases hs.start_or_split with ⟨-, rfl⟩ | ⟨-, e, he, hle, -⟩
  · exact Nat.le_refl _
  · omega

/-- Whoever is in the key's cell was in it before. -/
theorem Refilling.own (hs : T.Refilling ids P dirId A S key P₁ A₁) {x : ℕ}
    (hx : A₁.page x = A₁.page (T.hash key)) : A.page x = A.page (T.hash key) :=
  (A.page_eq_iff' _ _).mpr (modEq_of_le hs.depth_le ((A₁.page_eq_iff' _ _).mp hx))

/-- **One more round.** -/
theorem Refilling.step (hcmp : ∀ k k', T.comparator k k' = 0 ↔ k = k') (hids : Function.Injective ids)
    (h : T.TableInv ids P dirId A S) (value : V) (hs : T.Refilling ids P dirId A S key P₁ A₁)
    (hfull : (T.bucketAt P₁ (A₁.page (T.hash key))).isFull T.bucketArraySize = true)
    (hlt : A₁.depth (T.hash key) < 9) :
    ∃ P' A', Disciplined ids 3 (T.splitInsertRegion .debug dirId key value) P₁ none P' ∧
      T.Refilling ids P dirId A S key P' A' ∧ A'.depth (T.hash key) = A₁.depth (T.hash key) + 1 := by
  obtain ⟨-, -, hipage, hidepth⟩ := hs.inv.index_spec key rfl
  obtain ⟨P', results, hq, hrun, -, hinv, -⟩ :=
    hs.inv.splitInsertRegionNoting_split (Nat.le_refl 3) hids hcmp key value rfl hfull hlt
  have hdepth := split_depth hq hipage.symm
  -- the cell that is halved is the key's own, so its hashes gain a bit
  have hsplit : ∀ x, x ≡ T.hash key [MOD 2 ^ A₁.depth (T.hash key)] →
      (A₁.split (T.keyToDirectoryIndex key (T.directoryAt P₁ dirId)) (ids P₁.next) hq).depth x =
        A₁.depth (T.hash key) + 1 := by
    intro x hx
    rw [split_depth hq (((A₁.page_eq_iff' _ _).mpr hx).trans hipage.symm), hidepth]
  have hbeside := hs.beside.split hq hipage.symm
  rw [hidepth] at hdepth
  generalize A₁.split (T.keyToDirectoryIndex key (T.directoryAt P₁ dirId)) (ids P₁.next) hq = A'
    at hinv hdepth hsplit hbeside
  refine ⟨P', A', ?_, ⟨hinv, hbeside, fun x hx => ?_, .inr ⟨?_, A₁.depth (T.hash key), hdepth, hs.depth_le, ?_⟩⟩,
    hdepth⟩
  · -- the round itself
    rw [splitInsertRegion_noting]
    exact hrun.bind (.pure _ P')
  · -- if the other half is vacant, the key's half has all the pairs
    by_cases hown : A'.page x = A'.page (T.hash key)
    · exact .inl hown
    obtain ⟨e, hk, hxe, hmod⟩ := hbeside x hx
    obtain ⟨-, -, -, hv⟩ := hx
    refine .inr (hs.inv.full_of_subset hinv hfull fun p hp hpage => ?_)
    by_contra hother
    apply hv (T.hash p.1) ⟨p, hp, rfl⟩
    rw [A'.page_eq_iff'] at hown hother ⊢
    rw [hk] at hown hother
    rw [hxe]
    have hpmod := (A₁.page_eq_iff' _ _).mp hpage
    obtain rfl : e = A₁.depth (T.hash key) := by omega
    have hx' := sibling_of_not_modEq hmod hown
    have hp' := sibling_of_not_modEq hpmod hother
    have hsame := sibling_congr (hp'.trans hx'.symm)
    rwa [sibling_sibling, sibling_sibling] at hsame
  · rcases hs.start_or_split with ⟨rfl, rfl⟩ | ⟨hstart, -⟩
    · exact hfull
    · exact hstart
  · exact hsplit _ (sibling_low _ _)

/-- All pairs of the key's bucket agree with the key in nine bits, and there is no room for another. -/
def Crowded (T : HashTableType K V) (P : Pages K V) (A : Partition PageId) (key : K) : Prop :=
  (T.bucketAt P (A.page (T.hash key))).isFull T.bucketArraySize = true ∧ A.depth (T.hash key) < 9 ∧
    ∀ e ∈ T.pairsAt P (A.page (T.hash key)), T.hash e.1 ≡ T.hash key [MOD 2 ^ 9]

/-- Splits do not help a crowded bucket. -/
theorem Refilling.full_of_crowded (h : T.TableInv ids P dirId A S) (hs : T.Refilling ids P dirId A S key P₁ A₁)
    (hcrowd : T.Crowded P A key) : (T.bucketAt P₁ (A₁.page (T.hash key))).isFull T.bucketArraySize = true := by
  obtain ⟨hfull, -, hall⟩ := hcrowd
  refine h.full_of_subset hs.inv hfull fun e he hpage => ?_
  apply (A₁.page_eq_iff' _ _).mpr
  exact modEq_of_le (hs.inv.depth_le _) (hall e ((h.mem_pairsAt _ e).mpr ⟨he, hpage⟩))

/-- The pair is inserted, or is there already: nothing mergeable is left. -/
theorem Refilling.taken (h : T.TableInv ids P dirId A S) (hs : T.Refilling ids P dirId A S key P₁ A₁) {value : V}
    (hroom : (T.bucketAt P₁ (A₁.page (T.hash key))).isFull T.bucketArraySize = false) {r : TableRet V}
    (href : T.RefStep S (.insert key value) r S') : A₁.Tidy (T.occupied S') ∧ ¬ T.Crowded P A key := by
  refine ⟨?_, fun hcrowd => ?_⟩
  · have htaken : S ⊆ S' ∧ (key, value) ∈ S' := by
      cases href with
      | inserted => exact ⟨Finset.subset_insert _ _, Finset.mem_insert_self _ _⟩
      | notInserted hno =>
        refine ⟨Finset.Subset.refl S, hno.resolve_right fun hge => ?_⟩
        have := hs.inv.crowd_lt hroom
        omega
    refine Partition.tidy_of_taken (H := T.occupied S) ?_ ⟨_, htaken.2, rfl⟩ fun x hx =>
      (hs.own_or_full x hx).resolve_right ?_
    · rintro n ⟨e, he, rfl⟩
      exact ⟨e, htaken.1 he, rfl⟩
    · rw [hroom]
      exact Bool.noConfusion
  · rw [hs.full_of_crowded h hcrowd] at hroom
    cases hroom

/-- **Turned away with nine bits**: after splits in vain the vacant sibling can be merged. -/
theorem Refilling.turnedAway (h : T.TableInv ids P dirId A S) (htidy : A.Tidy (T.occupied S))
    (hs : T.Refilling ids P dirId A S key P₁ A₁)
    (hfull : (T.bucketAt P₁ (A₁.page (T.hash key))).isFull T.bucketArraySize = true)
    (hnine : A₁.depth (T.hash key) = 9) : A₁.Tidy (T.occupied S) ↔ ¬ T.Crowded P A key := by
  rcases hs.start_or_split with ⟨rfl, rfl⟩ | ⟨hstart, e, he, hle, hsib⟩
  · refine ⟨fun _ hcrowd => ?_, fun _ => htidy⟩
    have := hcrowd.2.1
    omega
  obtain rfl : e = 8 := by omega
  -- the full bucket of nine bits has all that the old one had
  have hall : ∀ p ∈ T.pairsAt P (A.page (T.hash key)), T.hash p.1 ≡ T.hash key [MOD 2 ^ 9] := by
    have hsubset : T.pairsAt P₁ (A₁.page (T.hash key)) ⊆ T.pairsAt P (A.page (T.hash key)) := by
      intro p hp
      obtain ⟨hmem, hpage⟩ := (hs.inv.mem_pairsAt _ p).mp hp
      exact (h.mem_pairsAt _ p).mpr ⟨hmem, hs.own hpage⟩
    have hn := (h.bucket (T.hash key)).isFull_iff_card.mp hstart
    have hn₁ := (hs.inv.bucket (T.hash key)).isFull_iff_card.mp hfull
    have hsame := Finset.eq_of_subset_of_card_le hsubset (hn.trans hn₁.symm).le
    intro p hp
    rw [← hsame] at hp
    have hmod := (A₁.page_eq_iff' _ _).mp ((hs.inv.mem_pairsAt _ p).mp hp).2
    rwa [hnine] at hmod
  refine ⟨fun hno => absurd ⟨8, hsib, ?_, ?_⟩ (hno (T.hash key ^^^ 2 ^ 8)), fun hno => absurd ⟨hstart, by omega, hall⟩ hno⟩
  · rw [sibling_sibling]
    exact he
  · rintro n ⟨p, hp, rfl⟩ hpage
    rw [A₁.page_eq_iff', hsib] at hpage
    -- a pair of the sibling would have been in the old bucket
    have hlow : T.hash p.1 ≡ T.hash key [MOD 2 ^ 8] := (modEq_of_le (Nat.le_succ 8) hpage).trans (sibling_low _ _)
    have hold : A.page (T.hash p.1) = A.page (T.hash key) := (A.page_eq_iff' _ _).mpr (modEq_of_le hle hlow)
    have hnine' := hall p ((h.mem_pairsAt _ p).mpr ⟨hp, hold⟩)
    exact not_modEq_pow_both (hpage.symm.trans hnine') (xor_two_pow_modEq _ 8)

end refilling

/-- **`Insert` leaves nothing mergeable unless the key's bucket was crowded.** -/
theorem TableInv.insert_tidy (hcmp : ∀ k k', T.comparator k k' = 0 ↔ k = k') (hids : Function.Injective ids)
    (hfuel : 10 ≤ fuel) (h : T.TableInv ids P dirId A S) (htidy : A.Tidy (T.occupied S)) (key : K) (value : V) :
    ∃ r P', Disciplined ids 3 (T.insert .debug dirId key value fuel) P r P' ∧
      ∃ A' S', T.TableInv ids P' dirId A' S' ∧ (A'.Tidy (T.occupied S') ↔ ¬ T.Crowded P A key) := by
  have hcap := Nat.le_refl 3
  refine insert_rule (I := T.Refilling ids P dirId A S key)
    (J := fun _ P' => ∃ A' S', T.TableInv ids P' dirId A' S' ∧ (A'.Tidy (T.occupied S') ↔ ¬ T.Crowded P A key))
    (fun P₁ A₁ hs => hs.inv.depth_le (T.hash key)) (fun P₁ A₁ hs => ?_) (fun P₁ A₁ hs => ?_) fuel P A
    ⟨h, htidy.beside _, fun x hx => absurd hx (htidy x), .inl ⟨rfl, rfl⟩⟩ (by omega)
  · cases hfull : (T.bucketAt P₁ (A₁.page (T.hash key))).isFull T.bucketArraySize with
    | false =>
      obtain ⟨S', hinv, href⟩ := hs.inv.bucket_insert hcmp key value hfull
      obtain ⟨htidy', hno⟩ := hs.taken h hfull href
      exact .inl ⟨_, _, hs.inv.insertRegion_room hcap key value hfull, A₁, S', hinv, iff_of_true htidy' hno⟩
    | true => exact .inr (hs.inv.insertRegion_full hcap key value hfull)
  · cases hfull : (T.bucketAt P₁ (A₁.page (T.hash key))).isFull T.bucketArraySize with
    | false =>
      obtain ⟨S', hinv, href⟩ := hs.inv.bucket_insert hcmp key value hfull
      obtain ⟨htidy', hno⟩ := hs.taken h hfull href
      exact .inl ⟨_, _, hs.inv.splitInsertRegion_room hcap key value hfull, A₁, S', hinv, iff_of_true htidy' hno⟩
    | true =>
      rcases Nat.lt_or_eq_of_le (hs.inv.depth_le (T.hash key)) with hlt | hnine
      · exact .inr (hs.step hcmp hids h value hfull hlt)
      · exact .inl ⟨false, P₁, hs.inv.splitInsertRegion_stuck hcap key value hfull hnine, A₁, S, hs.inv,
          hs.turnedAway h htidy hfull hnine⟩

/-! ## `Remove` -/

/-- Joining the cell of `i` leaves its sibling a vacant sibling. -/
def Cascades (A : Partition PageId) (H H' : Set ℕ) (i : ℕ) : Prop :=
  ∃ f, A.depth i = f + 2 ∧ A.depth (i ^^^ 2 ^ (f + 1)) = f + 2 ∧ A.Vacant H' i ∧
    A.depth (i ^^^ 2 ^ f) = f + 1 ∧ A.Vacant H (i ^^^ 2 ^ f)

/-- **What `Merge` leaves**, when only the key's cell can be mergeable. -/
theorem TableInv.merge_tidy (h : T.TableInv ids P dirId A S) {key : K} {i : ℕ}
    (hidx : T.keyToDirectoryIndex key (T.directoryAt P dirId) = i)
    (hbeside : ∀ x, A.Mergeable (T.occupied S) x → A.page x = A.page i)
    (hocc : ∀ e, A.depth i = e + 1 → A.depth (i ^^^ 2 ^ e) = e + 1 → ¬ A.Vacant (T.occupied S) (i ^^^ 2 ^ e)) :
    ∃ P' A', Disciplined ids 3 (T.merge .debug dirId key) P () P' ∧ T.TableInv ids P' dirId A' S ∧
      (A'.Tidy (T.occupied S) ↔ ¬ Cascades A (T.occupied S) (T.occupied S) i) := by
  obtain ⟨-, hilt, hipage, hidepth⟩ := h.index_spec key hidx
  have hempty : (T.bucketAt P (A.page (T.hash key))).isEmpty T.bucketArraySize = true ↔
      A.Vacant (T.occupied S) i := by
    rw [h.vacant_iff, hipage]
    exact (h.bucket (T.hash key)).isEmpty_iff
  rcases h.merge_cases (Nat.le_refl 3) key hidx rfl with
    ⟨hrun, hno⟩ | ⟨e, hi, hs, hsib, d, hrun, hlayout, hvacant, -⟩
  · -- the key's cell is not mergeable either
    have hown : ¬ A.Mergeable (T.occupied S) i := by
      rintro ⟨e, hi, hsib, hv⟩
      refine hno ⟨e, hi, ?_, hempty.mpr hv⟩
      rw [(h.splitImage hilt hi).1]
      exact hsib
    refine ⟨P, A, hrun, h, iff_of_true (fun x hx => hown (hx.congr (hbeside x hx))) ?_⟩
    rintro ⟨f, hi, hsib, hv, -⟩
    exact hown ⟨f + 1, hi, hsib, hv⟩
  · have himage := (h.splitImage hilt hi).1
    have hpairs : T.pairsAt P (A.page i) = ∅ := (h.vacant_iff i).mp (hempty.mp hvacant)
    refine ⟨_, _, hrun, h.join hi hs hsib hpairs hlayout, ?_⟩
    rw [Partition.tidy_merge_iff hi hs hsib hbeside (himage.symm ▸ hocc e hi (himage ▸ hs))]
    refine not_congr ⟨fun ⟨f, hf, hdepth, hv⟩ => ?_, fun ⟨f, hf, _, _, hdepth, hv⟩ => ?_⟩
    · subst hf
      exact ⟨f, hi, himage ▸ hs, hempty.mp hvacant, hdepth, hv⟩
    · exact ⟨f, by omega, hdepth, hv⟩

/-- A pair outside a cell may leave without being missed there. -/
theorem vacant_erase {key : K} {x : ℕ} (value : V) (hne : A.page (T.hash key) ≠ A.page x) :
    A.Vacant (T.occupied (S.erase (key, value))) x ↔ A.Vacant (T.occupied S) x := by
  constructor
  · rintro hv n ⟨e, he, rfl⟩ hpage
    refine hv _ ⟨e, Finset.mem_erase.mpr ⟨?_, he⟩, rfl⟩ hpage
    rintro rfl
    exact hne hpage
  · rintro hv n ⟨e, he, rfl⟩ hpage
    exact hv _ ⟨e, Finset.mem_of_mem_erase he, rfl⟩ hpage

theorem RefStep.remove_eq {key : K} {value : V} {r : TableRet V} (h : T.RefStep S (.remove key value) r S') :
    S' = S.erase (key, value) := by
  cases h with
  | removed => rfl
  | notRemoved hno => exact (Finset.erase_eq_of_notMem hno).symm

/-- **`Remove` leaves nothing mergeable unless joining the key's bucket leaves it an empty split image.** -/
theorem TableInv.remove_tidy (hcmp : ∀ k k', T.comparator k k' = 0 ↔ k = k') (h : T.TableInv ids P dirId A S)
    (htidy : A.Tidy (T.occupied S)) (key : K) (value : V) {i : ℕ}
    (hidx : T.keyToDirectoryIndex key (T.directoryAt P dirId) = i) :
    ∃ r P', Disciplined ids 3 (T.remove .debug dirId key value) P r P' ∧
      ∃ A' S', T.TableInv ids P' dirId A' S' ∧ (A'.Tidy (T.occupied S') ↔
        ¬ Cascades A (T.occupied S) (T.occupied (S.erase (key, value))) i) := by
  obtain ⟨-, hilt, hipage, hidepth⟩ := h.index_spec key hidx
  obtain ⟨S', hinv, href⟩ := h.bucket_remove hcmp key value
  have hrun := h.removeRegion_run (Nat.le_refl 3) key value
  obtain rfl := href.remove_eq
  -- the cells on either side of a bit are apart
  have hapart : ∀ f, f < A.depth i → A.page (T.hash key) ≠ A.page (i ^^^ 2 ^ f) := by
    intro f hf hpage
    rw [← hipage, A.page_eq_iff] at hpage
    exact not_modEq_pow_both (modEq_of_le hf hpage.symm) (xor_two_pow_modEq i f)
  -- nothing but the key's cell has become mergeable, and not its sibling
  have hbeside : ∀ x, A.Mergeable (T.occupied (S.erase (key, value))) x → A.page x = A.page i := by
    intro x hx
    rw [hipage]
    refine htidy.leave (fun n hn => ?_) hx
    obtain ⟨e, he, rfl⟩ := hn
    by_cases hkey : e = (key, value)
    · exact .inr (by rw [hkey])
    · exact .inl ⟨e, Finset.mem_erase.mpr ⟨hkey, he⟩, rfl⟩
  have hocc : ∀ e, A.depth i = e + 1 → A.depth (i ^^^ 2 ^ e) = e + 1 →
      ¬ A.Vacant (T.occupied (S.erase (key, value))) (i ^^^ 2 ^ e) := by
    intro e hi hs hv
    refine htidy (i ^^^ 2 ^ e) ⟨e, hs, ?_, (vacant_erase value (hapart e (by omega))).mp hv⟩
    rw [sibling_sibling]
    exact hi
  obtain ⟨P', A', hmerge, hinv', htidy'⟩ := hinv.merge_tidy
    (by rw [directoryAt_write_of_ne (h.ne_dir _).symm, hidx]) hbeside hocc
  refine ⟨_, P', hrun.bind (hmerge.bind (.pure _ P')), A', _, hinv', htidy'.trans (not_congr ?_)⟩
  constructor
  · rintro ⟨f, hi, hs, hv, hdepth, hvacant⟩
    exact ⟨f, hi, hs, hv, hdepth, (vacant_erase value (hapart f (by omega))).mp hvacant⟩
  · rintro ⟨f, hi, hs, hv, hdepth, hvacant⟩
    exact ⟨f, hi, hs, hv, hdepth, (vacant_erase value (hapart f (by omega))).mpr hvacant⟩

/-! ## Runs of one caller -/

/-- **One caller's calls**, each of them admitted by `allowed`, over the table whose directory is at `dirId`. -/
def callsOne (T : HashTableType K V) (ids : ℕ → PageId) (b : Build) (dirId : PageId) (fuel : ℕ) (P₁ : Pages K V)
    (allowed : Pages K V → TableCall K V → Prop) : StepSystem (Pages K V) (TableCall K V) where
  init P := P = P₁
  step P c P' := allowed P c ∧ ∃ r, callIdeal ids (T.method b dirId fuel c) P = .ok (r, P')

/-- The condition, read off the partition. -/
theorem TableInv.sparesMerges_insert (h : T.TableInv ids P dirId A S) (key : K) (value : V) :
    T.SparesMerges P dirId (.insert key value) ↔ ¬ T.Crowded P A key := by
  show (¬ _) ↔ _
  rw [h.page, h.keyDepth_eq]
  rfl

theorem TableInv.sparesMerges_remove (h : T.TableInv ids P dirId A S) (key : K) (value : V) {i : ℕ}
    (hidx : T.keyToDirectoryIndex key (T.directoryAt P dirId) = i) :
    T.SparesMerges P dirId (.remove key value) ↔
      ¬ Cascades A (T.occupied S) (T.occupied (S.erase (key, value))) i := by
  obtain ⟨-, hilt, hipage, hidepth⟩ := h.index_spec key hidx
  have hread : ∀ j, j < 2 ^ (T.directoryAt P dirId).globalDepth →
      (T.directoryAt P dirId).getLocalDepth j = A.depth j := h.shows_dir.depth
  have hname : ∀ j, j < 2 ^ (T.directoryAt P dirId).globalDepth →
      (T.directoryAt P dirId).getBucketPageId j = A.page j := h.shows_dir.page
  have hothers : (∀ e ∈ T.pairsAt P (A.page i), e = (key, value)) ↔
      A.Vacant (T.occupied (S.erase (key, value))) i := by
    constructor
    · rintro hall n ⟨e, he, rfl⟩ hpage
      obtain ⟨hne, hmem⟩ := Finset.mem_erase.mp he
      exact hne (hall e ((h.mem_pairsAt i e).mpr ⟨hmem, hpage⟩))
    · intro hv e he
      obtain ⟨hmem, hpage⟩ := (h.mem_pairsAt i e).mp he
      by_contra hne
      exact hv _ ⟨e, Finset.mem_erase.mpr ⟨hne, hmem⟩, rfl⟩ hpage
  -- the entries that are read are there
  have hlt : ∀ f, A.depth i = f + 2 → i ^^^ 2 ^ (f + 1) < 2 ^ (T.directoryAt P dirId).globalDepth ∧
      i ^^^ 2 ^ f < 2 ^ (T.directoryAt P dirId).globalDepth := by
    intro f hf
    have hle := h.shows_dir.depth_le i
    exact ⟨Nat.xor_lt_two_pow hilt (Nat.pow_lt_pow_right (by omega) (by omega)),
      Nat.xor_lt_two_pow hilt (Nat.pow_lt_pow_right (by omega) (by omega))⟩
  unfold SparesMerges Cascades
  dsimp only
  rw [hidx, hread i hilt, hname i hilt]
  refine not_congr (exists_congr fun f => and_congr_right fun hf => ?_)
  obtain ⟨h1, h2⟩ := hlt f hf
  rw [hread _ h1, hread _ h2, hname _ h2, hothers, h.vacant_iff]

/-- **A call on a tidy table leaves it tidy exactly if it meets the condition.** -/
theorem TableInv.call_tidy (hcmp : ∀ k k', T.comparator k k' = 0 ↔ k = k') (hids : Function.Injective ids)
    (hfuel : 10 ≤ fuel) (h : T.TableInv ids P dirId A S) (htidy : A.Tidy (T.occupied S)) (c : TableCall K V) :
    ∃ r P' A' S', Disciplined ids 3 (T.method .debug dirId fuel c) P r P' ∧ T.TableInv ids P' dirId A' S' ∧
      (A'.Tidy (T.occupied S') ↔ T.SparesMerges P dirId c) := by
  cases c with
  | insert key value =>
    obtain ⟨r, P', hrun, A', S', hinv, hiff⟩ := h.insert_tidy hcmp hids hfuel htidy key value
    exact ⟨_, P', A', S', hrun.bind (.pure _ P'), hinv, hiff.trans (h.sparesMerges_insert key value).symm⟩
  | remove key value =>
    obtain ⟨r, P', hrun, A', S', hinv, hiff⟩ := h.remove_tidy hcmp htidy key value rfl
    exact ⟨_, P', A', S', hrun.bind (.pure _ P'), hinv, hiff.trans (h.sparesMerges_remove key value rfl).symm⟩
  | getValue key result =>
    exact ⟨_, P, A, S, (h.getValue_run (Nat.le_refl 3) key result).bind (.pure _ P), h, iff_of_true htidy trivial⟩

/-- **No mergeable bucket is left behind while every call meets the condition**; a call that does not meet it
    leaves one. -/
theorem none_left_behind (hcmp : ∀ k k', T.comparator k k' = 0 ↔ k = k') (hids : Function.Injective ids)
    (hfuel : 10 ≤ fuel) {P₁ : Pages K V} {dir₀ : PageId} (hdel : ∀ p ∈ P.deleted, P.Created ids p)
    (hopen : callIdeal ids (T.construct b dir₀) P = .ok ((dirId, true), P₁)) {P₂ : Pages K V}
    (hreach : (callsOne T ids b dirId fuel P₁ fun P c => T.SparesMerges P dirId c).Reachable P₂) :
    (∀ j, ¬ T.MergeableAt P₂ dirId j) ∧
    ∀ c r P₃, callIdeal ids (T.method b dirId fuel c) P₂ = .ok (r, P₃) →
      ((∀ j, ¬ T.MergeableAt P₃ dirId j) ↔ T.SparesMerges P₂ dirId c) := by
  -- what a call does to a tidy table
  have hcall : ∀ {P A S} (c : TableCall K V) {r P'}, T.TableInv ids P dirId A S → A.Tidy (T.occupied S) →
      callIdeal ids (T.method b dirId fuel c) P = .ok (r, P') →
      ∃ A' S', T.TableInv ids P' dirId A' S' ∧ (A'.Tidy (T.occupied S') ↔ T.SparesMerges P dirId c) := by
    intro P A S c r P' hinv htidy hrun
    obtain ⟨r', Q, A', S', hdisc, hinv', hiff⟩ := hinv.call_tidy hcmp hids hfuel htidy c
    obtain ⟨Q', hcall, hcov⟩ := Disciplined.callIdeal hdisc (method_follows b fuel c)
    rw [hrun] at hcall
    cases hcall
    exact ⟨A', S', hinv'.covers hcov, hiff⟩
  obtain ⟨A, S, hinv, htidy⟩ : ∃ A S, T.TableInv ids P₂ dirId A S ∧ A.Tidy (T.occupied S) := by
    refine hreach.invariant (I := fun P => ∃ A S, T.TableInv ids P dirId A S ∧ A.Tidy (T.occupied S))
      (fun P hP => ?_) (fun P c P' hI hstep => ?_)
    · subst hP
      refine ⟨_, ∅, construct_spec hids b hdel hopen, ?_⟩
      rintro x ⟨e, hx, -⟩
      cases hx
    · obtain ⟨A, S, hinv, htidy⟩ := hI
      obtain ⟨hspare, r, hrun⟩ := hstep
      obtain ⟨A', S', hinv', hiff⟩ := hcall c hinv htidy hrun
      exact ⟨A', S', hinv', hiff.mpr hspare⟩
  refine ⟨hinv.tidy_iff.mpr htidy, fun c r P₃ hrun => ?_⟩
  obtain ⟨A', S', hinv', hiff⟩ := hcall c hinv htidy hrun
  exact hinv'.tidy_iff.trans hiff

/-- Make calls on a fresh table of two slots, and see of the pages before and after them. -/
def tryCalls {α : Type} (cs : List (TableCall ℤ ℤ)) (see : Pages ℤ ℤ → Pages ℤ ℤ → α) :
    Option ((PageId × Bool) × α) := do
  let (r, P₁) ← (callIdeal countingIds (smallTable.construct .debug 0) noPages).toOption
  let (_, P₂) ← (smallTable.callsIdeal countingIds .debug 0 10 cs P₁).toOption
  some (r, see P₁ P₂)

theorem tryCalls_run {α : Type} {cs : List (TableCall ℤ ℤ)} {see : Pages ℤ ℤ → Pages ℤ ℤ → α} {x : α}
    (h : tryCalls cs see = some ((0, true), x)) : ∃ P₁ rets P₂,
      callIdeal countingIds (smallTable.construct .debug 0) noPages = .ok ((0, true), P₁) ∧
      smallTable.callsIdeal countingIds .debug 0 10 cs P₁ = .ok (rets, P₂) ∧ see P₁ P₂ = x := by
  simp only [tryCalls, Option.bind_eq_bind, Option.bind_eq_some_iff] at h
  obtain ⟨⟨r, P₁⟩, hopen, ⟨rets, P₂⟩, hcalls, hsee⟩ := h
  cases hsee
  exact ⟨P₁, rets, P₂, eq_ok_of_toOption hopen, eq_ok_of_toOption hcalls, rfl⟩

/-- Make calls as long as they meet the condition. -/
def spareCalls (cs : List (TableCall ℤ ℤ)) (P : Pages ℤ ℤ) : Option (Pages ℤ ℤ) :=
  cs.foldlM (fun P c => if smallTable.SparesMerges P 0 c then
    (callIdeal countingIds (smallTable.method .debug 0 10 c) P).toOption.map Prod.snd else none) P

theorem spareCalls_reachable {P₁ : Pages ℤ ℤ} : ∀ {cs : List (TableCall ℤ ℤ)} {P P' : Pages ℤ ℤ},
    (callsOne smallTable countingIds .debug 0 10 P₁ fun P c => smallTable.SparesMerges P 0 c).Reachable P →
    spareCalls cs P = some P' →
    (callsOne smallTable countingIds .debug 0 10 P₁ fun P c => smallTable.SparesMerges P 0 c).Reachable P' := by
  intro cs
  induction cs with
  | nil =>
    intro P P' h hcs
    cases hcs
    exact h
  | cons c cs ih =>
    intro P P' h hcs
    rw [spareCalls, List.foldlM_cons, Option.bind_eq_bind, Option.bind_eq_some_iff] at hcs
    obtain ⟨Q, hstep, hrest⟩ := hcs
    split at hstep
    · next hspare =>
      obtain ⟨⟨r, Q'⟩, hcall, hsnd⟩ := Option.map_eq_some_iff.mp hstep
      cases hsnd
      exact ih (h.step ⟨hspare, r, eq_ok_of_toOption hcall⟩) hrest
    · cases hstep

/-- Three insertions split a bucket, and a removal joins it again: all of them meet the condition. -/
theorem none_left_behind_small : ∃ P₁ P₂,
    callIdeal countingIds (smallTable.construct .debug 0) noPages = .ok ((0, true), P₁) ∧
    (callsOne smallTable countingIds .debug 0 10 P₁ fun P c => smallTable.SparesMerges P 0 c).Reachable P₂ ∧
    P₁.next = 2 ∧ P₂.next = 3 ∧ P₂.deleted = [2] ∧ ∀ j, ¬ smallTable.MergeableAt P₂ 0 j := by
  have hsee : ((callIdeal countingIds (smallTable.construct .debug 0) noPages).toOption.bind fun x =>
      (spareCalls [.insert 0 7, .insert 1 7, .insert 2 7, .remove 1 7] x.2).map fun P₂ =>
        (x.1, x.2.next, P₂.next, P₂.deleted)) = some ((0, true), 2, 3, [2]) := by decide +kernel
  obtain ⟨⟨r, P₁⟩, hopen, hcalls⟩ := Option.bind_eq_some_iff.mp hsee
  obtain ⟨P₂, hcalls, hseen⟩ := Option.map_eq_some_iff.mp hcalls
  simp only [Prod.mk.injEq] at hseen
  obtain ⟨rfl, hfirst, hlast, hdeleted⟩ := hseen
  have hopen := eq_ok_of_toOption hopen
  have hreach := spareCalls_reachable (.init (rfl : P₁ = P₁)) hcalls
  exact ⟨P₁, P₂, hopen, hreach, hfirst, hlast, hdeleted, (none_left_behind smallTable_comparator countingIds_injective
    (Nat.le_refl 10) (fun p hp => (by cases hp)) hopen hreach).1⟩

/-- **It is left behind**: the third insertion splits off the odd keys, of which there are none, and then the
    even ones once more; removing a pair joins those again, so that the odd ones could be joined as well. -/
theorem left_behind : ∃ P₁ rets P₂,
    callIdeal countingIds (smallTable.construct .debug 0) noPages = .ok ((0, true), P₁) ∧
    smallTable.callsIdeal countingIds .debug 0 10
      [.insert 0 7, .insert 2 7, .insert 4 7, .remove 2 7] P₁ = .ok (rets, P₂) ∧
    smallTable.MergeableAt P₂ 0 1 := by
  have hsee : tryCalls [.insert 0 7, .insert 2 7, .insert 4 7, .remove 2 7]
      (fun _ P₂ => decide (smallTable.MergeableAt P₂ 0 1)) = some ((0, true), true) := by decide +kernel
  obtain ⟨P₁, rets, P₂, hopen, hcalls, hmerge⟩ := tryCalls_run hsee
  exact ⟨P₁, rets, P₂, hopen, hcalls, of_decide_eq_true hmerge⟩

end HashTableType

end BusTub
