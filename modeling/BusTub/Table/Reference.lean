/-
  What the table is for: a set of pairs.

  1. **`RefStep S c r S'`** is the purpose of the table: the call `c` on the set `S` returns `r` and
     leaves `S'`.  A pair is inserted if it is new and fewer than `BUCKET_ARRAY_SIZE` pairs of the set
     crowd it, which is to say agree with its hash in the low 9 bits.

  2. **Every region in terms of the set**: a region that returns a call's result takes a step of the
     reference, and one that goes on with another region leaves the set alone.
-/
import BusTub.Table.Regions

set_option linter.unusedSectionVars false

namespace BusTub

open Command HashPartition HashTableDirectoryPage HashTableBucketPage

/-- The calls; `GetValue` appends to what `result` holds. -/
inductive TableCall (K V : Type) where
  | insert (key : K) (value : V)
  | remove (key : K) (value : V)
  | getValue (key : K) (result : List V)
  deriving DecidableEq

/-- What a call returns, and what it leaves in `result`. -/
inductive TableRet (V : Type) where
  | flag (res : Bool)
  | values (res : Bool) (result : List V)
  deriving DecidableEq

namespace HashTableType

variable {K V : Type} [Inhabited K] [Inhabited V] [DecidableEq K] [DecidableEq V]

/-- How many pairs of `S` agree with `key` in the low 9 bits of the hash. -/
def crowd (T : HashTableType K V) (S : Finset (K × V)) (key : K) : ℕ :=
  (S.filter fun e => T.hash e.1 ≡ T.hash key [MOD 2 ^ 9]).card

/-- **The reference set.** -/
inductive RefStep (T : HashTableType K V) (S : Finset (K × V)) :
    TableCall K V → TableRet V → Finset (K × V) → Prop where
  | inserted {key : K} {value : V} (hnew : (key, value) ∉ S) (hroom : T.crowd S key < T.bucketArraySize) :
      RefStep T S (.insert key value) (.flag true) (Insert.insert (key, value) S)
  | notInserted {key : K} {value : V} (hno : (key, value) ∈ S ∨ T.bucketArraySize ≤ T.crowd S key) :
      RefStep T S (.insert key value) (.flag false) S
  | removed {key : K} {value : V} (hmem : (key, value) ∈ S) :
      RefStep T S (.remove key value) (.flag true) (S.erase (key, value))
  | notRemoved {key : K} {value : V} (hmem : (key, value) ∉ S) :
      RefStep T S (.remove key value) (.flag false) S
  | got {key : K} {result vs : List V} (hnodup : vs.Nodup) (hmem : ∀ v, v ∈ vs ↔ (key, v) ∈ S) :
      RefStep T S (.getValue key result) (.values (!vs.isEmpty) (result ++ vs)) S

variable {T : HashTableType K V} {ids : ℕ → PageId} {cap : ℕ} (hcap : 3 ≤ cap)
variable {P : Pages K V} {dirId : PageId} {A : Partition PageId} {S : Finset (K × V)}

/-! ## Crowds and buckets -/

section

variable (h : T.TableInv ids P dirId A S)
include h

theorem TableInv.mem_own (key : K) (value : V) :
    (key, value) ∈ T.pairsAt P (A.page (T.hash key)) ↔ (key, value) ∈ S := (h.mem_iff (key, value)).symm

/-- Whoever agrees with `key` in 9 bits is in the bucket of `key`. -/
theorem TableInv.crowd_le (key : K) : T.crowd S key ≤ (T.pairsAt P (A.page (T.hash key))).card := by
  refine Finset.card_le_card fun e he => ?_
  obtain ⟨hmem, hmod⟩ := Finset.mem_filter.mp he
  rw [h.mem_pairsAt]
  exact ⟨hmem, (A.page_eq_iff' _ _).mpr (modEq_of_le (h.depth_le _) hmod)⟩

/-- A bucket of depth 9 has nobody else. -/
theorem TableInv.crowd_eq {key : K} (hnine : A.depth (T.hash key) = 9) :
    T.crowd S key = (T.pairsAt P (A.page (T.hash key))).card := by
  refine Nat.le_antisymm (h.crowd_le key) (Finset.card_le_card fun e he => ?_)
  rw [h.mem_pairsAt, A.page_eq_iff', hnine] at he
  exact Finset.mem_filter.mpr he

theorem TableInv.crowd_lt {key : K}
    (hroom : (T.bucketAt P (A.page (T.hash key))).isFull T.bucketArraySize = false) :
    T.crowd S key < T.bucketArraySize := by
  have hinv := h.bucket (T.hash key)
  have hne : (T.pairsAt P (A.page (T.hash key))).card ≠ T.bucketArraySize := by
    intro he
    rw [hinv.isFull_iff_card.mpr he] at hroom
    cases hroom
  exact lt_of_le_of_lt (h.crowd_le key) (lt_of_le_of_ne hinv.card_le hne)

theorem TableInv.crowd_ge {key : K} (hnine : A.depth (T.hash key) = 9)
    (hfull : (T.bucketAt P (A.page (T.hash key))).isFull T.bucketArraySize = true) :
    T.bucketArraySize ≤ T.crowd S key := by
  rw [h.crowd_eq hnine]
  exact ((h.bucket (T.hash key)).isFull_iff_card.mp hfull).ge

end

/-! ## Buckets -/

section

variable (h : T.TableInv ids P dirId A S) (hcmp : ∀ k k', T.comparator k k' = 0 ↔ k = k')
include h hcmp

/-- The bucket's `Insert` takes the reference's step. -/
theorem TableInv.bucket_insert (key : K) (value : V)
    (hroom : (T.bucketAt P (A.page (T.hash key))).isFull T.bucketArraySize = false) :
    ∃ S', T.TableInv ids (P.write (A.page (T.hash key)) (.bucket
        ((T.bucketAt P (A.page (T.hash key))).insert T.bucketArraySize T.comparator key value).2)) dirId A S' ∧
      T.RefStep S (.insert key value)
        (.flag ((T.bucketAt P (A.page (T.hash key))).insert T.bucketArraySize T.comparator key value).1) S' := by
  have hplaced := h.placed (T.hash key)
  rcases (h.bucket (T.hash key)).insert_spec hcmp key value with
    ⟨hins, hno⟩ | ⟨c, hins, hc, -, hnew, hpairs⟩
  · rw [hins]
    refine ⟨S, h.rewrite _ (h.bucket _) hplaced (fun e he => ?_) (fun e _ => Iff.rfl), .notInserted ?_⟩
    · rw [h.mem_iff, he]
      rfl
    · rcases hno with hfull | hdup
      · rw [hroom] at hfull
        cases hfull
      · exact .inl ((h.mem_own key value).mp hdup)
  · rw [hins]
    have hnew' : (key, value) ∉ S := fun hmem => hnew ((h.mem_own key value).mpr hmem)
    refine ⟨Insert.insert (key, value) S, h.rewrite _ hc (fun e he => ?_) (fun e he => ?_) (fun e he => ?_),
      .inserted hnew' (h.crowd_lt hroom)⟩
    · rw [hpairs, Finset.mem_insert] at he
      rcases he with rfl | he
      · rfl
      · exact hplaced e he
    · rw [hpairs, Finset.mem_insert, Finset.mem_insert, h.mem_iff, he]
      rfl
    · rw [Finset.mem_insert]
      exact or_iff_right fun heq => he (by rw [heq])

/-- The bucket's `Remove` takes the reference's step. -/
theorem TableInv.bucket_remove (key : K) (value : V) :
    ∃ S', T.TableInv ids (P.write (A.page (T.hash key)) (.bucket
        ((T.bucketAt P (A.page (T.hash key))).remove T.bucketArraySize T.comparator key value).2)) dirId A S' ∧
      T.RefStep S (.remove key value)
        (.flag ((T.bucketAt P (A.page (T.hash key))).remove T.bucketArraySize T.comparator key value).1) S' := by
  have hplaced := h.placed (T.hash key)
  rcases (h.bucket (T.hash key)).remove_spec hcmp key value with ⟨hrem, hno⟩ | ⟨c, hrem, hc, hmem, hpairs⟩
  · rw [hrem]
    refine ⟨S, h.rewrite _ (h.bucket _) hplaced (fun e he => ?_) (fun e _ => Iff.rfl), .notRemoved ?_⟩
    · rw [h.mem_iff, he]
      rfl
    · exact fun hmem => hno ((h.mem_own key value).mpr hmem)
  · rw [hrem]
    refine ⟨S.erase (key, value), h.rewrite _ hc (fun e he => ?_) (fun e he => ?_) (fun e he => ?_),
      .removed ((h.mem_own key value).mp hmem)⟩
    · rw [hpairs] at he
      exact hplaced e (Finset.mem_of_mem_erase he)
    · rw [hpairs, Finset.mem_erase, Finset.mem_erase, h.mem_iff, he]
      rfl
    · rw [Finset.mem_erase]
      exact and_iff_right fun heq => he (by rw [heq])

end

/-! ## Regions -/

section

variable (h : T.TableInv ids P dirId A S) (hcmp : ∀ k k', T.comparator k k' = 0 ↔ k = k')
include hcap h hcmp

/-- **`GetValue` in terms of the set.** -/
theorem TableInv.getValue_spec (key : K) (result : List V) : ∃ r,
    Disciplined ids cap (T.getValue .debug dirId key result) P r P ∧
      T.RefStep S (.getValue key result) (.values r.1 r.2) S := by
  obtain ⟨vs, hget, hnodup, hmem⟩ := (h.bucket (T.hash key)).getValue_spec hcmp key result
  refine ⟨_, hget ▸ h.getValue_run hcap key result, .got hnodup fun v => ?_⟩
  exact (hmem v).trans (h.mem_own key v)

/-- **`Remove`'s region in terms of the set.** -/
theorem TableInv.removeRegion_spec (key : K) (value : V) : ∃ r P' S',
    Disciplined ids cap (T.removeRegion .debug dirId key value) P r P' ∧ T.TableInv ids P' dirId A S' ∧
      T.RefStep S (.remove key value) (.flag r) S' := by
  obtain ⟨S', hinv, href⟩ := h.bucket_remove hcmp key value
  exact ⟨_, _, S', h.removeRegion_run hcap key value, hinv, href⟩

/-- **`Insert`'s region in terms of the set**: it returns the result, or the bucket is full. -/
theorem TableInv.insertRegion_spec (key : K) (value : V) :
    (∃ r P' S', Disciplined ids cap (T.insertRegion .debug dirId key value) P (some r) P' ∧
      T.TableInv ids P' dirId A S' ∧ T.RefStep S (.insert key value) (.flag r) S') ∨
    Disciplined ids cap (T.insertRegion .debug dirId key value) P none P := by
  cases hfull : (T.bucketAt P (A.page (T.hash key))).isFull T.bucketArraySize with
  | false =>
    obtain ⟨S', hinv, href⟩ := h.bucket_insert hcmp key value hfull
    exact .inl ⟨_, _, S', h.insertRegion_room hcap key value hfull, hinv, href⟩
  | true => exact .inr (h.insertRegion_full hcap key value hfull)

/-- **`SplitInsert`'s region in terms of the set**: it returns the result, or splits the bucket of the
    key and keeps the set. -/
theorem TableInv.splitInsertRegion_spec (hids : Function.Injective ids) (key : K) (value : V) :
    (∃ r P' S', Disciplined ids cap (T.splitInsertRegion .debug dirId key value) P (some r) P' ∧
      T.TableInv ids P' dirId A S' ∧ T.RefStep S (.insert key value) (.flag r) S') ∨
    (∃ P' A', Disciplined ids cap (T.splitInsertRegion .debug dirId key value) P none P' ∧
      T.TableInv ids P' dirId A' S ∧ A'.depth (T.hash key) = A.depth (T.hash key) + 1) := by
  cases hfull : (T.bucketAt P (A.page (T.hash key))).isFull T.bucketArraySize with
  | false =>
    obtain ⟨S', hinv, href⟩ := h.bucket_insert hcmp key value hfull
    exact .inl ⟨_, _, S', h.splitInsertRegion_room hcap key value hfull, hinv, href⟩
  | true =>
    by_cases hlt : A.depth (T.hash key) < 9
    · exact .inr (h.splitInsertRegion_split hcap hids hcmp key value hfull hlt)
    · have hnine : A.depth (T.hash key) = 9 := Nat.le_antisymm (h.depth_le _) (Nat.not_lt.mp hlt)
      exact .inl ⟨false, P, S, h.splitInsertRegion_stuck hcap key value hfull hnine, h,
        .notInserted (.inr (h.crowd_ge hnine hfull))⟩

end

end HashTableType

end BusTub
