/-
  A bucket page over any sequence of calls.

  1. **`Reached`**: the pages that calls of `Insert`, `Remove` and `RemoveAt` lead to from a zeroed page;
     `GetValue` leaves the page alone.  All of them satisfy `BucketInv`.

  2. **`BoundedSet`** is what a client may rely on: each method's result and effect, as a set of at most `n`
     pairs kept in numbered slots.

  3. `reached_boundedSet` — **the main result**: every page reached is one, whatever holes the removals
     have left in front of the occupied prefix.
-/
import BusTub.Page.BucketSpec

set_option linter.unusedSectionVars false

namespace BusTub

namespace HashTableBucketPage

variable {K V : Type} [Inhabited K] [Inhabited V] [DecidableEq K] [DecidableEq V]

/-- The pages that calls lead to from a zeroed one. -/
inductive Reached (n : ℕ) (cmp : K → K → Int) : HashTableBucketPage K V → Prop where
  | zeroed : Reached n cmp zeroed
  | insert {b : HashTableBucketPage K V} (h : Reached n cmp b) (key : K) (value : V) :
      Reached n cmp (b.insert n cmp key value).2
  | remove {b : HashTableBucketPage K V} (h : Reached n cmp b) (key : K) (value : V) :
      Reached n cmp (b.remove n cmp key value).2
  | removeAt {b : HashTableBucketPage K V} (h : Reached n cmp b) {bucket_idx : ℕ} (hi : bucket_idx < n) :
      Reached n cmp (b.removeAt n bucket_idx)

/-- The slots, bits and pairs outside slot `i` are the same on both pages. -/
def SameOutside (n : ℕ) (b b' : HashTableBucketPage K V) (i : ℕ) : Prop :=
  ∀ j < n, j ≠ i → b'.slot n j = b.slot n j ∧ b'.isReadable n j = b.isReadable n j ∧
    b'.isOccupied n j = b.isOccupied n j ∧ b'.array j = b.array j

/-- **A page is a bounded set**: what each method returns and does, in terms of the pairs stored and of the
    slots that show them. -/
structure BoundedSet (n : ℕ) (cmp : K → K → Int) (b : HashTableBucketPage K V) : Prop where
  insert_iff : ∀ key value, (b.insert n cmp key value).1 = true ↔
    (b.pairs n).card < n ∧ (key, value) ∉ b.pairs n
  insert_true : ∀ key value b', b.insert n cmp key value = (true, b') →
    b'.pairs n = Insert.insert (key, value) (b.pairs n) ∧
    ∃ i < n, b.isReadable n i = false ∧ (∀ j < i, b.isReadable n j = true) ∧
      b'.slot n i = some (key, value) ∧ SameOutside n b b' i
  insert_false : ∀ key value b', b.insert n cmp key value = (false, b') → b' = b
  remove_iff : ∀ key value, (b.remove n cmp key value).1 = true ↔ (key, value) ∈ b.pairs n
  remove_true : ∀ key value b', b.remove n cmp key value = (true, b') →
    b'.pairs n = (b.pairs n).erase (key, value) ∧
    ∃ i < n, b.slot n i = some (key, value) ∧ b'.slot n i = none ∧ SameOutside n b b' i
  remove_false : ∀ key value b', b.remove n cmp key value = (false, b') → b' = b
  removeAt : ∀ i < n, (∀ e ∈ b.slot n i, (b.removeAt n i).pairs n = (b.pairs n).erase e) ∧
    (b.slot n i = none → b.removeAt n i = b) ∧
    (b.removeAt n i).slot n i = none ∧ SameOutside n b (b.removeAt n i) i
  getValue : ∀ key result, b.getValue n cmp key result =
    (!(b.valuesOf n key).isEmpty, result ++ b.valuesOf n key)
  valuesOf_nodup : ∀ key, (b.valuesOf n key).Nodup
  mem_valuesOf : ∀ key value, value ∈ b.valuesOf n key ↔ (key, value) ∈ b.pairs n

variable {n : ℕ} {cmp : K → K → Int} {b : HashTableBucketPage K V}

/-! ## The slots that a method leaves alone -/

theorem sameOutside_fill {i : ℕ} (hi : i < n) (e : K × V) :
    SameOutside n b ((setReadable n { b with array := Function.update b.array i e } i).setOccupied n i) i := by
  intro j hj hne
  have hread := isReadable_setReadable (b := { b with array := Function.update b.array i e }) hi hj
  have hocc := isOccupied_setOccupied (b := setReadable n { b with array := Function.update b.array i e } i) hi hj
  have hsame : ∀ c : HashTableBucketPage K V,
      (c.setOccupied n i).isReadable n j = c.isReadable n j ∧ (c.setOccupied n i).array = c.array ∧
      (c.setReadable n i).isOccupied n j = c.isOccupied n j ∧ (c.setReadable n i).array = c.array := by
    intro c
    unfold setOccupied setReadable
    rw [if_neg (Nat.not_le_of_lt hi), if_neg (Nat.not_le_of_lt hi)]
    exact ⟨rfl, rfl, rfl, rfl⟩
  refine ⟨?_, ?_, ?_, ?_⟩
  · rw [slot_fill hi, Function.update_of_ne hne]
  · rw [(hsame _).1, hread, decide_eq_false hne, Bool.false_or]
    rfl
  · rw [hocc, decide_eq_false hne, Bool.false_or, (hsame _).2.2.1]
    rfl
  · rw [(hsame _).2.1, (hsame _).2.2.2]
    exact Function.update_of_ne hne _ _

theorem sameOutside_removeAt {i : ℕ} (hi : i < n) : SameOutside n b (b.removeAt n i) i := by
  intro j hj hne
  refine ⟨by rw [slot_removeAt hi, Function.update_of_ne hne], ?_, ?_, ?_⟩
  · rw [isReadable_removeAt hi hj]
    simp [hne]
  · unfold HashTableBucketPage.removeAt
    split <;> rfl
  · unfold HashTableBucketPage.removeAt
    split <;> rfl

/-- `RemoveAt` of a slot that shows nothing. -/
theorem removeAt_of_none {i : ℕ} (hi : i < n) (hnone : b.slot n i = none) : b.removeAt n i = b := by
  unfold HashTableBucketPage.removeAt
  rw [(slot_eq_none hi).mp hnone]
  rfl

/-! ## Every page reached -/

/-- **The invariant holds of every page reached**, if the comparator calls a key equal to itself. -/
theorem Reached.inv_of_refl (hrefl : ∀ k, cmp k k = 0) (h : Reached n cmp b) : BucketInv n b := by
  induction h with
  | zeroed => exact .zeroed
  | @insert b _ key value ih =>
    rcases ih.insert_cases cmp key value with ⟨hrun, -⟩ | ⟨i, hi, hrun, -, hall, hmiss⟩
    · rw [hrun]
      exact ih
    · rw [hrun]
      exact ih.fill hi hall fun j hs => hmiss j (hits_of_slot hrefl hs)
  | @remove b _ key value ih =>
    rcases ih.remove_cases cmp key value with ⟨hrun, -⟩ | ⟨i, hi, hrun, -⟩
    · rw [hrun]
      exact ih
    · rw [hrun]
      exact ih.removeAt hi
  | @removeAt b _ i hi ih => exact ih.removeAt hi

variable (hcmp : ∀ k k', cmp k k' = 0 ↔ k = k')
include hcmp

theorem Reached.inv (h : Reached n cmp b) : BucketInv n b := h.inv_of_refl fun k => (hcmp k k).mpr rfl

/-- An `Insert` that returned. -/
theorem BucketInv.insert_inv (h : BucketInv n b) {key : K} {value : V} {res : Bool} {b' : HashTableBucketPage K V}
    (hrun : b.insert n cmp key value = (res, b')) :
    (res = false ∧ b' = b ∧ (b.isFull n = true ∨ (key, value) ∈ b.pairs n)) ∨
    (res = true ∧ ∃ i < n,
      b' = (setReadable n { b with array := Function.update b.array i (key, value) } i).setOccupied n i ∧
      b.isReadable n i = false ∧ (∀ j < i, b.isReadable n j = true) ∧ (key, value) ∉ b.pairs n) := by
  rcases h.insert_fills hcmp key value with ⟨hrun', hno⟩ | ⟨i, hi, hrun', hr, hall, hnew⟩
  · rw [hrun, Prod.mk.injEq] at hrun'
    exact .inl ⟨hrun'.1, hrun'.2, hno⟩
  · rw [hrun, Prod.mk.injEq] at hrun'
    refine .inr ⟨hrun'.1, i, hi, hrun'.2, hr, hall, fun hmem => ?_⟩
    obtain ⟨j, hj⟩ := mem_pairs.mp hmem
    exact hnew j hj

/-- A `Remove` that returned. -/
theorem BucketInv.remove_inv (h : BucketInv n b) {key : K} {value : V} {res : Bool} {b' : HashTableBucketPage K V}
    (hrun : b.remove n cmp key value = (res, b')) :
    (res = false ∧ b' = b ∧ (key, value) ∉ b.pairs n) ∨
    (res = true ∧ ∃ i < n, b' = b.removeAt n i ∧ b.slot n i = some (key, value)) := by
  rcases h.remove_clears hcmp key value with ⟨hrun', hno⟩ | ⟨i, hi, hrun', hslot⟩
  · rw [hrun, Prod.mk.injEq] at hrun'
    exact .inl ⟨hrun'.1, hrun'.2, hno⟩
  · rw [hrun, Prod.mk.injEq] at hrun'
    exact .inr ⟨hrun'.1, i, hi, hrun'.2, hslot⟩

omit hcmp in
/-- A page with a slot to spare has room for a pair. -/
theorem BucketInv.card_lt (h : BucketInv n b) {i : ℕ} (hi : i < n) (hr : b.isReadable n i = false) :
    (b.pairs n).card < n := by
  refine Nat.lt_of_le_of_ne h.card_le fun he => ?_
  rw [isFull_iff.mp (h.isFull_iff_card.mpr he) i hi] at hr
  cases hr

theorem BucketInv.boundedSet (h : BucketInv n b) : BoundedSet n cmp b := by
  refine
    { insert_iff := fun key value => ?_
      insert_true := fun key value b' hrun => ?_
      insert_false := fun key value b' hrun => ?_
      remove_iff := fun key value => ?_
      remove_true := fun key value b' hrun => ?_
      remove_false := fun key value b' hrun => ?_
      removeAt := fun i hi => ⟨fun e he => h.pairs_removeAt he, removeAt_of_none hi, ?_, sameOutside_removeAt hi⟩
      getValue := h.getValue_eq hcmp
      valuesOf_nodup := fun key => (h.valuesOf_spec key).1
      mem_valuesOf := fun key => (h.valuesOf_spec key).2 }
  · obtain ⟨res, b', hrun⟩ : ∃ res b', b.insert n cmp key value = (res, b') := ⟨_, _, rfl⟩
    rw [hrun]
    rcases h.insert_inv hcmp hrun with ⟨rfl, -, hno⟩ | ⟨rfl, i, hi, -, hr, -, hnew⟩
    · refine ⟨fun hf => (by cases hf), fun ⟨hlt, hnot⟩ => ?_⟩
      rcases hno with hfull | hmem
      · rw [h.isFull_iff_card] at hfull
        omega
      · exact absurd hmem hnot
    · exact ⟨fun _ => ⟨h.card_lt hi hr, hnew⟩, fun _ => rfl⟩
  · rcases h.insert_inv hcmp hrun with ⟨hf, -⟩ | ⟨-, i, hi, rfl, hr, hall, -⟩
    · cases hf
    · refine ⟨pairs_fill hi hr _, i, hi, hr, hall, ?_, sameOutside_fill hi _⟩
      rw [slot_fill hi, Function.update_self]
  · rcases h.insert_inv hcmp hrun with ⟨-, hsame, -⟩ | ⟨ht, -⟩
    · exact hsame
    · cases ht
  · obtain ⟨res, b', hrun⟩ : ∃ res b', b.remove n cmp key value = (res, b') := ⟨_, _, rfl⟩
    rw [hrun]
    rcases h.remove_inv hcmp hrun with ⟨rfl, -, hno⟩ | ⟨rfl, i, -, -, hslot⟩
    · exact ⟨fun hf => (by cases hf), fun hmem => absurd hmem hno⟩
    · exact ⟨fun _ => mem_pairs.mpr ⟨i, hslot⟩, fun _ => rfl⟩
  · rcases h.remove_inv hcmp hrun with ⟨hf, -⟩ | ⟨-, i, hi, rfl, hslot⟩
    · cases hf
    · refine ⟨h.pairs_removeAt hslot, i, hi, hslot, ?_, sameOutside_removeAt hi⟩
      rw [slot_removeAt hi, Function.update_self]
  · rcases h.remove_inv hcmp hrun with ⟨-, hsame, -⟩ | ⟨ht, -⟩
    · exact hsame
    · cases ht
  · rw [slot_removeAt hi, Function.update_self]

/-- **Every page reached is a bounded set**: `Insert` adds an absent pair to a page with room, in the lowest
    slot that is not readable, `Remove` takes a stored pair away, `GetValue` lists the values of a key in slot
    order, and nothing else changes. -/
theorem reached_boundedSet (h : Reached n cmp b) : BoundedSet n cmp b := (h.inv hcmp).boundedSet hcmp

omit hcmp in
/-- Two slots: the pair removed leaves a hole in front of the other, and comes back into it. -/
theorem reached_boundedSet_two :
    BoundedSet 2 (fun k k' : ℤ => k - k')
      ((((zeroed : HashTableBucketPage ℤ ℤ).insert 2 (fun k k' => k - k') 5 7).2.insert 2
        (fun k k' => k - k') 6 7).2.remove 2 (fun k k' => k - k') 5 7).2 := by
  have hcmp : ∀ k k' : ℤ, k - k' = 0 ↔ k = k' := fun k k' => by omega
  exact reached_boundedSet hcmp (((Reached.zeroed.insert 5 7).insert 6 7).remove 5 7)

end HashTableBucketPage

end BusTub
