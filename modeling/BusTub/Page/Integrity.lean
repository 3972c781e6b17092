/-
  What a directory page must be like to pass `VerifyIntegrity`.

  The page may hold anything: entries below the size are whatever the two arrays hold.

  1. **The first loop** (`tallyFrom_inv`): where it goes on, the entry's depth is within the global depth and the
     page has no other depth on record; so overwriting the record loses nothing, and at the end the record of a page
     is the depth of each of its entries.

  2. **The second loop** (`checkCounts_iff`) compares the counts of all keys, in whatever order they come, and every
     page that occurs is a key (`Tally.bump`).

  3. `verifyIntegrity_ok_iff` — **the main result**: no assertion fails exactly on the pages with `Integrity`.
-/
import BusTub.Page.DirectorySpec

set_option linter.unusedSectionVars false

namespace BusTub

namespace HashTableDirectoryPage

variable {d : HashTableDirectoryPage} {t t' : Tally}

/-! ## The first loop -/

/-- The conditions on single entries and on pairs of them, below entry `n`. -/
structure DepthsAgree (d : HashTableDirectoryPage) (n : ℕ) : Prop where
  local_le : ∀ i < n, d.localDepths i ≤ d.globalDepth
  depth_eq : ∀ i < n, ∀ j < n, d.bucketPageIds i = d.bucketPageIds j → d.localDepths i = d.localDepths j

theorem DepthsAgree.succ {n : ℕ} (h : DepthsAgree d n) (hle : d.localDepths n ≤ d.globalDepth)
    (hsame : ∀ i < n, d.bucketPageIds i = d.bucketPageIds n → d.localDepths i = d.localDepths n) :
    DepthsAgree d (n + 1) := by
  constructor
  · intro i hi
    rcases Nat.lt_or_eq_of_le (Nat.le_of_lt_succ hi) with hlt | rfl
    · exact h.local_le i hlt
    · exact hle
  · intro i hi j hj he
    rcases Nat.lt_or_eq_of_le (Nat.le_of_lt_succ hi) with hi | rfl
    · rcases Nat.lt_or_eq_of_le (Nat.le_of_lt_succ hj) with hj | rfl
      · exact h.depth_eq i hi j hj he
      · exact hsame i hi he
    · rcases Nat.lt_or_eq_of_le (Nat.le_of_lt_succ hj) with hj | rfl
      · exact (hsame j hj he.symm).symm
      · rfl

theorem mem_keys_bump {p q : PageId} : p ∈ (t.bump q).keys ↔ p ∈ t.keys ∨ p = q := by
  unfold Tally.bump
  constructor
  · intro hp
    split at hp
    · exact .inl hp
    · simpa using hp
  · intro hp
    split
    · next hq =>
      rcases hp with hp | rfl
      · exact hp
      · exact hq
    · simpa using hp

/-- **One entry**: where the loop goes on, neither assertion about the entry has failed. -/
theorem tallyFrom_succ {remaining n : ℕ} (h : Tallied d n t)
    (hrun : d.tallyFrom .debug (remaining + 1) n t = .ok t') :
    d.localDepths n ≤ d.globalDepth ∧
    (∀ i < n, d.bucketPageIds i = d.bucketPageIds n → d.localDepths i = d.localDepths n) ∧
    d.tallyFrom .debug remaining (n + 1) { t.bump (d.bucketPageIds n) with
      depth := Function.update t.depth (d.bucketPageIds n) (some (d.localDepths n)) } = .ok t' := by
  unfold tallyFrom at hrun
  obtain ⟨_, hassert, hrun⟩ := except_bind_inv hrun
  have hle : d.localDepths n ≤ d.globalDepth := by
    by_contra hgt
    simp [assertThat, hgt] at hassert
  replace hrun : (if (t.depth (d.bucketPageIds n)).isSome = true ∧
      t.depth (d.bucketPageIds n) ≠ some (d.localDepths n) then _ else _) = Except.ok t' := hrun
  by_cases hrec : (t.depth (d.bucketPageIds n)).isSome = true ∧
      t.depth (d.bucketPageIds n) ≠ some (d.localDepths n)
  · rw [if_pos hrec] at hrun
    -- the assertion after the warning is what the branch condition denies
    obtain ⟨_, hassert, -⟩ := except_bind_inv hrun
    have hdepth : (t.bump (d.bucketPageIds n)).depth (d.bucketPageIds n) ≠ some (d.localDepths n) := hrec.2
    simp [assertThat, hdepth] at hassert
  · rw [if_neg hrec] at hrun
    refine ⟨hle, fun i hi he => ?_, hrun⟩
    by_contra hne
    exact hrec (h.conflict_iff.mpr ⟨i, hi, he, hne⟩)

/-- **The whole loop**: where it ends, the depths agree, and the maps hold every entry. -/
theorem tallyFrom_inv : ∀ (remaining n : ℕ) (t : Tally), n + remaining = d.size →
    Tallied d n t → DepthsAgree d n → (∀ i < n, d.bucketPageIds i ∈ t.keys) →
    d.tallyFrom .debug remaining n t = .ok t' →
    Tallied d d.size t' ∧ DepthsAgree d d.size ∧ ∀ i < d.size, d.bucketPageIds i ∈ t'.keys := by
  intro remaining
  induction remaining with
  | zero =>
    intro n t hn h hagree hkeys hrun
    obtain rfl : n = d.size := by omega
    obtain rfl : t = t' := Except.ok.inj hrun
    exact ⟨h, hagree, hkeys⟩
  | succ remaining ih =>
    intro n t hn h hagree hkeys hrun
    obtain ⟨hle, hsame, hrest⟩ := tallyFrom_succ h hrun
    apply ih (n + 1) _ (by omega) (h.step hsame) (hagree.succ hle hsame) _ hrest
    intro i hi
    show d.bucketPageIds i ∈ (t.bump (d.bucketPageIds n)).keys
    rw [mem_keys_bump]
    rcases Nat.lt_or_eq_of_le (Nat.le_of_lt_succ hi) with hlt | rfl
    · exact .inl (hkeys i hlt)
    · exact .inr rfl

/-! ## The second loop -/

/-- **The counts of all keys are compared**, and nothing else about their order matters. -/
theorem checkCounts_iff : ∀ keys : List PageId, d.checkCounts .debug t keys = .ok () ↔
    ∀ p ∈ keys, t.count p = 1 <<< (d.globalDepth - (t.depth p).getD 0) := by
  intro keys
  constructor
  · induction keys with
    | nil =>
      intro _ p hp
      cases hp
    | cons q rest ih =>
      intro hrun p hp
      unfold checkCounts at hrun
      obtain ⟨_, hassert, hrest⟩ := except_bind_inv hrun
      rcases List.mem_cons.mp hp with rfl | hp
      · by_contra hne
        simp [assertThat, hne] at hassert
      · exact ih hrest p hp
  · exact checkCounts_ok keys

/-! ## The whole check -/

/-- A page that passes has what is documented. -/
theorem integrity_of_ok (hrun : d.verifyIntegrity .debug = .ok ()) : d.Integrity := by
  unfold verifyIntegrity at hrun
  obtain ⟨t, htally, hcounts⟩ := except_bind_inv hrun
  have hagree : DepthsAgree d 0 := ⟨fun i hi => by omega, fun i hi => by omega⟩
  obtain ⟨ht, hagree, hkeys⟩ := tallyFrom_inv d.size 0 _ (by omega) .start hagree (fun i hi => by omega) htally
  refine ⟨hagree.local_le, hagree.depth_eq, fun i hi => ?_⟩
  have hcount := (checkCounts_iff t.keys).mp hcounts _ (hkeys i hi)
  rw [ht.count, ht.depth i hi, Option.getD_some, Nat.one_shiftLeft] at hcount
  exact hcount

/-- **`VerifyIntegrity` reads within the arrays, and none of its assertions fails exactly when the documented
    conditions hold**, whatever the page holds. -/
theorem verifyIntegrity_ok_iff (hd : d.globalDepth ≤ 9) :
    d.size ≤ directoryArraySize ∧ (d.verifyIntegrity .debug = .ok () ↔ d.Integrity) := by
  refine ⟨?_, integrity_of_ok, fun h => h.verifyIntegrity_ok .debug⟩
  rw [size_eq]
  exact Nat.pow_le_pow_right (by omega) hd

/-- A directory of four entries with the local depths 2, 1, 2, 1, where entries 1 and 3 share a page. -/
def fourEntries (page : PageId) : HashTableDirectoryPage :=
  ⟨0, 2, fun i => if i % 2 = 0 then 2 else 1, fun i => [5, 3, page, 3].getD i 0⟩

/-- **It passes if entries 0 and 2 have pages of their own**; if they share one, it is named twice at depth 2. -/
theorem verifyIntegrity_ok_iff_four : (fourEntries 7).Integrity ∧ ¬ (fourEntries 5).Integrity :=
  ⟨(verifyIntegrity_ok_iff (by decide)).2.mp (by decide +kernel),
    fun h => absurd ((verifyIntegrity_ok_iff (by decide)).2.mpr h) (by decide +kernel)⟩

end HashTableDirectoryPage

end BusTub
