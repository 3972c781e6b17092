/-
  A directory page shows a partition of the hash values.

  1. **`Shows`** connects the page with an abstract partition: the entries below the size carry its
     pages and depths.  Doubling and halving the directory change the page but not the partition.

  2. **`DirInv`** is the invariant in the directory's own terms: entries share a page exactly when
     their indices agree in `local_depths_` many bits.  It is `Shows` of some partition
     (`DirInv.shows`, `Shows.dirInv`), with the directory no larger than needed.

  3. **`VerifyIntegrity`**: `Integrity` is what it is documented to verify.  A page with it passes, in either
     build (`Integrity.verifyIntegrity_ok`), and `DirInv` has it.
-/
import BusTub.Page.Directory
import BusTub.Lib.HashPartition
import Mathlib.Data.Int.CardIntervalMod

set_option linter.unusedSectionVars false

namespace BusTub

open HashPartition

namespace HashTableDirectoryPage

variable {b : Build} {d d' : HashTableDirectoryPage} {A : Partition PageId}

/-- `Size` is a power of two. -/
@[simp] theorem size_eq : d.size = 2 ^ d.globalDepth := Nat.one_shiftLeft _

/-- The mask of the global depth, as a number. -/
theorem getGlobalDepthMask_eq : d.getGlobalDepthMask = 2 ^ d.globalDepth - 1 := by
  unfold getGlobalDepthMask
  rw [Nat.one_shiftLeft]

/-- And that of an entry's local depth. -/
theorem getLocalDepthMask_eq (i : ℕ) : d.getLocalDepthMask i = 2 ^ d.localDepths i - 1 := by
  unfold getLocalDepthMask
  rw [Nat.one_shiftLeft]
  rfl

/-- The high bit of an entry is the one in which it differs from its split image. -/
theorem getLocalHighBit_succ {i e : ℕ} (h : d.localDepths i = e + 1) : d.getLocalHighBit i = 2 ^ e := by
  unfold getLocalHighBit
  rw [h, Nat.one_shiftLeft, Nat.shiftRight_eq_div_pow, pow_succ]
  simp

/-! ## The partition a directory shows -/

/-- The directory's entries carry the pages and depths of `A`. -/
structure Shows (d : HashTableDirectoryPage) (A : Partition PageId) : Prop where
  page : ∀ i < 2 ^ d.globalDepth, d.bucketPageIds i = A.page i
  depth : ∀ i < 2 ^ d.globalDepth, d.localDepths i = A.depth i
  depth_le : ∀ h, A.depth h ≤ d.globalDepth

/-- Looking a hash value up by its low bits. -/
theorem Shows.page_mod (h : d.Shows A) (x : ℕ) : d.bucketPageIds (x % 2 ^ d.globalDepth) = A.page x := by
  rw [h.page _ (Nat.mod_lt _ (Nat.two_pow_pos _)), A.page_mod (h.depth_le x)]

/-- The entry of a hash value has the depth of its cell, -/
theorem Shows.depth_mod (h : d.Shows A) (x : ℕ) : d.localDepths (x % 2 ^ d.globalDepth) = A.depth x := by
  rw [h.depth _ (Nat.mod_lt _ (Nat.two_pow_pos _)), A.depth_mod (h.depth_le x)]

/-- The page that the directory names for hash value `x`. -/
def pageOf (d : HashTableDirectoryPage) (x : ℕ) : PageId := d.getBucketPageId (x &&& d.getGlobalDepthMask)

/-- and names the page of its cell. -/
theorem Shows.pageOf_eq (h : d.Shows A) (x : ℕ) : d.pageOf x = A.page x := by
  unfold pageOf getBucketPageId
  rw [getGlobalDepthMask_eq, Nat.and_two_pow_sub_one_eq_mod, h.page_mod]

/-- The directory as `IncrGlobalDepth` leaves it. -/
def doubled (d : HashTableDirectoryPage) : HashTableDirectoryPage :=
  { d with
    localDepths := fun i =>
      if d.size ≤ i ∧ i < d.size + d.size then d.localDepths (i - d.size) else d.localDepths i
    bucketPageIds := fun i =>
      if d.size ≤ i ∧ i < d.size + d.size then d.bucketPageIds (i - d.size) else d.bucketPageIds i
    globalDepth := d.globalDepth + 1 }

/-- Below nine bits `IncrGlobalDepth` copies the entries into the upper half. -/
theorem incrGlobalDepth_eq (hd : d.globalDepth ≤ 8) : d.incrGlobalDepth b = .ok d.doubled := by
  have hsize : d.size ≤ directoryArraySize >>> 1 := by
    rw [size_eq]
    exact Nat.pow_le_pow_right (by omega) hd
  have hdepth : (d.globalDepth + 1) % 2 ^ 32 = d.globalDepth + 1 := Nat.mod_eq_of_lt (by omega)
  simp only [incrGlobalDepth, hsize, decide_true, assertThat_true, bind, Except.bind, hdepth]
  rfl

/-- An index in the upper half stands for the one below it in the lower half. -/
theorem upper_half {i g : ℕ} (hi : i < 2 ^ (g + 1)) (hge : 2 ^ g ≤ i) : i - 2 ^ g = i % 2 ^ g := by
  rw [pow_succ] at hi
  rw [Nat.mod_eq_sub_mod hge, Nat.mod_eq_of_lt (by omega)]

/-- **Doubling the directory changes nothing it shows.** -/
theorem Shows.doubled (h : d.Shows A) : d.doubled.Shows A := by
  refine ⟨fun i hi => ?_, fun i hi => ?_, fun x => Nat.le_succ_of_le (h.depth_le x)⟩
  · replace hi : i < 2 ^ (d.globalDepth + 1) := hi
    show (if d.size ≤ i ∧ i < d.size + d.size then _ else _) = _
    rw [size_eq]
    split
    · next hup => rw [upper_half hi hup.1, h.page_mod]
    · next hlow =>
      rw [pow_succ] at hi
      exact h.page i (by omega)
  · replace hi : i < 2 ^ (d.globalDepth + 1) := hi
    show (if d.size ≤ i ∧ i < d.size + d.size then _ else _) = _
    rw [size_eq]
    split
    · next hup => rw [upper_half hi hup.1, h.depth_mod]
    · next hlow =>
      rw [pow_succ] at hi
      exact h.depth i (by omega)

/-- The loop of `CanShrink`: no entry from `curr` on needs all bits. -/
theorem shrinkFrom_iff : ∀ remaining curr : ℕ,
    d.shrinkFrom remaining curr = true ↔
      ∀ i, curr ≤ i → i < curr + remaining → d.localDepths i < d.globalDepth := by
  intro remaining
  induction remaining with
  | zero =>
    intro curr
    exact ⟨fun _ i h1 h2 => by omega, fun _ => rfl⟩
  | succ remaining ih =>
    intro curr
    unfold shrinkFrom
    by_cases hge : d.localDepths curr ≥ d.globalDepth
    · rw [if_pos hge]
      constructor
      · intro h
        cases h
      · intro h
        have := h curr (Nat.le_refl _) (by omega)
        omega
    · rw [if_neg hge, ih]
      constructor
      · intro h i h1 h2
        rcases Nat.lt_or_eq_of_le h1 with hlt | rfl
        · exact h i hlt (by omega)
        · omega
      · intro h i h1 h2
        exact h i (by omega) (by omega)

/-- `CanShrink` says that no cell needs all bits. -/
theorem Shows.canShrink_iff (h : d.Shows A) : d.canShrink = true ↔ ∀ x, A.depth x < d.globalDepth := by
  unfold canShrink
  rw [shrinkFrom_iff, size_eq]
  constructor
  · intro hall x
    rw [← h.depth_mod]
    have hlt : x % 2 ^ d.globalDepth < 2 ^ d.globalDepth := Nat.mod_lt _ (Nat.two_pow_pos _)
    exact hall _ (Nat.zero_le _) (by omega)
  · intro hall i _ hi
    rw [h.depth i (by omega)]
    exact hall i

/-- **Halving a directory that can shrink changes nothing it shows.** -/
theorem Shows.halve (h : d.Shows A) (hd : d.globalDepth ≤ 9) (hlt : ∀ x, A.depth x < d.globalDepth) :
    ∃ d', d.decrGlobalDepth b = .ok d' ∧ d'.Shows A ∧ d'.globalDepth + 1 = d.globalDepth ∧
      d'.pageId = d.pageId := by
  have hpos := hlt 0
  have hdepth : (d.globalDepth + (2 ^ 32 - 1)) % 2 ^ 32 = d.globalDepth - 1 := by omega
  have hle : 2 ^ (d.globalDepth - 1) ≤ 2 ^ d.globalDepth := Nat.pow_le_pow_right (by omega) (by omega)
  refine ⟨{ d with globalDepth := d.globalDepth - 1 }, ?_, ⟨fun i hi => ?_, fun i hi => ?_, fun x => ?_⟩,
    by show d.globalDepth - 1 + 1 = _; omega, rfl⟩
  · have hpos' : d.globalDepth > 0 := by omega
    simp only [decrGlobalDepth, hpos', decide_true, assertThat_true, bind, Except.bind, hdepth]
  · exact h.page i (lt_of_lt_of_le hi hle)
  · exact h.depth i (lt_of_lt_of_le hi hle)
  · have := hlt x
    show A.depth x ≤ d.globalDepth - 1
    omega

/-! ## The invariant in the directory's own terms -/

/-- **The directory's invariant.** -/
structure DirInv (d : HashTableDirectoryPage) : Prop where
  global_le : d.globalDepth ≤ 9
  local_le : ∀ i < d.size, d.localDepths i ≤ d.globalDepth
  page_eq_iff : ∀ i < d.size, ∀ j < d.size,
    d.bucketPageIds i = d.bucketPageIds j ↔ i ≡ j [MOD 2 ^ d.localDepths i]
  depth_eq : ∀ i < d.size, ∀ j < d.size,
    d.bucketPageIds i = d.bucketPageIds j → d.localDepths i = d.localDepths j
  tight : d.globalDepth = 0 ∨ ∃ i < d.size, d.localDepths i = d.globalDepth

/-- The directory is no larger than its deepest cell needs. -/
def Tight (g : ℕ) (A : Partition PageId) : Prop := g = 0 ∨ ∃ x, A.depth x = g

/-- A directory that shows a partition into cells meets every clause. -/
theorem Shows.dirInv (h : d.Shows A) (hd : d.globalDepth ≤ 9) (htight : Tight d.globalDepth A) :
    d.DirInv where
  global_le := hd
  local_le i hi := by
    rw [size_eq] at hi
    rw [h.depth i hi]
    exact h.depth_le i
  page_eq_iff i hi j hj := by
    rw [size_eq] at hi hj
    rw [h.page i hi, h.page j hj, h.depth i hi]
    exact A.page_eq_iff i j
  depth_eq i hi j hj he := by
    rw [size_eq] at hi hj
    rw [h.page i hi, h.page j hj] at he
    rw [h.depth i hi, h.depth j hj]
    exact A.depth_eq i j he
  tight := by
    refine htight.imp id fun ⟨x, hx⟩ => ⟨x % 2 ^ d.globalDepth, ?_, ?_⟩
    · rw [size_eq]
      exact Nat.mod_lt _ (Nat.two_pow_pos _)
    · rw [h.depth_mod, hx]

/-! ## `VerifyIntegrity` -/

/-- How often page `p` occurs below entry `n`. -/
def occurrences (d : HashTableDirectoryPage) (p : PageId) (n : ℕ) : ℕ :=
  Nat.count (fun i => d.bucketPageIds i = p) n

/-- What the two maps hold when the first loop is at entry `n`. -/
structure Tallied (d : HashTableDirectoryPage) (n : ℕ) (t : Tally) : Prop where
  keys : ∀ p ∈ t.keys, ∃ i < n, d.bucketPageIds i = p
  count : ∀ p, t.count p = d.occurrences p n
  depth : ∀ i < n, t.depth (d.bucketPageIds i) = some (d.localDepths i)
  unseen : ∀ p, (∀ i < n, d.bucketPageIds i ≠ p) → t.depth p = none

/-- An entry whose page has been seen with its depth, if at all. -/
theorem Tallied.step {n : ℕ} {t : Tally} (h : Tallied d n t)
    (hsame : ∀ i < n, d.bucketPageIds i = d.bucketPageIds n → d.localDepths i = d.localDepths n) :
    Tallied d (n + 1) { t.bump (d.bucketPageIds n) with
      depth := Function.update t.depth (d.bucketPageIds n) (some (d.localDepths n)) } := by
  refine ⟨fun p hp => ?_, fun p => ?_, fun i hi => ?_, fun p hp => ?_⟩
  · have hp' : p ∈ t.keys ∨ p = d.bucketPageIds n := by
      simp only [Tally.bump] at hp
      split at hp
      · exact .inl hp
      · simpa using hp
    rcases hp' with hp' | rfl
    · obtain ⟨i, hi, hip⟩ := h.keys p hp'
      exact ⟨i, by omega, hip⟩
    · exact ⟨n, by omega, rfl⟩
  · unfold occurrences
    rw [Nat.count_succ]
    show Function.update t.count (d.bucketPageIds n) (t.count (d.bucketPageIds n) + 1) p = _
    by_cases hp : p = d.bucketPageIds n
    · subst hp
      rw [Function.update_self, h.count, if_pos rfl]
      rfl
    · rw [Function.update_of_ne hp, h.count, if_neg (fun he => hp he.symm)]
      rfl
  · show Function.update t.depth (d.bucketPageIds n) (some (d.localDepths n)) (d.bucketPageIds i) = _
    by_cases he : d.bucketPageIds i = d.bucketPageIds n
    · rw [he, Function.update_self]
      rcases Nat.lt_or_eq_of_le (Nat.le_of_lt_succ hi) with hlt | rfl
      · rw [hsame i hlt he]
      · rfl
    · rw [Function.update_of_ne he]
      have hne : i ≠ n := fun hin => he (by rw [hin])
      exact h.depth i (by omega)
  · show Function.update t.depth (d.bucketPageIds n) (some (d.localDepths n)) p = none
    have hne : p ≠ d.bucketPageIds n := fun he => hp n (by omega) he.symm
    rw [Function.update_of_ne hne]
    exact h.unseen p fun i hi => hp i (by omega)

/-- The depth on record for the page of entry `n` is that of the entries seen with it. -/
theorem Tallied.conflict_iff {n : ℕ} {t : Tally} (h : Tallied d n t) :
    ((t.depth (d.bucketPageIds n)).isSome = true ∧ t.depth (d.bucketPageIds n) ≠ some (d.localDepths n)) ↔
      ∃ i < n, d.bucketPageIds i = d.bucketPageIds n ∧ d.localDepths i ≠ d.localDepths n := by
  constructor
  · rintro ⟨hsome, hne⟩
    by_contra hno
    by_cases hseen : ∃ i < n, d.bucketPageIds i = d.bucketPageIds n
    · obtain ⟨i, hi, he⟩ := hseen
      apply hne
      rw [← he, h.depth i hi]
      by_contra hdepth
      exact hno ⟨i, hi, he, fun heq => hdepth (by rw [heq])⟩
    · rw [h.unseen _ fun i hi he => hseen ⟨i, hi, he⟩] at hsome
      cases hsome
  · rintro ⟨i, hi, he, hne⟩
    rw [← he, h.depth i hi]
    exact ⟨rfl, fun heq => hne (Option.some.inj heq)⟩

/-- The first loop of `VerifyIntegrity` goes through where entries of one page have one depth. -/
theorem Tallied.run (hle : ∀ i < d.size, d.localDepths i ≤ d.globalDepth)
    (hsame : ∀ i < d.size, ∀ j < d.size, d.bucketPageIds i = d.bucketPageIds j →
      d.localDepths i = d.localDepths j) :
    ∀ (remaining n : ℕ) (t : Tally), n + remaining = d.size →
    Tallied d n t → ∃ t', d.tallyFrom b remaining n t = .ok t' ∧ Tallied d d.size t' := by
  intro remaining
  induction remaining with
  | zero =>
    intro n t hn h
    exact ⟨t, rfl, (show n = d.size by omega) ▸ h⟩
  | succ remaining ih =>
    intro n t hn h
    have hsame' : ∀ i < n, d.bucketPageIds i = d.bucketPageIds n → d.localDepths i = d.localDepths n := by
      intro i hi he
      exact hsame i (by omega) n (by omega) he
    have hrec := mt h.conflict_iff.mp fun ⟨i, hi, he, hne⟩ => hne (hsame' i hi he)
    obtain ⟨t', hrun, ht'⟩ := ih (n + 1) _ (by omega) (h.step hsame')
    refine ⟨t', ?_, ht'⟩
    unfold tallyFrom
    simp only [hle n (by omega), decide_true, assertThat_true, bind, Except.bind]
    show (if (t.depth (d.bucketPageIds n)).isSome = true ∧
        t.depth (d.bucketPageIds n) ≠ some (d.localDepths n) then _ else _) = _
    rw [if_neg hrec]
    exact hrun

/-- Before the first entry. -/
theorem Tallied.start : Tallied d 0 { keys := [], count := fun _ => 0, depth := fun _ => none } := by
  refine ⟨fun p hp => ?_, fun p => rfl, fun i hi => ?_, fun p _ => rfl⟩
  · cases hp
  · omega

/-- A page of the directory occurs as often as its depth asks. -/
theorem DirInv.occurrences_eq (h : d.DirInv) {i : ℕ} (hi : i < d.size) :
    d.occurrences (d.bucketPageIds i) d.size = 2 ^ (d.globalDepth - d.localDepths i) := by
  have hle := h.local_le i hi
  have hdvd : 2 ^ d.localDepths i ∣ 2 ^ d.globalDepth := pow_dvd_pow 2 hle
  have hcongr : d.occurrences (d.bucketPageIds i) d.size =
      Nat.count (· ≡ i [MOD 2 ^ d.localDepths i]) d.size := by
    unfold occurrences
    rw [Nat.count_eq_card_filter_range, Nat.count_eq_card_filter_range]
    congr 1
    refine Finset.filter_congr fun j hj => ?_
    rw [eq_comm, h.page_eq_iff i hi j (Finset.mem_range.mp hj)]
    exact ⟨Nat.ModEq.symm, Nat.ModEq.symm⟩
  rw [hcongr, Nat.count_modEq_card _ (Nat.two_pow_pos _), size_eq, Nat.mod_eq_zero_of_dvd hdvd,
    if_neg (Nat.not_lt_zero _), Nat.pow_div hle (by omega), Nat.add_zero]

/-- The second loop goes through where each page is named as often as its depth says. -/
theorem checkCounts_ok {t : Tally} : ∀ keys : List PageId,
    (∀ p ∈ keys, t.count p = 1 <<< (d.globalDepth - (t.depth p).getD 0)) →
    d.checkCounts b t keys = .ok () := by
  intro keys
  induction keys with
  | nil => exact fun _ => rfl
  | cons p rest ih =>
    intro hall
    unfold checkCounts
    simp only [hall p (List.mem_cons_self ..), decide_true, assertThat_true, bind, Except.bind]
    exact ih fun q hq => hall q (List.mem_cons_of_mem _ hq)

/-- **What `VerifyIntegrity` is documented to verify**, of the entries below the size. -/
structure Integrity (d : HashTableDirectoryPage) : Prop where
  local_le : ∀ i < d.size, d.localDepths i ≤ d.globalDepth
  depth_eq : ∀ i < d.size, ∀ j < d.size,
    d.bucketPageIds i = d.bucketPageIds j → d.localDepths i = d.localDepths j
  occurrences_eq : ∀ i < d.size,
    d.occurrences (d.bucketPageIds i) d.size = 2 ^ (d.globalDepth - d.localDepths i)

/-- What holds of the table's directory is what `VerifyIntegrity` asks for. -/
theorem DirInv.integrity (h : d.DirInv) : d.Integrity where
  local_le := h.local_le
  depth_eq := h.depth_eq
  occurrences_eq _ hi := h.occurrences_eq hi

/-- **Then no assertion of it fails.** -/
theorem Integrity.verifyIntegrity_ok (h : d.Integrity) (b : Build) : d.verifyIntegrity b = .ok () := by
  obtain ⟨t, hrun, ht⟩ := Tallied.run (b := b) h.local_le h.depth_eq d.size 0 _ (by omega) .start
  unfold verifyIntegrity
  rw [hrun]
  apply checkCounts_ok
  intro p hp
  obtain ⟨i, hi, rfl⟩ := ht.keys p hp
  rw [ht.count, ht.depth i hi, h.occurrences_eq i hi, Option.getD_some, Nat.one_shiftLeft]

/-- **Under the invariant no assertion of `VerifyIntegrity` fails.** -/
theorem DirInv.verifyIntegrity_ok (h : d.DirInv) (b : Build) : d.verifyIntegrity b = .ok () :=
  h.integrity.verifyIntegrity_ok b

end HashTableDirectoryPage

end BusTub
