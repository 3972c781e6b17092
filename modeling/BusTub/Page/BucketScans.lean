/-
  The scans of a bucket page that stop early.

  `NumReadable` and `IsEmpty` stop at the first unoccupied slot, and `Merge` gives a page away on the word of
  `IsEmpty`.  Here they are compared with scans of all slots.

  1. **Runs**: `pageCalls` is a page under any calls of `Insert`, `Remove` and `RemoveAt`; its reachable pages are
     those of `Reached`.  Of the comparator it is only asked that a key is equal to itself.

  2. **The prefix**: `occupiedLength` is the number of occupied slots, and these are the slots below it
     (`isOccupied_iff_lt`).  A call only sets occupied bits, so it never falls (`occupiedLength_mono`).

  3. **The scans**: what `NumReadable` has counted before slot `idx` is the number of readable slots there, and
     beyond the prefix no slot adds to it (`numReadable_eq`).

  4. `scans_agree` — **the main result**.
-/
import BusTub.Lib.StepSystem
import BusTub.Page.BucketSet
import Mathlib.Data.Nat.Count

set_option linter.unusedSectionVars false

namespace BusTub

/-- What is so below some number only, is so below the number of times that it is. -/
theorem lt_count_iff {p : ℕ → Prop} [DecidablePred p] {n i : ℕ} (hdown : ∀ i j, i ≤ j → p j → p i)
    (hlt : ∀ j, p j → j < n) : i < Nat.count p n ↔ p i := by
  constructor
  · intro h
    by_contra hno
    have hi : i ≤ n := by
      have hle := Nat.count_le (p := p) (n := n)
      omega
    have hrest : Nat.count (fun k => p (i + k)) (n - i) = 0 := by
      rw [Nat.count_iff_forall_not]
      intro k _ hk
      exact hno (hdown i (i + k) (by omega) hk)
    have hsplit := Nat.count_add p i (n - i)
    have hle := Nat.count_le (p := p) (n := i)
    rw [show i + (n - i) = n by omega] at hsplit
    omega
  · intro h
    have hall : Nat.count p (i + 1) = i + 1 := by
      rw [Nat.count_iff_forall]
      intro j hj
      exact hdown j i (by omega) h
    have hmono : Nat.count p (i + 1) ≤ Nat.count p n := Nat.count_monotone p (hlt i h)
    omega

namespace HashTableBucketPage

variable {K V : Type} [Inhabited K] [Inhabited V] [DecidableEq K] [DecidableEq V]

/-! ## Runs of calls -/

/-- A call that changes a page. -/
inductive PageCall (K V : Type) where
  | insert (key : K) (value : V)
  | remove (key : K) (value : V)
  | removeAt (bucket_idx : ℕ)

/-- A page under calls, from a page of zeros; `RemoveAt` is for legal indexes. -/
def pageCalls (n : ℕ) (cmp : K → K → Int) : StepSystem (HashTableBucketPage K V) (PageCall K V) where
  init b := b = zeroed
  step b c b' :=
    match c with
    | .insert key value => b' = (b.insert n cmp key value).2
    | .remove key value => b' = (b.remove n cmp key value).2
    | .removeAt bucket_idx => bucket_idx < n ∧ b' = b.removeAt n bucket_idx

variable {n : ℕ} {cmp : K → K → Int} {b b' : HashTableBucketPage K V}

theorem Reached.call {c : PageCall K V} (h : Reached n cmp b) (hstep : (pageCalls n cmp).step b c b') :
    Reached n cmp b' := by
  cases c with
  | insert key value =>
    obtain rfl := hstep
    exact h.insert key value
  | remove key value =>
    obtain rfl := hstep
    exact h.remove key value
  | removeAt bucket_idx =>
    obtain ⟨hi, rfl⟩ := hstep
    exact h.removeAt hi

/-- The pages reached are those at the end of a run. -/
theorem reached_iff : Reached n cmp b ↔ (pageCalls n cmp).Reachable b := by
  constructor
  · intro h
    induction h with
    | zeroed => exact .init rfl
    | insert _ key value ih => exact ih.step (e := .insert key value) rfl
    | remove _ key value ih => exact ih.step (e := .remove key value) rfl
    | @removeAt _ _ i hi ih => exact ih.step (e := .removeAt i) ⟨hi, rfl⟩
  · intro h
    apply h.invariant
    · intro b hb
      obtain rfl : b = HashTableBucketPage.zeroed := hb
      exact .zeroed
    · intro b c b' hb hstep
      exact hb.call hstep

/-! ## The occupied prefix -/

/-- The number of occupied slots. -/
def occupiedLength (n : ℕ) (b : HashTableBucketPage K V) : ℕ := Nat.count (fun i => b.isOccupied n i = true) n

theorem lt_of_isOccupied {i : ℕ} (h : b.isOccupied n i = true) : i < n := by
  rcases Nat.lt_or_ge i n with hi | hi
  · exact hi
  · unfold isOccupied at h
    rw [if_pos hi] at h
    cases h

/-- The occupied slots are those below `occupiedLength`. -/
theorem BucketInv.isOccupied_iff_lt (h : BucketInv n b) {i : ℕ} :
    b.isOccupied n i = true ↔ i < occupiedLength n b := by
  symm
  apply lt_count_iff
  · intro i j hij hj
    exact h.occupied_below i j hij (lt_of_isOccupied hj) hj
  · intro j hj
    exact lt_of_isOccupied hj

theorem isOccupied_fill {i : ℕ} (hi : i < n) (e : K × V) (j : ℕ) (h : b.isOccupied n j = true) :
    ((setReadable n { b with array := Function.update b.array i e } i).setOccupied n i).isOccupied n j = true := by
  have hj := lt_of_isOccupied h
  by_cases hne : j = i
  · rw [isOccupied_setOccupied hi hj, decide_eq_true hne, Bool.true_or]
  · rw [(sameOutside_fill hi e j hj hne).2.2.1]
    exact h

theorem isOccupied_removeAt (i j : ℕ) : (b.removeAt n i).isOccupied n j = b.isOccupied n j := by
  unfold HashTableBucketPage.removeAt
  split <;> rfl

/-- **A call only sets occupied bits.** -/
theorem BucketInv.isOccupied_call (h : BucketInv n b) {c : PageCall K V} (hstep : (pageCalls n cmp).step b c b')
    (j : ℕ) (hj : b.isOccupied n j = true) : b'.isOccupied n j = true := by
  cases c with
  | insert key value =>
    obtain rfl := hstep
    rcases h.insert_cases cmp key value with ⟨hrun, -⟩ | ⟨i, hi, hrun, -⟩
    · rw [hrun]
      exact hj
    · rw [hrun]
      exact isOccupied_fill hi _ j hj
  | remove key value =>
    obtain rfl := hstep
    rcases h.remove_cases cmp key value with ⟨hrun, -⟩ | ⟨i, -, hrun, -⟩
    · rw [hrun]
      exact hj
    · rw [hrun, isOccupied_removeAt]
      exact hj
  | removeAt bucket_idx =>
    obtain ⟨-, rfl⟩ := hstep
    rw [isOccupied_removeAt]
    exact hj

/-- **The prefix never gets shorter.** -/
theorem occupiedLength_mono (hrefl : ∀ k, cmp k k = 0) (h : Reached n cmp b) {cs : List (PageCall K V)}
    (hrun : (pageCalls n cmp).Run b cs b') : occupiedLength n b ≤ occupiedLength n b' := by
  have hinv : Reached n cmp b' ∧ occupiedLength n b ≤ occupiedLength n b' := by
    apply hrun.invariant (I := fun c => Reached n cmp c ∧ occupiedLength n b ≤ occupiedLength n c)
    · rintro s c t ⟨hs, hle⟩ hstep
      refine ⟨hs.call hstep, hle.trans ?_⟩
      apply Nat.count_mono_left
      intro j _ hj
      exact (hs.inv_of_refl hrefl).isOccupied_call hstep j hj
    · exact ⟨h, Nat.le_refl _⟩
  exact hinv.2

/-! ## The scans -/

/-- Beyond the prefix no slot is readable. -/
theorem BucketInv.not_readable (h : BucketInv n b) {i j : ℕ} (hi : b.isOccupied n i = false) (hij : i ≤ j)
    (hj : j < n) : b.isReadable n j = false := (slot_eq_none hj).mp (h.slot_none hi hij)

/-- The scan of `NumReadable`: what is counted so far is the number of readable slots so far. -/
theorem BucketInv.countFrom_eq (h : BucketInv n b) : ∀ remaining idx : ℕ, idx + remaining = n →
    b.countFrom n remaining idx (Nat.count (fun i => b.isReadable n i = true) idx) =
      Nat.count (fun i => b.isReadable n i = true) n := by
  intro remaining
  induction remaining with
  | zero =>
    intro idx hn
    obtain rfl : idx = n := by omega
    rfl
  | succ remaining ih =>
    intro idx hn
    unfold countFrom
    cases ho : b.isOccupied n idx with
    | false =>
      -- the scan stops here, and the slots left out are not readable
      have hrest : Nat.count (fun k => b.isReadable n (idx + k) = true) (remaining + 1) = 0 := by
        rw [Nat.count_iff_forall_not]
        intro k hk
        rw [h.not_readable ho (by omega) (by omega)]
        simp
      have hsplit := Nat.count_add (fun i => b.isReadable n i = true) idx (remaining + 1)
      rw [hn, hrest] at hsplit
      simpa using hsplit.symm
    | true =>
      have hnext := ih (idx + 1) (by omega)
      rw [Nat.count_succ] at hnext
      cases hr : b.isReadable n idx with
      | true => simpa [hr] using hnext
      | false => simpa [hr] using hnext

/-- **`NumReadable` is the number of readable slots.** -/
theorem BucketInv.numReadable_eq (h : BucketInv n b) :
    b.numReadable n = Nat.count (fun i => b.isReadable n i = true) n := by
  have hscan := h.countFrom_eq n 0 (by omega)
  rw [Nat.count_zero] at hscan
  exact hscan

/-- The scan of `PrintBucket`: all slots so far are occupied, and what is counted is how many of them are readable. -/
theorem BucketInv.printFrom_eq (h : BucketInv n b) : ∀ remaining idx : ℕ, idx + remaining = n →
    idx ≤ occupiedLength n b →
    b.printFrom n remaining idx idx (Nat.count (fun i => b.isReadable n i = true) idx)
        (idx - Nat.count (fun i => b.isReadable n i = true) idx) =
      (occupiedLength n b, Nat.count (fun i => b.isReadable n i = true) n,
        occupiedLength n b - Nat.count (fun i => b.isReadable n i = true) n) := by
  intro remaining
  induction remaining with
  | zero =>
    intro idx hn hle
    have hmost : occupiedLength n b ≤ n := Nat.count_le _
    obtain rfl : idx = n := by omega
    rw [printFrom, show occupiedLength idx b = idx by omega]
  | succ remaining ih =>
    intro idx hn hle
    have hcount := h.countFrom_eq (remaining + 1) idx hn
    have hmost : Nat.count (fun i => b.isReadable n i = true) idx ≤ idx := Nat.count_le _
    rw [countFrom] at hcount
    rw [printFrom]
    cases ho : b.isOccupied n idx with
    | false =>
      have hend : ¬ idx < occupiedLength n b := by
        rw [← h.isOccupied_iff_lt, ho]
        exact Bool.false_ne_true
      rw [ho] at hcount
      have hsame : Nat.count (fun i => b.isReadable n i = true) idx =
          Nat.count (fun i => b.isReadable n i = true) n := hcount
      rw [show occupiedLength n b = idx by omega, ← hsame]
      rfl
    | true =>
      have hnext := ih (idx + 1) (by omega) (h.isOccupied_iff_lt.mp ho)
      rw [Nat.count_succ] at hnext
      cases hr : b.isReadable n idx with
      | true => simpa [hr, show idx + 1 - (Nat.count (fun i => b.isReadable n i = true) idx + 1) =
          idx - Nat.count (fun i => b.isReadable n i = true) idx by omega] using hnext
      | false => simpa [hr, show idx + 1 - Nat.count (fun i => b.isReadable n i = true) idx =
          idx - Nat.count (fun i => b.isReadable n i = true) idx + 1 by omega] using hnext

/-- **`PrintBucket` logs the occupied slots**, how many of them are readable and how many are not. -/
theorem BucketInv.printBucket_eq (h : BucketInv n b) :
    b.printBucket n = (n, occupiedLength n b, b.numReadable n, occupiedLength n b - b.numReadable n) := by
  have hscan := h.printFrom_eq n 0 (by omega) (Nat.zero_le _)
  rw [Nat.count_zero] at hscan
  rw [h.numReadable_eq]
  exact congrArg (Prod.mk n) hscan

/-- **`IsEmpty` says that no slot is readable.** -/
theorem BucketInv.isEmpty_iff_slots (h : BucketInv n b) :
    b.isEmpty n = true ↔ ∀ i < n, b.isReadable n i = false := by
  unfold isEmpty
  rw [h.emptyFrom_iff n 0 (by omega)]
  constructor
  · intro hnone i hi
    exact (slot_eq_none hi).mp (hnone i (Nat.zero_le _))
  · intro hr i _
    rcases Nat.lt_or_ge i n with hi | hi
    · exact (slot_eq_none hi).mpr (hr i hi)
    · exact slot_ge hi

/-- What holds of the bitmaps, and of each scan that stops early. -/
structure ScansAgree (n : ℕ) (b : HashTableBucketPage K V) : Prop where
  readable_occupied : ∀ i < n, b.isReadable n i = true → b.isOccupied n i = true
  occupied_iff : ∀ i < n, b.isOccupied n i = true ↔ i < occupiedLength n b
  distinct : ∀ i < n, ∀ j < n, b.isReadable n i = true → b.isReadable n j = true →
    b.array i = b.array j → i = j
  numReadable : b.numReadable n = Nat.count (fun i => b.isReadable n i = true) n
  isEmpty : b.isEmpty n = true ↔ ∀ i < n, b.isReadable n i = false
  isFull : b.isFull n = true ↔ b.numReadable n = n

theorem BucketInv.scansAgree (h : BucketInv n b) : ScansAgree n b := by
  refine
    { readable_occupied := h.readable_occupied
      occupied_iff := fun i _ => h.isOccupied_iff_lt
      distinct := fun i hi j hj hri hrj he => ?_
      numReadable := h.numReadable_eq
      isEmpty := h.isEmpty_iff_slots
      isFull := ?_ }
  · exact h.slot_inj i j _ (slot_eq_some.mpr ⟨hi, hri, he⟩) (slot_eq_some.mpr ⟨hj, hrj, rfl⟩)
  · rw [isFull_iff, h.numReadable_eq, Nat.count_iff_forall]

/-- **On every page reached the scans that stop early agree with full scans**, and its occupied prefix never gets
    shorter, whatever calls follow. -/
theorem scans_agree (hrefl : ∀ k, cmp k k = 0) (h : (pageCalls n cmp).Reachable b) :
    ScansAgree n b ∧
    ∀ cs b', (pageCalls n cmp).Run b cs b' → occupiedLength n b ≤ occupiedLength n b' := by
  have hreached := reached_iff.mpr h
  exact ⟨(hreached.inv_of_refl hrefl).scansAgree, fun cs b' hrun => occupiedLength_mono hrefl hreached hrun⟩

/-- Two slots, the first of them a hole. -/
theorem scans_agree_two :
    ScansAgree 2 ((((zeroed : HashTableBucketPage ℤ ℤ).insert 2 (fun k k' => k - k') 5 7).2.insert 2
      (fun k k' => k - k') 6 7).2.removeAt 2 0) := by
  have hrefl : ∀ k : ℤ, k - k = 0 := fun k => by omega
  exact (scans_agree hrefl (reached_iff.mp (((Reached.zeroed.insert 5 7).insert 6 7).removeAt Nat.two_pos))).1

end HashTableBucketPage

end BusTub
