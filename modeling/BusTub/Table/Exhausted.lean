/-
  Insertion when the pool is exhausted.

  1. **`Survives`** is what one may expect of `Insert`: it returns, round by round; and a round to which the pool gave
     a null page returns false, and leaves pages and pins as they were before it.

  2. **`HasRoom`**: the pool has the frames that the rounds need besides those that the others have pinned.  Every
     round pins the directory and the bucket of the key, and one that splits asks for one page more.  Which rounds
     there will be is known beforehand: a full bucket is split again as long as all its keys agree with the key in
     the bits it has, and the key moves to the new page at a one bit beyond the size of the directory.

  3. `insert_granted_iff`: everything that `Insert` asks for is granted exactly when there is room.

  4. `insert_survives_iff` — **the main result**: `Insert` survives exactly when there is room.  A null page aborts
     it, by the asserts after the fetches and after `NewPage`.
-/
import BusTub.Table.Construction
import BusTub.Table.Rounds

set_option linter.unusedSectionVars false

namespace BusTub

open Command HashPartition HashTableDirectoryPage BufferPoolManagerInstance

/-! ## What one may expect -/

section expect

variable {Disk K V : Type} [DiskManager Disk (PageData K V)]

/-- No page and no pin count has changed. -/
structure BufferPoolManagerInstance.LeftAsBefore (s s' : BufferPoolManagerInstance Disk (PageData K V)) : Prop where
  pages : ∀ p < s.nextPageId, s'.shown p = s.shown p
  pins : ∀ p, s'.pinCountOf p = s.pinCountOf p

/-- The pool, with a flag that is set as soon as it gives a null page. -/
abbrev watchedPool : Machine (Cmd.Res (K := K) (V := V)) Fault (PoolStore Disk K V × Bool) :=
  noting (poolMachine .debug) Cmd.gotNull

variable [Inhabited K] [Inhabited V] [DecidableEq V] (T : HashTableType K V)

/-- A round of `Insert`: the result, or none when there is to be another round. -/
def HashTableType.insertRound (b : Build) (directory_page_id : PageId) (key : K) (value : V) :
    TableProg K V (Option Bool) := do
  match ← T.insertRegion b directory_page_id key value with
  | some res => pure (some res)
  | none => T.splitInsertRegion b directory_page_id key value

/-- **What one may expect of `Insert`.**  Every round returns.  One that was given a null page returns false, and has
    changed nothing. -/
def HashTableType.Survives (dirId : PageId) (key : K) (value : V) : ℕ → PoolStore Disk K V → Prop
  | 0, _ => False
  | fuel + 1, t => ∃ res t' failed,
    run watchedPool (T.insertRound .debug dirId key value) (t, false) = .ok (res, (t', failed)) ∧
    (failed = true → res = some false ∧ t.pool.LeftAsBefore t'.pool) ∧
    (failed = false → res = none → HashTableType.Survives dirId key value fuel t')

end expect

namespace HashTableType

section returns

variable {Disk K V : Type} [DiskManager Disk (PageData K V)] [Inhabited K] [Inhabited V] [DecidableEq V]
variable {T : HashTableType K V} {dirId : PageId} {key : K} {value : V}

/-- `Insert`, round by round. -/
theorem insert_succ (b : Build) (fuel : ℕ) : T.insert b dirId key value (fuel + 1) = (do
    match ← T.insertRound b dirId key value with
    | some res => pure res
    | none => T.insert b dirId key value fuel) := by
  show T.insertRegion b dirId key value >>= _ = (T.insertRegion b dirId key value >>= _) >>= _
  rw [Prog.bind_bind]
  refine congrArg _ (funext fun res => ?_)
  cases res with
  | some res => rfl
  | none => rfl

theorem insertRound_givesUp : GivesUp (T.insertRound .debug dirId key value) := by
  refine .bind (insertRegion_givesUp dirId key value) fun res => ?_
  cases res with
  | some res => exact .pure _
  | none => exact splitInsertRegion_givesUp dirId key value

end returns

end HashTableType

section flag

variable {Disk K V α : Type} [DiskManager Disk (PageData K V)]

theorem Cmd.refused_of_gotNull {c : Cmd K V} {r : Cmd.Res c} (h : c.gotNull r = true) : c.refused r = true := by
  cases c with
  | newPage v => exact h
  | fetchPage v p => exact h
  | _ => cases h

/-- A program that gives up returns only if it was given no null page. -/
theorem GivesUp.not_failed (p : TableProg K V α) : ∀ {t t' : PoolStore Disk K V} {a : α} {failed : Bool}, GivesUp p →
    run watchedPool p (t, false) = .ok (a, (t', failed)) → failed = false := by
  induction p with
  | ret a =>
    intro t t' a' failed _ h
    cases h
    rfl
  | fail e =>
    intro t t' a failed _ h
    cases h
  | cmd c k ih =>
    intro t t' a failed hgives h
    obtain ⟨r, ⟨t₁, failed₁⟩, hc, hk⟩ := run_cmd_inv h
    obtain ⟨-, rfl⟩ := noting_inv hc
    by_cases hrefused : c.refused r = true
    · have hstop := hgives.2 r true hrefused.symm
      exact absurd trivial (not_returned (k r) t₁ a t' hstop (run_of_noting (k r) hk))
    · have hnull : c.gotNull r = false := Bool.eq_false_iff.mpr fun hnull => hrefused (Cmd.refused_of_gotNull hnull)
      rw [hnull] at hk
      exact ih r (hgives.2 r false (Bool.eq_false_iff.mpr hrefused).symm) hk

end flag

namespace HashTableType

section returns

variable {Disk K V : Type} [DiskManager Disk (PageData K V)] [Inhabited K] [Inhabited V] [DecidableEq V]
variable {T : HashTableType K V} {dirId : PageId} {key : K} {value : V}

/-- **It survives exactly if it returns**, since it does not return after a null page. -/
theorem survives_iff_returns : ∀ (fuel : ℕ) (t : PoolStore Disk K V), T.Survives dirId key value fuel t ↔
    ∃ x, run (poolMachine .debug) (T.insert .debug dirId key value fuel) t = .ok x := by
  intro fuel
  induction fuel with
  | zero => exact fun t => ⟨fun h => h.elim, fun ⟨x, h⟩ => by cases h⟩
  | succ fuel ih =>
    intro t
    rw [insert_succ]
    constructor
    · rintro ⟨res, t', failed, hround, hfailed, hagain⟩
      rw [run_bind_ok (run_of_noting _ hround)]
      cases res with
      | some res => exact ⟨_, rfl⟩
      | none =>
        have hnot : failed = false := Bool.eq_false_iff.mpr fun h => by cases (hfailed h).1
        exact (ih t').mp (hagain hnot rfl)
    · rintro ⟨⟨a, t₂⟩, hrun⟩
      obtain ⟨res, t₁, hround, hrest⟩ := run_bind_inv hrun
      obtain ⟨failed, hwatched⟩ : ∃ failed, run watchedPool _ (t, false) = .ok (res, (t₁, failed)) :=
        run_noting _ false hround
      obtain rfl := insertRound_givesUp.not_failed _ hwatched
      refine ⟨res, t₁, false, hwatched, nofun, fun _ hnone => ?_⟩
      subst hnone
      exact (ih t₁).mpr ⟨_, hrest⟩

end returns

/-! ## How much room the rounds need -/

section room

variable {K V : Type} [Inhabited K] [Inhabited V] [DecidableEq K] [DecidableEq V]

section

variable (T : HashTableType K V) (others : Finset PageId) (P : Pages K V) (dirId : PageId) (key : K)

/-- Splits move `key` before its entry has depth `f`: its hash has a one at a bit that the directory does not have
    yet. -/
def MovesBefore (f : ℕ) : Prop :=
  ∃ j < f, (T.directoryAt P dirId).globalDepth ≤ j ∧ (T.hash key).testBit j = true

/-- When its entry has depth `f`, the bucket of `key` is full: it was full, and all keys agree with `key` so far. -/
def FullAt (f : ℕ) : Prop :=
  (T.bucketAt P (T.keyToPageId key (T.directoryAt P dirId))).isFull T.bucketArraySize = true ∧
    ∀ e ∈ T.pairsAt P (T.keyToPageId key (T.directoryAt P dirId)), T.hash e.1 ≡ T.hash key [MOD 2 ^ f]

instance decidableMovesBefore (f : ℕ) : Decidable (T.MovesBefore P dirId key f) := by
  unfold MovesBefore; infer_instance

instance decidableFullAt (f : ℕ) : Decidable (T.FullAt P dirId key f) := by
  unfold FullAt Nat.ModEq; infer_instance

/-- How many pages have a pin in the round that starts at depth `f`: those of the others, the directory, and the
    bucket of `key`, a page of its own if the key has moved. -/
def framesAt (f : ℕ) : ℕ :=
  if T.MovesBefore P dirId key f then (Insert.insert dirId others).card + 1
  else (Insert.insert (T.keyToPageId key (T.directoryAt P dirId)) (Insert.insert dirId others)).card

/-- **A pool of `n` frames has room for the rounds**: for what the first round fetches, and wherever there is a split
    for one page more. -/
structure HasRoom (n : ℕ) : Prop where
  fetch : T.framesAt others P dirId key (T.keyDepth P dirId key) ≤ n
  split : ∀ f < 9, T.keyDepth P dirId key ≤ f → T.FullAt P dirId key f → T.framesAt others P dirId key f < n

instance decidableHasRoom (n : ℕ) : Decidable (T.HasRoom others P dirId key n) :=
  decidable_of_iff _ ⟨fun h => ⟨h.1, h.2⟩, fun h => And.intro h.fetch h.split⟩

end

variable {T : HashTableType K V} {others : Finset PageId} {P P' : Pages K V} {dirId : PageId} {key : K}
variable {ids : ℕ → PageId} {A A' : Partition PageId} {S : Finset (K × V)} {n : ℕ}

/-- The directory has every bit of the entry. -/
theorem Layout.not_movesBefore (h : T.Layout ids P dirId A) : ¬ T.MovesBefore P dirId key (A.depth (T.hash key)) := by
  rintro ⟨j, hj, hle, -⟩
  have hdepth := h.shows_dir.depth_le (T.hash key)
  omega

theorem Layout.framesAt_own (h : T.Layout ids P dirId A) : T.framesAt others P dirId key (A.depth (T.hash key)) =
    (Insert.insert (A.page (T.hash key)) (Insert.insert dirId others)).card := by
  rw [framesAt, if_neg h.not_movesBefore, h.page]

/-- A bucket that is full now is full at the depth it has. -/
theorem TableInv.fullAt_own (h : T.TableInv ids P dirId A S) : T.FullAt P dirId key (A.depth (T.hash key)) ↔
    (T.bucketAt P (A.page (T.hash key))).isFull T.bucketArraySize = true := by
  rw [FullAt, h.page]
  constructor
  · exact fun hfull => hfull.1
  · intro hfull
    refine ⟨hfull, ?_⟩
    intro e he
    exact (A.page_eq_iff' _ _).mp (h.placed _ e he)

/-- What the bucket of `key` holds. -/
theorem TableInv.mem_pairs_own (h : T.TableInv ids P dirId A S) (e : K × V) :
    e ∈ T.pairsAt P (A.page (T.hash key)) ↔ e ∈ S ∧ T.hash e.1 ≡ T.hash key [MOD 2 ^ A.depth (T.hash key)] := by
  rw [h.mem_pairsAt, A.page_eq_iff']

/-- The depth of the directory after a split. -/
theorem Layout.split_global {i : ℕ} {q : PageId} {hq : ∀ x, A.page x ≠ q} (h : T.Layout ids P dirId A)
    (h' : T.Layout ids P' dirId (A.split i q hq)) :
    (T.directoryAt P' dirId).globalDepth = max (T.directoryAt P dirId).globalDepth (A.depth i + 1) := by
  have hown : (A.split i q hq).depth i = A.depth i + 1 := split_depth hq rfl
  -- every entry has its old depth, or that of the cell that was split
  have hdepth : ∀ x, (A.split i q hq).depth x = A.depth i + 1 ∧ A.page x = A.page i ∨
      (A.split i q hq).depth x = A.depth x := by
    intro x
    by_cases hx : A.page x = A.page i
    · exact .inl ⟨split_depth hq hx, hx⟩
    · exact .inr (if_neg fun hin => hx ((A.page_eq_iff' x i).mpr hin))
  have hi := h'.shows_dir.depth_le i
  apply Nat.le_antisymm
  · rcases h'.tight with hzero | ⟨x, hx⟩
    · omega
    · have hle := h.shows_dir.depth_le x
      rcases hdepth x with ⟨hx', -⟩ | hx'
      · omega
      · omega
  · refine Nat.max_le.mpr ⟨?_, hown ▸ hi⟩
    rcases h.tight with hzero | ⟨x, hx⟩
    · omega
    · have hle := h'.shows_dir.depth_le x
      rcases hdepth x with ⟨-, hsame⟩ | hx'
      · have hsame' := A.depth_eq _ _ hsame
        omega
      · omega

/-- **A split moves the key** if its hash has a one at the bit that the directory gets. -/
theorem Layout.split_page_key {i : ℕ} {q : PageId} (hq : ∀ x, A.page x ≠ q) (h : T.Layout ids P dirId A)
    (hidx : T.keyToDirectoryIndex key (T.directoryAt P dirId) = i) : (A.split i q hq).page (T.hash key) =
      if (T.directoryAt P dirId).globalDepth ≤ A.depth (T.hash key) ∧
        (T.hash key).testBit (A.depth (T.hash key)) = true then q else A.page (T.hash key) := by
  obtain ⟨hi, -, hipage, hidepth⟩ := h.index_spec key hidx
  rw [split_page_own hq hipage.symm, hidepth, hipage]
  refine if_congr ?_ rfl rfl
  rw [hi, Nat.testBit_mod_two_pow]
  by_cases hlt : A.depth (T.hash key) < (T.directoryAt P dirId).globalDepth
  · simp [hlt]
  · simp [hlt, Nat.not_lt.mp hlt]

/-- What a split of the bucket of `key` leaves for the next round. -/
structure SplitsTo (T : HashTableType K V) (ids : ℕ → PageId) (P P' : Pages K V) (dirId : PageId) (key : K)
    (A A' : Partition PageId) : Prop where
  depth : A'.depth (T.hash key) = A.depth (T.hash key) + 1
  global : (T.directoryAt P' dirId).globalDepth =
    max (T.directoryAt P dirId).globalDepth (A.depth (T.hash key) + 1)
  page : A'.page (T.hash key) =
    if (T.directoryAt P dirId).globalDepth ≤ A.depth (T.hash key) ∧
      (T.hash key).testBit (A.depth (T.hash key)) = true then ids P.next else A.page (T.hash key)
  next : P'.next = P.next + 1

/-- A full bucket with a bit to spare is split. -/
theorem TableInv.splitsTo (hcmp : ∀ k k', T.comparator k k' = 0 ↔ k = k') (hids : Function.Injective ids)
    (h : T.TableInv ids P dirId A S) (value : V)
    (hfull : (T.bucketAt P (A.page (T.hash key))).isFull T.bucketArraySize = true) (hlt : A.depth (T.hash key) < 9) :
    ∃ P' A', Disciplined ids 3 (T.splitInsertRegion .debug dirId key value) P none P' ∧
      T.TableInv ids P' dirId A' S ∧ T.SplitsTo ids P P' dirId key A A' := by
  obtain ⟨-, -, hipage, hidepth⟩ := h.index_spec key rfl
  obtain ⟨P', results, hq, hrun, -, hinv, hnext, -⟩ :=
    h.splitInsertRegionNoting_split (Nat.le_refl 3) hids hcmp key value rfl hfull hlt
  refine ⟨P', _, ?_, hinv, ?_, ?_, h.split_page_key hq rfl, hnext⟩
  · rw [splitInsertRegion_noting]
    exact hrun.bind (.pure _ P')
  · rw [split_depth hq hipage.symm, hidepth]
  · rw [h.split_global hinv.toLayout, hidepth]

section

variable (h : T.TableInv ids P dirId A S) (h' : T.TableInv ids P' dirId A' S)
  (hsplit : T.SplitsTo ids P P' dirId key A A')
include h h' hsplit

/-- Later the bucket is full as the bucket of now tells. -/
theorem SplitsTo.fullAt_iff (hfull : (T.bucketAt P (A.page (T.hash key))).isFull T.bucketArraySize = true) {f : ℕ}
    (hf : A.depth (T.hash key) < f) : T.FullAt P' dirId key f ↔ T.FullAt P dirId key f := by
  have hmem : ∀ e, e ∈ T.pairsAt P' (A'.page (T.hash key)) ↔ e ∈ T.pairsAt P (A.page (T.hash key)) ∧
      T.hash e.1 ≡ T.hash key [MOD 2 ^ (A.depth (T.hash key) + 1)] := by
    intro e
    rw [h'.mem_pairs_own, h.mem_pairs_own, hsplit.depth]
    exact ⟨fun he => ⟨⟨he.1, modEq_of_le (Nat.le_succ _) he.2⟩, he.2⟩, fun he => ⟨he.1.1, he.2⟩⟩
  have hcard := (h.bucket (T.hash key)).isFull_iff_card.mp hfull
  -- it stays full if it keeps all its pairs
  have hkeep : (T.bucketAt P' (A'.page (T.hash key))).isFull T.bucketArraySize = true ↔
      T.pairsAt P' (A'.page (T.hash key)) = T.pairsAt P (A.page (T.hash key)) := by
    rw [(h'.bucket (T.hash key)).isFull_iff_card]
    constructor
    · intro hcard'
      refine Finset.eq_of_subset_of_card_le (fun e he => ((hmem e).mp he).1) ?_
      show ((T.bucketAt P _).pairs _).card ≤ ((T.bucketAt P' _).pairs _).card
      rw [hcard, hcard']
    · intro hsame
      exact (congrArg Finset.card hsame).trans hcard
  rw [FullAt, FullAt, h'.page, h.page, hkeep]
  constructor
  · rintro ⟨hsame, hagree⟩
    exact ⟨hfull, fun e he => hagree e (hsame ▸ he)⟩
  · rintro ⟨-, hagree⟩
    have hsame : T.pairsAt P' (A'.page (T.hash key)) = T.pairsAt P (A.page (T.hash key)) := by
      ext e
      rw [hmem]
      exact ⟨fun he => he.1, fun he => ⟨he, modEq_of_le hf (hagree e he)⟩⟩
    exact ⟨hsame, fun e he => hagree e (hsame ▸ he)⟩

/-- Later rounds pin as many pages as the state of now tells. -/
theorem SplitsTo.framesAt_eq (hids : Function.Injective ids) (hothers : ∀ p ∈ others, P.Created ids p) {f : ℕ}
    (hf : A.depth (T.hash key) < f) : T.framesAt others P' dirId key f = T.framesAt others P dirId key f := by
  have hdepth := h.shows_dir.depth_le (T.hash key)
  have hglobal := hsplit.global
  have hpage := hsplit.page
  by_cases hmoves : (T.directoryAt P dirId).globalDepth ≤ A.depth (T.hash key) ∧
      (T.hash key).testBit (A.depth (T.hash key)) = true
  · -- the key is on the new page, which nobody else has pinned
    rw [if_pos hmoves] at hpage
    have hnew : ids P.next ∉ Insert.insert dirId others := by
      rw [Finset.mem_insert, not_or]
      exact ⟨(h.created_ne hids h.dir_created).symm, fun hp => h.created_ne hids (hothers _ hp) rfl⟩
    have hnow : T.MovesBefore P dirId key f := ⟨_, hf, hmoves.1, hmoves.2⟩
    rw [framesAt, framesAt, if_pos hnow, h'.page, hpage, Finset.card_insert_of_notMem hnew, ite_self]
  · -- the key is where it was, and bit `A.depth (T.hash key)` does not count
    rw [if_neg hmoves] at hpage
    have hsame : T.MovesBefore P' dirId key f ↔ T.MovesBefore P dirId key f := by
      refine exists_congr fun j => and_congr_right fun _ => and_congr_left fun hbit => ?_
      rw [hglobal]
      constructor
      · exact fun hle => (Nat.max_le.mp hle).1
      · intro hle
        apply Nat.max_le.mpr
        refine ⟨hle, ?_⟩
        by_contra hlt
        obtain rfl : j = A.depth (T.hash key) := by omega
        exact hmoves ⟨hle, hbit⟩
    rw [framesAt, framesAt, h'.page, h.page, hpage, if_congr hsame rfl rfl]

/-- **A split needs room for one page more, and leaves the room that the next round needs.** -/
theorem SplitsTo.hasRoom_iff (hids : Function.Injective ids) (hothers : ∀ p ∈ others, P.Created ids p)
    (hfull : (T.bucketAt P (A.page (T.hash key))).isFull T.bucketArraySize = true) (hlt : A.depth (T.hash key) < 9) :
    T.HasRoom others P dirId key n ↔
      T.framesAt others P dirId key (A.depth (T.hash key)) < n ∧ T.HasRoom others P' dirId key n := by
  have hframes : ∀ {f}, A.depth (T.hash key) < f →
      T.framesAt others P' dirId key f = T.framesAt others P dirId key f :=
    fun hf => hsplit.framesAt_eq h h' hids hothers hf
  have hfulls : ∀ {f}, A.depth (T.hash key) < f → (T.FullAt P' dirId key f ↔ T.FullAt P dirId key f) :=
    fun hf => hsplit.fullAt_iff h h' hfull hf
  have hkey := h.keyDepth_eq key
  have hkey' : T.keyDepth P' dirId key = A.depth (T.hash key) + 1 := (h'.keyDepth_eq key).trans hsplit.depth
  constructor
  · rintro ⟨-, hroom⟩
    rw [hkey] at hroom
    have hnow := hroom _ hlt (Nat.le_refl _) (h.fullAt_own.mpr hfull)
    refine ⟨hnow, ?_, ?_⟩
    · show T.framesAt others P' dirId key (T.keyDepth P' dirId key) ≤ n
      rw [hkey', hframes (Nat.lt_succ_self _)]
      -- a page of its own is one page more than the directory's and the others'
      have hle : (Insert.insert dirId others).card ≤ T.framesAt others P dirId key (A.depth (T.hash key)) := by
        rw [h.framesAt_own]
        exact Finset.card_le_card (Finset.subset_insert ..)
      have hown : T.framesAt others P dirId key (A.depth (T.hash key)) = _ := h.framesAt_own
      rw [framesAt, h.page]
      split
      · omega
      · omega
    · intro f hf9 hf hat
      rw [hkey'] at hf
      rw [hframes hf]
      apply hroom f hf9
      · omega
      · exact (hfulls hf).mp hat
  · rintro ⟨hnow, -, hroom⟩
    rw [hkey'] at hroom
    refine ⟨hkey ▸ Nat.le_of_lt hnow, ?_⟩
    intro f hf9 hf hat
    rw [hkey] at hf
    rcases Nat.eq_or_lt_of_le hf with rfl | hf
    · exact hnow
    · rw [← hframes hf]
      exact hroom f hf9 hf ((hfulls hf).mpr hat)

end

/-- Without a split there need only be room for what is fetched. -/
theorem TableInv.hasRoom_unsplit (h : T.TableInv ids P dirId A S)
    (hunsplit : (T.bucketAt P (A.page (T.hash key))).isFull T.bucketArraySize = false ∨ A.depth (T.hash key) = 9) :
    T.HasRoom others P dirId key n ↔ T.framesAt others P dirId key (A.depth (T.hash key)) ≤ n := by
  rw [← h.keyDepth_eq]
  constructor
  · exact fun hroom => hroom.fetch
  · intro hfetch
    refine ⟨hfetch, ?_⟩
    intro f hf9 hf hat
    rw [h.keyDepth_eq] at hf
    rcases hunsplit with hroom | hnine
    · rw [FullAt, h.page, hroom] at hat
      exact absurd hat.1 Bool.noConfusion
    · omega

end room

/-! ## What the rounds are granted -/

section grants

open TableProg

variable {K V : Type} [Inhabited K] [Inhabited V] [DecidableEq K] [DecidableEq V]
variable {T : HashTableType K V} {cfg : PoolConfig} {others : List Pin} {P : Pages K V} {dirId : PageId}
  {A : Partition PageId} {S : Finset (K × V)} {key : K} {value : V} {ptr : PtrVar → Option ℕ} {t : ℕ}

/-- The pages that the others have pinned. -/
abbrev heldPages (others : List Pin) : Finset PageId := (others.map Pin.page).toFinset

/-- The directory and the bucket are fetched if there is room for both beside the pages of the others. -/
theorem Layout.fetchFor_granted (h : T.Layout cfg.idAt P dirId A) (hfew : (heldPages others).card ≤ cfg.poolSize) :
    AllGranted cfg 3 others (T.fetchFor .debug dirId key) ⟨P, ptr, [], t⟩ ↔
      (heldPages others |> Insert.insert dirId |> Insert.insert (A.page (T.hash key))).card ≤ cfg.poolSize := by
  let s₁ : CheckedStore K V := ⟨P, Function.update ptr .dirPage (some t), [⟨t, dirId, false⟩], t + 1⟩
  have hpinned : (⟨P, ptr, [], t⟩ : CheckedStore K V).pinned others = heldPages others := rfl
  have hpinned₁ : s₁.pinned others = Insert.insert dirId (heldPages others) := by
    simp [CheckedStore.pinned, s₁]
  have hdir : run (checkedMachine cfg.idAt 3) (fetchDirectoryPage .debug dirId) ⟨P, ptr, [], t⟩ = .ok (true, s₁) := by
    simp [fetchDirectoryPage, run_bind, checkedMachine, h.dir_created, s₁]
  have hload : run (checkedMachine cfg.idAt 3) T.loadDirectory s₁ = .ok (T.directoryAt P dirId, s₁) := by
    simp [loadDirectory, run_bind, checkedMachine, CheckedStore.holdOf, s₁]
  have hcheck : run (checkedMachine cfg.idAt 3) (check (assertThat .debug true) : TableProg K V Unit) s₁ =
    .ok ((), s₁) := rfl
  have hseen : ∀ {α : Type} (x : Except Fault Unit) (a : α), AsksNothing (do check x; pure a : TableProg K V α) :=
    fun x a => .bind (.check x) fun _ => .pure a
  unfold fetchFor
  rw [allGranted_bind hdir, allGranted_past (.check _) hcheck, allGranted_past loadDirectory_asksNothing hload,
    allGranted_only (fun _ => hseen _ _), fetchDirectoryPage, allGranted_only (fun _ => hseen _ _), fetchBucketPage,
    allGranted_only (fun _ => hseen _ _), fetchPage, allGranted_call, fetchPage, allGranted_call,
    granted_fetch_iff hfew, hpinned, h.page]
  constructor
  · rintro ⟨hone, htwo⟩
    have hone' : (s₁.pinned others).card ≤ cfg.poolSize := hpinned₁ ▸ hone
    exact hpinned₁ ▸ (granted_fetch_iff hone' _ _).mp htwo
  · intro hboth
    have hone : (Insert.insert dirId (heldPages others)).card ≤ cfg.poolSize :=
      (Finset.card_le_card (Finset.subset_insert ..)).trans hboth
    refine ⟨hone, (granted_fetch_iff (hpinned₁ ▸ hone) _ _).mpr ?_⟩
    rw [hpinned₁]
    exact hboth

section rounds

variable (h : T.Layout cfg.idAt P dirId A) (hfew : (heldPages others).card ≤ cfg.poolSize)
include h hfew

/-- `Insert` asks for the directory and the bucket. -/
theorem Layout.insertRegion_granted :
    AllGranted cfg 3 others (T.insertRegion .debug dirId key value) ⟨P, ptr, [], t⟩ ↔
      T.framesAt (heldPages others) P dirId key (A.depth (T.hash key)) ≤ cfg.poolSize := by
  have hlatch : run (checkedMachine cfg.idAt 3) (latch .tableRLock : TableProg K V Unit) ⟨P, ptr, [], t⟩ =
    .ok ((), ⟨P, ptr, [], t⟩) := rfl
  unfold insertRegion
  rw [allGranted_past (.latch _) hlatch, allGranted_only, h.fetchFor_granted hfew, h.framesAt_own]
  -- what follows the fetches asks for nothing
  intro p
  refine .bind (.latch _) fun _ => .bind (loadBucket_asksNothing _) fun bucket => ?_
  split
  · exact .bind (.store _ _) fun _ => .bind (unpinDirectory_asksNothing _) fun _ =>
      .bind (.assert_unpinPage _ _) fun _ => .bind (.latch _) fun _ => .bind (.latch _) fun _ => .pure _
  · exact .bind (.assert_unpinPage _ _) fun _ => .bind (unpinDirectory_asksNothing _) fun _ =>
      .bind (.latch _) fun _ => .bind (.latch _) fun _ => .pure _

/-- `SplitInsert` asks for them again, and if it splits for a page more. -/
theorem Layout.splitInsertRegion_granted :
    AllGranted cfg 3 others (T.splitInsertRegion .debug dirId key value) ⟨P, ptr, [], t⟩ ↔
      T.framesAt (heldPages others) P dirId key (A.depth (T.hash key)) ≤ cfg.poolSize ∧
      ((T.bucketAt P (A.page (T.hash key))).isFull T.bucketArraySize = true → A.depth (T.hash key) < 9 →
        T.framesAt (heldPages others) P dirId key (A.depth (T.hash key)) < cfg.poolSize) := by
  -- both pages are fetched before anything is read
  let s₁ := fetched P ptr t dirId (A.page (T.hash key))
  have hlatch : run (checkedMachine cfg.idAt 3) (latch .tableWLock : TableProg K V Unit) ⟨P, ptr, [], t⟩ =
    .ok ((), ⟨P, ptr, [], t⟩) := rfl
  have hload : run (checkedMachine cfg.idAt 3) T.loadDirectory s₁ = .ok (T.directoryAt P dirId, s₁) := by
    simp [loadDirectory, run_bind, checkedMachine, CheckedStore.holdOf, s₁, fetched]
  have hbucket : run (checkedMachine cfg.idAt 3) (T.loadBucket .bucketPage) s₁ =
      .ok (T.bucketAt P (A.page (T.hash key)), s₁) := by
    simp [loadBucket, run_bind, checkedMachine, CheckedStore.holdOf, s₁, fetched]
  unfold splitInsertRegion
  rw [allGranted_past (.latch _) hlatch, allGranted_bind (h.fetchFor_run (Nat.le_refl 3) key ptr t),
    h.fetchFor_granted hfew, ← h.framesAt_own, allGranted_past loadDirectory_asksNothing hload,
    allGranted_past (loadBucket_asksNothing _) hbucket]
  -- those two frames are the first conjunct; the rest depends on what the bucket holds
  refine and_congr_right fun _ => ?_
  obtain ⟨-, hilt, -, hidepth⟩ := h.index_spec key rfl
  cases hfull : (T.bucketAt P (A.page (T.hash key))).isFull T.bucketArraySize with
  | false =>
    -- room for the pair: nothing else is asked for
    refine iff_of_true (AsksNothing.granted ?_ s₁) fun hno => absurd hno Bool.noConfusion
    exact .bind (.store _ _) fun _ => .bind (unpinDirectory_asksNothing _) fun _ =>
      .bind (.assert_unpinPage _ _) fun _ => .bind (.latch _) fun _ => .pure _
  | true =>
    rcases deepen_spec (b := .debug) h.shows_dir h.global_le hilt hidepth with
      ⟨hdeep, hnine⟩ | ⟨d, hdeep, -, hlt, hle, -⟩
    · have hstuck : run (checkedMachine cfg.idAt 3) (check (deepen .debug (T.directoryAt P dirId)
          (T.keyToDirectoryIndex key (T.directoryAt P dirId))) : TableProg K V _) s₁ = .ok (none, s₁) := by
        rw [hdeep]
        rfl
      -- nine bits already: no split, no page
      refine iff_of_true ((allGranted_past (.check _) hstuck).mpr (AsksNothing.granted ?_ s₁))
        fun _ hlt => absurd hnine (Nat.ne_of_lt hlt)
      exact .bind (unpinDirectory_asksNothing _) fun _ => .bind (.assert_unpinPage _ _) fun _ =>
        .bind (.latch _) fun _ => .pure _
    · -- the directory is written, and the new page asked for
      generalize deepened d _ _ = dir at hdeep
      have hcheck : run (checkedMachine cfg.idAt 3) (check (deepen .debug (T.directoryAt P dirId)
          (T.keyToDirectoryIndex key (T.directoryAt P dirId))) : TableProg K V _) s₁ = .ok (some dir, s₁) := by
        rw [hdeep]
        rfl
      let s₂ : CheckedStore K V := { s₁ with
        pages := P.write dirId (.directory dir)
        holds := [⟨t + 1, A.page (T.hash key), false⟩, ⟨t, dirId, true⟩] }
      have hstore : run (checkedMachine cfg.idAt 3) (storeDirectory dir) s₁ = .ok ((), s₂) := by
        simp [storeDirectory, checkedMachine, CheckedStore.holdOf, markWrote, s₁, s₂, fetched]
      have hpinned : s₂.pinned others =
          Insert.insert (A.page (T.hash key)) (Insert.insert dirId (heldPages others)) := by
        simp [CheckedStore.pinned, s₂]
      -- the third page is asked for while the other two are held
      have hnew : s₂.Granted cfg.poolSize others (.newPage .splitBucketPage) ↔
          T.framesAt (heldPages others) P dirId key (A.depth (T.hash key)) < cfg.poolSize := by
        rw [h.framesAt_own, ← hpinned]
        rfl
      refine (allGranted_past (.check _) hcheck).trans ((allGranted_past (.store _ _) hstore).trans
        ((allGranted_only fun page => ?_).trans ?_))
      · exact .bind (.check _) fun _ => .bind (.check _) fun _ => .bind (.store _ _) fun _ =>
          .bind (.assert (.bind (loadBucket_asksNothing _) fun _ => .pure _)) fun _ =>
          .bind (.assert (.bind (loadBucket_asksNothing _) fun _ => .pure _)) fun _ =>
          .bind (redistribute_asksNothing _ _ _) fun _ => .bind (unpinDirectory_asksNothing _) fun _ =>
          .bind (.assert_unpinPage _ _) fun _ => .bind (.assert_unpinPage _ _) fun _ =>
          .bind (.latch _) fun _ => .pure _
      · rw [newPage, allGranted_call, hnew]
        constructor
        · exact fun hroom _ _ => hroom
        · intro hroom
          apply hroom rfl
          omega

end rounds

/-- **Everything that `Insert` asks for is granted exactly when there is room.** -/
theorem TableInv.insert_granted_iff (hcmp : ∀ k k', T.comparator k k' = 0 ↔ k = k')
    (hfew : (heldPages others).card ≤ cfg.poolSize) : ∀ (fuel : ℕ) {P : Pages K V} {A : Partition PageId}
    {ptr : PtrVar → Option ℕ} {t : ℕ}, T.TableInv cfg.idAt P dirId A S →
      (∀ p ∈ heldPages others, P.Created cfg.idAt p) → 9 < fuel + A.depth (T.hash key) →
      (AllGranted cfg 3 others (T.insert .debug dirId key value fuel) ⟨P, ptr, [], t⟩ ↔
        T.HasRoom (heldPages others) P dirId key cfg.poolSize) := by
  intro fuel
  -- the fuel that is left and the bits that the bucket has add up to more than nine
  induction fuel with
  | zero =>
    intro P A ptr t h _ hfuel
    have hle := h.depth_le (T.hash key)
    omega
  | succ fuel ih =>
    intro P A ptr t h hothers hfuel
    have hcap := Nat.le_refl 3
    unfold insert
    cases hfull : (T.bucketAt P (A.page (T.hash key))).isFull T.bucketArraySize with
    | false =>
      obtain ⟨ptr₁, t₁, hrun⟩ := h.insertRegion_room hcap key value hfull ptr t
      rw [allGranted_bind hrun, h.insertRegion_granted hfew, h.hasRoom_unsplit (.inl hfull)]
      exact and_iff_left trivial
    | true =>
      obtain ⟨ptr₁, t₁, hrun⟩ := h.insertRegion_full hcap key value hfull ptr t
      rw [allGranted_bind hrun, h.insertRegion_granted hfew]
      rcases Nat.lt_or_eq_of_le (h.depth_le (T.hash key)) with hlt | hnine
      · obtain ⟨P', A', hsplitrun, h', hsplit⟩ := h.splitsTo hcmp cfg.idAt_injective value hfull hlt
        obtain ⟨ptr₂, t₂, hrun'⟩ := hsplitrun ptr₁ t₁
        have hothers' : ∀ p ∈ heldPages others, P'.Created cfg.idAt p := fun p hp =>
          h.created_mono (by rw [hsplit.next]; exact Nat.le_succ _) (hothers p hp)
        have hagain : AllGranted cfg 3 others (T.insert .debug dirId key value fuel) ⟨P', ptr₂, [], t₂⟩ ↔ _ :=
          ih h' hothers' (by rw [hsplit.depth]; omega)
        rw [hsplit.hasRoom_iff h h' cfg.idAt_injective hothers hfull hlt, ← hagain]
        show _ ∧ AllGranted cfg 3 others (T.splitInsertRegion .debug dirId key value >>= _) _ ↔ _
        rw [allGranted_bind hrun', h.splitInsertRegion_granted hfew]
        constructor
        · rintro ⟨-, ⟨-, hroom⟩, hrest⟩
          exact ⟨hroom hfull hlt, hrest⟩
        · rintro ⟨hroom, hrest⟩
          exact ⟨Nat.le_of_lt hroom, ⟨Nat.le_of_lt hroom, fun _ _ => hroom⟩, hrest⟩
      · obtain ⟨ptr₂, t₂, hrun'⟩ := h.splitInsertRegion_stuck hcap key value hfull hnine ptr₁ t₁
        rw [h.hasRoom_unsplit (.inr hnine)]
        show _ ∧ AllGranted cfg 3 others (T.splitInsertRegion .debug dirId key value >>= _) _ ↔ _
        rw [allGranted_bind hrun', h.splitInsertRegion_granted hfew]
        constructor
        · exact fun hall => hall.1
        · intro hroom
          exact ⟨hroom, ⟨hroom, fun _ hlt => absurd hnine (Nat.ne_of_lt hlt)⟩, trivial⟩

end grants

/-! ## Tables that nobody else writes -/

section undisturbed

variable {Disk K V : Type} [DiskManager Disk (PageData K V)]
variable [Inhabited K] [Inhabited V] [DecidableEq K] [DecidableEq V]

/-- The pages of the pool, as it shows them. -/
def seen (s : SharedPool Disk K V) : Pages K V := ⟨s.pool.handedOut.length, s.pool.shown, []⟩

/-- Page `p` is the directory page, or a bucket page that it names. -/
def OwnPage (T : HashTableType K V) (s : SharedPool Disk K V) (p : PageId) : Prop :=
  ∃ dirId, s.table = some dirId ∧ (p = dirId ∨ ∃ x, (T.directoryAt (seen s) dirId).pageOf x = p)

/-- The runs of a shared pool whose other clients write no page of the table.  They may pin them. -/
def undisturbed (T : HashTableType K V) (cfg : PoolConfig) (disk : Disk) (fuel : ℕ) :
    StepSystem (SharedPool Disk K V) (PoolEvent K V) where
  init := (sharing T cfg disk fuel).init
  step s e s' := (sharing T cfg disk fuel).step s e s' ∧ ∀ k x, e = .client (.write k x) → ¬ T.OwnPage s k.page

variable [LawfulDiskManager Disk]
variable {T : HashTableType K V} {cfg : PoolConfig} {disk : Disk} {fuel : ℕ} {s s' : SharedPool Disk K V}
  {P : Pages K V} {dirId : PageId} {key : K} {value : V}

/-- The pool backs the pages `P` with the pins of the others alone, and the table is sound. -/
structure UndisturbedInv (T : HashTableType K V) (cfg : PoolConfig) (P : Pages K V) (s : SharedPool Disk K V) :
    Prop extends SharedInv T cfg P s where
  table : ∀ dirId, s.table = some dirId → ∃ A S, T.TableInv cfg.idAt P dirId A S

theorem UndisturbedInv.forget {A : Partition PageId} {S : Finset (K × V)} (hbacks : Backs cfg P s.others s.pool)
    (hlt : cfg.idAt P.next < 2 ^ 31) (htable : s.table = some dirId) (hinv : T.TableInv cfg.idAt P dirId A S) :
    UndisturbedInv T cfg { P with deleted := [] } s := by
  refine ⟨.forget hbacks hlt htable hinv.toLayout, fun dirId' hdir => ?_⟩
  obtain rfl : dirId' = dirId := Option.some.inj (hdir.symm.trans htable)
  exact ⟨A, S, hinv.covers (covers_forget P)⟩

/-- **What an operation leaves.** -/
theorem UndisturbedInv.operates (hcmp : ∀ k k', T.comparator k k' = 0 ↔ k = k') (h : UndisturbedInv T cfg P s)
    (hfuel : 10 ≤ fuel) {op : PoolOp K V} (hop : T.Operates fuel s op s') (hothers : s'.others = s.others) :
    ∃ P' : Pages K V, UndisturbedInv T cfg P' s' := by
  have hids := cfg.idAt_injective
  cases op with
  | construct dir₀ =>
    obtain ⟨hbacks, hlt, htable⟩ := h.constructed hop
    rw [← hothers] at hbacks
    refine ⟨_, .forget hbacks hlt htable (firstPages_inv hids P fun p hp => ?_)⟩
    rw [h.none_deleted] at hp
    cases hp
  | call c =>
    obtain ⟨dirId, htable, -⟩ := id hop
    obtain ⟨A, S, hinv⟩ := h.table dirId htable
    obtain ⟨r, P', A', S', hdisc, hinv'⟩ := hinv.publicCall_spec (Nat.le_refl 3) hids hfuel hcmp c
    obtain ⟨hbacks, hlt, htable'⟩ := h.called htable hdisc hop
    rw [← hothers] at hbacks
    exact ⟨_, .forget hbacks hlt htable' hinv'⟩

/-- The pages that the pool shows are as good. -/
theorem UndisturbedInv.seen (h : UndisturbedInv T cfg P s) : UndisturbedInv T cfg (HashTableType.seen s) s := by
  have hlen : s.pool.handedOut.length = P.next := by
    rw [h.backs.handedOut, List.length_map, List.length_range]
  have hshown : ∀ {p}, P.Created cfg.idAt p → (HashTableType.seen s).mem p = P.mem p := fun hp => h.backs.shown hp
  have hgrow : P.next ≤ (HashTableType.seen s).next := hlen.ge
  have hdel : ∀ p ∈ (HashTableType.seen s).deleted, p ∈ P.deleted := fun p hp => by cases hp
  have hlinked := h.backs.record_linked
  rw [BufferPoolManagerInstance.record, h.backs.handedOut, ← hlen] at hlinked
  refine ⟨⟨⟨hlinked, h.backs.cfg_eq, ?_⟩, ?_, rfl, fun dirId hdir => ?_⟩, fun dirId hdir => ?_⟩
  · rw [h.backs.counter, ← hlen]
    rfl
  · show cfg.idAt s.pool.handedOut.length < 2 ^ 31
    rw [hlen]
    exact h.count
  · obtain ⟨A, hA⟩ := h.layout dirId hdir
    exact ⟨A, hA.grow hgrow hdel (hshown hA.dir_created)⟩
  · obtain ⟨A, S, hA⟩ := h.table dirId hdir
    exact ⟨A, S, hA.grow hgrow hdel (hshown hA.dir_created) fun x => hshown (hA.created x)⟩

/-- **Every reachable state is sound.** -/
theorem UndisturbedInv.reachable (hcmp : ∀ k k', T.comparator k k' = 0 ↔ k = k') (hfuel : 10 ≤ fuel)
    (h : (undisturbed T cfg disk fuel).Reachable s) : UndisturbedInv T cfg (HashTableType.seen s) s := by
  suffices hinv : ∃ P : Pages K V, UndisturbedInv T cfg P s from hinv.elim fun P hP => hP.seen
  refine h.invariant (I := fun s => ∃ P : Pages K V, UndisturbedInv T cfg P s) ?_ ?_
  · intro s h₀
    obtain ⟨P, hP⟩ := SharedInv.reachable (T := T) hfuel (.init h₀)
    refine ⟨P, hP, fun dirId hdir => ?_⟩
    obtain ⟨rfl, -⟩ := h₀
    cases hdir
  · rintro s e s' ⟨P, hP⟩ ⟨hstep, hwrites⟩
    cases e with
    | table op => exact hP.operates hcmp hfuel hstep.1 hstep.2
    | client e =>
      obtain ⟨⟨g, hclient, hothers⟩, htable, -⟩ := hstep
      obtain ⟨P', hbacks, hlt, hle, hdel, hmem⟩ := hP.backs.client hP.count hclient
      have hdel' : ∀ p ∈ P'.deleted, p ∈ P.deleted := fun p hp => by
        rw [hdel] at hp
        cases hp
      -- no page of the table is written
      have hkept : ∀ dirId A S, s'.table = some dirId → T.TableInv cfg.idAt P dirId A S →
          T.TableInv cfg.idAt P' dirId A S := by
        intro dirId A S hdir hA
        rw [htable] at hdir
        have hpage : ∀ x, (T.directoryAt (HashTableType.seen s) dirId).pageOf x = A.page x := by
          intro x
          have hsame : T.directoryAt (HashTableType.seen s) dirId = T.directoryAt P dirId :=
            congrArg T.asDirectory (hP.backs.shown hA.dir_created)
          rw [hsame]
          exact hA.shows_dir.pageOf_eq x
        refine hA.grow hle hdel' (hmem dirId hA.dir_created fun k x he hk => ?_)
          fun x => hmem _ (hA.created x) fun k y he hk => ?_
        · exact hwrites k x (he ▸ rfl) ⟨dirId, hdir, .inl hk⟩
        · exact hwrites k y (he ▸ rfl) ⟨dirId, hdir, .inr ⟨x, (hpage x).trans hk.symm⟩⟩
      refine ⟨P', ⟨hothers ▸ hbacks, hlt, hdel, fun dirId hdir => ?_⟩, fun dirId hdir => ?_⟩
      · obtain ⟨A, S, hA⟩ := hP.table dirId (htable ▸ hdir)
        exact ⟨A, (hkept dirId A S hdir hA).toLayout⟩
      · obtain ⟨A, S, hA⟩ := hP.table dirId (htable ▸ hdir)
        exact ⟨A, S, hkept dirId A S hdir hA⟩

/-! ## When it survives -/

/-- **When `Insert` survives.**  Take any state that a pool and a table on it can reach while others use the pool and
    leave the table's pages unwritten, whatever pins they hold.  `Insert` does what one may expect of it exactly when
    there is room for its rounds; otherwise it aborts.  The id counter does not wrap meanwhile. -/
theorem insert_survives_iff (hcmp : ∀ k k', T.comparator k k' = 0 ↔ k = k') (hfuel : 10 ≤ fuel)
    (h : (undisturbed T cfg disk fuel).Reachable s) (htable : s.table = some dirId) (key : K) (value : V)
    (hcount : CountsUp .debug (T.insert .debug dirId key value fuel) ⟨s.pool, fun _ => none⟩) :
    T.Survives dirId key value fuel ⟨s.pool, fun _ => none⟩ ↔
      T.HasRoom (heldPages s.others) (seen s) dirId key cfg.poolSize := by
  have hinv := UndisturbedInv.reachable hcmp hfuel h
  obtain ⟨A, S, hA⟩ := hinv.table dirId htable
  obtain ⟨r, P', A', hdisc, -⟩ := hA.insert_run (Nat.le_refl 3) cfg.idAt_injective hfuel key value
  obtain ⟨ptr, n, hrun⟩ := hdisc (fun _ => none) 0
  have hfew : (heldPages s.others).card ≤ cfg.poolSize := by
    have hframes : _ + (heldPages s.others).card = cfg.poolSize := hinv.frames
    omega
  rw [survives_iff_returns, (CarriedWith.start hinv.backs).returns_iff .debug (insert_givesUp dirId key value fuel)
    hinv.count hcount hrun]
  exact hA.insert_granted_iff hcmp hfew fuel (fun p hp => hinv.backs.pinned_created hp) (by omega)

end undisturbed

/-! ## A run -/

section crowded

variable {Disk K V : Type} [DiskManager Disk (PageData K V)]
variable [Inhabited K] [Inhabited V] [DecidableEq K] [DecidableEq V]
variable {T : HashTableType K V} {cfg : PoolConfig} {disk : Disk} {fuel : ℕ} {s s' : SharedPool Disk K V}

/-- Another client makes a page, and keeps it. -/
def keep (s : SharedPool Disk K V) : Option (SharedPool Disk K V) :=
  match s.pool.exec .debug .newPg with
  | .ok (.page (some f) p, pool) =>
    if Traffic.Unwrapped ⟨pool, (s.pool.record s.others).create p f⟩ then
      some ⟨pool, ⟨p, f, false⟩ :: s.others, s.table⟩
    else none
  | _ => none

theorem keep_step (h : keep s = some s') : ∃ e, (undisturbed T cfg disk fuel).step s e s' := by
  unfold keep at h
  split at h
  · next f p pool hexec =>
    split at h
    · next hunwrapped =>
      cases h
      exact ⟨.client (.call .newPg (.page (some f) p)), ⟨⟨_, ⟨hexec, rfl, hunwrapped⟩, rfl⟩, rfl, nofun⟩, nofun⟩
    · cases h
  · cases h

/-- A table with a full bucket of two slots, on a pool of `frames` frames in one of which someone keeps a page. -/
def crowded (frames : ℕ) : Option (SharedPool (PageId → PageData ℤ ℤ) ℤ ℤ) :=
  [PoolOp.construct 0, .call (.call (.insert 0 7)), .call (.call (.insert 2 7))].foldlM (smallTable.operate 10)
    (unshared frames) >>= keep

theorem crowded_reachable {frames : ℕ} {s : SharedPool (PageId → PageData ℤ ℤ) ℤ ℤ} (h : crowded frames = some s) :
    (undisturbed smallTable (Session.fresh frames).pool.cfg (fun _ : PageId => (0 : PageData ℤ ℤ)) 10).Reachable
      s := by
  obtain ⟨s₁, hops, hkeep⟩ := Option.bind_eq_some_iff.mp h
  obtain ⟨e, hstep⟩ := keep_step hkeep
  refine StepSystem.Reachable.step (operates_reachable ?_ (.init (unshared_init frames)) hops) hstep
  exact fun hop => ⟨operate_step hop, nofun⟩

/-- In a fourth frame there is room for the split image. -/
theorem insert_survives_four_frames : ∃ s : SharedPool (PageId → PageData ℤ ℤ) ℤ ℤ, crowded 4 = some s ∧
    s.others.length = 1 ∧ smallTable.Survives 0 4 7 10 ⟨s.pool, fun _ => none⟩ := by
  have hsee : (crowded 4).map (fun s => (s.table, s.others.length,
      decide (CountsUp .debug (smallTable.insert .debug 0 4 7 10) ⟨s.pool, fun _ => none⟩),
      decide (smallTable.HasRoom (heldPages s.others) (seen s) 0 4 4))) = some (some 0, 1, true, true) := by
    decide +kernel
  obtain ⟨s, hcrowded, hseen⟩ := Option.map_eq_some_iff.mp hsee
  simp only [Prod.mk.injEq, decide_eq_true_eq] at hseen
  obtain ⟨htable, hothers, hcount, hroom⟩ := hseen
  exact ⟨s, hcrowded, hothers, (insert_survives_iff smallTable_comparator (Nat.le_refl 10)
    (crowded_reachable hcrowded) htable 4 7 hcount).mpr hroom⟩

/-- **In three frames there is none**, and the assert after `NewPage` aborts, when the depths have grown already. -/
theorem insert_aborts : ∃ s : SharedPool (PageId → PageData ℤ ℤ) ℤ ℤ, crowded 3 = some s ∧ s.table = some 0 ∧
    callPool .debug (smallTable.insert .debug 0 4 7 10) s.pool = .error .assertion ∧
    ¬ smallTable.Survives 0 4 7 10 ⟨s.pool, fun _ => none⟩ := by
  have hsee : (crowded 3).map (fun s => (s.table,
      match callPool .debug (smallTable.insert .debug 0 4 7 10) s.pool with
      | .ok _ => none
      | .error e => some e)) = some (some 0, some .assertion) := by
    decide +kernel
  obtain ⟨s, hcrowded, hseen⟩ := Option.map_eq_some_iff.mp hsee
  obtain ⟨htable, hfault⟩ := Prod.mk.inj hseen
  have habort : callPool .debug (smallTable.insert .debug 0 4 7 10) s.pool = .error .assertion := by
    split at hfault
    · cases hfault
    · next e he => rw [he, Option.some.inj hfault]
  refine ⟨s, hcrowded, htable, habort, fun hsurvives => ?_⟩
  obtain ⟨x, hreturns⟩ := (survives_iff_returns _ _).mp hsurvives
  simp only [callPool, hreturns] at habort
  cases habort

end crowded

end HashTableType

end BusTub
