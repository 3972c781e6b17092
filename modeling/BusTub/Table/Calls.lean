/-
  Whole calls of the table, one caller at a time.

  1. **`Layout.call_run`**: on every layout each call returns, keeps the pin discipline and leaves a
     layout.  `Insert` needs no more than ten rounds, since every split gives the bucket of its key one
     more bit (`insert_rule`).

  2. **`TableInv.call_spec`**: besides, it takes a step of the reference set.

  3. **Over the ideal store**, in either build, a table that was constructed answers every sequence of
     calls like the set (`results_of_a_set`), its directory is sound in every state it reaches
     (`directory_sound`), and so are its buckets (`buckets_sound`).
-/
import BusTub.Table.Asserts
import BusTub.Table.Reference

set_option linter.unusedSectionVars false

namespace BusTub

open Command HashPartition HashTableDirectoryPage HashTableBucketPage

namespace HashTableType

open TableProg

variable {K V : Type} [Inhabited K] [Inhabited V] [DecidableEq K] [DecidableEq V]

/-- The method that a call runs. -/
def method (T : HashTableType K V) (b : Build) (dirId : PageId) (fuel : ℕ) :
    TableCall K V → TableProg K V (TableRet V)
  | .insert key value => do
    let res ← T.insert b dirId key value fuel
    pure (.flag res)
  | .remove key value => do
    let res ← T.remove b dirId key value
    pure (.flag res)
  | .getValue key result => do
    let res ← T.getValue b dirId key result
    pure (.values res.1 res.2)

variable {T : HashTableType K V} {ids : ℕ → PageId} {cap : ℕ} (hcap : 3 ≤ cap)
variable {P : Pages K V} {dirId : PageId} {A : Partition PageId} {S : Finset (K × V)}

/-! ## Construction -/

/-- The directory that the constructor leaves. -/
def firstDirectory (dirId bid : PageId) : HashTableDirectoryPage :=
  { pageId := dirId
    globalDepth := 0
    localDepths := Function.update (fun _ => 0) 0 0
    bucketPageIds := Function.update (fun _ => 0) 0 bid }

/-- The pages that the constructor leaves. -/
def firstPages (ids : ℕ → PageId) (P : Pages K V) : Pages K V :=
  (((P.create ids).write (ids P.next) (.directory (HashTableDirectoryPage.zeroed.setPageId (ids P.next)))).create
    ids).write (ids P.next) (.directory (firstDirectory (ids P.next) (ids (P.next + 1))))

/-- The first directory has one cell, the whole of the hash values. -/
theorem firstDirectory_shows (p q : PageId) : (firstDirectory p q).Shows (.whole q) where
  page i hi := by
    obtain rfl : i = 0 := Nat.lt_one_iff.mp hi
    show Function.update (fun _ => (0 : PageId)) 0 q 0 = q
    rw [Function.update_self]
  depth i hi := by
    obtain rfl : i = 0 := Nat.lt_one_iff.mp hi
    show Function.update (fun _ => 0) 0 0 0 = 0
    rw [Function.update_self]
  depth_le _ := Nat.le_refl 0

section

variable (hids : Function.Injective ids)
include hids

/-- The constructor's two pages are different. -/
theorem first_ne (P : Pages K V) : ids (P.next + 1) ≠ ids P.next :=
  fun he => Nat.succ_ne_self P.next (hids he)

/-- **The constructor** creates the directory page and the first bucket page. -/
theorem construct_run (hcap : 2 ≤ cap) (P : Pages K V) (dir₀ : PageId) :
    Disciplined ids cap (T.construct .debug dir₀) P (ids P.next, true) (firstPages ids P) := by
  intro ptr t
  have h0 : 0 < cap := by omega
  have h1 : 1 < cap := by omega
  have hne := first_ne hids P
  refine ⟨(fetched P ptr t (ids P.next) (ids (P.next + 1))).ptr, t + 2, ?_⟩
  have hmid : T.directoryAt (((P.create ids).write (ids P.next)
      (.directory (HashTableDirectoryPage.zeroed.setPageId (ids P.next)))).create ids) (ids P.next) =
      HashTableDirectoryPage.zeroed.setPageId (ids P.next) := by
    rw [directoryAt_create_of_ne (by exact hne.symm), directoryAt_write_self]
  have hset : ((HashTableDirectoryPage.zeroed.setPageId (ids P.next)).setBucketPageId 0
      (ids (P.next + 1))).setLocalDepth .debug 0 0 = .ok (firstDirectory (ids P.next) (ids (P.next + 1))) :=
    setLocalDepth_ok (Nat.zero_le _)
  simp [construct, run_bind, checkedMachine, fetched, loadDirectory, storeDirectory, assert_,
    CheckedStore.holdOf, markWrote, firstPages, h0, h1, hmid, hset]

/-- What it leaves is a layout, -/
theorem firstPages_layout (P : Pages K V) (hdel : ∀ p ∈ P.deleted, P.Created ids p) :
    T.Layout ids (firstPages ids P) (ids P.next) (.whole (ids (P.next + 1))) := by
  have hdir : T.directoryAt (firstPages ids P) (ids P.next) =
      firstDirectory (ids P.next) (ids (P.next + 1)) := directoryAt_write_self
  have hfresh : ∀ j, P.next ≤ j → ids j ∉ P.deleted := by
    intro j hj hd
    obtain ⟨i, hi, he⟩ := hdel _ hd
    have := hids he
    omega
  refine ⟨⟨P.next, ?_, rfl⟩, hfresh _ (Nat.le_refl _), hdir ▸ rfl, hdir ▸ firstDirectory_shows _ _, ?_, .inl ?_,
    fun x => ⟨P.next + 1, ?_, rfl⟩, fun x => hfresh _ (Nat.le_succ _), fun x => first_ne hids P,
    fun p hp => ?_⟩
  · show P.next < P.next + 1 + 1
    omega
  · rw [hdir]
    exact Nat.zero_le 9
  · rw [hdir]
    rfl
  · show P.next + 1 < P.next + 1 + 1
    omega
  · obtain ⟨j, hj, rfl⟩ := hdel p hp
    exact ⟨j, show j < P.next + 1 + 1 by omega, rfl⟩

/-- with no pair in it. -/
theorem firstPages_inv (P : Pages K V) (hdel : ∀ p ∈ P.deleted, P.Created ids p) :
    T.TableInv ids (firstPages ids P) (ids P.next) (.whole (ids (P.next + 1))) ∅ := by
  have hbucket : T.bucketAt (firstPages ids P) (ids (P.next + 1)) = HashTableBucketPage.zeroed := by
    unfold firstPages
    rw [bucketAt_write_of_ne (first_ne hids P)]
    exact bucketAt_create_self
  have hpairs : T.pairsAt (firstPages ids P) (ids (P.next + 1)) = ∅ := by
    unfold pairsAt
    rw [hbucket, pairs_zeroed]
  refine ⟨firstPages_layout hids P hdel, fun x => ?_, fun x e he => ?_, fun e => ?_⟩
  · exact hbucket ▸ BucketInv.zeroed
  · rw [show (Partition.whole (ids (P.next + 1))).page x = ids (P.next + 1) from rfl, hpairs] at he
    exact absurd he (Finset.notMem_empty e)
  · rw [show (Partition.whole (ids (P.next + 1))).page (T.hash e.1) = ids (P.next + 1) from rfl, hpairs]

end

/-! ## One call -/

/-- The first region of `Insert` either returns or finds the bucket full. -/
theorem Layout.insertRegion_run (hcap : 3 ≤ cap) (h : T.Layout ids P dirId A) (key : K) (value : V) :
    (∃ r P', Disciplined ids cap (T.insertRegion .debug dirId key value) P (some r) P' ∧
      ∃ A', T.Layout ids P' dirId A') ∨
    Disciplined ids cap (T.insertRegion .debug dirId key value) P none P := by
  cases hfull : (T.bucketAt P (A.page (T.hash key))).isFull T.bucketArraySize with
  | false => exact .inl ⟨_, _, h.insertRegion_room hcap key value hfull, A, h.rewrite _ _⟩
  | true => exact .inr (h.insertRegion_full hcap key value hfull)

/-- **`SplitInsert` settles the result or gives the key one more bit**, and leaves a layout. -/
theorem Layout.splitInsertRegion_run (hcap : 3 ≤ cap) (hids : Function.Injective ids) (h : T.Layout ids P dirId A)
    (key : K) (value : V) :
    (∃ r P', Disciplined ids cap (T.splitInsertRegion .debug dirId key value) P (some r) P' ∧
      ∃ A', T.Layout ids P' dirId A') ∨
    ∃ P' A', Disciplined ids cap (T.splitInsertRegion .debug dirId key value) P none P' ∧
      T.Layout ids P' dirId A' ∧ A'.depth (T.hash key) = A.depth (T.hash key) + 1 := by
  cases hfull : (T.bucketAt P (A.page (T.hash key))).isFull T.bucketArraySize with
  | false => exact .inl ⟨_, _, h.splitInsertRegion_room hcap key value hfull, A, h.rewrite _ _⟩
  | true =>
    rcases Nat.lt_or_eq_of_le (h.depth_le (T.hash key)) with hlt | hnine
    · exact .inr (h.splitInsertRegion_split hcap hids key value hfull hlt)
    · exact .inl ⟨false, P, h.splitInsertRegion_stuck hcap key value hfull hnine, A, h⟩

/-- `Merge` leaves a layout, whether it has joined two buckets or not. -/
theorem Layout.merge_layout (hcap : 3 ≤ cap) (h : T.Layout ids P dirId A) (key : K) : ∃ P' A',
    Disciplined ids cap (T.merge .debug dirId key) P () P' ∧ T.Layout ids P' dirId A' := by
  rcases h.merge_run hcap key with hmerge | ⟨i, s, e, hi, hs, hsib, d, hmerge, hlayout, -⟩
  · exact ⟨P, A, hmerge, h⟩
  · exact ⟨_, _, hmerge, hlayout⟩

/-- `insert`, with the number of its calls of `SplitInsert`. -/
def insertRounds (T : HashTableType K V) (b : Build) (directory_page_id : PageId) (key : K) (value : V) :
    (fuel : ℕ) → TableProg K V (Bool × ℕ)
  | 0 => Prog.fail .diverges
  | fuel + 1 => do
    match ← T.insertRegion b directory_page_id key value with
    | some res => pure (res, 0)
    | none =>
      match ← T.splitInsertRegion b directory_page_id key value with
      | some res => pure (res, 1)
      | none =>
        let r ← insertRounds T b directory_page_id key value fuel
        pure (r.1, r.2 + 1)

/-- Counting changes nothing. -/
theorem insert_rounds (b : Build) (dirId : PageId) (key : K) (value : V) : ∀ fuel : ℕ,
    T.insert b dirId key value fuel = (do let r ← T.insertRounds b dirId key value fuel; pure r.1) := by
  intro fuel
  induction fuel with
  | zero => rfl
  | succ fuel ih =>
    unfold insert insertRounds
    rw [Prog.bind_bind]
    refine congrArg _ (funext fun res => ?_)
    cases res with
    | some res => rfl
    | none =>
      show T.splitInsertRegion b dirId key value >>= _ = (T.splitInsertRegion b dirId key value >>= _) >>= _
      rw [Prog.bind_bind]
      refine congrArg _ (funext fun res => ?_)
      cases res with
      | some res => rfl
      | none =>
        show T.insert b dirId key value fuel = (T.insertRounds b dirId key value fuel >>= _) >>= _
        rw [Prog.bind_bind]
        exact ih

/-- **`Insert` returns**: every round gives the bucket of the key one more bit, and at nine bits the
    round decides.  `I` holds before a round, and `J` once the result is known. -/
theorem insertRounds_rule {I : Pages K V → Partition PageId → Prop} {J : Bool → Pages K V → Prop} {key : K}
    {value : V} (hdepth : ∀ P A, I P A → A.depth (T.hash key) ≤ 9)
    (hinsert : ∀ P A, I P A →
      (∃ r P', Disciplined ids cap (T.insertRegion .debug dirId key value) P (some r) P' ∧ J r P') ∨
      Disciplined ids cap (T.insertRegion .debug dirId key value) P none P)
    (hsplit : ∀ P A, I P A →
      (∃ r P', Disciplined ids cap (T.splitInsertRegion .debug dirId key value) P (some r) P' ∧ J r P') ∨
      ∃ P' A', Disciplined ids cap (T.splitInsertRegion .debug dirId key value) P none P' ∧ I P' A' ∧
        A'.depth (T.hash key) = A.depth (T.hash key) + 1) :
    ∀ (fuel : ℕ) (P : Pages K V) (A : Partition PageId), I P A → 9 < fuel + A.depth (T.hash key) →
      ∃ r n P', Disciplined ids cap (T.insertRounds .debug dirId key value fuel) P (r, n) P' ∧ J r P' ∧
        n + A.depth (T.hash key) ≤ 10 := by
  intro fuel
  -- the fuel that is left and the bits that the bucket has add up to more than nine
  induction fuel with
  | zero =>
    intro P A h hfuel
    have := hdepth P A h
    omega
  | succ fuel ih =>
    intro P A h hfuel
    have hle := hdepth P A h
    rcases hinsert P A h with ⟨r, P', hrun, hJ⟩ | hrun
    · exact ⟨r, 0, P', hrun.bind (.pure _ P'), hJ, by omega⟩
    rcases hsplit P A h with ⟨r, P', hrun', hJ⟩ | ⟨P₁, A₁, hrun', hI, hmore⟩
    · exact ⟨r, 1, P', hrun.bind (hrun'.bind (.pure _ P')), hJ, by omega⟩
    · obtain ⟨r, n, P', hagain, hJ, hn⟩ := ih P₁ A₁ hI (by omega)
      exact ⟨r, n + 1, P', hrun.bind (hrun'.bind (hagain.bind (.pure _ P'))), hJ, by omega⟩

/-- **The rule for the recursion of `Insert` and `SplitInsert`**: an invariant of its rounds, each of which gives
    the key one bit more. -/
theorem insert_rule {I : Pages K V → Partition PageId → Prop} {J : Bool → Pages K V → Prop} {key : K}
    {value : V} (hdepth : ∀ P A, I P A → A.depth (T.hash key) ≤ 9)
    (hinsert : ∀ P A, I P A →
      (∃ r P', Disciplined ids cap (T.insertRegion .debug dirId key value) P (some r) P' ∧ J r P') ∨
      Disciplined ids cap (T.insertRegion .debug dirId key value) P none P)
    (hsplit : ∀ P A, I P A →
      (∃ r P', Disciplined ids cap (T.splitInsertRegion .debug dirId key value) P (some r) P' ∧ J r P') ∨
      ∃ P' A', Disciplined ids cap (T.splitInsertRegion .debug dirId key value) P none P' ∧ I P' A' ∧
        A'.depth (T.hash key) = A.depth (T.hash key) + 1)
    (fuel : ℕ) (P : Pages K V) (A : Partition PageId) (h : I P A) (hfuel : 9 < fuel + A.depth (T.hash key)) :
    ∃ r P', Disciplined ids cap (T.insert .debug dirId key value fuel) P r P' ∧ J r P' := by
  obtain ⟨r, n, P', hrun, hJ, -⟩ := insertRounds_rule hdepth hinsert hsplit fuel P A h hfuel
  rw [insert_rounds]
  exact ⟨r, P', hrun.bind (.pure r P'), hJ⟩

section

variable (hids : Function.Injective ids) {fuel : ℕ} (hfuel : 10 ≤ fuel)
include hcap hids hfuel

/-- `Insert` returns and leaves a layout. -/
theorem Layout.insert_run (h : T.Layout ids P dirId A) (key : K) (value : V) : ∃ r P' A',
    Disciplined ids cap (T.insert .debug dirId key value fuel) P r P' ∧ T.Layout ids P' dirId A' := by
  obtain ⟨r, P', hrun, A', hlayout⟩ :=
    insert_rule (I := fun P A => T.Layout ids P dirId A) (fun P A h => h.depth_le (T.hash key))
      (fun P A h => h.insertRegion_run hcap key value)
      (fun P A h => h.splitInsertRegion_run hcap hids key value) fuel P A h (by omega)
  exact ⟨r, P', A', hrun, hlayout⟩

/-- **Every call returns and leaves a layout**, whatever the buckets hold. -/
theorem Layout.call_run (h : T.Layout ids P dirId A) (c : TableCall K V) : ∃ r P' A',
    Disciplined ids cap (T.method .debug dirId fuel c) P r P' ∧ T.Layout ids P' dirId A' := by
  cases c with
  | insert key value =>
    obtain ⟨r, P', A', hrun, hlayout⟩ := h.insert_run hcap hids hfuel key value
    exact ⟨_, P', A', hrun.bind (.pure _ P'), hlayout⟩
  | remove key value =>
    have hrun := h.removeRegion_run hcap key value
    generalize (T.bucketAt P (A.page (T.hash key))).remove T.bucketArraySize T.comparator key value = res
      at hrun
    have hlayout := h.rewrite (T.hash key) (.bucket res.2)
    obtain ⟨P', A', hmerge, hlayout'⟩ := hlayout.merge_layout hcap key
    exact ⟨_, P', A', (hrun.bind (hmerge.bind (.pure res.1 P'))).bind (.pure _ P'), hlayout'⟩
  | getValue key result =>
    exact ⟨_, P, A, (h.getValue_run hcap key result).bind (.pure _ P), h⟩

/-- **Every call takes a step of the reference**, and keeps the invariant. -/
theorem TableInv.call_spec (h : T.TableInv ids P dirId A S)
    (hcmp : ∀ k k', T.comparator k k' = 0 ↔ k = k') (c : TableCall K V) : ∃ r P' A' S',
      Disciplined ids cap (T.method .debug dirId fuel c) P r P' ∧ T.TableInv ids P' dirId A' S' ∧
        T.RefStep S c r S' := by
  cases c with
  | insert key value =>
    obtain ⟨r, P', hrun, A', S', hinv, href⟩ := insert_rule
      (J := fun r P' => ∃ A' S', T.TableInv ids P' dirId A' S' ∧ T.RefStep S (.insert key value) (.flag r) S')
      (fun P A (h : T.TableInv ids P dirId A S) => h.depth_le (T.hash key))
      (fun P A h => (h.insertRegion_spec hcap hcmp key value).imp_left
        fun ⟨r, P', S', hrun, hinv, href⟩ => ⟨r, P', hrun, A, S', hinv, href⟩)
      (fun P A h => (h.splitInsertRegion_spec hcap hcmp hids key value).imp_left
        fun ⟨r, P', S', hrun, hinv, href⟩ => ⟨r, P', hrun, A, S', hinv, href⟩) fuel P A h (by omega)
    exact ⟨_, P', A', S', hrun.bind (.pure _ P'), hinv, href⟩
  | remove key value =>
    obtain ⟨r, P₁, S', hrun, hinv, href⟩ := h.removeRegion_spec hcap hcmp key value
    obtain ⟨P', A', hmerge, hinv'⟩ := hinv.merge_spec hcap key
    exact ⟨_, P', A', S', (hrun.bind (hmerge.bind (.pure r P'))).bind (.pure _ P'), hinv', href⟩
  | getValue key result =>
    obtain ⟨r, hrun, href⟩ := h.getValue_spec hcap hcmp key result
    exact ⟨_, P, A, S, hrun.bind (.pure _ P), h, href⟩

end

/-! ## Either build, over the ideal store -/

/-- The release build takes the same rounds, -/
theorem insertRounds_follows (b : Build) (key : K) (value : V) : ∀ fuel : ℕ,
    FollowsIdeal ids cap (T.insertRounds .debug dirId key value fuel) (T.insertRounds b dirId key value fuel) := by
  intro fuel
  induction fuel with
  | zero => exact follows_same _
  | succ fuel ih =>
    unfold insertRounds
    refine .bind (T.insertRegion_follows b ids cap dirId key value) fun r => ?_
    cases r with
    | some r => exact follows_same _
    | none =>
      refine .bind (T.splitInsertRegion_follows b ids cap dirId key value) fun r => ?_
      cases r with
      | some r => exact follows_same _
      | none => exact .bind ih fun _ => follows_same _

/-- and `Insert` returns the same. -/
theorem insert_follows (b : Build) (key : K) (value : V) (fuel : ℕ) :
    FollowsIdeal ids cap (T.insert .debug dirId key value fuel) (T.insert b dirId key value fuel) := by
  rw [insert_rounds, insert_rounds]
  exact .bind (insertRounds_follows b key value fuel) fun _ => follows_same _

/-- So does every method. -/
theorem method_follows (b : Build) (fuel : ℕ) (c : TableCall K V) :
    FollowsIdeal ids cap (T.method .debug dirId fuel c) (T.method b dirId fuel c) := by
  cases c with
  | insert key value => exact .bind (insert_follows b key value fuel) fun _ => follows_same _
  | remove key value =>
    exact .bind (.bind (T.removeRegion_follows b ids cap dirId key value) fun _ =>
      .bind (T.merge_follows b ids cap dirId key) fun _ => follows_same _) fun _ => follows_same _
  | getValue key result =>
    exact .bind (T.getValue_follows b ids cap dirId key result) fun _ => follows_same _

/-- Run one method over the ideal store; its pointer variables start null. -/
def callIdeal {α : Type} (ids : ℕ → PageId) (p : TableProg K V α) (P : Pages K V) :
    Except Fault (α × Pages K V) :=
  match run (idealMachine ids) p ⟨P, fun _ => none⟩ with
  | .ok (a, s) => .ok (a, s.pages)
  | .error e => .error e

/-- What keeps the discipline runs over the ideal store, in either build. -/
theorem Disciplined.callIdeal {α : Type} {p q : TableProg K V α} {P P' : Pages K V} {r : α}
    (h : Disciplined ids cap p P r P') (hq : FollowsIdeal ids cap p q) :
    ∃ Q, HashTableType.callIdeal ids q P = .ok (r, Q) ∧ P'.Covers Q := by
  obtain ⟨Q, ptr, hrun, hcov⟩ := h.ideal hq (.refl P) fun _ => none
  exact ⟨Q, by simp [HashTableType.callIdeal, hrun], hcov⟩

/-- Keeping a part of the result. -/
theorem callIdeal_map {α β : Type} {p : TableProg K V α} {P P' : Pages K V} {r : α} (f : α → β)
    (hcall : callIdeal ids p P = .ok (r, P')) : callIdeal ids (do let r ← p; pure (f r)) P = .ok (f r, P') := by
  unfold HashTableType.callIdeal at hcall ⊢
  rw [run_bind]
  generalize run (idealMachine ids) p ⟨P, fun _ => none⟩ = out at hcall ⊢
  cases out with
  | error e => cases hcall
  | ok x =>
    cases hcall
    rfl

/-- In the build with asserts the pages are exactly those of the checked store. -/
theorem Disciplined.callIdeal_same {α : Type} {p : TableProg K V α} {P P' : Pages K V} {r : α}
    (h : Disciplined ids cap p P r P') : HashTableType.callIdeal ids p P = .ok (r, P') := by
  obtain ⟨ptr, hrun⟩ := h.ideal_same fun _ => none
  simp [HashTableType.callIdeal, hrun]

/-- Make calls one after another. -/
def runCalls {C R σ : Type} (call : C → σ → Except Fault (R × σ)) :
    List C → σ → Except Fault (List R × σ)
  | [], s => .ok ([], s)
  | c :: cs, s => do
    let (r, s) ← call c s
    let (rs, s) ← runCalls call cs s
    .ok (r :: rs, s)

section runCalls

variable {C R σ : Type} {call : C → σ → Except Fault (R × σ)} {s s₁ s' : σ}
  {c : C} {cs : List C} {r : R} {rs : List R}

/-- The first call, and then the others. -/
theorem runCalls_cons (hcall : call c s = .ok (r, s₁)) (hcalls : runCalls call cs s₁ = .ok (rs, s')) :
    runCalls call (c :: cs) s = .ok (r :: rs, s') := by
  show (call c s >>= _) = _
  rw [hcall]
  show (runCalls call cs s₁ >>= _) = _
  rw [hcalls]
  rfl

/-- Calls that all return ran the first one, then the others. -/
theorem runCalls_cons_inv (h : runCalls call (c :: cs) s = .ok (rs, s')) :
    ∃ r rs' s₁, rs = r :: rs' ∧ call c s = .ok (r, s₁) ∧ runCalls call cs s₁ = .ok (rs', s') := by
  obtain ⟨⟨r, s₁⟩, hcall, h⟩ := except_bind_inv h
  obtain ⟨⟨rs', s₂⟩, hcalls, h⟩ := except_bind_inv h
  cases h
  exact ⟨r, rs', s₁, rfl, hcall, hcalls⟩

/-- What every call preserves, calls preserve. -/
theorem runCalls_invariant {I : σ → Prop} (hcall : ∀ c s, I s → ∃ r s', call c s = .ok (r, s') ∧ I s') :
    ∀ (calls : List C) (s : σ), I s → ∃ rets s', runCalls call calls s = .ok (rets, s') ∧ I s' := by
  intro calls
  induction calls with
  | nil => exact fun s hs => ⟨[], s, rfl, hs⟩
  | cons c cs ih =>
    intro s hs
    obtain ⟨r, s₁, hc, hs₁⟩ := hcall c s hs
    obtain ⟨rs, s', hcs, hs'⟩ := ih s₁ hs₁
    exact ⟨r :: rs, s', runCalls_cons hc hcs, hs'⟩

end runCalls

/-- Make calls over the ideal store. -/
def callsIdeal (T : HashTableType K V) (ids : ℕ → PageId) (b : Build) (dirId : PageId) (fuel : ℕ) :
    List (TableCall K V) → Pages K V → Except Fault (List (TableRet V) × Pages K V) :=
  runCalls fun c => callIdeal ids (T.method b dirId fuel c)

/-- A run of the reference set. -/
inductive RefRun (T : HashTableType K V) :
    Finset (K × V) → List (TableCall K V) → List (TableRet V) → Finset (K × V) → Prop where
  | nil (S : Finset (K × V)) : RefRun T S [] [] S
  | cons {S S₁ S' : Finset (K × V)} {c : TableCall K V} {r : TableRet V} {cs : List (TableCall K V)}
      {rs : List (TableRet V)} (hstep : T.RefStep S c r S₁) (hrun : RefRun T S₁ cs rs S') :
      RefRun T S (c :: cs) (r :: rs) S'

section

variable (hids : Function.Injective ids) (b : Build) {fuel : ℕ} (hfuel : 10 ≤ fuel)
include hids

/-- A constructor that succeeds leaves the pages of `firstPages`. -/
theorem construct_opens {P P₁ : Pages K V} {dir₀ : PageId}
    (hopen : callIdeal ids (T.construct b dir₀) P = .ok ((dirId, true), P₁)) :
    dirId = ids P.next ∧ (firstPages ids P).Covers P₁ := by
  obtain ⟨Q, hcall, hcov⟩ := Disciplined.callIdeal (construct_run (T := T) hids (Nat.le_succ 2) P dir₀)
    (T.construct_follows b ids 3 dir₀)
  rw [hopen] at hcall
  cases hcall
  exact ⟨rfl, hcov⟩

/-- A constructor that succeeds leaves an empty table. -/
theorem construct_spec {P P₁ : Pages K V} {dir₀ : PageId} (hdel : ∀ p ∈ P.deleted, P.Created ids p)
    (hopen : callIdeal ids (T.construct b dir₀) P = .ok ((dirId, true), P₁)) :
    T.TableInv ids P₁ dirId (.whole (ids (P.next + 1))) ∅ := by
  obtain ⟨rfl, hcov⟩ := construct_opens hids b hopen
  exact (firstPages_inv hids P hdel).covers hcov

include hfuel

/-- **Calls return and leave a layout.** -/
theorem Layout.calls_run (h : T.Layout ids P dirId A) (calls : List (TableCall K V)) : ∃ rets P',
    T.callsIdeal ids b dirId fuel calls P = .ok (rets, P') ∧ ∃ A', T.Layout ids P' dirId A' := by
  refine runCalls_invariant (I := fun P => ∃ A, T.Layout ids P dirId A) (fun c P hP => ?_) calls P ⟨A, h⟩
  obtain ⟨A, h⟩ := hP
  obtain ⟨r, P', A', hrun, hlayout⟩ := h.call_run (Nat.le_refl 3) hids hfuel c
  obtain ⟨Q, hcall, hcov⟩ := Disciplined.callIdeal hrun (method_follows b fuel c)
  exact ⟨r, Q, hcall, A', hlayout.covers hcov⟩

/-- **Calls return, keep the invariant, and run like the reference.** -/
theorem TableInv.calls_spec (hcmp : ∀ k k', T.comparator k k' = 0 ↔ k = k') :
    ∀ (calls : List (TableCall K V)) {P : Pages K V} {A : Partition PageId} {S : Finset (K × V)},
      T.TableInv ids P dirId A S → ∃ rets P' A' S', T.callsIdeal ids b dirId fuel calls P = .ok (rets, P') ∧
        T.TableInv ids P' dirId A' S' ∧ T.RefRun S calls rets S' := by
  intro calls
  induction calls with
  | nil => exact fun h => ⟨[], _, _, _, rfl, h, .nil _⟩
  | cons c cs ih =>
    intro P A S h
    obtain ⟨r, P₁, A₁, S₁, hrun, hinv, hstep⟩ := h.call_spec (Nat.le_refl 3) hids hfuel hcmp c
    obtain ⟨Q, hcall, hcov⟩ := Disciplined.callIdeal hrun (method_follows b fuel c)
    obtain ⟨rs, P', A', S', hcalls, hinv', hruns⟩ := ih (hinv.covers hcov)
    exact ⟨r :: rs, P', A', S', runCalls_cons hcall hcalls, hinv', .cons hstep hruns⟩

end

/-! ## What a client sees -/

section small

/-- A table with two slots a bucket, whose keys hash to themselves. -/
def smallTable : HashTableType ℤ ℤ where
  bucketArraySize := 2
  comparator k k' := k - k'
  getHash k := UInt64.ofNat k.toNat
  bucketAsDirectory _ := HashTableDirectoryPage.zeroed
  directoryAsBucket _ := HashTableBucketPage.zeroed

/-- A page store without pages. -/
def noPages : Pages ℤ ℤ := ⟨0, fun _ => 0, []⟩

/-- Page ids in order. -/
def countingIds (j : ℕ) : PageId := j

theorem smallTable_comparator (k k' : ℤ) : smallTable.comparator k k' = 0 ↔ k = k' := by
  show k - k' = 0 ↔ k = k'
  omega

/-- No two pages have one id. -/
theorem countingIds_injective : Function.Injective countingIds := fun _ _ h => Int.ofNat.inj h

/-- A table with two slots a bucket is constructed. -/
theorem smallTable_opens (b : Build) :
    ∃ P₁, callIdeal countingIds (smallTable.construct b 0) noPages = .ok ((0, true), P₁) := by
  obtain ⟨Q, hcall, -⟩ := Disciplined.callIdeal
    (construct_run (T := smallTable) countingIds_injective (Nat.le_succ 2) noPages 0)
    (smallTable.construct_follows b countingIds 3 0)
  exact ⟨Q, hcall⟩

end small

section

variable (hcmp : ∀ k k', T.comparator k k' = 0 ↔ k = k') (hids : Function.Injective ids) (b : Build)
  {fuel : ℕ} (hfuel : 10 ≤ fuel)
include hcmp hids hfuel

/-- **The results are those of a set that starts empty.**  `dir₀` is what `directory_page_id_` holds
    before the constructor sets it. -/
theorem results_of_a_set {P P₁ : Pages K V} {dir₀ : PageId} (hdel : ∀ p ∈ P.deleted, P.Created ids p)
    (hopen : callIdeal ids (T.construct b dir₀) P = .ok ((dirId, true), P₁))
    (calls : List (TableCall K V)) : ∃ rets P₂ S,
      T.callsIdeal ids b dirId fuel calls P₁ = .ok (rets, P₂) ∧ T.RefRun ∅ calls rets S := by
  obtain ⟨rets, P₂, -, S, hcalls, -, href⟩ :=
    (construct_spec hids b hdel hopen).calls_spec hids b hfuel hcmp calls
  exact ⟨rets, P₂, S, hcalls, href⟩

omit hcmp hids hfuel in
/-- **A split and a merge**: the third pair splits the bucket of two slots, page 2 is created for it and deleted again
    when its only pair is removed; the results are those of a set. -/
theorem results_of_a_set_small : ∃ P₁ P₂ S,
    callIdeal countingIds (smallTable.construct .debug 0) noPages = .ok ((0, true), P₁) ∧
    smallTable.callsIdeal countingIds .debug 0 10
      [.insert 0 7, .insert 1 7, .insert 2 7, .remove 1 7, .getValue 2 [], .remove 1 7] P₁ =
        .ok ([.flag true, .flag true, .flag true, .flag true, .values true [7], .flag false], P₂) ∧
    P₁.next = 2 ∧ P₂.next = 3 ∧ P₂.deleted = [2] ∧
    smallTable.RefRun ∅ [.insert 0 7, .insert 1 7, .insert 2 7, .remove 1 7, .getValue 2 [], .remove 1 7]
      [.flag true, .flag true, .flag true, .flag true, .values true [7], .flag false] S := by
  have hsee : ((callIdeal countingIds (smallTable.construct .debug 0) noPages).toOption.bind fun x =>
      (smallTable.callsIdeal countingIds .debug 0 10
        [.insert 0 7, .insert 1 7, .insert 2 7, .remove 1 7, .getValue 2 [], .remove 1 7] x.2).toOption.map fun y =>
          (x.1, y.1, x.2.next, y.2.next, y.2.deleted)) = some ((0, true),
            [.flag true, .flag true, .flag true, .flag true, .values true [7], .flag false], 2, 3, [2]) := by
    decide +kernel
  obtain ⟨⟨r, P₁⟩, hopen, hcalls⟩ := Option.bind_eq_some_iff.mp hsee
  obtain ⟨⟨rets, P₂⟩, hcalls, hseen⟩ := Option.map_eq_some_iff.mp hcalls
  simp only [Prod.mk.injEq] at hseen
  obtain ⟨rfl, rfl, hfirst, hlast, hdeleted⟩ := hseen
  have hopen := eq_ok_of_toOption hopen
  have hcalls := eq_ok_of_toOption hcalls
  obtain ⟨rets', P', S, hcalls', href⟩ := results_of_a_set smallTable_comparator countingIds_injective .debug
    (Nat.le_refl 10) (fun p hp => (by cases hp)) hopen
    [.insert 0 7, .insert 1 7, .insert 2 7, .remove 1 7, .getValue 2 [], .remove 1 7]
  rw [hcalls] at hcalls'
  obtain ⟨rfl, rfl⟩ := Prod.mk.inj (Except.ok.inj hcalls')
  exact ⟨P₁, P₂, S, hopen, hcalls, hfirst, hlast, hdeleted, href⟩

omit hcmp in
/-- **The directory is sound in every state that calls lead to**, and `VerifyIntegrity` passes there. -/
theorem directory_sound {P P₁ : Pages K V} {dir₀ : PageId} (hdel : ∀ p ∈ P.deleted, P.Created ids p)
    (hopen : callIdeal ids (T.construct b dir₀) P = .ok ((dirId, true), P₁))
    (calls : List (TableCall K V)) : ∃ rets P₂,
      T.callsIdeal ids b dirId fuel calls P₁ = .ok (rets, P₂) ∧ (T.directoryAt P₂ dirId).DirInv ∧
        ∃ P₃, callIdeal ids (T.verifyIntegrity .debug dirId) P₂ = .ok ((), P₃) := by
  obtain ⟨rets, P₂, hcalls, A, hlayout⟩ :=
    (construct_spec hids b hdel hopen).toLayout.calls_run hids b hfuel calls
  obtain ⟨P₃, hverify, -⟩ := Disciplined.callIdeal (hlayout.verifyIntegrity_run (Nat.le_refl 3))
    (T.verifyIntegrity_follows .debug ids 3 dirId)
  exact ⟨rets, P₂, hcalls, hlayout.shows_dir.dirInv hlayout.global_le hlayout.tight, P₃, hverify⟩

omit hcmp hids hfuel in
/-- Three keys in buckets of two slots need a split. -/
theorem directory_sound_small : ∃ P₁ rets P₂,
    callIdeal countingIds (smallTable.construct .debug 0) noPages = .ok ((0, true), P₁) ∧
    smallTable.callsIdeal countingIds .debug 0 10 [.insert 5 7, .insert 6 7, .insert 4 7] P₁ = .ok (rets, P₂) ∧
    (smallTable.directoryAt P₂ 0).DirInv := by
  obtain ⟨P₁, hopen⟩ := smallTable_opens .debug
  obtain ⟨rets, P₂, hcalls, hinv, -⟩ := directory_sound countingIds_injective .debug
    (Nat.le_refl 10) (fun p hp => (by cases hp)) hopen [.insert 5 7, .insert 6 7, .insert 4 7]
  exact ⟨P₁, rets, P₂, hopen, hcalls, hinv⟩

end

/-- **What holds of the buckets that a directory names**: a pair lies where its hash belongs, no pair
    lies in two slots, and no page named is deleted or the directory's own. -/
structure BucketsSound (T : HashTableType K V) (P : Pages K V) (dirId : PageId) : Prop where
  hash_agrees : ∀ i < (T.directoryAt P dirId).size, ∀ j < T.bucketArraySize,
    (T.bucketAt P ((T.directoryAt P dirId).bucketPageIds i)).isReadable T.bucketArraySize j = true →
    T.hash ((T.bucketAt P ((T.directoryAt P dirId).bucketPageIds i)).array j).1 ≡ i
      [MOD 2 ^ (T.directoryAt P dirId).localDepths i]
  once : ∀ i < (T.directoryAt P dirId).size, ∀ i' < (T.directoryAt P dirId).size,
    ∀ j < T.bucketArraySize, ∀ j' < T.bucketArraySize,
    (T.bucketAt P ((T.directoryAt P dirId).bucketPageIds i)).isReadable T.bucketArraySize j = true →
    (T.bucketAt P ((T.directoryAt P dirId).bucketPageIds i')).isReadable T.bucketArraySize j' = true →
    (T.bucketAt P ((T.directoryAt P dirId).bucketPageIds i)).array j =
      (T.bucketAt P ((T.directoryAt P dirId).bucketPageIds i')).array j' →
    (T.directoryAt P dirId).bucketPageIds i = (T.directoryAt P dirId).bucketPageIds i' ∧ j = j'
  alive : ∀ i < (T.directoryAt P dirId).size, (T.directoryAt P dirId).bucketPageIds i ∉ P.deleted
  ne_dir : ∀ i < (T.directoryAt P dirId).size, (T.directoryAt P dirId).bucketPageIds i ≠ dirId

/-- The table's invariant, as clauses about pairs and pages. -/
theorem TableInv.bucketsSound (h : T.TableInv ids P dirId A S) : T.BucketsSound P dirId := by
  have hpage : ∀ i < (T.directoryAt P dirId).size, (T.directoryAt P dirId).bucketPageIds i = A.page i :=
    fun i hi => h.shows_dir.page i (size_eq ▸ hi)
  have hread : ∀ {i j : ℕ}, j < T.bucketArraySize →
      (T.bucketAt P (A.page i)).isReadable T.bucketArraySize j = true →
      (T.bucketAt P (A.page i)).slot T.bucketArraySize j = some ((T.bucketAt P (A.page i)).array j) :=
    fun hj hr => slot_eq_some.mpr ⟨hj, hr, rfl⟩
  refine ⟨fun i hi j hj hr => ?_, fun i hi i' hi' j hj j' hj' hr hr' he => ?_, fun i hi => ?_, fun i hi => ?_⟩
  · rw [hpage i hi] at hr ⊢
    have hplaced := h.placed i _ (mem_pairs.mpr ⟨j, hread hj hr⟩)
    rw [h.shows_dir.depth i (size_eq ▸ hi)]
    exact (A.page_eq_iff' _ i).mp hplaced
  · rw [hpage i hi] at hr he ⊢
    rw [hpage i' hi'] at hr' he ⊢
    have hslot := hread hj hr
    have hslot' := hread hj' hr'
    rw [he] at hslot
    -- the pair's hash tells the page
    have hsame : A.page i = A.page i' :=
      (h.placed i _ (mem_pairs.mpr ⟨j, hslot⟩)).symm.trans (h.placed i' _ (mem_pairs.mpr ⟨j', hslot'⟩))
    refine ⟨hsame, (h.bucket i).slot_inj j j' _ hslot ?_⟩
    rw [hsame]
    exact hslot'
  · rw [hpage i hi]
    exact h.alive i
  · rw [hpage i hi]
    exact h.ne_dir i

/-- **The buckets are sound in every state that calls lead to.** -/
theorem buckets_sound (hcmp : ∀ k k', T.comparator k k' = 0 ↔ k = k') (hids : Function.Injective ids)
    (b : Build) {fuel : ℕ} (hfuel : 10 ≤ fuel) {P P₁ : Pages K V} {dir₀ : PageId}
    (hdel : ∀ p ∈ P.deleted, P.Created ids p)
    (hopen : callIdeal ids (T.construct b dir₀) P = .ok ((dirId, true), P₁))
    (calls : List (TableCall K V)) : ∃ rets P₂,
      T.callsIdeal ids b dirId fuel calls P₁ = .ok (rets, P₂) ∧ T.BucketsSound P₂ dirId := by
  obtain ⟨rets, P₂, A, S, hcalls, hinv, -⟩ :=
    (construct_spec hids b hdel hopen).calls_spec hids b hfuel hcmp calls
  exact ⟨rets, P₂, hcalls, hinv.bucketsSound⟩

/-- The same three keys. -/
theorem buckets_sound_small : ∃ P₁ rets P₂,
    callIdeal countingIds (smallTable.construct .debug 0) noPages = .ok ((0, true), P₁) ∧
    smallTable.callsIdeal countingIds .debug 0 10 [.insert 5 7, .insert 6 7, .insert 4 7] P₁ = .ok (rets, P₂) ∧
    smallTable.BucketsSound P₂ 0 := by
  obtain ⟨P₁, hopen⟩ := smallTable_opens .debug
  obtain ⟨rets, P₂, hcalls, hsound⟩ := buckets_sound smallTable_comparator countingIds_injective .debug
    (Nat.le_refl 10) (fun p hp => (by cases hp)) hopen [.insert 5 7, .insert 6 7, .insert 4 7]
  exact ⟨P₁, rets, P₂, hopen, hcalls, hsound⟩

end HashTableType

end BusTub
