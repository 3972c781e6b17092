/-
  Regrouping: what a split and a merge do to the pairs and the pages of a table.

  1. **`Reached`** are the pages that a constructed table comes to when its callers run regions in any
     order.

  2. **A split loses nothing** (`split_loses_nothing`) and moves only what it must: the pairs of the full
     page whose hash has the other bit at the old depth.  `Insert` into the new page never fails, so
     that its result may be ignored.

  3. **A merge is invisible to lookups** (`merge_invisible`): the hash values of the empty page get the
     page of its split image, all others keep theirs, however often the directory is halved.
-/
import BusTub.Table.Concurrent

set_option linter.unusedSectionVars false

namespace BusTub

open Command HashPartition HashTableDirectoryPage HashTableBucketPage

namespace HashTableType

variable {K V : Type} [Inhabited K] [Inhabited V] [DecidableEq K] [DecidableEq V]
variable {T : HashTableType K V} {ids : ℕ → PageId} {b : Build} {dirId : PageId} {P P' : Pages K V}
  {A : Partition PageId} {S : Finset (K × V)}

/-! ## Reachable tables -/

/-- **The table with its directory at `dirId` can come to the pages `P`.** -/
inductive Reached (T : HashTableType K V) (ids : ℕ → PageId) (b : Build) : PageId → Pages K V → Prop where
  | opened {P P₁ : Pages K V} {dirId dir₀ : PageId} (hdel : ∀ p ∈ P.deleted, P.Created ids p)
      (hopen : callIdeal ids (T.construct b dir₀) P = .ok ((dirId, true), P₁)) : Reached T ids b dirId P₁
  | region {P P' : Pages K V} {dirId : PageId} {x : Region K V} {y : Phase K V} (h : Reached T ids b dirId P)
      (hrun : T.runRegion ids b dirId x P = .ok (y, P')) : Reached T ids b dirId P'

theorem Reached.inv (hcmp : ∀ k k', T.comparator k k' = 0 ↔ k = k') (hids : Function.Injective ids)
    (h : T.Reached ids b dirId P) : ∃ A S, T.TableInv ids P dirId A S := by
  induction h with
  | opened hdel hopen => exact ⟨_, ∅, construct_spec hids b hdel hopen⟩
  | @region P P' dirId x y _ hrun ih =>
    obtain ⟨A, S, hinv⟩ := ih
    obtain ⟨y', Q, A', S', hrun', hinv', -⟩ := hinv.runRegion_spec hcmp hids b x
    rw [hrun] at hrun'
    cases hrun'
    exact ⟨A', S', hinv'⟩

/-- A region leaves a layout, whatever the buckets hold. -/
theorem Layout.runRegion_run (hids : Function.Injective ids) (h : T.Layout ids P dirId A) (b : Build)
    (x : Region K V) : ∃ y P' A', T.runRegion ids b dirId x P = .ok (y, P') ∧ T.Layout ids P' dirId A' := by
  have hcap := Nat.le_refl 3
  cases x with
  | entry c =>
    cases c with
    | insert key value =>
      have hfollow := T.insertRegion_follows b ids 3 dirId key value
      rcases h.insertRegion_run hcap key value with ⟨r, P', hrun, A', hlayout⟩ | hrun
      · obtain ⟨Q, hcall, hcov⟩ := Disciplined.callIdeal hrun hfollow
        exact ⟨_, Q, A', by simp [runRegion, hcall, bind, Except.bind]; rfl, hlayout.covers hcov⟩
      · obtain ⟨Q, hcall, hcov⟩ := Disciplined.callIdeal hrun hfollow
        exact ⟨_, Q, A, by simp [runRegion, hcall, bind, Except.bind]; rfl, h.covers hcov⟩
    | remove key value =>
      obtain ⟨Q, hcall, hcov⟩ := Disciplined.callIdeal (h.removeRegion_run hcap key value)
        (T.removeRegion_follows b ids 3 dirId key value)
      exact ⟨_, Q, A, by simp [runRegion, hcall, bind, Except.bind]; rfl, (h.rewrite _ _).covers hcov⟩
    | getValue key result =>
      obtain ⟨Q, hcall, hcov⟩ := Disciplined.callIdeal (h.getValue_run hcap key result)
        (T.getValue_follows b ids 3 dirId key result)
      exact ⟨_, Q, A, by simp [runRegion, hcall, bind, Except.bind]; rfl, h.covers hcov⟩
  | splitInsert key value =>
    have hfollow := T.splitInsertRegion_follows b ids 3 dirId key value
    rcases h.splitInsertRegion_run hcap hids key value with ⟨r, P', hrun, A', hlayout⟩ | ⟨P', A', hrun, hlayout, -⟩
    · obtain ⟨Q, hcall, hcov⟩ := Disciplined.callIdeal hrun hfollow
      exact ⟨_, Q, A', by simp [runRegion, hcall, bind, Except.bind]; rfl, hlayout.covers hcov⟩
    · obtain ⟨Q, hcall, hcov⟩ := Disciplined.callIdeal hrun hfollow
      exact ⟨_, Q, A', by simp [runRegion, hcall, bind, Except.bind]; rfl, hlayout.covers hcov⟩
  | merge key value res =>
    obtain ⟨P', A', hrun, hlayout⟩ := h.merge_layout hcap key
    obtain ⟨Q, hcall, hcov⟩ := Disciplined.callIdeal hrun (T.merge_follows b ids 3 dirId key)
    exact ⟨_, Q, A', by simp [runRegion, hcall, bind, Except.bind]; rfl, hlayout.covers hcov⟩

theorem Reached.layout (hids : Function.Injective ids) (h : T.Reached ids b dirId P) :
    ∃ A, T.Layout ids P dirId A := by
  induction h with
  | opened hdel hopen => exact ⟨_, (construct_spec hids b hdel hopen).toLayout⟩
  | @region P P' dirId x y _ hrun ih =>
    obtain ⟨A, hlayout⟩ := ih
    obtain ⟨y', Q, A', hrun', hlayout'⟩ := hlayout.runRegion_run hids b x
    rw [hrun] at hrun'
    cases hrun'
    exact ⟨A', hlayout'⟩

theorem Reached.regions : ∀ (xs : List (Region K V)) {ys : List (Phase K V)} {P P' : Pages K V},
    T.Reached ids b dirId P → runCalls (T.runRegion ids b dirId) xs P = .ok (ys, P') →
    T.Reached ids b dirId P' := by
  intro xs
  induction xs with
  | nil =>
    intro ys P P' h hrun
    cases hrun
    exact h
  | cons x xs ih =>
    intro ys P P' h hrun
    obtain ⟨y, ys', P₁, -, hfirst, hrest⟩ := runCalls_cons_inv hrun
    exact ih (h.region hfirst) hrest

/-- Run regions on a table of two slots, then `p`, and see of the pages before and after it. -/
def tryAfter {α β : Type} (xs : List (Region ℤ ℤ)) (p : TableProg ℤ ℤ α) (see : Pages ℤ ℤ → α → Pages ℤ ℤ → β) :
    Option ((PageId × Bool) × β) := do
  let (r, P₁) ← (callIdeal countingIds (smallTable.construct .debug 0) noPages).toOption
  let (_, P) ← (runCalls (smallTable.runRegion countingIds .debug 0) xs P₁).toOption
  let (a, P') ← (callIdeal countingIds p P).toOption
  some (r, see P a P')

theorem tryAfter_reached {α β : Type} {xs : List (Region ℤ ℤ)} {p : TableProg ℤ ℤ α}
    {see : Pages ℤ ℤ → α → Pages ℤ ℤ → β} {y : β} (h : tryAfter xs p see = some ((0, true), y)) :
    ∃ P a P', smallTable.Reached countingIds .debug 0 P ∧ callIdeal countingIds p P = .ok (a, P') ∧
      see P a P' = y := by
  simp only [tryAfter, Option.bind_eq_bind, Option.bind_eq_some_iff] at h
  obtain ⟨⟨r, P₁⟩, hopen, ⟨ys, P⟩, hrun, ⟨a, P'⟩, hcall, hsee⟩ := h
  cases hsee
  have hopened : smallTable.Reached countingIds .debug 0 P₁ :=
    .opened (fun p hp => (by cases hp)) (eq_ok_of_toOption hopen)
  exact ⟨P, a, P', hopened.regions xs (eq_ok_of_toOption hrun), eq_ok_of_toOption hcall, rfl⟩

/-! ## Splits -/

/-- **What a split of page `old` at entry `i`, of depth `d`, does.** -/
structure SplitSound (T : HashTableType K V) (P P' : Pages K V) (dirId old new : PageId) (i d : ℕ) : Prop where
  disjoint : Disjoint (T.pairsAt P' old) (T.pairsAt P' new)
  union : T.pairsAt P' old ∪ T.pairsAt P' new = T.pairsAt P old
  moved : ∀ e ∈ T.pairsAt P old, e ∈ T.pairsAt P' new ↔ (T.hash e.1).testBit d ≠ i.testBit d
  others : ∀ p, p ≠ dirId → p ≠ old → p ≠ new → P'.mem p = P.mem p
  halved : ∀ x, (T.directoryAt P dirId).pageOf x = old →
    (T.directoryAt P' dirId).pageOf x = if x.testBit d ≠ i.testBit d then new else old
  kept : ∀ x, (T.directoryAt P dirId).pageOf x ≠ old →
    (T.directoryAt P' dirId).pageOf x = (T.directoryAt P dirId).pageOf x

/-- In the cell of `i`, a split moves the numbers with the other bit at the cell's depth. -/
theorem split_page_own {i x : ℕ} {q : PageId} (hq : ∀ h, A.page h ≠ q) (hx : A.page x = A.page i) :
    (A.split i q hq).page x = if x.testBit (A.depth i) ≠ i.testBit (A.depth i) then q else A.page i := by
  have hmod := (A.page_eq_iff' x i).mp hx
  exact if_congr (modEq_sibling_iff_testBit hmod) rfl hx

theorem SplitSound.covers {Q : Pages K V} {old new : PageId} {i d : ℕ}
    (h : T.SplitSound P P' dirId old new i d) (hQ : P'.Covers Q) : T.SplitSound P Q dirId old new i d := by
  have hpairs : ∀ p, T.pairsAt Q p = T.pairsAt P' p := fun p => by
    unfold pairsAt
    rw [bucketAt_covers hQ]
  have hdir : T.directoryAt Q dirId = T.directoryAt P' dirId := directoryAt_covers hQ dirId
  obtain ⟨h1, h2, h3, h4, h5, h6⟩ := h
  rw [← hpairs, ← hpairs] at h1 h2
  refine ⟨h1, h2, fun e he => ?_, fun p hd ho hn => ?_, fun x hx => ?_, fun x hx => ?_⟩
  · rw [hpairs]
    exact h3 e he
  · rw [hQ.mem]
    exact h4 p hd ho hn
  · rw [hdir]
    exact h5 x hx
  · rw [hdir]
    exact h6 x hx

/-- **Splitting a full bucket of a table.** -/
theorem TableInv.split_sound (hcmp : ∀ k k', T.comparator k k' = 0 ↔ k = k') (hids : Function.Injective ids)
    (h : T.TableInv ids P dirId A S) (key : K) (value : V) {i : ℕ}
    (hidx : T.keyToDirectoryIndex key (T.directoryAt P dirId) = i)
    (hfull : (T.bucketAt P (A.page (T.hash key))).isFull T.bucketArraySize = true)
    (hlt : A.depth (T.hash key) < 9) :
    ∃ P' results, Disciplined ids 3 (T.splitInsertRegionNoting .debug dirId key value) P (none, results) P' ∧
      (∀ r ∈ results, r = true) ∧
      T.SplitSound P P' dirId (A.page (T.hash key)) (ids P.next) i (A.depth (T.hash key)) := by
  obtain ⟨-, -, hipage, hidepth⟩ := h.index_spec key hidx
  obtain ⟨P', results, hq, hrun, hall, hinv, -, hmem, hold, hnew⟩ :=
    h.splitInsertRegionNoting_split (Nat.le_refl 3) hids hcmp key value hidx hfull hlt
  -- what a hash value of the old page is mapped to now
  have hown : ∀ x, A.page x = A.page (T.hash key) → (A.split i (ids P.next) hq).page x =
      if x.testBit (A.depth (T.hash key)) ≠ i.testBit (A.depth (T.hash key)) then ids P.next
      else A.page (T.hash key) := by
    intro x hx
    rw [split_page_own hq (hx.trans hipage.symm), hidepth, hipage]
  refine ⟨P', results, hrun, hall, ?_, ?_, fun e he => ?_, hmem, fun x hx => ?_, fun x hx => ?_⟩
  · rw [Finset.disjoint_left]
    intro e hstay hgo
    exact ((hnew e).mp hgo).2 ((hold e).mp hstay).2
  · ext e
    rw [Finset.mem_union, hold, hnew, ← and_or_left]
    exact and_iff_left (em _)
  · rw [hnew, hown _ (h.placed _ e he)]
    have hne := hq (T.hash key)
    split
    · next hbit => exact ⟨fun _ => hbit, fun _ => ⟨he, hne.symm⟩⟩
    · next hbit => exact ⟨fun hc => absurd rfl hc.2, fun hc => absurd hc hbit⟩
  · rw [h.shows_dir.pageOf_eq] at hx
    rw [hinv.shows_dir.pageOf_eq, hown x hx]
  · rw [h.shows_dir.pageOf_eq] at hx
    rw [hinv.shows_dir.pageOf_eq, h.shows_dir.pageOf_eq]
    rcases split_page hq x with ⟨-, hin⟩ | hsame
    · exact absurd (hin.trans hipage) hx
    · exact hsame

/-- `SplitInsert` goes on to `Insert` only if it has split a full bucket. -/
theorem Layout.split_full (h : T.Layout ids P dirId A) {key : K} {value : V}
    (hsplit : callIdeal ids (T.splitInsertRegion b dirId key value) P = .ok (none, P')) :
    (T.bucketAt P (A.page (T.hash key))).isFull T.bucketArraySize = true ∧ A.depth (T.hash key) < 9 := by
  have hfollow := T.splitInsertRegion_follows b ids 3 dirId key value
  cases hfull : (T.bucketAt P (A.page (T.hash key))).isFull T.bucketArraySize with
  | false =>
    obtain ⟨Q, hcall, -⟩ :=
      Disciplined.callIdeal (h.splitInsertRegion_room (Nat.le_refl 3) key value hfull) hfollow
    rw [hsplit] at hcall
    cases hcall
  | true =>
    refine ⟨rfl, Nat.lt_of_le_of_ne (h.depth_le _) fun hnine => ?_⟩
    obtain ⟨Q, hcall, -⟩ :=
      Disciplined.callIdeal (h.splitInsertRegion_stuck (Nat.le_refl 3) key value hfull hnine) hfollow
    rw [hsplit] at hcall
    cases hcall

/-- **A split loses nothing.**  The pairs of the old page are divided between the old page and the new
    one by bit `d` of their hash, `d` the old depth; other bucket pages, and the pages of hash values
    that were not on the old page, are as before; and no `Insert` into the new page failed. -/
theorem split_loses_nothing (hcmp : ∀ k k', T.comparator k k' = 0 ↔ k = k') (hids : Function.Injective ids)
    (h : T.Reached ids b dirId P) (key : K) (value : V)
    (hsplit : callIdeal ids (T.splitInsertRegion b dirId key value) P = .ok (none, P')) :
    T.SplitSound P P' dirId (T.keyToPageId key (T.directoryAt P dirId)) (ids P.next)
      (T.keyToDirectoryIndex key (T.directoryAt P dirId))
      ((T.directoryAt P dirId).getLocalDepth (T.keyToDirectoryIndex key (T.directoryAt P dirId))) ∧
    ∃ results, callIdeal ids (T.splitInsertRegionNoting b dirId key value) P = .ok ((none, results), P') ∧
      ∀ r ∈ results, r = true := by
  obtain ⟨A, S, hinv⟩ := h.inv hcmp hids
  obtain ⟨hfull, hlt⟩ := hinv.toLayout.split_full hsplit
  obtain ⟨P₁, results, hrun, hall, hsound⟩ := hinv.split_sound hcmp hids key value rfl hfull hlt
  obtain ⟨Q, hcall, hcov⟩ := Disciplined.callIdeal hrun (T.splitInsertRegionNoting_follows b ids 3 dirId key value)
  have hsame := callIdeal_map Prod.fst hcall
  rw [← splitInsertRegion_noting, hsplit] at hsame
  cases hsame
  rw [hinv.page, hinv.localDepth]
  exact ⟨hsound.covers hcov, results, hcall, hall⟩

/-- Two pairs with odd keys fill the bucket; the split for a third one moves both to the new page. -/
theorem split_loses_nothing_small : ∃ P P', smallTable.Reached countingIds .debug 0 P ∧
    callIdeal countingIds (smallTable.splitInsertRegion .debug 0 5 7) P = .ok (none, P') ∧
    smallTable.SplitSound P P' 0 (smallTable.keyToPageId 5 (smallTable.directoryAt P 0)) (countingIds P.next)
      (smallTable.keyToDirectoryIndex 5 (smallTable.directoryAt P 0))
      ((smallTable.directoryAt P 0).getLocalDepth (smallTable.keyToDirectoryIndex 5 (smallTable.directoryAt P 0))) := by
  have hsee : tryAfter [.entry (.insert 1 7), .entry (.insert 3 7)] (smallTable.splitInsertRegion .debug 0 5 7)
      (fun _ r _ => r) = some ((0, true), none) := by decide +kernel
  obtain ⟨P, r, P', hreach, hcall, rfl⟩ := tryAfter_reached hsee
  obtain ⟨hsound, -⟩ := split_loses_nothing smallTable_comparator countingIds_injective hreach 5 7 hcall
  exact ⟨P, P', hreach, hcall, hsound⟩

/-! ## Merges -/

/-- **What a merge of page `old` into page `image` does.**  The page is deleted by an expression inside an
    assert. -/
structure MergeSound (T : HashTableType K V) (b : Build) (P P' : Pages K V) (dirId old image : PageId) :
    Prop where
  empty : T.pairsAt P old = ∅
  deleted : b = .debug → P'.deleted = old :: P.deleted
  others : ∀ p, p ≠ dirId → P'.mem p = P.mem p
  joined : ∀ x, (T.directoryAt P dirId).pageOf x = old → (T.directoryAt P' dirId).pageOf x = image
  kept : ∀ x, (T.directoryAt P dirId).pageOf x ≠ old →
    (T.directoryAt P' dirId).pageOf x = (T.directoryAt P dirId).pageOf x
  unnamed : ∀ j < (T.directoryAt P' dirId).size, (T.directoryAt P' dirId).bucketPageIds j ≠ old
  /-- Of the global depths that are passed, the last one is the first at which the directory cannot
      be halved. -/
  stops : (T.directoryAt P' dirId).globalDepth ≤ (T.directoryAt P dirId).globalDepth ∧
    ∀ g, (T.directoryAt P' dirId).globalDepth ≤ g → g ≤ (T.directoryAt P dirId).globalDepth →
      ((g = 0 ∨ ∃ j < 2 ^ g, (T.directoryAt P' dirId).localDepths j = g) ↔
        g = (T.directoryAt P' dirId).globalDepth)

/-- **`Merge` leaves everything alone or merges the key's page into that of its split image.** -/
theorem TableInv.merge_sound (h : T.TableInv ids P dirId A S) (key : K) {i s : ℕ}
    (hidx : T.keyToDirectoryIndex key (T.directoryAt P dirId) = i)
    (himage : (T.directoryAt P dirId).getSplitImageIndex i = s) :
    ∃ P' A', Disciplined ids 3 (T.merge .debug dirId key) P () P' ∧ T.TableInv ids P' dirId A' S ∧
      (P' = P ∨ T.MergeSound .debug P P' dirId (A.page (T.hash key))
        ((T.directoryAt P dirId).getBucketPageId s)) := by
  rcases h.merge_cases (Nat.le_refl 3) key hidx himage with
    ⟨hrun, -⟩ | ⟨e, hi, hs, hsib, d, hrun, hlayout, hempty, hslt, hle, hdepths⟩
  · exact ⟨P, A, hrun, h, .inl rfl⟩
  obtain ⟨-, -, hipage, -⟩ := h.index_spec key hidx
  -- only an empty bucket is merged away, so no pair is lost with its page
  have hnone : T.pairsAt P (A.page i) = ∅ := by
    rw [hipage]
    exact (h.bucket (T.hash key)).isEmpty_iff.mp hempty
  refine ⟨_, _, hrun, h.join hi hs hsib hnone hlayout, .inr ?_⟩
  rw [← hipage, getBucketPageId, h.shows_dir.page s hslt]
  have hdir : T.directoryAt ((P.delete (A.page i)).write dirId (.directory d)) dirId = d :=
    directoryAt_write_self
  have hshows := hlayout.shows_dir
  have htight := hlayout.tight
  rw [hdir] at hshows htight
  -- the clauses in turn: what stays, who is renamed, who is not, what goes, where the halving stops
  refine ⟨hnone, fun _ => rfl, fun p hp => ?_, fun x hx => ?_, fun x hx => ?_, fun j hj => ?_, ?_⟩
  · exact Function.update_of_ne hp ..
  · rw [h.shows_dir.pageOf_eq] at hx
    rw [hdir, hshows.pageOf_eq]
    rcases merge_page hi hs hsib x with ⟨hp, -⟩ | ⟨-, hne⟩
    · exact hp
    · exact absurd hx hne
  · rw [h.shows_dir.pageOf_eq] at hx
    rw [hdir, hshows.pageOf_eq, h.shows_dir.pageOf_eq]
    rcases merge_page hi hs hsib x with ⟨-, hin⟩ | ⟨hp, -⟩
    · exact absurd hin hx
    · exact hp
  · rw [hdir] at hj ⊢
    rw [hshows.page j (size_eq ▸ hj)]
    obtain ⟨y, hy, hne⟩ := Layout.join_page hi hs hsib j
    rw [hy]
    exact hne
  · rw [hdir]
    refine ⟨hle, fun g hge hg => ⟨fun hstuck => ?_, fun hend => ?_⟩⟩
    · -- no cell is deeper than the final depth
      rcases hstuck with rfl | ⟨j, hj, hjg⟩
      · omega
      · have hj' : j < 2 ^ (T.directoryAt P dirId).globalDepth :=
          lt_of_lt_of_le hj (Nat.pow_le_pow_right (by omega) hg)
        have hdeep := hshows.depth_le j
        rw [hdepths j hj'] at hjg
        omega
    · subst hend
      refine htight.imp id fun ⟨x, hx⟩ => ⟨x % 2 ^ d.globalDepth, Nat.mod_lt _ (Nat.two_pow_pos _), ?_⟩
      rw [hshows.depth_mod, hx]

/-- Tables with the same pairs answer alike, if the buckets are the same and whoever changed page found
    nothing on the old one. -/
theorem TableInv.getValue_same {A' : Partition PageId} (h : T.TableInv ids P dirId A S)
    (h' : T.TableInv ids P' dirId A' S) (hcmp : ∀ k k', T.comparator k k' = 0 ↔ k = k')
    (hmem : ∀ p, p ≠ dirId → P'.mem p = P.mem p)
    (hpage : ∀ x, A'.page x = A.page x ∨ T.pairsAt P (A.page x) = ∅) (k : K) (result : List V) :
    ∃ r Q Q', callIdeal ids (T.getValue b dirId k result) P = .ok (r, Q) ∧
      callIdeal ids (T.getValue b dirId k result) P' = .ok (r, Q') := by
  have hfollow := T.getValue_follows b ids 3 dirId k result
  obtain ⟨Q, hcall, -⟩ := Disciplined.callIdeal (h.getValue_run (Nat.le_refl 3) k result) hfollow
  obtain ⟨Q', hcall', -⟩ := Disciplined.callIdeal (h'.getValue_run (Nat.le_refl 3) k result) hfollow
  refine ⟨_, Q, Q', hcall, ?_⟩
  rw [hcall']
  rcases hpage (T.hash k) with hsame | hnone
  · rw [hsame, bucketAt, bucketAt, hmem _ (h.ne_dir _)]
  · -- neither bucket has a pair with this key
    obtain ⟨vs, hget, -, hvs⟩ := (h.bucket (T.hash k)).getValue_spec hcmp k result
    obtain ⟨vs', hget', -, hvs'⟩ := (h'.bucket (T.hash k)).getValue_spec hcmp k result
    have hno : ∀ v, (k, v) ∉ S := fun v hv => by
      rw [← h.mem_own, hnone] at hv
      exact absurd hv (Finset.notMem_empty _)
    have hvs_nil : vs = [] := List.eq_nil_iff_forall_not_mem.mpr fun v hv =>
      hno v ((h.mem_own k v).mp ((hvs v).mp hv))
    have hvs'_nil : vs' = [] := List.eq_nil_iff_forall_not_mem.mpr fun v hv =>
      hno v ((h'.mem_own k v).mp ((hvs' v).mp hv))
    rw [hget, hget', hvs_nil, hvs'_nil]

theorem MergeSound.covers {Q : Pages K V} {old image : PageId} (h : T.MergeSound .debug P P' dirId old image)
    (hQ : P'.Covers Q) (hdebug : b = .debug → Q = P') : T.MergeSound b P Q dirId old image := by
  have hdir : T.directoryAt Q dirId = T.directoryAt P' dirId := directoryAt_covers hQ dirId
  refine ⟨h.empty, fun hb => ?_, fun p hp => ?_, fun x hx => ?_, fun x hx => ?_, ?_, ?_⟩
  · rw [hdebug hb]
    exact h.deleted rfl
  · rw [hQ.mem]
    exact h.others p hp
  · rw [hdir]
    exact h.joined x hx
  · rw [hdir]
    exact h.kept x hx
  · rw [hdir]
    exact h.unnamed
  · rw [hdir]
    exact h.stops

/-- **Merging and shrinking are invisible to lookups.**  `Merge` leaves directory and buckets alone, or
    deletes the empty page of the key, whose hash values get the page of its split image; the directory is
    halved as often as it can be.  `GetValue` returns the same before and after. -/
theorem merge_invisible (hcmp : ∀ k k', T.comparator k k' = 0 ↔ k = k') (hids : Function.Injective ids)
    (h : T.Reached ids b dirId P) (key : K) (hmerge : callIdeal ids (T.merge b dirId key) P = .ok ((), P')) :
    ((P.Covers P' ∧ (b = .debug → P' = P)) ∨
      T.MergeSound b P P' dirId (T.keyToPageId key (T.directoryAt P dirId))
        ((T.directoryAt P dirId).getBucketPageId ((T.directoryAt P dirId).getSplitImageIndex
          (T.keyToDirectoryIndex key (T.directoryAt P dirId))))) ∧
    ∀ k result, ∃ r Q Q', callIdeal ids (T.getValue b dirId k result) P = .ok (r, Q) ∧
      callIdeal ids (T.getValue b dirId k result) P' = .ok (r, Q') := by
  obtain ⟨A, S, hinv⟩ := h.inv hcmp hids
  obtain ⟨P₁, A', hrun, hinv₁, hsound⟩ := hinv.merge_sound key rfl rfl
  obtain ⟨Q, hcall, hcov⟩ := Disciplined.callIdeal hrun (T.merge_follows b ids 3 dirId key)
  rw [hmerge] at hcall
  cases hcall
  have hdebug : b = .debug → P' = P₁ := by
    rintro rfl
    have hsame := Disciplined.callIdeal_same hrun
    rw [hmerge] at hsame
    cases hsame
    rfl
  have hinv' := hinv₁.covers hcov
  rw [hinv.page]
  rcases hsound with rfl | hsound
  · refine ⟨.inl ⟨hcov, hdebug⟩, hinv.getValue_same hinv' hcmp (fun p _ => ?_) fun x => .inl ?_⟩
    · rw [hcov.mem]
    · rw [← hinv'.shows_dir.pageOf_eq, ← hinv.shows_dir.pageOf_eq, directoryAt, directoryAt, hcov.mem]
  · replace hsound := hsound.covers hcov hdebug
    refine ⟨.inr hsound, hinv.getValue_same hinv' hcmp hsound.others fun x => ?_⟩
    by_cases hx : A.page x = A.page (T.hash key)
    · exact .inr (hx ▸ hsound.empty)
    · rw [← hinv.shows_dir.pageOf_eq] at hx
      rw [← hinv'.shows_dir.pageOf_eq, ← hinv.shows_dir.pageOf_eq]
      exact .inl (hsound.kept x hx)

/-- The split left the even keys an empty page, which a removal merges away again. -/
theorem merge_invisible_small : ∃ P P', smallTable.Reached countingIds .debug 0 P ∧
    callIdeal countingIds (smallTable.merge .debug 0 0) P = .ok ((), P') ∧
    (smallTable.directoryAt P' 0).globalDepth = 0 ∧
    ∀ k result, ∃ r Q Q', callIdeal countingIds (smallTable.getValue .debug 0 k result) P = .ok (r, Q) ∧
      callIdeal countingIds (smallTable.getValue .debug 0 k result) P' = .ok (r, Q') := by
  have hsee : tryAfter [.entry (.insert 1 7), .entry (.insert 3 7), .splitInsert 5 7, .entry (.remove 0 7)]
      (smallTable.merge .debug 0 0) (fun _ _ P => (smallTable.directoryAt P 0).globalDepth) =
        some ((0, true), 0) := by decide +kernel
  obtain ⟨P, ⟨⟩, P', hreach, hcall, hdepth⟩ := tryAfter_reached hsee
  obtain ⟨-, hsame⟩ := merge_invisible smallTable_comparator countingIds_injective hreach 0 hcall
  exact ⟨P, P', hreach, hcall, hdepth, hsame⟩

end HashTableType

end BusTub
