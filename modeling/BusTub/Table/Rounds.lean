/-
  `Insert`, round by round.

  A round of `SplitInsert` that goes on with `Insert` gives the key's entry one more bit of local depth.
  A directory of 512 entries has no depth beyond nine, so the recursion ends.

  1. **`rounds_bounded`**: from local depth `d` there are at most `10 - d` rounds, whatever the hash.

  2. **`insert_fails`**: what a failed `Insert` leaves.  The pairs are always those of before.  If the
     bucket had room, or no bits were left, nothing has changed; if a full bucket was split in vain, the
     splits stay, and with them the size of the directory.
-/
import BusTub.Table.Regroups

set_option linter.unusedSectionVars false

namespace BusTub

open Command HashPartition HashTableDirectoryPage HashTableBucketPage

namespace HashTableType

variable {K V : Type} [Inhabited K] [Inhabited V] [DecidableEq K] [DecidableEq V]
variable {T : HashTableType K V} {ids : ℕ → PageId} {b : Build} {dirId : PageId} {P P' : Pages K V}
  {A : Partition PageId} {S : Finset (K × V)} {fuel : ℕ}

/-! ## The number of rounds -/

/-- The local depth of the entry that `key` maps to. -/
def keyDepth (T : HashTableType K V) (P : Pages K V) (dirId : PageId) (key : K) : ℕ :=
  (T.directoryAt P dirId).getLocalDepth (T.keyToDirectoryIndex key (T.directoryAt P dirId))

theorem Layout.keyDepth_eq (h : T.Layout ids P dirId A) (key : K) :
    T.keyDepth P dirId key = A.depth (T.hash key) := h.localDepth key

/-- A round that goes on gives the key's entry one more bit. -/
theorem Layout.split_deepens (hids : Function.Injective ids) (h : T.Layout ids P dirId A) {key : K} {value : V}
    (hsplit : callIdeal ids (T.splitInsertRegion b dirId key value) P = .ok (none, P')) :
    T.keyDepth P' dirId key = T.keyDepth P dirId key + 1 := by
  obtain ⟨hfull, hlt⟩ := h.split_full hsplit
  obtain ⟨P₁, A₁, hrun, hlayout, hmore⟩ :=
    h.splitInsertRegion_split (Nat.le_refl 3) hids key value hfull hlt
  obtain ⟨Q, hcall, hcov⟩ := Disciplined.callIdeal hrun (T.splitInsertRegion_follows b ids 3 dirId key value)
  rw [hsplit] at hcall
  cases hcall
  rw [(hlayout.covers hcov).keyDepth_eq, h.keyDepth_eq, hmore]

/-- **The recursion of `Insert` and `SplitInsert` ends.**  Every round that goes on gives the key's entry one
    more bit, and from depth `d` there are at most `10 - d` rounds: so many calls of `Insert` are enough. -/
theorem rounds_bounded (hids : Function.Injective ids) (h : T.Reached ids b dirId P) (key : K) (value : V) :
    (∀ P', callIdeal ids (T.splitInsertRegion b dirId key value) P = .ok (none, P') →
      T.keyDepth P' dirId key = T.keyDepth P dirId key + 1) ∧
    ∀ fuel, 10 - T.keyDepth P dirId key ≤ fuel → ∃ r n P',
      callIdeal ids (T.insertRounds b dirId key value fuel) P = .ok ((r, n), P') ∧
      callIdeal ids (T.insert b dirId key value fuel) P = .ok (r, P') ∧
      n ≤ 10 - T.keyDepth P dirId key := by
  obtain ⟨A, hlayout⟩ := h.layout hids
  refine ⟨fun P' hsplit => hlayout.split_deepens hids hsplit, fun fuel hfuel => ?_⟩
  have hle := hlayout.depth_le (T.hash key)
  rw [hlayout.keyDepth_eq] at hfuel ⊢
  have hcap := Nat.le_refl 3
  obtain ⟨r, n, P', hrun, -, hn⟩ := insertRounds_rule (I := fun P A => T.Layout ids P dirId A)
    (J := fun _ P' => ∃ A', T.Layout ids P' dirId A') (fun P A h => h.depth_le (T.hash key))
    (fun P A h => h.insertRegion_run hcap key value)
    (fun P A h => h.splitInsertRegion_run hcap hids key value) fuel P A hlayout (by omega)
  obtain ⟨Q, hcall, -⟩ := Disciplined.callIdeal hrun (insertRounds_follows b key value fuel)
  refine ⟨r, n, Q, hcall, ?_, by omega⟩
  rw [insert_rounds]
  exact callIdeal_map Prod.fst hcall

/-- **When every key of the full bucket has the same hash, all ten rounds are needed.**  The first of them gives the
    key's entry its first bit. -/
theorem rounds_bounded_small : ∃ P P₁ P',
    smallTable.Reached countingIds .debug 0 P ∧
    callIdeal countingIds (smallTable.splitInsertRegion .debug 0 5 3) P = .ok (none, P₁) ∧
    smallTable.keyDepth P₁ 0 5 = smallTable.keyDepth P 0 5 + 1 ∧
    callIdeal countingIds (smallTable.insertRounds .debug 0 5 3 10) P = .ok ((false, 10), P') ∧
    10 ≤ 10 - smallTable.keyDepth P 0 5 := by
  have hsee : tryAfter [.entry (.insert 5 1), .entry (.insert 5 2)] (smallTable.splitInsertRegion .debug 0 5 3)
      (fun P r _ => (r, (callIdeal countingIds (smallTable.insertRounds .debug 0 5 3 10) P).toOption.map Prod.fst)) =
        some ((0, true), none, some (false, 10)) := by decide +kernel
  obtain ⟨P, r, P₁, hreach, hsplit, hseen⟩ := tryAfter_reached hsee
  obtain ⟨rfl, hall⟩ := Prod.mk.inj hseen
  obtain ⟨hdeeper, hrounds⟩ := rounds_bounded countingIds_injective hreach 5 3
  obtain ⟨r, n, P', hcall, -, hn⟩ := hrounds 10 (Nat.sub_le ..)
  rw [hcall] at hall
  obtain ⟨rfl, rfl⟩ := Prod.mk.inj (Option.some.inj hall)
  exact ⟨P, P₁, P', hreach, hsplit, hdeeper P₁ hsplit, hcall, hn⟩

/-! ## A failed insertion -/

/-- **Directory and buckets are as before**, and so are the pages there are. -/
structure Unchanged (T : HashTableType K V) (P P' : Pages K V) (dirId : PageId) : Prop where
  dir : T.directoryAt P' dirId = T.directoryAt P dirId
  buckets : ∀ p, p ≠ dirId → T.bucketAt P' p = T.bucketAt P p
  next : P'.next = P.next
  deleted : ∀ p ∈ P'.deleted, p ∈ P.deleted

/-- **What splits in vain leave**: the entry of `key` has all nine bits, with a new page for each bit it
    gained, and beside the cell of page `old` nothing has changed. -/
structure SplitInVain (T : HashTableType K V) (ids : ℕ → PageId) (P P' : Pages K V) (dirId old : PageId)
    (key : K) : Prop where
  depth : T.keyDepth P' dirId key = 9
  global : (T.directoryAt P' dirId).globalDepth = 9
  next : P'.next + T.keyDepth P dirId key = P.next + 9
  kept : ∀ x, (T.directoryAt P dirId).pageOf x ≠ old →
    (T.directoryAt P' dirId).pageOf x = (T.directoryAt P dirId).pageOf x
  others : ∀ p, P.Created ids p → p ≠ dirId → p ≠ old → P'.mem p = P.mem p

theorem Unchanged.covers {Q : Pages K V} (h : T.Unchanged P P' dirId) (hQ : P'.Covers Q) :
    T.Unchanged P Q dirId where
  dir := (directoryAt_covers hQ dirId).trans h.dir
  buckets p hp := (bucketAt_covers hQ p).trans (h.buckets p hp)
  next := hQ.next.trans h.next
  deleted p hp := h.deleted p (hQ.deleted p hp)

theorem SplitInVain.covers {Q : Pages K V} {old : PageId} {key : K} (h : T.SplitInVain ids P P' dirId old key)
    (hQ : P'.Covers Q) : T.SplitInVain ids P Q dirId old key := by
  have hdir : T.directoryAt Q dirId = T.directoryAt P' dirId := directoryAt_covers hQ dirId
  refine ⟨?_, ?_, ?_, fun x hx => ?_, fun p hp hd ho => ?_⟩
  · unfold keyDepth
    rw [hdir]
    exact h.depth
  · rw [hdir]
    exact h.global
  · rw [hQ.next]
    exact h.next
  · rw [hdir]
    exact h.kept x hx
  · rw [hQ.mem]
    exact h.others p hp hd ho

/-- **A failed `Insert` keeps the pairs.** -/
theorem TableInv.insert_keeps_pairs (hcmp : ∀ k k', T.comparator k k' = 0 ↔ k = k') (hids : Function.Injective ids)
    (hfuel : 10 ≤ fuel) (h : T.TableInv ids P dirId A S) {key : K} {value : V}
    (hfail : callIdeal ids (T.insert b dirId key value fuel) P = .ok (false, P')) :
    ∃ A', T.TableInv ids P' dirId A' S := by
  obtain ⟨r, P₁, A', S', hrun, hinv, href⟩ :=
    h.call_spec (Nat.le_refl 3) hids hfuel hcmp (.insert key value)
  obtain ⟨Q, hcall, hcov⟩ := Disciplined.callIdeal hrun (method_follows b fuel _)
  have hflag := callIdeal_map (TableRet.flag (V := V)) hfail
  rw [show callIdeal ids (do let r ← T.insert b dirId key value fuel; pure (.flag r)) P = .ok (r, Q) from hcall]
    at hflag
  cases hflag
  cases href
  exact ⟨A', hinv.covers hcov⟩

/-- **Without a split a failed `Insert` changes nothing.** -/
theorem TableInv.insert_fails_unsplit (hcmp : ∀ k k', T.comparator k k' = 0 ↔ k = k') (hfuel : 0 < fuel)
    (h : T.TableInv ids P dirId A S) {key : K} {value : V}
    (hunsplit : (T.bucketAt P (A.page (T.hash key))).isFull T.bucketArraySize = false ∨ A.depth (T.hash key) = 9)
    (hfail : callIdeal ids (T.insert b dirId key value fuel) P = .ok (false, P')) : T.Unchanged P P' dirId := by
  obtain ⟨fuel, rfl⟩ := Nat.exists_eq_succ_of_ne_zero (Nat.ne_of_gt hfuel)
  have hcap := Nat.le_refl 3
  have hfollow : FollowsIdeal ids 3 (T.insert .debug dirId key value (fuel + 1))
      (T.insert b dirId key value (fuel + 1)) := insert_follows b key value (fuel + 1)
  cases hfull : (T.bucketAt P (A.page (T.hash key))).isFull T.bucketArraySize with
  | false =>
    -- the bucket's own `Insert` failed, and left the bucket alone
    have hrun : Disciplined ids 3 (T.insert .debug dirId key value (fuel + 1)) P _ _ :=
      (h.insertRegion_room hcap key value hfull).bind (.pure _ _)
    obtain ⟨Q, hcall, hcov⟩ := Disciplined.callIdeal hrun hfollow
    rw [hfail] at hcall
    obtain ⟨hres, rfl⟩ := Prod.mk.inj (Except.ok.inj hcall)
    rcases (h.bucket (T.hash key)).insert_spec hcmp key value with ⟨hins, -⟩ | ⟨c, hins, -⟩
    · rw [hins] at hcov
      have hsame : T.Unchanged P (P.write (A.page (T.hash key)) (.bucket (T.bucketAt P (A.page (T.hash key)))))
          dirId := by
        refine ⟨directoryAt_write_of_ne (h.ne_dir _).symm, fun p _ => ?_, rfl, fun _ hp => hp⟩
        by_cases hp : p = A.page (T.hash key)
        · rw [hp, bucketAt_write_self]
        · exact bucketAt_write_of_ne hp
      exact hsame.covers hcov
    · rw [hins] at hres
      cases hres
  | true =>
    have hnine : A.depth (T.hash key) = 9 := hunsplit.resolve_left (by rw [hfull]; exact Bool.noConfusion)
    have hrun : Disciplined ids 3 (T.insert .debug dirId key value (fuel + 1)) P false P :=
      (h.insertRegion_full hcap key value hfull).bind
        ((h.splitInsertRegion_stuck hcap key value hfull hnine).bind (.pure _ _))
    obtain ⟨Q, hcall, hcov⟩ := Disciplined.callIdeal hrun hfollow
    rw [hfail] at hcall
    cases hcall
    exact Unchanged.covers ⟨rfl, fun _ _ => rfl, rfl, fun _ hp => hp⟩ hcov

/-- Between the rounds: `P₁` and `A₁` have come from `P` and `A` by splits for `key`. -/
structure Splitting (T : HashTableType K V) (ids : ℕ → PageId) (P : Pages K V) (dirId : PageId)
    (A : Partition PageId) (S : Finset (K × V)) (key : K) (P₁ : Pages K V) (A₁ : Partition PageId) : Prop where
  inv : T.TableInv ids P₁ dirId A₁ S
  own : A₁.page (T.hash key) = A.page (T.hash key) ∨ ¬ P.Created ids (A₁.page (T.hash key))
  kept : ∀ x, A.page x ≠ A.page (T.hash key) → A₁.page x = A.page x
  next_le : P.next ≤ P₁.next
  next : P₁.next + A.depth (T.hash key) = P.next + A₁.depth (T.hash key)
  others : ∀ p, P.Created ids p → p ≠ dirId → p ≠ A.page (T.hash key) → P₁.mem p = P.mem p

/-- **One more round.** -/
theorem Splitting.step (hcmp : ∀ k k', T.comparator k k' = 0 ↔ k = k') (hids : Function.Injective ids)
    (h : T.TableInv ids P dirId A S) {key : K} (value : V) {P₁ : Pages K V} {A₁ : Partition PageId}
    (hs : T.Splitting ids P dirId A S key P₁ A₁)
    (hfull : (T.bucketAt P₁ (A₁.page (T.hash key))).isFull T.bucketArraySize = true)
    (hlt : A₁.depth (T.hash key) < 9) :
    ∃ P' A', Disciplined ids 3 (T.splitInsertRegion .debug dirId key value) P₁ none P' ∧
      T.Splitting ids P dirId A S key P' A' ∧ A'.depth (T.hash key) = A₁.depth (T.hash key) + 1 := by
  obtain ⟨-, -, hipage, hidepth⟩ := hs.inv.index_spec key rfl
  obtain ⟨P', results, hq, hrun, -, hinv, hnext, hmem, -⟩ :=
    hs.inv.splitInsertRegionNoting_split (Nat.le_refl 3) hids hcmp key value rfl hfull hlt
  -- the new page is new to `P` as well
  have hfresh : ¬ P.Created ids (ids P₁.next) := by
    rintro ⟨j, hj, he⟩
    have := hids he
    have := hs.next_le
    omega
  -- whoever was outside the cell of `key` still is
  have hout : ∀ x, A.page x ≠ A.page (T.hash key) → A₁.page x ≠ A₁.page (T.hash key) := by
    intro x hx he
    rw [hs.kept x hx] at he
    rcases hs.own with hsame | hnew
    · exact hx (he.trans hsame)
    · exact hnew (he ▸ h.created x)
  have hdepth := split_depth hq hipage.symm
  rw [hidepth] at hdepth
  refine ⟨P', _, ?_, ⟨hinv, ?_, fun x hx => ?_, ?_, ?_, fun p hp hd ho => ?_⟩, hdepth⟩
  · rw [splitInsertRegion_noting]
    exact hrun.bind (.pure _ P')
  · rcases split_page hq (T.hash key) with ⟨hp, -⟩ | hp
    · rw [hp]
      exact .inr hfresh
    · rw [hp]
      exact hs.own
  · rcases split_page hq x with ⟨-, hin⟩ | hp
    · exact absurd (hin.trans hipage) (hout x hx)
    · exact hp.trans (hs.kept x hx)
  · have := hs.next_le
    omega
  · have := hs.next
    omega
  · rw [hmem p hd ?_ ?_]
    · exact hs.others p hp hd ho
    · rintro rfl
      rcases hs.own with hsame | hnew
      · exact ho hsame
      · exact hnew hp
    · rintro rfl
      exact hfresh hp

/-- A new pair that a full bucket of nine bits turns away has been split for in vain. -/
theorem Splitting.inVain (h : T.TableInv ids P dirId A S) {key : K} {P₁ : Pages K V} {A₁ : Partition PageId}
    (hs : T.Splitting ids P dirId A S key P₁ A₁) (hnine : A₁.depth (T.hash key) = 9) :
    T.SplitInVain ids P P₁ dirId (A.page (T.hash key)) key := by
  have hle := hs.inv.shows_dir.depth_le (T.hash key)
  have hglobal := hs.inv.global_le
  refine ⟨hs.inv.keyDepth_eq key ▸ hnine, by omega, ?_, fun x hx => ?_, hs.others⟩
  · rw [h.keyDepth_eq, hs.next, hnine]
  · rw [h.shows_dir.pageOf_eq] at hx ⊢
    rw [hs.inv.shows_dir.pageOf_eq]
    exact hs.kept x hx

/-- **A new pair is turned away only when its entry has all nine bits.** -/
theorem TableInv.insert_fails_new (hcmp : ∀ k k', T.comparator k k' = 0 ↔ k = k') (hids : Function.Injective ids)
    (hfuel : 10 ≤ fuel) (h : T.TableInv ids P dirId A S) {key : K} {value : V} (hnew : (key, value) ∉ S)
    (hfail : callIdeal ids (T.insert b dirId key value fuel) P = .ok (false, P')) :
    T.SplitInVain ids P P' dirId (A.page (T.hash key)) key := by
  have hcap := Nat.le_refl 3
  -- a bucket with room takes the pair
  have htaken : ∀ P₁ A₁, T.Splitting ids P dirId A S key P₁ A₁ →
      (T.bucketAt P₁ (A₁.page (T.hash key))).isFull T.bucketArraySize = false →
      ((T.bucketAt P₁ (A₁.page (T.hash key))).insert T.bucketArraySize T.comparator key value).1 = true := by
    intro P₁ A₁ hs hroom
    rcases (hs.inv.bucket (T.hash key)).insert_spec hcmp key value with ⟨-, hno⟩ | ⟨c, hins, -⟩
    · rcases hno with hfull | hdup
      · rw [hroom] at hfull
        cases hfull
      · exact absurd ((hs.inv.mem_own key value).mp hdup) hnew
    · rw [hins]
  obtain ⟨r, P₁, hrun, hvain⟩ : ∃ r P₁, Disciplined ids 3 (T.insert .debug dirId key value fuel) P r P₁ ∧
      (r = false → T.SplitInVain ids P P₁ dirId (A.page (T.hash key)) key) := insert_rule
    (I := T.Splitting ids P dirId A S key)
    (J := fun r P' => r = false → T.SplitInVain ids P P' dirId (A.page (T.hash key)) key)
    (fun P₁ A₁ hs => hs.inv.depth_le (T.hash key))
    (fun P₁ A₁ hs => by
      cases hfull : (T.bucketAt P₁ (A₁.page (T.hash key))).isFull T.bucketArraySize with
      | false =>
        exact .inl ⟨_, _, hs.inv.insertRegion_room hcap key value hfull,
          fun hr => absurd ((htaken P₁ A₁ hs hfull).symm.trans hr) Bool.noConfusion⟩
      | true => exact .inr (hs.inv.insertRegion_full hcap key value hfull))
    (fun P₁ A₁ hs => by
      cases hfull : (T.bucketAt P₁ (A₁.page (T.hash key))).isFull T.bucketArraySize with
      | false =>
        exact .inl ⟨_, _, hs.inv.splitInsertRegion_room hcap key value hfull,
          fun hr => absurd ((htaken P₁ A₁ hs hfull).symm.trans hr) Bool.noConfusion⟩
      | true =>
        rcases Nat.lt_or_eq_of_le (hs.inv.depth_le (T.hash key)) with hlt | hnine
        · exact .inr (hs.step hcmp hids h value hfull hlt)
        · exact .inl ⟨false, P₁, hs.inv.splitInsertRegion_stuck hcap key value hfull hnine,
            fun _ => hs.inVain h hnine⟩)
    fuel P A ⟨h, .inl rfl, fun _ _ => rfl, Nat.le_refl _, rfl, fun _ _ _ _ => rfl⟩ (by omega)
  obtain ⟨Q, hcall, hcov⟩ := Disciplined.callIdeal hrun (insert_follows b key value fuel)
  rw [hfail] at hcall
  cases hcall
  exact (hvain rfl).covers hcov

/-- **What a failed `Insert` leaves.**  The pairs are those of before.  If the bucket had room, or the key's
    entry all nine bits, directory and buckets are as before.  If the pair was not stored, splits that were made in
    vain stay, and change nothing beside the cell of the key. -/
theorem insert_fails (hcmp : ∀ k k', T.comparator k k' = 0 ↔ k = k') (hids : Function.Injective ids)
    (hfuel : 10 ≤ fuel) (h : T.Reached ids b dirId P) {key : K} {value : V}
    (hfail : callIdeal ids (T.insert b dirId key value fuel) P = .ok (false, P')) :
    (∀ e, T.Holds P' dirId e ↔ T.Holds P dirId e) ∧
    ((T.bucketAt P (T.keyToPageId key (T.directoryAt P dirId))).isFull T.bucketArraySize = false ∨
      T.keyDepth P dirId key = 9 → T.Unchanged P P' dirId) ∧
    (¬ T.Holds P dirId (key, value) →
      T.SplitInVain ids P P' dirId (T.keyToPageId key (T.directoryAt P dirId)) key) := by
  obtain ⟨A, S, hinv⟩ := h.inv hcmp hids
  obtain ⟨A', hinv'⟩ := hinv.insert_keeps_pairs hcmp hids hfuel hfail
  rw [hinv.page, hinv.keyDepth_eq]
  refine ⟨fun e => ?_, fun hunsplit => ?_, fun hnew => ?_⟩
  · rw [hinv'.holds_iff, hinv.holds_iff]
  · exact hinv.insert_fails_unsplit hcmp (by omega) hunsplit hfail
  · exact hinv.insert_fails_new hcmp hids hfuel (fun hmem => hnew ((hinv.holds_iff _).mpr hmem)) hfail

/-- Three pairs with one key, for two slots: the third insertion doubles the directory nine times, and fails. -/
theorem insert_fails_after_splits : ∃ P P', smallTable.Reached countingIds .debug 0 P ∧
    callIdeal countingIds (smallTable.insert .debug 0 5 3 10) P = .ok (false, P') ∧
    (smallTable.directoryAt P 0).globalDepth = 0 ∧ (smallTable.directoryAt P' 0).globalDepth = 9 ∧
    ¬ smallTable.Unchanged P P' 0 := by
  have hsee : tryAfter [.entry (.insert 5 1), .entry (.insert 5 2)] (smallTable.insert .debug 0 5 3 10)
      (fun P r P' => (r, (smallTable.directoryAt P 0).globalDepth, (smallTable.directoryAt P' 0).globalDepth)) =
        some ((0, true), (false, 0, 9)) := by decide +kernel
  obtain ⟨P, r, P', hreach, hcall, hseen⟩ := tryAfter_reached hsee
  simp only [Prod.mk.injEq] at hseen
  obtain ⟨rfl, hbefore, hafter⟩ := hseen
  refine ⟨P, P', hreach, hcall, hbefore, hafter, fun hsame => ?_⟩
  rw [hsame.dir, hbefore] at hafter
  cases hafter

theorem insert_fails_small : ∃ P P', smallTable.Reached countingIds .debug 0 P ∧
    callIdeal countingIds (smallTable.insert .debug 0 5 1 10) P = .ok (false, P') ∧
    ∀ e, smallTable.Holds P' 0 e ↔ smallTable.Holds P 0 e := by
  have hsee : tryAfter [.entry (.insert 5 1), .entry (.insert 5 2)] (smallTable.insert .debug 0 5 1 10)
      (fun _ r _ => r) = some ((0, true), false) := by decide +kernel
  obtain ⟨P, r, P', hreach, hcall, rfl⟩ := tryAfter_reached hsee
  obtain ⟨hkeep, -⟩ :=
    insert_fails smallTable_comparator countingIds_injective (Nat.le_refl 10) hreach hcall
  exact ⟨P, P', hreach, hcall, hkeep⟩

end HashTableType

end BusTub
