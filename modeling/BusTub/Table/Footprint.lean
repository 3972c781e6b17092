/-
  What a region does to the pages of its table, and to no others.

  1. **`region`** is a latched region as one program, so that it may run over any store; over the ideal
     store it is `runRegion`.

  2. **`RegionStep`** says what a region can do: rewrite buckets of the table, halve one cell, or join two.
     Beside the pages it says what is left to do (`Region.work`): only a split lets a caller go back.

  3. **`Layout.region_step`**: every region does one of these, from every layout.  `RegionStep.frame` is the
     frame rule: a page that was created and is not the table's keeps its contents.
-/
import BusTub.Table.Regroups
import BusTub.Lib.Cells

set_option linter.unusedSectionVars false

namespace BusTub

open Command HashPartition HashTableDirectoryPage HashTableBucketPage

/-! ## Work that is left -/

/-- How many regions a caller still runs from this one on, if nobody splits. -/
def Region.work {K V : Type} : Region K V → ℕ
  | .entry (.insert _ _) => 2
  | .entry (.remove _ _) => 4
  | .entry (.getValue _ _) => 1
  | .splitInsert _ _ => 1
  | .merge _ _ _ => 3

def Phase.work {K V : Type} : Phase K V → ℕ
  | .before x => Region.work x
  | _ => 0

namespace HashTableType

variable {K V : Type} [Inhabited K] [Inhabited V] [DecidableEq K] [DecidableEq V]

/-! ## Regions as programs -/

/-- A region, with the caller's next phase. -/
def region (T : HashTableType K V) (b : Build) (dirId : PageId) : Region K V → TableProg K V (Phase K V)
  | .entry (.insert key value) => do
    let res ← T.insertRegion b dirId key value
    pure (match res with
      | some res => .returning (.insert key value) (.flag res)
      | none => .before (.splitInsert key value))
  | .splitInsert key value => do
    let res ← T.splitInsertRegion b dirId key value
    pure (match res with
      | some res => .returning (.insert key value) (.flag res)
      | none => .before (.entry (.insert key value)))
  | .entry (.remove key value) => do
    let res ← T.removeRegion b dirId key value
    pure (.before (.merge key value res))
  | .merge key value res => do
    T.merge b dirId key
    pure (.returning (.remove key value) (.flag res))
  | .entry (.getValue key result) => do
    let res ← T.getValue b dirId key result
    pure (.returning (.getValue key result) (.values res.1 res.2))

variable {T : HashTableType K V} {ids : ℕ → PageId} {cap : ℕ} {b : Build} {dirId : PageId} {P P' : Pages K V}
  {A A' : Partition PageId} {S : Finset (K × V)}

/-- Over the ideal store it is the region of `concurrent`. -/
theorem runRegion_eq (x : Region K V) (P : Pages K V) :
    T.runRegion ids b dirId x P = callIdeal ids (T.region b dirId x) P := by
  have hbind : ∀ {α : Type} (p : TableProg K V α) (f : α → Phase K V),
      callIdeal ids (do let r ← p; pure (f r)) P =
        (callIdeal ids p P >>= fun r => .ok (f r.1, r.2) : Except Fault (Phase K V × Pages K V)) := by
    intro α p f
    unfold callIdeal
    rw [run_bind]
    generalize run (idealMachine ids) p ⟨P, fun _ => none⟩ = out
    cases out <;> rfl
  cases x with
  | entry c =>
    cases c with
    | insert key value =>
      show (callIdeal ids (T.insertRegion b dirId key value) P >>= _) = _
      rw [region, hbind]
      refine congrArg _ (funext fun r => ?_)
      obtain ⟨res, Q⟩ := r
      cases res <;> rfl
    | remove key value =>
      rw [region, hbind]
      rfl
    | getValue key result =>
      rw [region, hbind]
      rfl
  | splitInsert key value =>
    show (callIdeal ids (T.splitInsertRegion b dirId key value) P >>= _) = _
    rw [region, hbind]
    refine congrArg _ (funext fun r => ?_)
    obtain ⟨res, Q⟩ := r
    cases res <;> rfl
  | merge key value res =>
    rw [region, hbind]
    rfl

theorem region_follows (b : Build) (x : Region K V) :
    FollowsIdeal ids cap (T.region .debug dirId x) (T.region b dirId x) := by
  cases x with
  | entry c =>
    cases c with
    | insert key value => exact .bind (T.insertRegion_follows b ids cap dirId key value) fun _ => follows_same _
    | remove key value => exact .bind (T.removeRegion_follows b ids cap dirId key value) fun _ => follows_same _
    | getValue key result => exact .bind (T.getValue_follows b ids cap dirId key result) fun _ => follows_same _
  | splitInsert key value =>
    exact .bind (T.splitInsertRegion_follows b ids cap dirId key value) fun _ => follows_same _
  | merge key value res => exact .bind (T.merge_follows b ids cap dirId key) fun _ => follows_same _

/-! ## What a region can do -/

/-- **What a region `x` that leads to phase `y` does to pages `P` laid out as `A`.** -/
inductive RegionStep (ids : ℕ → PageId) (dirId : PageId) (P : Pages K V) (A : Partition PageId)
    (x : Region K V) (y : Phase K V) : Pages K V → Partition PageId → Prop where
  | keep {P' : Pages K V} (hwork : y.work < x.work) (hnext : P'.next = P.next) (hdel : P'.deleted = P.deleted)
      (hmem : ∀ p, (∀ n, A.page n ≠ p) → P'.mem p = P.mem p) : RegionStep ids dirId P A x y P' A
  | split {P' : Pages K V} {i : ℕ} (hwork : y.work ≤ x.work + 1) (hq : ∀ n, A.page n ≠ ids P.next)
      (hnext : P'.next = P.next + 1) (hdel : P'.deleted = P.deleted)
      (hmem : ∀ p, p ≠ dirId → p ≠ A.page i → p ≠ ids P.next → P'.mem p = P.mem p) :
      RegionStep ids dirId P A x y P' (A.split i (ids P.next) hq)
  | merge {P' : Pages K V} {i s e : ℕ} (hwork : y.work + 3 ≤ x.work) (hi : A.depth i = e + 1)
      (hs : A.depth s = e + 1) (hsib : s ≡ i + 2 ^ e [MOD 2 ^ (e + 1)]) (hnext : P'.next = P.next)
      (hdel : P'.deleted = A.page i :: P.deleted) (hmem : ∀ p, p ≠ dirId → P'.mem p = P.mem p) :
      RegionStep ids dirId P A x y P' (A.merge i s e hi hs hsib)

/-- A region that changes nothing. -/
theorem RegionStep.same {x : Region K V} {y : Phase K V} (hwork : y.work < x.work) :
    RegionStep ids dirId P A x y P A :=
  .keep hwork rfl rfl fun _ _ => rfl

/-- A region that rewrites one bucket. -/
theorem RegionStep.rewrite {x : Region K V} {y : Phase K V} (hwork : y.work < x.work) (n : ℕ) (z : PageData K V) :
    RegionStep ids dirId P A x y (P.write (A.page n) z) A := by
  refine .keep hwork rfl rfl fun p hp => ?_
  rw [Pages.write_mem, Function.update_of_ne (hp n).symm]

/-- **The frame rule**: what is neither the table's nor the next page keeps its contents. -/
theorem RegionStep.frame {x : Region K V} {y : Phase K V} (h : RegionStep ids dirId P A x y P' A') {p : PageId}
    (hdir : p ≠ dirId) (hown : ∀ n, A.page n ≠ p) (hnew : p ≠ ids P.next) : P'.mem p = P.mem p := by
  cases h with
  | keep _ _ _ hmem => exact hmem p hown
  | split _ _ _ _ hmem => exact hmem p hdir (hown _).symm hnew
  | merge _ _ _ _ _ _ hmem => exact hmem p hdir

theorem RegionStep.next_le {x : Region K V} {y : Phase K V} (h : RegionStep ids dirId P A x y P' A') :
    P.next ≤ P'.next := by
  cases h <;> omega

/-- Only pages of the table are deleted. -/
theorem RegionStep.deleted {x : Region K V} {y : Phase K V} (h : RegionStep ids dirId P A x y P' A') {p : PageId}
    (hp : p ∈ P'.deleted) : p ∈ P.deleted ∨ ∃ n, A.page n = p := by
  cases h with
  | keep _ _ hdel _ => exact .inl (hdel ▸ hp)
  | split _ _ _ hdel _ => exact .inl (hdel ▸ hp)
  | merge _ _ _ _ _ hdel _ =>
    rw [hdel, List.mem_cons] at hp
    exact hp.symm.imp_right fun he => ⟨_, he.symm⟩

/-- A page that the table has afterwards it had before, or it is the next page. -/
theorem RegionStep.page {x : Region K V} {y : Phase K V} (h : RegionStep ids dirId P A x y P' A') (n : ℕ) :
    (∃ m, A'.page n = A.page m) ∨ A'.page n = ids P.next ∧ P'.next = P.next + 1 := by
  cases h with
  | keep => exact .inl ⟨n, rfl⟩
  | split _ hq hnext =>
    rcases split_page hq n with ⟨hp, -⟩ | hp
    · exact .inr ⟨hp, hnext⟩
    · exact .inl ⟨n, hp⟩
  | merge _ hi hs hsib =>
    obtain ⟨m, hm, -⟩ := Layout.join_page hi hs hsib n
    exact .inl ⟨m, hm⟩

/-! ## Every region does one of these -/

section

variable (hcap : 3 ≤ cap) (hids : Function.Injective ids)
include hcap

theorem Layout.insertRegion_step (h : T.Layout ids P dirId A) (key : K) (value : V) : ∃ y P',
    Disciplined ids cap (T.region .debug dirId (.entry (.insert key value))) P y P' ∧ T.Layout ids P' dirId A ∧
      RegionStep ids dirId P A (.entry (.insert key value)) y P' A := by
  cases hfull : (T.bucketAt P (A.page (T.hash key))).isFull T.bucketArraySize with
  | false =>
    refine ⟨_, _, (h.insertRegion_room hcap key value hfull).bind (.pure _ _), h.rewrite _ _, .rewrite ?_ _ _⟩
    show 0 < 2
    omega
  | true =>
    refine ⟨_, P, (h.insertRegion_full hcap key value hfull).bind (.pure _ P), h, .same ?_⟩
    show 1 < 2
    omega

include hids in
theorem Layout.splitInsertRegion_step (h : T.Layout ids P dirId A) (key : K) (value : V) : ∃ y P' A',
    Disciplined ids cap (T.region .debug dirId (.splitInsert key value)) P y P' ∧ T.Layout ids P' dirId A' ∧
      RegionStep ids dirId P A (.splitInsert key value) y P' A' := by
  cases hfull : (T.bucketAt P (A.page (T.hash key))).isFull T.bucketArraySize with
  | false =>
    refine ⟨_, _, A, (h.splitInsertRegion_room hcap key value hfull).bind (.pure _ _), h.rewrite _ _,
      .rewrite ?_ _ _⟩
    show 0 < 1
    omega
  | true =>
    rcases Nat.lt_or_eq_of_le (h.depth_le (T.hash key)) with hlt | hnine
    · obtain ⟨-, -, hipage, -⟩ := h.index_spec key rfl
      obtain ⟨P', hq, hrun, hlayout, hnext, hdel, hmem, -⟩ :=
        h.splitInsertRegionNoting_split hcap hids key value rfl hfull hlt
      have hregion : Disciplined ids cap (T.splitInsertRegion .debug dirId key value) P none P' := by
        rw [splitInsertRegion_noting]
        exact hrun.bind (.pure _ P')
      rw [← hipage] at hmem
      refine ⟨_, P', _, hregion.bind (.pure _ P'), hlayout, .split ?_ hq hnext hdel hmem⟩
      show 2 ≤ 1 + 1
      omega
    · refine ⟨_, P, A, (h.splitInsertRegion_stuck hcap key value hfull hnine).bind (.pure _ P), h, .same ?_⟩
      show 0 < 1
      omega

theorem Layout.merge_step (h : T.Layout ids P dirId A) (key : K) (value : V) (res : Bool) : ∃ y P' A',
    Disciplined ids cap (T.region .debug dirId (.merge key value res)) P y P' ∧ T.Layout ids P' dirId A' ∧
      RegionStep ids dirId P A (.merge key value res) y P' A' := by
  rcases h.merge_run hcap key with hmerge | ⟨i, s, e, hi, hs, hsib, d, hmerge, hlayout, -⟩
  · refine ⟨_, P, A, hmerge.bind (.pure _ P), h, .same ?_⟩
    show 0 < 3
    omega
  · refine ⟨_, _, _, hmerge.bind (.pure _ _), hlayout, .merge ?_ hi hs hsib rfl rfl fun p hp => ?_⟩
    · show 0 + 3 ≤ 3
      omega
    · rw [Pages.write_mem, Function.update_of_ne hp, Pages.delete_mem]

include hids

/-- **Every region takes a step**, whatever the buckets hold. -/
theorem Layout.region_step (h : T.Layout ids P dirId A) (x : Region K V) : ∃ y P' A',
    Disciplined ids cap (T.region .debug dirId x) P y P' ∧ T.Layout ids P' dirId A' ∧
      RegionStep ids dirId P A x y P' A' := by
  cases x with
  | entry c =>
    cases c with
    | insert key value =>
      obtain ⟨y, P', hrun, hlayout, hstep⟩ := h.insertRegion_step hcap key value
      exact ⟨y, P', A, hrun, hlayout, hstep⟩
    | remove key value =>
      refine ⟨_, _, A, (h.removeRegion_run hcap key value).bind (.pure _ _), h.rewrite _ _, .rewrite ?_ _ _⟩
      show 3 < 4
      omega
    | getValue key result =>
      refine ⟨_, P, A, (h.getValue_run hcap key result).bind (.pure _ P), h, .same ?_⟩
      show 0 < 1
      omega
  | splitInsert key value => exact h.splitInsertRegion_step hcap hids key value
  | merge key value res => exact h.merge_step hcap key value res

end

/-! ## One run, one partition -/

/-- A program leaves one result and the same pages however often it is run. -/
theorem Disciplined.unique {α : Type} {p : TableProg K V α} {P₁ P₂ : Pages K V} {r₁ r₂ : α}
    (h₁ : Disciplined ids cap p P r₁ P₁) (h₂ : Disciplined ids cap p P r₂ P₂) : r₁ = r₂ ∧ P₁ = P₂ := by
  obtain ⟨ptr₁, t₁, hrun₁⟩ := h₁ (fun _ => none) 0
  obtain ⟨ptr₂, t₂, hrun₂⟩ := h₂ (fun _ => none) 0
  rw [hrun₁] at hrun₂
  cases hrun₂
  exact ⟨rfl, rfl⟩

/-- A directory shows one partition. -/
theorem Layout.unique (h : T.Layout ids P dirId A) (h' : T.Layout ids P dirId A') : A = A' :=
  Partition.ext_page (fun n => (h.shows_dir.page_mod n).symm.trans (h'.shows_dir.page_mod n))
    fun n => (h.shows_dir.depth_mod n).symm.trans (h'.shows_dir.depth_mod n)

end HashTableType

end BusTub
