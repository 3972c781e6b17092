/-
  What the table's callers can do together, counted.

  1. **`Layout.counts`**: the bucket pages of a table are counted by the entries of its directory.  A split adds
     one, a merge takes one away, and there are never more than 512.

  2. **Every page is accounted for** (`pages_accounted`).  In whatever order the callers run their regions, a page
     that the table created is its directory, a bucket that the directory names, or was deleted, and only one
     of these: none is forgotten and none is deleted twice.

  3. **Nobody can be kept busy for ever** (`regions_bounded`).  A caller of `Insert` goes back after each split,
     so other callers could make it go round again and again.  But splits use up bucket pages that only merges
     give back, and a merge ends a call: `c` calls run at most `4 c + 1022` regions in whatever order.
-/
import BusTub.Table.Footprint
import BusTub.Lib.Potential

set_option linter.unusedSectionVars false

namespace BusTub

open Command HashPartition StepSystem

/-- The pages that the entries below the size name. -/
def HashTableDirectoryPage.named (d : HashTableDirectoryPage) : Finset PageId :=
  (Finset.range d.size).image d.bucketPageIds

theorem HashTableDirectoryPage.Shows.named_eq {d : HashTableDirectoryPage} {A : Partition PageId} (h : d.Shows A) :
    d.named = A.cells d.globalDepth := by
  unfold named Partition.cells
  rw [size_eq]
  exact Finset.image_congr fun i hi => h.page i (Finset.mem_range.mp hi)

namespace HashTableType

variable {K V : Type} [Inhabited K] [Inhabited V] [DecidableEq K] [DecidableEq V]
variable {T : HashTableType K V} {ids : ℕ → PageId} {cap : ℕ} {b : Build} {dirId : PageId} {P P' : Pages K V}
  {A A' : Partition PageId} {S : Finset (K × V)}

/-! ## The bucket pages -/

/-- How many bucket pages the table has. -/
def buckets (T : HashTableType K V) (P : Pages K V) (dirId : PageId) : ℕ := (T.directoryAt P dirId).named.card

section

variable (h : T.Layout ids P dirId A)
include h

theorem Layout.buckets_eq : T.buckets P dirId = (A.cells (T.directoryAt P dirId).globalDepth).card :=
  congrArg Finset.card h.shows_dir.named_eq

theorem Layout.mem_named {p : PageId} : p ∈ (T.directoryAt P dirId).named ↔ ∃ n, A.page n = p := by
  rw [h.shows_dir.named_eq, Partition.mem_cells h.shows_dir.depth_le]

theorem Layout.buckets_le : T.buckets P dirId ≤ 2 ^ (T.directoryAt P dirId).globalDepth := by
  rw [h.buckets_eq]
  exact Partition.card_cells_le

/-- The directory is no larger than its deepest bucket needs. -/
theorem Layout.lt_buckets : (T.directoryAt P dirId).globalDepth < T.buckets P dirId := by
  rw [h.buckets_eq]
  rcases h.tight with hzero | ⟨x, hx⟩
  · rw [hzero]
    exact Partition.cells_pos
  · exact Partition.lt_card_cells h.shows_dir.depth_le hx

theorem Layout.buckets_le_512 : T.buckets P dirId ≤ 512 :=
  h.buckets_le.trans (Nat.pow_le_pow_right (by omega) h.global_le)

end

theorem buckets_covers {Q : Pages K V} (h : P.Covers Q) : T.buckets Q dirId = T.buckets P dirId := by
  unfold buckets
  rw [directoryAt_covers h]

/-- **What a region does to the count.** -/
inductive Counted (n n' : ℕ) (x : Region K V) (y : Phase K V) : Prop where
  | same (hn : n' = n) (hwork : y.work < x.work)
  | more (hn : n' = n + 1) (hwork : y.work ≤ x.work + 1)
  | fewer (hn : n' + 1 = n) (hwork : y.work + 3 ≤ x.work)

theorem Layout.counts (h : T.Layout ids P dirId A) (h' : T.Layout ids P' dirId A') {x : Region K V}
    {y : Phase K V} (hstep : RegionStep ids dirId P A x y P' A') :
    Counted (T.buckets P dirId) (T.buckets P' dirId) x y := by
  rw [h.buckets_eq, h'.buckets_eq]
  cases hstep with
  | keep hwork => exact .same (congrArg Finset.card (Partition.cells_congr h'.shows_dir.depth_le h.shows_dir.depth_le
      fun _ => Iff.rfl)) hwork
  | split hwork hq => exact .more (Partition.card_cells_split hq h.shows_dir.depth_le h'.shows_dir.depth_le) hwork
  | merge hwork hi hs hsib =>
    exact .fewer (Partition.card_cells_merge hi hs hsib h.shows_dir.depth_le h'.shows_dir.depth_le) hwork

/-! ## No page is forgotten -/

/-- **The account of a table** whose directory was the page after `start` others, of which `old` were deleted:
    since then the pages `gone` were deleted. -/
structure PageAccount (T : HashTableType K V) (ids : ℕ → PageId) (start : ℕ) (old : List PageId) (P : Pages K V)
    (dirId : PageId) (gone : List PageId) : Prop where
  deleted : P.deleted = gone ++ old
  nodup : gone.Nodup
  created : ∀ p, (∃ j, start ≤ j ∧ j < P.next ∧ ids j = p) ↔
    p = dirId ∨ p ∈ (T.directoryAt P dirId).named ∨ p ∈ gone
  dir_apart : dirId ∉ (T.directoryAt P dirId).named ∧ dirId ∉ gone
  gone_apart : ∀ p ∈ gone, p ∉ (T.directoryAt P dirId).named
  count : P.next = start + 1 + T.buckets P dirId + gone.length
  depth : (T.directoryAt P dirId).globalDepth < T.buckets P dirId ∧
    T.buckets P dirId ≤ 2 ^ (T.directoryAt P dirId).globalDepth

variable {start : ℕ} {old gone : List PageId}

/-- What a layout says by itself. -/
theorem Layout.account (h : T.Layout ids P dirId A) (hdel : P.deleted = gone ++ old) (hnodup : gone.Nodup)
    (hcreated : ∀ p, (∃ j, start ≤ j ∧ j < P.next ∧ ids j = p) ↔
      p = dirId ∨ (∃ n, A.page n = p) ∨ p ∈ gone)
    (hcount : P.next = start + 1 + T.buckets P dirId + gone.length) :
    T.PageAccount ids start old P dirId gone := by
  have hgone : ∀ p ∈ gone, p ∈ P.deleted := fun p hp => hdel ▸ List.mem_append_left old hp
  refine ⟨hdel, hnodup, fun p => ?_, ⟨fun hmem => ?_, fun hmem => h.dir_alive (hgone _ hmem)⟩, fun p hp hmem => ?_,
    hcount, h.lt_buckets, h.buckets_le⟩
  · rw [hcreated, h.mem_named]
  · obtain ⟨n, hn⟩ := h.mem_named.mp hmem
    exact h.ne_dir n hn
  · obtain ⟨n, rfl⟩ := h.mem_named.mp hmem
    exact h.alive n (hgone _ hp)

theorem PageAccount.step (h : T.Layout ids P dirId A) (h' : T.Layout ids P' dirId A')
    (hacc : T.PageAccount ids start old P dirId gone) {x : Region K V} {y : Phase K V}
    (hstep : RegionStep ids dirId P A x y P' A') : ∃ gone', T.PageAccount ids start old P' dirId gone' := by
  -- every page created is the directory, a bucket in use, or gone
  have hcreated : ∀ p, (∃ j, start ≤ j ∧ j < P.next ∧ ids j = p) ↔ p = dirId ∨ (∃ n, A.page n = p) ∨ p ∈ gone :=
    fun p => by rw [hacc.created, h.mem_named]
  have hcount := hacc.count
  rw [h.buckets_eq] at hcount
  cases hstep with
  | keep _ hnext hdel _ =>
    refine ⟨gone, h'.account (hdel.trans hacc.deleted) hacc.nodup (hnext ▸ hcreated) ?_⟩
    rw [hnext, hcount, h'.buckets_eq, Partition.cells_congr h.shows_dir.depth_le h'.shows_dir.depth_le
      fun _ => Iff.rfl]
  | @split i _ hq hnext hdel _ =>
    refine ⟨gone, h'.account (hdel.trans hacc.deleted) hacc.nodup (fun p => ?_) ?_⟩
    · rw [← Partition.mem_cells h'.shows_dir.depth_le, Partition.cells_split hq h.shows_dir.depth_le
        h'.shows_dir.depth_le, Finset.mem_insert, Partition.mem_cells h.shows_dir.depth_le, hnext]
      constructor
      · -- the page of the last id is the new half
        rintro ⟨j, hj, hlt, rfl⟩
        rcases Nat.lt_succ_iff_lt_or_eq.mp hlt with hlt | rfl
        · rcases (hcreated _).mp ⟨j, hj, hlt, rfl⟩ with hp | hp | hp
          · exact .inl hp
          · exact .inr (.inl (.inr hp))
          · exact .inr (.inr hp)
        · exact .inr (.inl (.inl rfl))
      · have hback : p = dirId ∨ (∃ n, A.page n = p) ∨ p ∈ gone → ∃ j, start ≤ j ∧ j < P.next + 1 ∧ ids j = p := by
          intro hp
          obtain ⟨j, hj, hlt, he⟩ := (hcreated p).mpr hp
          exact ⟨j, hj, by omega, he⟩
        rintro (hp | (rfl | hp) | hp)
        · exact hback (.inl hp)
        · exact ⟨P.next, by omega, by omega, rfl⟩
        · exact hback (.inr (.inl hp))
        · exact hback (.inr (.inr hp))
    · rw [hnext, h'.buckets_eq, Partition.card_cells_split hq h.shows_dir.depth_le h'.shows_dir.depth_le]
      omega
  | @merge i s e _ hi hs hsib hnext hdel _ =>
    -- one bucket less, and one page more that is gone: the sum stays
    have hcells := Partition.cells_merge hi hs hsib h.shows_dir.depth_le h'.shows_dir.depth_le
    have hfresh : A.page i ∉ gone := fun hmem => h.alive i (hacc.deleted ▸ List.mem_append_left old hmem)
    refine ⟨A.page i :: gone, h'.account ?_ (List.nodup_cons.mpr ⟨hfresh, hacc.nodup⟩) (fun p => ?_) ?_⟩
    · rw [hdel, hacc.deleted, List.cons_append]
    · rw [hnext, hcreated, ← Partition.mem_cells h'.shows_dir.depth_le, hcells, Finset.mem_erase,
        Partition.mem_cells h.shows_dir.depth_le, List.mem_cons]
      by_cases hp : p = A.page i
      · simp [hp]
      · simp [hp]
    · have hfewer := Partition.card_cells_merge hi hs hsib h.shows_dir.depth_le h'.shows_dir.depth_le
      rw [hnext, h'.buckets_eq, List.length_cons]
      omega

/-- The account of a new table. -/
theorem firstPages_account (hids : Function.Injective ids) (P : Pages K V) (hdel : ∀ p ∈ P.deleted, P.Created ids p) :
    T.PageAccount ids P.next P.deleted (firstPages ids P) (ids P.next) [] := by
  have hlayout : T.Layout ids (firstPages ids P) (ids P.next) (.whole (ids (P.next + 1))) :=
    firstPages_layout hids P hdel
  have hnext : (firstPages ids P).next = P.next + 2 := rfl
  refine hlayout.account rfl List.nodup_nil (fun p => ?_) ?_
  · rw [hnext]
    constructor
    · rintro ⟨j, hj, hlt, rfl⟩
      obtain rfl | rfl : j = P.next ∨ j = P.next + 1 := by omega
      · exact .inl rfl
      · exact .inr (.inl ⟨0, rfl⟩)
    · rintro (rfl | ⟨n, rfl⟩ | hp)
      · exact ⟨P.next, by omega, by omega, rfl⟩
      · exact ⟨P.next + 1, by omega, by omega, rfl⟩
      · cases hp
  · rw [hlayout.buckets_eq, Partition.cells_whole, hnext]
    rfl

theorem splitAndMerge_run : ∃ P₁ s,
    callIdeal countingIds (smallTable.construct .debug 0) noPages = .ok ((0, true), P₁) ∧
    (concurrent Bool smallTable countingIds .debug 0 P₁).Run ⟨P₁, fun _ => .idle⟩ splitAndMerge s ∧
    P₁.next = 2 ∧ s.pages.next = 3 ∧ s.pages.deleted = [2] := by
  have hsee : ((callIdeal countingIds (smallTable.construct .debug 0) noPages).toOption.bind fun x =>
      (splitAndMerge.foldlM (smallTable.advance countingIds .debug 0) ⟨x.2, fun _ => .idle⟩).map fun s =>
        (x.1, x.2.next, s.pages.next, s.pages.deleted)) = some ((0, true), 2, 3, [2]) := by decide +kernel
  obtain ⟨⟨r, P₁⟩, hopen, hevents⟩ := Option.bind_eq_some_iff.mp hsee
  obtain ⟨s, hevents, hseen⟩ := Option.map_eq_some_iff.mp hevents
  simp only [Prod.mk.injEq] at hseen
  obtain ⟨rfl, hfirst, hlast, hdeleted⟩ := hseen
  exact ⟨P₁, s, eq_ok_of_toOption hopen, .of_foldlM advance_step hevents, hfirst, hlast, hdeleted⟩

variable {ι : Type} [DecidableEq ι]

/-- **Every page is accounted for**, in every state that the callers `ι` of a table reach, whatever the
    comparator says. -/
theorem pages_accounted (hids : Function.Injective ids) {P₁ : Pages K V} {dir₀ : PageId}
    (hdel : ∀ p ∈ P.deleted, P.Created ids p)
    (hopen : callIdeal ids (T.construct .debug dir₀) P = .ok ((dirId, true), P₁))
    {es : List (SharedEvent ι K V)} {s : Shared ι K V}
    (hrun : (concurrent ι T ids .debug dirId P₁).Run ⟨P₁, fun _ => .idle⟩ es s) :
    ∃ gone, T.PageAccount ids P.next P.deleted s.pages dirId gone := by
  have hfirst := Disciplined.callIdeal_same (construct_run (T := T) hids (Nat.le_succ 2) P dir₀)
  rw [hopen] at hfirst
  cases hfirst
  refine (hrun.invariant (I := fun s => ∃ A gone, T.Layout ids s.pages (ids P.next) A ∧
    T.PageAccount ids P.next P.deleted s.pages (ids P.next) gone) (fun s e t hs hstep => ?_)
    ⟨_, [], firstPages_layout hids P hdel, firstPages_account hids P hdel⟩).elim fun A h => h.imp fun _ h => h.2
  obtain ⟨A, gone, hlayout, hacc⟩ := hs
  cases e with
  | call i c =>
    obtain ⟨-, rfl⟩ := hstep
    exact ⟨A, gone, hlayout, hacc⟩
  | ret i c r =>
    obtain ⟨-, rfl⟩ := hstep
    exact ⟨A, gone, hlayout, hacc⟩
  | region i =>
    obtain ⟨x, y, P', -, hregion, rfl⟩ := hstep
    obtain ⟨y', Q, A', hdisc, hlayout', hone⟩ := hlayout.region_step (Nat.le_refl 3) hids x
    rw [runRegion_eq, Disciplined.callIdeal_same hdisc] at hregion
    cases hregion
    obtain ⟨gone', hacc'⟩ := hacc.step hlayout hlayout' hone
    exact ⟨A', gone', hlayout', hacc'⟩

/-- Page 2 is created by the split and deleted by the merge. -/
theorem pages_accounted_small : ∃ P₁ s,
    (concurrent Bool smallTable countingIds .debug 0 P₁).Run ⟨P₁, fun _ => .idle⟩ splitAndMerge s ∧
    s.pages.next = 3 ∧ s.pages.deleted = [2] ∧
    ∃ gone, smallTable.PageAccount countingIds 0 [] s.pages 0 gone := by
  obtain ⟨P₁, s, hopen, hrun, -, hnext, hdeleted⟩ := splitAndMerge_run
  exact ⟨P₁, s, hrun, hnext, hdeleted, pages_accounted countingIds_injective (fun p hp => (by cases hp)) hopen hrun⟩

/-! ## Nobody is kept busy for ever -/

/-- What the callers have left to do, if the `512 - buckets` bucket pages that there may still be are used. -/
def workLeft [Fintype ι] (T : HashTableType K V) (dirId : PageId) (s : Shared ι K V) : ℕ :=
  (∑ i, (s.phase i).work) + 2 * (512 - T.buckets s.pages dirId)

/-- A region that was run. -/
def SharedEvent.regions : SharedEvent ι K V → ℕ
  | .region _ => 1
  | _ => 0

/-- A call that was made. -/
def SharedEvent.calls : SharedEvent ι K V → ℕ
  | .call _ _ => 1
  | _ => 0

/-- The regions that a call comes to, if nobody splits. -/
def SharedEvent.due : SharedEvent ι K V → ℕ
  | .call _ c => (Region.entry c).work
  | _ => 0

theorem entry_work_le (c : TableCall K V) : (Region.entry c).work ≤ 4 := by
  cases c <;> simp [Region.work]

section

variable [Fintype ι] (hids : Function.Injective ids) (b : Build)
include hids

/-- **A region takes work away**, a split too: the page that it uses up counts for two. -/
theorem workLeft_region {s : Shared ι K V} (h : T.Layout ids s.pages dirId A) {i : ι} {x : Region K V}
    (hx : s.phase i = .before x) {y : Phase K V} {Q : Pages K V}
    (hregion : T.runRegion ids b dirId x s.pages = .ok (y, Q)) :
    (∃ A', T.Layout ids Q dirId A') ∧
      1 + T.workLeft dirId ⟨Q, Function.update s.phase i y⟩ ≤ T.workLeft dirId s := by
  obtain ⟨y', P', A', hdisc, hlayout', hone⟩ := h.region_step (Nat.le_refl 3) hids x
  obtain ⟨Q', hcall, hcov⟩ := Disciplined.callIdeal hdisc (region_follows b x)
  rw [runRegion_eq, hcall] at hregion
  cases hregion
  refine ⟨⟨A', hlayout'.covers hcov⟩, ?_⟩
  have hsum := sum_update Phase.work s.phase i y
  have hle := h.buckets_le_512
  have hle' := hlayout'.buckets_le_512
  rw [hx] at hsum
  simp only [workLeft, buckets_covers hcov]
  replace hsum : (∑ j, (Function.update s.phase i y j).work) + x.work = (∑ j, (s.phase j).work) + y.work := hsum
  rcases h.counts hlayout' hone with ⟨hn, hwork⟩ | ⟨hn, hwork⟩ | ⟨hn, hwork⟩ <;> omega

/-- What one step costs and brings in. -/
theorem workLeft_step (P₁ : Pages K V) (s : Shared ι K V) (e : SharedEvent ι K V) (t : Shared ι K V)
    (hs : ∃ A, T.Layout ids s.pages dirId A) (hstep : (concurrent ι T ids b dirId P₁).step s e t) :
    (∃ A, T.Layout ids t.pages dirId A) ∧
      SharedEvent.regions e + T.workLeft dirId t ≤ T.workLeft dirId s + SharedEvent.due e := by
  obtain ⟨A, h⟩ := hs
  cases e with
  | call i c =>
    obtain ⟨hidle, rfl⟩ := hstep
    have hsum := sum_update Phase.work s.phase i (.before (.entry c))
    rw [hidle] at hsum
    refine ⟨⟨A, h⟩, ?_⟩
    simp only [workLeft, SharedEvent.regions, SharedEvent.due]
    replace hsum : (∑ j, (Function.update s.phase i (.before (.entry c)) j).work) + 0 =
      (∑ j, (s.phase j).work) + (Region.entry c).work := hsum
    omega
  | region i =>
    obtain ⟨x, y, Q, hx, hregion, rfl⟩ := hstep
    obtain ⟨hlayout', hless⟩ := workLeft_region hids b h hx hregion
    exact ⟨hlayout', by simpa [SharedEvent.regions, SharedEvent.due] using hless⟩
  | ret i c r =>
    obtain ⟨hret, rfl⟩ := hstep
    have hsum := sum_update Phase.work s.phase i .idle
    rw [hret] at hsum
    refine ⟨⟨A, h⟩, ?_⟩
    simp only [workLeft, SharedEvent.regions, SharedEvent.due]
    replace hsum : (∑ j, (Function.update s.phase i .idle j).work) + 0 = (∑ j, (s.phase j).work) + 0 := hsum
    omega

/-- **The regions of a run are those that its calls come to**, and two for every bucket that there may be. -/
theorem regions_le_due {P₁ : Pages K V} (hlayout : T.Layout ids P₁ dirId A) {es : List (SharedEvent ι K V)}
    {s : Shared ι K V} (hrun : (concurrent ι T ids b dirId P₁).Run ⟨P₁, fun _ => .idle⟩ es s) :
    (∃ A', T.Layout ids s.pages dirId A') ∧
      total SharedEvent.regions es + (∑ i, (s.phase i).work) ≤ total SharedEvent.due es + 1022 := by
  obtain ⟨hlayout', hpaid⟩ := hrun.paid (T.workLeft dirId) SharedEvent.regions SharedEvent.due
    (workLeft_step hids b P₁) ⟨_, hlayout⟩
  have hpos := hlayout.lt_buckets
  have hstart : T.workLeft dirId (⟨P₁, fun _ : ι => .idle⟩ : Shared ι K V) =
      2 * (512 - T.buckets P₁ dirId) := by
    have hidle : (∑ _i : ι, (Phase.idle : Phase K V).work) = 0 := Finset.sum_eq_zero fun _ _ => rfl
    show (∑ _i : ι, (Phase.idle : Phase K V).work) + _ = _
    rw [hidle, Nat.zero_add]
  have hend : (∑ i, (s.phase i).work) ≤ T.workLeft dirId s := Nat.le_add_right _ _
  rw [hstart] at hpaid
  exact ⟨hlayout', by omega⟩

omit [DecidableEq ι] [Fintype ι] hids in
theorem due_le_calls (es : List (SharedEvent ι K V)) :
    total SharedEvent.due es ≤ 4 * total SharedEvent.calls es := by
  rw [← total_mul]
  refine total_le (fun e => ?_) es
  cases e with
  | call i c => exact entry_work_le c
  | _ => exact Nat.zero_le _

/-- **No caller is kept busy for ever.**  However the callers `ι` of a table are scheduled, the regions they have run
    are at most four for every call that was made, and 1022 besides; and no region fails, so a call that has not
    returned can always go on.  Without new calls every schedule comes to its end. -/
theorem regions_bounded {P₁ : Pages K V} {dir₀ : PageId} (hdel : ∀ p ∈ P.deleted, P.Created ids p)
    (hopen : callIdeal ids (T.construct b dir₀) P = .ok ((dirId, true), P₁))
    {es : List (SharedEvent ι K V)} {s : Shared ι K V}
    (hrun : (concurrent ι T ids b dirId P₁).Run ⟨P₁, fun _ => .idle⟩ es s) :
    total SharedEvent.regions es + (∑ i, (s.phase i).work) ≤ 4 * total SharedEvent.calls es + 1022 ∧
      ∀ i x, s.phase i = .before x → ∃ t, (concurrent ι T ids b dirId P₁).step s (.region i) t := by
  have hlayout := (construct_spec (T := T) hids b hdel hopen).toLayout
  obtain ⟨⟨A, hlayout'⟩, hle⟩ := regions_le_due hids b hlayout hrun
  have hcalls := due_le_calls es
  refine ⟨by omega, fun i x hx => ?_⟩
  obtain ⟨y, Q, -, hregion, -⟩ := hlayout'.runRegion_run hids b x
  exact ⟨_, x, y, Q, hx, hregion, rfl⟩

omit hids in
/-- Four calls, one of which splits and one of which merges, have run seven regions. -/
theorem regions_bounded_small : ∃ P₁ s,
    (concurrent Bool smallTable countingIds .debug 0 P₁).Run ⟨P₁, fun _ => .idle⟩ splitAndMerge s ∧
    total SharedEvent.regions splitAndMerge = 7 ∧ 7 + (∑ i, (s.phase i).work) ≤ 4 * 4 + 1022 := by
  obtain ⟨P₁, s, hopen, hrun, -⟩ := splitAndMerge_run
  obtain ⟨hle, -⟩ := regions_bounded countingIds_injective .debug (fun p hp => (by cases hp)) hopen hrun
  exact ⟨P₁, s, hrun, rfl, hle⟩

end

end HashTableType

end BusTub
