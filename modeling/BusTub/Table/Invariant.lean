/-
  The invariant of the table: which pages it consists of, and which pairs they hold.

  1. **`Layout P dirId A`**: over the pages `P`, the directory at `dirId` shows the partition `A`, and
     every cell of `A` has a live page of its own.  Nothing here depends on what the buckets hold.

  2. **`TableInv P dirId A S`**: besides, a pair lies in the bucket of the cell its hash belongs to, and
     the pairs are those of `S`.

  3. **Changing one bucket** (`rewrite`), **halving a cell** (`split`) and **joining two** (`join`) each
     lead from the one to the one and from the other to the other, the last two for the same pairs.
-/
import BusTub.Table.PageStore
import BusTub.Page.BucketSpec
import BusTub.Page.DirectorySpec

set_option linter.unusedSectionVars false

namespace BusTub

open HashPartition HashTableDirectoryPage HashTableBucketPage

/-! ## Splitting and joining cells, page by page -/

section cells

variable {A : Partition PageId} {i s e x : ℕ} {q : PageId} (hq : ∀ h, A.page h ≠ q)

/-- After a split a number has its old page, or the new one if its old page is the one split. -/
theorem split_page (x : ℕ) : ((A.split i q hq).page x = q ∧ A.page x = A.page i) ∨
    (A.split i q hq).page x = A.page x := by
  by_cases hup : x ≡ i + 2 ^ A.depth i [MOD 2 ^ (A.depth i + 1)]
  · exact .inl ⟨if_pos hup, (A.page_eq_iff' x i).mpr (sibling_modEq hup)⟩
  · exact .inr (if_neg hup)

theorem split_depth {x : ℕ} (hx : A.page x = A.page i) : (A.split i q hq).depth x = A.depth i + 1 :=
  if_pos ((A.page_eq_iff' x i).mp hx)

/-- Splitting a cell below the directory's depth leaves the directory tight. -/
theorem Tight.split {g : ℕ} (h : Tight g A) (hlt : A.depth i < g) : Tight g (A.split i q hq) := by
  rcases h with rfl | ⟨x, hx⟩
  · omega
  · refine .inr ⟨x, ?_⟩
    have hout : ¬ x ≡ i [MOD 2 ^ A.depth i] := by
      intro hin
      rw [← A.depth_congr hin.symm] at hx
      omega
    exact (if_neg hout).trans hx

variable (hi : A.depth i = e + 1) (hs : A.depth s = e + 1) (hsib : s ≡ i + 2 ^ e [MOD 2 ^ (e + 1)])

/-- After a merge a number has its old page, or the sibling's if its old page is the one merged. -/
theorem merge_page (x : ℕ) : ((A.merge i s e hi hs hsib).page x = A.page s ∧ A.page x = A.page i) ∨
    ((A.merge i s e hi hs hsib).page x = A.page x ∧ A.page x ≠ A.page i) := by
  by_cases hin : x ≡ i [MOD 2 ^ (e + 1)]
  · exact .inl ⟨if_pos hin, (A.page_eq_iff' x i).mpr (hi ▸ hin)⟩
  · exact .inr ⟨if_neg hin, fun he => hin (hi ▸ (A.page_eq_iff' x i).mp he)⟩

include hi hsib in
theorem sibling_page_ne : A.page s ≠ A.page i := by
  rw [Ne, A.page_eq_iff', hi]
  exact fun he => not_modEq_pow_both he hsib

end cells

/-! ## The invariant -/

namespace HashTableType

variable {K V : Type} [Inhabited K] [Inhabited V] [DecidableEq K] [DecidableEq V]
variable (T : HashTableType K V) (ids : ℕ → PageId)

/-- The pairs on page `p`. -/
def pairsAt (P : Pages K V) (p : PageId) : Finset (K × V) := (T.bucketAt P p).pairs T.bucketArraySize

/-- **The layout**: the directory at `dirId` shows the partition `A` and is no larger than needed, and
    the pages that it names are there. -/
structure Layout (P : Pages K V) (dirId : PageId) (A : Partition PageId) : Prop where
  dir_created : P.Created ids dirId
  dir_alive : dirId ∉ P.deleted
  self : (T.directoryAt P dirId).pageId = dirId
  shows_dir : (T.directoryAt P dirId).Shows A
  global_le : (T.directoryAt P dirId).globalDepth ≤ 9
  tight : Tight (T.directoryAt P dirId).globalDepth A
  created : ∀ h, P.Created ids (A.page h)
  alive : ∀ h, A.page h ∉ P.deleted
  ne_dir : ∀ h, A.page h ≠ dirId
  deleted_created : ∀ p ∈ P.deleted, P.Created ids p

/-- **The table's invariant**: the pages are laid out and hold the pairs `S`. -/
structure TableInv (P : Pages K V) (dirId : PageId) (A : Partition PageId) (S : Finset (K × V)) :
    Prop extends T.Layout ids P dirId A where
  bucket : ∀ h, BucketInv T.bucketArraySize (T.bucketAt P (A.page h))
  placed : ∀ h, ∀ e ∈ T.pairsAt P (A.page h), A.page (T.hash e.1) = A.page h
  mem_iff : ∀ e, e ∈ S ↔ e ∈ T.pairsAt P (A.page (T.hash e.1))

variable {T ids} {P P' : Pages K V} {dirId : PageId} {A : Partition PageId} {S S' : Finset (K × V)}

theorem keyToDirectoryIndex_eq (key : K) (d : HashTableDirectoryPage) :
    T.keyToDirectoryIndex key d = T.hash key % 2 ^ d.globalDepth := by
  unfold keyToDirectoryIndex
  rw [getGlobalDepthMask_eq, Nat.and_two_pow_sub_one_eq_mod]

/-- `KeyToPageId` reads the partition that the directory shows. -/
theorem keyToPageId_eq {d : HashTableDirectoryPage} (h : d.Shows A) (key : K) :
    T.keyToPageId key d = A.page (T.hash key) := by
  unfold keyToPageId getBucketPageId
  rw [keyToDirectoryIndex_eq, h.page_mod]

/-! ## The layout, page by page -/

namespace Layout

variable (h : T.Layout ids P dirId A)
include h

theorem page (key : K) : T.keyToPageId key (T.directoryAt P dirId) = A.page (T.hash key) :=
  keyToPageId_eq h.shows_dir key

theorem localDepth (key : K) : (T.directoryAt P dirId).getLocalDepth
    (T.keyToDirectoryIndex key (T.directoryAt P dirId)) = A.depth (T.hash key) := by
  rw [keyToDirectoryIndex_eq]
  exact h.shows_dir.depth_mod _

theorem depth_le (x : ℕ) : A.depth x ≤ 9 := (h.shows_dir.depth_le x).trans h.global_le

/-- A page that the store creates next is none of the table's. -/
theorem created_ne (hids : Function.Injective ids) {p : PageId} (hp : P.Created ids p) :
    p ≠ ids P.next := by
  obtain ⟨j, hj, rfl⟩ := hp
  exact fun he => absurd (hids he) (Nat.ne_of_lt hj)

theorem created_mono (hnext : P.next ≤ P'.next) {p : PageId} (hp : P.Created ids p) :
    P'.Created ids p := by
  obtain ⟨j, hj, rfl⟩ := hp
  exact ⟨j, by omega, rfl⟩

/-- Other pages may change, be created, and be forgotten as deleted. -/
theorem grow (hnext : P.next ≤ P'.next) (hdel : ∀ p ∈ P'.deleted, p ∈ P.deleted)
    (hmem : P'.mem dirId = P.mem dirId) : T.Layout ids P' dirId A := by
  have hdir : T.directoryAt P' dirId = T.directoryAt P dirId := congrArg T.asDirectory hmem
  have hcreated : ∀ {p}, P.Created ids p → P'.Created ids p := h.created_mono hnext
  exact ⟨hcreated h.dir_created, fun hd => h.dir_alive (hdel _ hd), hdir ▸ h.self, hdir ▸ h.shows_dir,
    hdir ▸ h.global_le, hdir ▸ h.tight, fun x => hcreated (h.created x), fun x hd => h.alive x (hdel _ hd), h.ne_dir,
    fun p hp => hcreated (h.deleted_created p (hdel p hp))⟩

/-- Forgetting deletions. -/
theorem covers {Q : Pages K V} (hQ : P.Covers Q) : T.Layout ids Q dirId A :=
  h.grow (Nat.le_of_eq hQ.next.symm) hQ.deleted (congrFun hQ.mem dirId)

/-- A bucket page is rewritten. -/
theorem rewrite (x : ℕ) (y : PageData K V) : T.Layout ids (P.write (A.page x) y) dirId A := by
  have hdir : T.directoryAt (P.write (A.page x) y) dirId = T.directoryAt P dirId :=
    directoryAt_write_of_ne (h.ne_dir x).symm
  exact ⟨h.dir_created, h.dir_alive, hdir ▸ h.self, hdir ▸ h.shows_dir, hdir ▸ h.global_le, hdir ▸ h.tight,
    h.created, h.alive, h.ne_dir, h.deleted_created⟩

/-- A cell is halved. -/
theorem split (hids : Function.Injective ids) {i : ℕ} (hq : ∀ x, A.page x ≠ ids P.next)
    (hnext : P'.next = P.next + 1) (hdel : P'.deleted = P.deleted)
    (hself : (T.directoryAt P' dirId).pageId = dirId)
    (hshows : (T.directoryAt P' dirId).Shows (A.split i (ids P.next) hq))
    (hglobal : (T.directoryAt P' dirId).globalDepth ≤ 9)
    (htight : Tight (T.directoryAt P' dirId).globalDepth (A.split i (ids P.next) hq)) :
    T.Layout ids P' dirId (A.split i (ids P.next) hq) := by
  have hcreated : ∀ {p}, P.Created ids p → P'.Created ids p := h.created_mono (by omega)
  refine ⟨hcreated h.dir_created, hdel ▸ h.dir_alive, hself, hshows, hglobal, htight, fun x => ?_,
    fun x => ?_, fun x => ?_, fun p hp => hcreated (h.deleted_created p (hdel ▸ hp))⟩
  · rcases split_page hq x with ⟨hp, -⟩ | hp
    · rw [hp]
      exact ⟨P.next, by omega, rfl⟩
    · rw [hp]
      exact hcreated (h.created x)
  · rw [hdel]
    rcases split_page hq x with ⟨hp, -⟩ | hp
    · rw [hp]
      exact fun hd => h.created_ne hids (h.deleted_created _ hd) rfl
    · rw [hp]
      exact h.alive x
  · rcases split_page hq x with ⟨hp, -⟩ | hp
    · rw [hp]
      exact (h.created_ne hids h.dir_created).symm
    · rw [hp]
      exact h.ne_dir x

omit h in
/-- Every page left by a join was there, and is not the one deleted. -/
theorem join_page {i s e : ℕ} (hi : A.depth i = e + 1) (hs : A.depth s = e + 1)
    (hsib : s ≡ i + 2 ^ e [MOD 2 ^ (e + 1)]) (x : ℕ) :
    ∃ y, (A.merge i s e hi hs hsib).page x = A.page y ∧ A.page y ≠ A.page i := by
  rcases merge_page hi hs hsib x with ⟨hp, -⟩ | ⟨hp, hne⟩
  · exact ⟨s, hp, sibling_page_ne hi hsib⟩
  · exact ⟨x, hp, hne⟩

/-- A cell is joined to its sibling, and its page deleted. -/
theorem join {i s e : ℕ} (hi : A.depth i = e + 1) (hs : A.depth s = e + 1)
    (hsib : s ≡ i + 2 ^ e [MOD 2 ^ (e + 1)]) {d : HashTableDirectoryPage} (hself : d.pageId = dirId)
    (hshows : d.Shows (A.merge i s e hi hs hsib)) (hglobal : d.globalDepth ≤ 9)
    (htight : Tight d.globalDepth (A.merge i s e hi hs hsib)) :
    T.Layout ids ((P.delete (A.page i)).write dirId (.directory d)) dirId (A.merge i s e hi hs hsib) := by
  have hdir : T.directoryAt ((P.delete (A.page i)).write dirId (.directory d)) dirId = d :=
    directoryAt_write_self
  refine ⟨h.dir_created, ?_, hdir.symm ▸ hself, hdir.symm ▸ hshows, hdir.symm ▸ hglobal, hdir.symm ▸ htight,
    fun x => ?_, fun x => ?_, fun x => ?_, fun p hp => ?_⟩
  · intro hd
    rcases List.mem_cons.mp hd with hd | hd
    · exact h.ne_dir i hd.symm
    · exact h.dir_alive hd
  · obtain ⟨y, hy, -⟩ := join_page hi hs hsib x
    rw [hy]
    exact h.created y
  · obtain ⟨y, hy, hne⟩ := join_page hi hs hsib x
    rw [hy]
    intro hd
    rcases List.mem_cons.mp hd with hd | hd
    · exact hne hd
    · exact h.alive y hd
  · obtain ⟨y, hy, -⟩ := join_page hi hs hsib x
    rw [hy]
    exact h.ne_dir y
  · rcases List.mem_cons.mp hp with rfl | hp
    · exact h.created i
    · exact h.deleted_created p hp

end Layout

/-! ## The pairs, page by page -/

namespace TableInv

variable (h : T.TableInv ids P dirId A S)
include h

/-- What a bucket of the table holds. -/
theorem mem_pairsAt (x : ℕ) (e : K × V) :
    e ∈ T.pairsAt P (A.page x) ↔ e ∈ S ∧ A.page (T.hash e.1) = A.page x := by
  rw [h.mem_iff]
  constructor
  · intro he
    have hp := h.placed x e he
    rw [hp]
    exact ⟨he, rfl⟩
  · rintro ⟨he, hp⟩
    exact hp ▸ he

/-- Other pages may change, be created, and be forgotten as deleted. -/
theorem grow (hnext : P.next ≤ P'.next) (hdel : ∀ p ∈ P'.deleted, p ∈ P.deleted)
    (hdir : P'.mem dirId = P.mem dirId) (hmem : ∀ x, P'.mem (A.page x) = P.mem (A.page x)) :
    T.TableInv ids P' dirId A S := by
  have hbucket : ∀ x, T.bucketAt P' (A.page x) = T.bucketAt P (A.page x) := fun x => congrArg T.asBucket (hmem x)
  have hpairs : ∀ x, T.pairsAt P' (A.page x) = T.pairsAt P (A.page x) := fun x => by unfold pairsAt; rw [hbucket]
  refine ⟨h.toLayout.grow hnext hdel hdir, fun x => ?_, fun x e he => ?_, fun e => ?_⟩
  · rw [hbucket]
    exact h.bucket x
  · rw [hpairs] at he
    exact h.placed x e he
  · rw [hpairs]
    exact h.mem_iff e

/-- Forgetting deletions. -/
theorem covers {Q : Pages K V} (hQ : P.Covers Q) : T.TableInv ids Q dirId A S :=
  h.grow (Nat.le_of_eq hQ.next.symm) hQ.deleted (congrFun hQ.mem dirId) fun x => congrFun hQ.mem (A.page x)

/-- **A bucket is rewritten.** -/
theorem rewrite (x : ℕ) {c : HashTableBucketPage K V} (hc : BucketInv T.bucketArraySize c)
    (hplaced : ∀ e ∈ c.pairs T.bucketArraySize, A.page (T.hash e.1) = A.page x)
    (hin : ∀ e, A.page (T.hash e.1) = A.page x → (e ∈ S' ↔ e ∈ c.pairs T.bucketArraySize))
    (hout : ∀ e, A.page (T.hash e.1) ≠ A.page x → (e ∈ S' ↔ e ∈ S)) :
    T.TableInv ids (P.write (A.page x) (.bucket c)) dirId A S' := by
  have hpairs : ∀ p, T.pairsAt (P.write (A.page x) (.bucket c)) p =
      if p = A.page x then c.pairs T.bucketArraySize else T.pairsAt P p := by
    intro p
    unfold pairsAt
    split
    · next he => rw [he, bucketAt_write_self]
    · next hne => rw [bucketAt_write_of_ne hne]
  refine ⟨h.toLayout.rewrite x _, fun y => ?_, fun y e he => ?_, fun e => ?_⟩
  · by_cases hy : A.page y = A.page x
    · rw [hy, bucketAt_write_self]
      exact hc
    · rw [bucketAt_write_of_ne hy]
      exact h.bucket y
  · rw [hpairs] at he
    split at he
    · next hy => rw [hy]; exact hplaced e he
    · exact h.placed y e he
  · rw [hpairs]
    split
    · next he => exact hin e he
    · next hne => exact (hout e hne).trans (h.mem_iff e)

/-- **A cell is halved**: the pairs of its page that now belong to the new page have moved there. -/
theorem split {i : ℕ} (hq : ∀ x, A.page x ≠ ids P.next)
    (hlayout : T.Layout ids P' dirId (A.split i (ids P.next) hq))
    (hmem : ∀ p, p ≠ dirId → p ≠ A.page i → p ≠ ids P.next → T.bucketAt P' p = T.bucketAt P p)
    (hold : BucketInv T.bucketArraySize (T.bucketAt P' (A.page i)))
    (hnew : BucketInv T.bucketArraySize (T.bucketAt P' (ids P.next)))
    (hstay : ∀ e, e ∈ T.pairsAt P' (A.page i) ↔
      e ∈ T.pairsAt P (A.page i) ∧ (A.split i (ids P.next) hq).page (T.hash e.1) = A.page i)
    (hgo : ∀ e, e ∈ T.pairsAt P' (ids P.next) ↔
      e ∈ T.pairsAt P (A.page i) ∧ (A.split i (ids P.next) hq).page (T.hash e.1) ≠ A.page i) :
    T.TableInv ids P' dirId (A.split i (ids P.next) hq) S := by
  have hpairs : ∀ x, A.page x ≠ A.page i → T.pairsAt P' (A.page x) = T.pairsAt P (A.page x) := by
    intro x hx
    unfold pairsAt
    rw [hmem _ (h.ne_dir x) hx (hq x)]
  refine ⟨hlayout, fun x => ?_, fun x e he => ?_, fun e => ?_⟩
  · rcases split_page hq x with ⟨hp, -⟩ | hp
    · rw [hp]
      exact hnew
    · rw [hp]
      by_cases hx : A.page x = A.page i
      · rw [hx]
        exact hold
      · rw [hmem _ (h.ne_dir x) hx (hq x)]
        exact h.bucket x
  · rcases split_page hq x with ⟨hp, -⟩ | hp
    · rw [hp] at he ⊢
      obtain ⟨hmem', hne⟩ := (hgo e).mp he
      rcases split_page hq (T.hash e.1) with ⟨hp', -⟩ | hp'
      · exact hp'
      · exact absurd (hp'.trans (h.placed i e hmem')) hne
    · rw [hp] at he ⊢
      by_cases hx : A.page x = A.page i
      · rw [hx] at he ⊢
        exact ((hstay e).mp he).2
      · rw [hpairs x hx] at he
        have hpe := h.placed x e he
        rcases split_page hq (T.hash e.1) with ⟨-, hi'⟩ | hp'
        · exact absurd (hpe.symm.trans hi') hx
        · exact hp'.trans hpe
  · rw [h.mem_iff]
    rcases split_page hq (T.hash e.1) with ⟨hp, hi'⟩ | hp
    · rw [hp, hgo, hi', hp]
      exact ⟨fun he => ⟨he, (hq i).symm⟩, fun he => he.1⟩
    · rw [hp]
      by_cases hx : A.page (T.hash e.1) = A.page i
      · rw [hx, hstay, hp]
        exact ⟨fun he => ⟨he, hx⟩, fun he => he.1⟩
      · rw [hpairs _ hx]

/-- **A cell whose page is empty is joined to its sibling**, and the page deleted. -/
theorem join {i s e : ℕ} (hi : A.depth i = e + 1) (hs : A.depth s = e + 1)
    (hsib : s ≡ i + 2 ^ e [MOD 2 ^ (e + 1)]) (hempty : T.pairsAt P (A.page i) = ∅)
    {d : HashTableDirectoryPage}
    (hlayout : T.Layout ids ((P.delete (A.page i)).write dirId (.directory d)) dirId
      (A.merge i s e hi hs hsib)) :
    T.TableInv ids ((P.delete (A.page i)).write dirId (.directory d)) dirId (A.merge i s e hi hs hsib) S := by
  have hbucket : ∀ y, T.bucketAt ((P.delete (A.page i)).write dirId (.directory d)) (A.page y) =
      T.bucketAt P (A.page y) := fun y => bucketAt_write_of_ne (h.ne_dir y)
  have hpairs : ∀ y, T.pairsAt ((P.delete (A.page i)).write dirId (.directory d)) (A.page y) =
      T.pairsAt P (A.page y) := fun y => by unfold pairsAt; rw [hbucket]
  -- a pair outside the page deleted keeps its page
  have hkeep : ∀ x, A.page x ≠ A.page i → (A.merge i s e hi hs hsib).page x = A.page x := by
    intro x hx
    rcases merge_page hi hs hsib x with ⟨-, hp⟩ | ⟨hp, -⟩
    · exact absurd hp hx
    · exact hp
  refine ⟨hlayout, fun x => ?_, fun x e' he => ?_, fun e' => ?_⟩
  · obtain ⟨y, hy, -⟩ := Layout.join_page hi hs hsib x
    rw [hy, hbucket]
    exact h.bucket y
  · obtain ⟨y, hy, hne⟩ := Layout.join_page hi hs hsib x
    rw [hy, hpairs] at he
    have hp := h.placed y e' he
    rw [hy, hkeep _ (hp ▸ hne), hp]
  · rw [h.mem_iff]
    by_cases hx : A.page (T.hash e'.1) = A.page i
    · obtain ⟨y, hy, hne⟩ := Layout.join_page hi hs hsib (T.hash e'.1)
      rw [hx, hempty, hy, hpairs]
      constructor
      · exact fun hm => absurd hm (Finset.notMem_empty e')
      · exact fun hm => absurd ((h.placed y e' hm).symm.trans hx) hne
    · rw [hkeep _ hx, hpairs]

end TableInv

end HashTableType

end BusTub
