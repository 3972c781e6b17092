/-
  What the asserts contribute to a method: nothing, as far as the ideal store can tell.

  1. **`AssertsOnly`**: if the debug build completes a computation, every build completes it with the
     same result.  The directory's methods and the loops over them are of this kind.

  2. **Every method of the table follows its debug build over the ideal store** (`insert_follows` and
     the like): the pins that an assert gives up and the page that an assert deletes do not matter
     there.
-/
import BusTub.Table.Discipline
import BusTub.Table.Spread

set_option linter.unusedSectionVars false

namespace BusTub

open Command

/-! ## Computations without commands -/

/-- If the debug build completes `f`, every build does, with the same result. -/
def AssertsOnly {α : Type} (f : Build → Except Fault α) : Prop :=
  ∀ b a, f .debug = .ok a → f b = .ok a

namespace AssertsOnly

variable {α β : Type}

/-- A computation that no build flag reaches. -/
theorem const (x : Except Fault α) : AssertsOnly fun _ => x := fun _ _ h => h

/-- An assertion is the one place where the builds differ: only the debug build can fail there. -/
theorem assertThat (c : Bool) : AssertsOnly fun b => assertThat b c := by
  intro b a h
  cases b with
  | debug => exact h
  | ndebug => rfl

/-- Two steps one after the other, where the second may depend on what the first gives. -/
theorem bind {f : Build → Except Fault α} {g : Build → α → Except Fault β} (hf : AssertsOnly f)
    (hg : ∀ a, AssertsOnly fun b => g b a) : AssertsOnly fun b => f b >>= g b := by
  intro b y h
  replace h : f .debug >>= g .debug = .ok y := h
  cases hx : f .debug with
  | error e =>
    rw [hx] at h
    cases h
  | ok a =>
    rw [hx] at h
    show f b >>= g b = .ok y
    rw [hf b a hx]
    exact hg a b y h

/-- A branch whose condition is the same in both builds. -/
theorem ite {c : Prop} [Decidable c] {f g : Build → Except Fault α} (hf : AssertsOnly f)
    (hg : AssertsOnly g) : AssertsOnly fun b => if c then f b else g b := by
  split
  · exact hf
  · exact hg

/-- The stride loops over the directory, if the body differs in its assertions only. -/
theorem forStride {σ : Type} {size step : ℕ} {body : Build → ℕ → σ → Except Fault σ}
    (hbody : ∀ i s, AssertsOnly fun b => body b i s) : ∀ (fuel curr : ℕ) (s : σ),
    AssertsOnly fun b => Loop.forStride .diverges size step (body b) fuel curr s := by
  intro fuel
  induction fuel with
  | zero => exact fun curr s => const _
  | succ fuel ih =>
    intro curr s
    unfold Loop.forStride
    exact ite (bind (hbody curr s) fun s' => ih (curr + step) s') (const _)

end AssertsOnly

namespace HashTableDirectoryPage

variable (d : HashTableDirectoryPage)

/-- `IncrGlobalDepth` checks `global_depth_` against its maximum, and does the same otherwise. -/
theorem incrGlobalDepth_asserts : AssertsOnly fun b => d.incrGlobalDepth b :=
  .bind (.assertThat _) fun _ => .const _

/-- `DecrGlobalDepth` checks that there is a bit to take away. -/
theorem decrGlobalDepth_asserts : AssertsOnly fun b => d.decrGlobalDepth b :=
  .bind (.assertThat _) fun _ => .const _

/-- `SetLocalDepth` checks that the depth fits below `global_depth_`. -/
theorem setLocalDepth_asserts (i x : ℕ) : AssertsOnly fun b => d.setLocalDepth b i x :=
  .bind (.assertThat _) fun _ => .const _

/-- So does `IncrLocalDepth`, for the depth after it. -/
theorem incrLocalDepth_asserts (i : ℕ) : AssertsOnly fun b => d.incrLocalDepth b i :=
  .bind (.assertThat _) fun _ => .const _

/-- `DecrLocalDepth` checks that there is a bit to take away. -/
theorem decrLocalDepth_asserts (i : ℕ) : AssertsOnly fun b => d.decrLocalDepth b i :=
  .bind (.assertThat _) fun _ => .const _

/-- The first loop of `VerifyIntegrity` compares depths as it counts. -/
theorem tallyFrom_asserts : ∀ (remaining curr_idx : ℕ) (t : Tally),
    AssertsOnly fun b => d.tallyFrom b remaining curr_idx t := by
  intro remaining
  induction remaining with
  | zero => exact fun _ _ => .const _
  | succ remaining ih =>
    intro curr_idx t
    unfold tallyFrom
    refine .bind (.assertThat _) fun _ => .ite (.bind (.assertThat _) fun _ => ih _ _) (ih _ _)

/-- The second loop does nothing but compare counts. -/
theorem checkCounts_asserts (t : Tally) : ∀ keys, AssertsOnly fun b => d.checkCounts b t keys := by
  intro keys
  induction keys with
  | nil => exact .const _
  | cons p rest ih =>
    unfold checkCounts
    exact .bind (.assertThat _) fun _ => ih

/-- So the whole check passes in the release build where it passes in the debug build. -/
theorem verifyIntegrity_asserts : AssertsOnly fun b => d.verifyIntegrity b :=
  .bind (d.tallyFrom_asserts _ _ _) fun t => d.checkCounts_asserts t _

end HashTableDirectoryPage

namespace HashTableType

open TableProg HashTableDirectoryPage

/-- A split gives the entries of the old page one bit more. -/
theorem deepen_asserts (d : HashTableDirectoryPage) (i : ℕ) : AssertsOnly fun b => deepen b d i := by
  unfold deepen
  refine .ite (.bind (d.incrLocalDepth_asserts _) fun _ => .const _) (.ite (.const _) ?_)
  exact .bind d.incrGlobalDepth_asserts fun d' => .bind (d'.incrLocalDepth_asserts _) fun _ => .const _

/-- Half of them go to the new page. -/
theorem repoint_asserts (d : HashTableDirectoryPage) (i s : ℕ) (q : PageId) :
    AssertsOnly fun b => repoint b d i s q := by
  unfold repoint
  refine .bind (setLocalDepth_asserts _ _ _) fun _ => .bind (.assertThat _) fun _ =>
    .bind (.forStride (fun c d' => ?_) _ _ _) fun _ => .bind (.forStride (fun c d' => ?_) _ _ _) fun _ =>
    .bind (.assertThat _) fun _ => .const _
  · exact setLocalDepth_asserts _ _ _
  · exact setLocalDepth_asserts _ _ _

/-- A merge lets the entries of both pages name the one that is kept, with one bit less. -/
theorem joinEntries_asserts (d : HashTableDirectoryPage) (i s : ℕ) (q : PageId) :
    AssertsOnly fun b => joinEntries b d i s q := by
  unfold joinEntries
  refine .bind (.assertThat _) fun _ =>
    .bind (.forStride (fun c d' => ?_) _ _ _) fun _ => .bind (.forStride (fun c d' => ?_) _ _ _) fun _ =>
    .bind (.assertThat _) fun _ => .const _
  · exact decrLocalDepth_asserts _ _
  · exact decrLocalDepth_asserts _ _

/-- The directory is halved as long as it can be. -/
theorem shrink_asserts : ∀ (fuel : ℕ) (d : HashTableDirectoryPage),
    AssertsOnly fun b => shrink b d fuel := by
  intro fuel
  induction fuel with
  | zero => exact fun _ => .const _
  | succ fuel ih =>
    intro d
    unfold shrink
    exact .ite (.bind d.decrGlobalDepth_asserts fun d' => ih d') (.const _)

/-! ## Methods -/

variable {K V : Type} [Inhabited K] [Inhabited V] (T : HashTableType K V) (b : Build)
variable (ids : ℕ → PageId) (cap : ℕ)

section rules

variable {α β : Type} {ids : ℕ → PageId} {cap : ℕ} {b : Build}

/-- A program without assertions is its own release build. -/
theorem follows_same (p : TableProg K V α) : FollowsIdeal ids cap p p := .same Matches.step p

/-- What differs in its assertions only is followed where the debug build goes through. -/
theorem follows_check {f : Build → Except Fault α} (hf : AssertsOnly f) :
    FollowsIdeal (K := K) (V := V) ids cap (check (f .debug)) (check (f b)) := .lift (hf b)

/-- The ideal store keeps no pins, so giving one back is not to be seen in it. -/
theorem silent_unpinPage (p : PageId) (d : Bool) :
    SilentIdeal (K := K) (V := V) ids cap (unpinPage p d) :=
  .call fun _ _ _ _ h hrun => (h.unpinPage hrun).2

/-- Neither is a deletion, as long as nobody holds the page. -/
theorem silent_deletePage (p : PageId) : SilentIdeal (K := K) (V := V) ids cap (deletePage p) := by
  refine .call fun s t r s' h hrun => ?_
  obtain ⟨-, -, rfl⟩ := deletePage_ok hrun
  exact ⟨⟨h.pages.next, h.pages.mem, fun q hq => List.mem_cons_of_mem _ (h.pages.deleted q hq)⟩,
    h.fresh, h.ptr_fresh, h.ptr⟩

/-- Nor is a read. -/
theorem silent_load (v : PtrVar) : SilentIdeal (K := K) (V := V) ids cap (load v) := by
  refine .call fun s t r s' h hrun => ?_
  obtain ⟨rfl, -⟩ := h.load hrun
  exact h

/-- An assert of something that goes unnoticed. -/
theorem follows_assert {p : TableProg K V Bool} (hp : SilentIdeal ids cap p) :
    FollowsIdeal ids cap (assert_ .debug p) (assert_ b p) := by
  cases b with
  | debug => exact follows_same _
  | ndebug =>
    intro s t a s' hm hrun
    obtain ⟨r, s₁, hp₁, hk⟩ := run_bind_inv hrun
    have hm₁ := hp s t r s₁ hm hp₁
    cases r with
    | false => cases hk
    | true =>
      cases hk
      exact ⟨t, rfl, hm₁⟩

end rules

/-- The head of every operation: fetch the directory page, find the key's page there, fetch it. -/
theorem fetchFor_follows (dirId : PageId) (key : K) :
    FollowsIdeal ids cap (T.fetchFor .debug dirId key) (T.fetchFor b dirId key) := by
  have hdir : FollowsIdeal (K := K) (V := V) ids cap (fetchDirectoryPage .debug dirId)
      (fetchDirectoryPage b dirId) :=
    .bind (follows_same _) fun _ => .bind (follows_check (.assertThat _)) fun _ => follows_same _
  have hbucket : ∀ p, FollowsIdeal (K := K) (V := V) ids cap (fetchBucketPage .debug p)
      (fetchBucketPage b p) := fun p =>
    .bind (follows_same _) fun _ => .bind (follows_check (.assertThat _)) fun _ => follows_same _
  exact .bind hdir fun _ => .bind (follows_check (.assertThat _)) fun _ => .bind (follows_same _) fun _ =>
    .bind (hbucket _) fun _ => .bind (follows_check (.assertThat _)) fun _ => follows_same _

/-- `UnpinPage` of the directory, which the source calls inside an `assert`. -/
theorem unpinDirectory_follows (d : Bool) :
    FollowsIdeal ids cap (T.unpinDirectory .debug d) (T.unpinDirectory b d) :=
  follows_assert (.bind (.bind (silent_load _) fun _ => .pure _) fun _ => silent_unpinPage _ _)

/-- `UnpinPage` of any page inside an `assert`: without the call the release build only keeps a pin. -/
theorem unpinPage_follows (p : PageId) (d : Bool) :
    FollowsIdeal (K := K) (V := V) ids cap (assert_ .debug (unpinPage p d)) (assert_ b (unpinPage p d)) :=
  follows_assert (silent_unpinPage p d)

/-- The constructor, whose two `NewPage` calls are made in both builds. -/
theorem construct_follows (dirId : PageId) :
    FollowsIdeal ids cap (T.construct .debug dirId) (T.construct b dirId) := by
  unfold construct
  refine .bind (follows_same _) fun _ => .bind (follows_same _) fun page => ?_
  cases page with
  | none => exact follows_same _
  | some p =>
    refine .bind (follows_same _) fun _ => .bind (follows_same _) fun _ => .bind (follows_same _) fun page => ?_
    cases page with
    | none => exact follows_same _
    | some q =>
      exact .bind (follows_same _) fun _ => .bind (follows_check (setLocalDepth_asserts _ _ _)) fun _ =>
        .bind (follows_same _) fun _ => .bind (unpinPage_follows b ids cap _ _) fun _ =>
        .bind (unpinPage_follows b ids cap _ _) fun _ => follows_same _

/-- `GetValue` unpins both pages inside asserts and does nothing else there. -/
theorem getValue_follows (dirId : PageId) (key : K) (result : List V) :
    FollowsIdeal ids cap (T.getValue .debug dirId key result) (T.getValue b dirId key result) :=
  .bind (follows_same _) fun _ => .bind (T.fetchFor_follows b ids cap dirId key) fun _ =>
    .bind (follows_same _) fun _ => .bind (follows_same _) fun _ =>
    .bind (T.unpinDirectory_follows b ids cap _) fun _ => .bind (unpinPage_follows b ids cap _ _) fun _ =>
    follows_same _

/-- `VerifyIntegrity` of the table, with the directory's own assertions in it. -/
theorem verifyIntegrity_follows (dirId : PageId) :
    FollowsIdeal ids cap (T.verifyIntegrity .debug dirId) (T.verifyIntegrity b dirId) :=
  .bind (follows_same _) fun _ => .bind
    (.bind (follows_same _) fun _ => .bind (follows_check (.assertThat _)) fun _ => follows_same _) fun _ =>
    .bind (follows_same _) fun _ => .bind (follows_check (verifyIntegrity_asserts _)) fun _ =>
    .bind (unpinPage_follows b ids cap _ _) fun _ => follows_same _

/-- `Merge`: its `DeletePage` is inside an `assert` as well. -/
theorem merge_follows (dirId : PageId) (key : K) :
    FollowsIdeal ids cap (T.merge .debug dirId key) (T.merge b dirId key) := by
  have hback : ∀ p : PageId, FollowsIdeal ids cap
      (do assert_ .debug (unpinPage p false); T.unpinDirectory .debug false; latch .tableWUnlock)
      (do assert_ b (unpinPage p false); T.unpinDirectory b false; latch .tableWUnlock) := fun p =>
    .bind (unpinPage_follows b ids cap _ _) fun _ => .bind (T.unpinDirectory_follows b ids cap _) fun _ =>
    follows_same _
  unfold merge
  refine .bind (follows_same _) fun _ => .bind (T.fetchFor_follows b ids cap dirId key) fun p =>
    .bind (follows_same _) fun dir => .bind (follows_same _) fun bucket => ?_
  split
  · exact hback p
  · refine .bind (follows_check (.assertThat _)) fun _ => ?_
    split
    · exact hback p
    · exact .bind (follows_check (.assertThat _)) fun _ => .bind (unpinPage_follows b ids cap _ _) fun _ =>
        .bind (follows_assert (silent_deletePage _)) fun _ =>
        .bind (follows_check (joinEntries_asserts _ _ _ _)) fun _ =>
        .bind (follows_check (shrink_asserts _ _)) fun _ => .bind (follows_same _) fun _ =>
        .bind (T.unpinDirectory_follows b ids cap _) fun _ => follows_same _

variable [DecidableEq V]

/-- The region of `Insert` that looks whether the bucket is full. -/
theorem insertRegion_follows (dirId : PageId) (key : K) (value : V) :
    FollowsIdeal ids cap (T.insertRegion .debug dirId key value) (T.insertRegion b dirId key value) := by
  unfold insertRegion
  refine .bind (follows_same _) fun _ => .bind (T.fetchFor_follows b ids cap dirId key) fun _ =>
    .bind (follows_same _) fun _ => .bind (follows_same _) fun _ => ?_
  split
  · exact .bind (follows_same _) fun _ => .bind (T.unpinDirectory_follows b ids cap _) fun _ =>
      .bind (unpinPage_follows b ids cap _ _) fun _ => follows_same _
  · exact .bind (unpinPage_follows b ids cap _ _) fun _ =>
      .bind (T.unpinDirectory_follows b ids cap _) fun _ => follows_same _

/-- A round of `SplitInsert`, with what the noting copy sees of it. -/
theorem splitInsertRegionNoting_follows (dirId : PageId) (key : K) (value : V) :
    FollowsIdeal ids cap (T.splitInsertRegionNoting .debug dirId key value)
      (T.splitInsertRegionNoting b dirId key value) := by
  unfold splitInsertRegionNoting
  refine .bind (follows_same _) fun _ => .bind (T.fetchFor_follows b ids cap dirId key) fun _ =>
    .bind (follows_same _) fun dir => .bind (follows_same _) fun _ => ?_
  split
  · exact .bind (follows_same _) fun _ => .bind (T.unpinDirectory_follows b ids cap _) fun _ =>
      .bind (unpinPage_follows b ids cap _ _) fun _ => follows_same _
  · refine .bind (follows_check (deepen_asserts _ _)) fun dir => ?_
    cases dir with
    | none =>
      exact .bind (T.unpinDirectory_follows b ids cap _) fun _ =>
        .bind (unpinPage_follows b ids cap _ _) fun _ => follows_same _
    | some dir =>
      refine .bind (follows_same _) fun _ => .bind (follows_same _) fun _ =>
        .bind (follows_check (.assertThat _)) fun _ => .bind (follows_check (repoint_asserts _ _ _ _)) fun _ =>
        .bind (follows_same _) fun _ => ?_
      have hload : ∀ (v : PtrVar) (f : HashTableBucketPage K V → Bool),
          SilentIdeal ids cap (do let x ← T.loadBucket v; pure (f x)) := fun v f =>
        .bind (.bind (silent_load v) fun _ => .pure _) fun _ => .pure _
      exact .bind (follows_assert (hload _ _)) fun _ => .bind (follows_assert (hload _ _)) fun _ =>
        .bind (follows_same _) fun _ => .bind (T.unpinDirectory_follows b ids cap _) fun _ =>
        .bind (unpinPage_follows b ids cap _ _) fun _ => .bind (unpinPage_follows b ids cap _ _) fun _ =>
        follows_same _

/-- And without: the round that `Insert` goes on from. -/
theorem splitInsertRegion_follows (dirId : PageId) (key : K) (value : V) :
    FollowsIdeal ids cap (T.splitInsertRegion .debug dirId key value)
      (T.splitInsertRegion b dirId key value) := by
  rw [splitInsertRegion_noting, splitInsertRegion_noting]
  exact .bind (T.splitInsertRegionNoting_follows b ids cap dirId key value) fun _ => follows_same _

/-- The region of `Remove` before `Merge` is called. -/
theorem removeRegion_follows (dirId : PageId) (key : K) (value : V) :
    FollowsIdeal ids cap (T.removeRegion .debug dirId key value) (T.removeRegion b dirId key value) :=
  .bind (follows_same _) fun _ => .bind (T.fetchFor_follows b ids cap dirId key) fun _ =>
    .bind (follows_same _) fun _ => .bind (follows_same _) fun _ => .bind (follows_same _) fun _ =>
    .bind (unpinPage_follows b ids cap _ _) fun _ => .bind (T.unpinDirectory_follows b ids cap _) fun _ =>
    follows_same _

end HashTableType

end BusTub
