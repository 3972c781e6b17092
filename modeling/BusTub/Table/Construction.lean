/-
  What the constructor leaves.

  1. **`ConstructsSafely`** is what one may expect of it: the directory with its first bucket, or, if it fails, a pool
     without a new pin and an object that does not take its directory for a bucket.

  2. With two frames to put pages into everything is granted (`construct_granted`).  With one frame the second
     `NewPage` fails when the directory page is pinned already, and its first slot holds a zero, which is the id of
     a page.  With none the first `NewPage` fails, and `directory_page_id_` is left as the object was allocated:
     nobody has set it, and it may be the id of somebody else's page.

  3. `constructs_safely_iff` — **the main result**: the constructor does as expected exactly when two frames or more
     have no pin, or when the pool has no frame at all, so that no `Insert` ever gets a page.
-/
import BusTub.Table.Balanced

set_option linter.unusedSectionVars false

namespace BusTub

open Command BufferPoolManagerInstance

/-! ## What one may expect -/

namespace BufferPoolManagerInstance

variable {Disk Data : Type}

/-- The frames without a pin. -/
def unpinnedFrames (s : BufferPoolManagerInstance Disk Data) : Finset ℕ :=
  (Finset.range s.cfg.poolSize).filter fun i => (s.pages i).pinCount = 0

/-- Every frame has a pin or has none. -/
theorem unpinned_add_pinned (s : BufferPoolManagerInstance Disk Data) :
    s.unpinnedFrames.card + s.pinnedFrames.card = s.cfg.poolSize := by
  rw [unpinnedFrames, pinnedFrames, Finset.card_filter_add_card_filter_not, Finset.card_range]

end BufferPoolManagerInstance

section

variable {Disk K V : Type} [DiskManager Disk (PageData K V)]

/-- The command reads or writes page `p` through a variable for a bucket page. -/
def PoolStore.AsBucket (t : PoolStore Disk K V) (p : PageId) : Cmd K V → Prop
  | .load v => v ≠ .dirPage ∧ ((t.ptr v).any fun f => (t.pool.pages f).pageId = p) = true
  | .store v _ => v ≠ .dirPage ∧ ((t.ptr v).any fun f => (t.pool.pages f).pageId = p) = true
  | _ => False

instance PoolStore.decidableAsBucket (t : PoolStore Disk K V) (p : PageId) :
    (c : Cmd K V) → Decidable (t.AsBucket p c)
  | .load v => inferInstanceAs (Decidable (v ≠ .dirPage ∧ _ = true))
  | .store v _ => inferInstanceAs (Decidable (v ≠ .dirPage ∧ _ = true))
  | .newPage _ => isFalse id
  | .fetchPage _ _ => isFalse id
  | .unpinPage _ _ => isFalse id
  | .deletePage _ => isFalse id
  | .latch _ => isFalse id

end

namespace HashTableType

variable {Disk K V : Type} [DiskManager Disk (PageData K V)]
variable [Inhabited K] [Inhabited V] [DecidableEq K] [DecidableEq V]

/-- **The table is there**: its two pages were made, the first slot of the directory names a zeroed bucket page of
    its own, and no pin is left. -/
structure Opened (T : HashTableType K V) (s s' : BufferPoolManagerInstance Disk (PageData K V)) (dirId : PageId) :
    Prop where
  dir_made : s.nextPageId ≤ dirId ∧ dirId < s'.nextPageId
  bucket_made : s.nextPageId ≤ (T.asDirectory (s'.shown dirId)).bucketPageIds 0 ∧
    (T.asDirectory (s'.shown dirId)).bucketPageIds 0 < s'.nextPageId
  bucket_ne : (T.asDirectory (s'.shown dirId)).bucketPageIds 0 ≠ dirId
  bucket_zeroed : s'.shown ((T.asDirectory (s'.shown dirId)).bucketPageIds 0) = 0
  pins : ∀ p, s'.pinCountOf p = s.pinCountOf p

/-- **Nothing has happened**: no pin is left; and whatever the others do, no `Insert` of this object takes the page
    that `directory_page_id_` names for a bucket page. -/
structure LeftAlone (T : HashTableType K V) (cfg : PoolConfig) (disk : Disk) (fuel : ℕ) (s s' : SharedPool Disk K V)
    (dirId : PageId) : Prop where
  pins : ∀ p, s'.pool.pinCountOf p = s.pool.pinCountOf p
  not_a_bucket : ∀ es later, (sharing T cfg disk fuel).Run s' es later → ∀ key value,
    Guarded (poolMachine .debug) (fun c t => ¬ t.AsBucket dirId c) (T.insert .debug dirId key value fuel)
      ⟨later.pool, fun _ => none⟩

/-- What one may expect of a constructor that returns, whatever `directory_page_id_` holds before it is set. -/
def ConstructsSafely (T : HashTableType K V) (cfg : PoolConfig) (disk : Disk) (fuel : ℕ) (s : SharedPool Disk K V) :
    Prop :=
  ∀ dir₀ dirId done pool', callPool .debug (T.construct .debug dir₀) s.pool = .ok ((dirId, done), pool') →
    done = true ∧ T.Opened s.pool pool' dirId ∨
    done = false ∧ T.LeftAlone cfg disk fuel s { s with pool := pool' } dirId

/-! ## How many frames there are -/

variable [LawfulDiskManager Disk] {T : HashTableType K V} {cfg : PoolConfig} {cap : ℕ} {others : List Pin}
variable {P : Pages K V} {pool : BufferPoolManagerInstance Disk (PageData K V)} {dir₀ : PageId}

open TableProg

omit [DiskManager Disk (PageData K V)] [LawfulDiskManager Disk] [Inhabited K] [Inhabited V] [DecidableEq K]
  [DecidableEq V] in
theorem pinned_card_le (s : CheckedStore K V) (others : List Pin) :
    (s.pinned others).card ≤ s.holds.length + (others.map Pin.page).toFinset.card := by
  rw [CheckedStore.pinned, List.toFinset_append]
  refine (Finset.card_union_le _ _).trans (Nat.add_le_add_right ?_ _)
  exact (List.toFinset_card_le _).trans_eq (List.length_map _)

/-- The constructor after its second page. -/
theorem construct_asksNothing (dirId bucketId : PageId) : AsksNothing (do
    let dir ← T.loadDirectory
    let dir ← check ((dir.setBucketPageId 0 bucketId).setLocalDepth .debug 0 0)
    storeDirectory dir
    assert_ .debug (unpinPage bucketId false)
    assert_ .debug (unpinPage dirId true)
    latch .tableWUnlock
    pure (dirId, true) : TableProg K V (PageId × Bool)) :=
  .bind loadDirectory_asksNothing fun _ => .bind (.check _) fun _ => .bind (.store _ _) fun _ =>
    .bind (.assert_unpinPage _ _) fun _ => .bind (.assert_unpinPage _ _) fun _ => .bind (.latch _) fun _ => .pure _

/-- **With room for two pages the constructor gets what it asks for.** -/
theorem construct_granted (hroom : (others.map Pin.page).toFinset.card + 2 ≤ cfg.poolSize) (P : Pages K V)
    (ptr : PtrVar → Option ℕ) (n : ℕ) :
    AllGranted cfg cap others (T.construct .debug dir₀) ⟨P, ptr, [], n⟩ := by
  have hnew : ∀ (s : CheckedStore K V) v, s.holds.length < 2 → s.Granted cfg.poolSize others (.newPage v) := by
    intro s v hfew
    have hcard := pinned_card_le s others
    show (s.pinned others).card < cfg.poolSize
    omega
  refine ⟨trivial, fun _ s₁ h₁ => ?_⟩
  cases h₁
  refine ⟨hnew _ .dirPage Nat.zero_lt_two, fun page s₂ h₂ => ?_⟩
  obtain ⟨-, rfl, rfl⟩ := newPage_ok h₂
  refine ⟨trivial, fun x s₃ h₃ => ?_⟩
  obtain ⟨-, -, -, -, rfl⟩ := load_ok h₃
  refine ⟨trivial, fun _ s₄ h₄ => ?_⟩
  obtain ⟨k, -, -, rfl⟩ := store_ok h₄
  refine ⟨hnew _ .bucketPage ?_, fun page s₅ h₅ => ?_⟩
  · rw [List.length_map]
    exact Nat.one_lt_two
  · obtain ⟨-, rfl, rfl⟩ := newPage_ok h₅
    exact (construct_asksNothing _ _).granted _

/-- **Without a frame for its directory the constructor does nothing.** -/
theorem construct_none (hbacks : Backs cfg P others pool) (hlt : cfg.idAt P.next < 2 ^ 31)
    (hcount : CountsUp .debug (T.construct .debug dir₀) ⟨pool, fun _ => none⟩)
    (hfull : ¬ (others.map Pin.page).toFinset.card < cfg.poolSize) :
    callPool .debug (T.construct .debug dir₀) pool = .ok ((dir₀, false), pool) := by
  have hstart := CarriedWith.start hbacks
  have hnew : checkedMachine cfg.idAt 1 (.newPage .dirPage) ⟨P, fun _ => none, [], 0⟩ = .ok (_, _) := rfl
  have hcount₁ : (⟨pool, fun _ => none⟩ : PoolStore Disk K V).Counts (.newPage .dirPage : Cmd K V) :=
    (hcount.2 () _ rfl).1
  obtain ⟨page, ⟨pool₁, ptr⟩, hrun, hnone, hsame⟩ :=
    hstart.not_granted .debug hnew (hstart.counts hlt hnew hcount₁) hfull
  obtain rfl : page = none := Option.isNone_iff_eq_none.mp hnone
  obtain rfl : pool₁ = pool := hsame
  have hcall : run (poolMachine .debug) (T.construct .debug dir₀) ⟨pool₁, fun _ => none⟩ =
      .ok ((dir₀, false), ⟨pool₁, ptr⟩) := by
    have hlatch : run (poolMachine .debug) (latch .tableWLock : TableProg K V Unit) ⟨pool₁, fun _ => none⟩ =
      .ok ((), ⟨pool₁, fun _ => none⟩) := rfl
    have hpage : run (poolMachine .debug) (newPage .dirPage : TableProg K V _) ⟨pool₁, fun _ => none⟩ =
      .ok (none, ⟨pool₁, ptr⟩) := (run_call _ _).trans hrun
    unfold construct
    rw [run_bind_ok hlatch, run_bind_ok hpage]
    rfl
  simp only [callPool, hcall]

/-- **With a frame for its directory only, the constructor leaves the directory page pinned.** -/
theorem construct_half (hbacks : Backs cfg P others pool) (hlt : cfg.idAt P.next < 2 ^ 31)
    (hcount : CountsUp .debug (T.construct .debug dir₀) ⟨pool, fun _ => none⟩)
    (hone : (others.map Pin.page).toFinset.card + 1 = cfg.poolSize) :
    ∃ pool', callPool .debug (T.construct .debug dir₀) pool = .ok ((cfg.idAt P.next, false), pool') ∧
      0 < pool'.pinCountOf (cfg.idAt P.next) := by
  -- the directory page is made, and its id written to it
  let s₁ : CheckedStore K V := ⟨P.create cfg.idAt, Function.update (fun _ => none) .dirPage (some 0),
    [⟨0, cfg.idAt P.next, false⟩], 1⟩
  let x : PageData K V := s₁.pages.mem (cfg.idAt P.next)
  let y : PageData K V := .directory ((T.asDirectory x).setPageId (cfg.idAt P.next))
  let s₂ : CheckedStore K V := { s₁ with
    pages := s₁.pages.write (cfg.idAt P.next) y
    holds := [⟨0, cfg.idAt P.next, true⟩] }
  have hnew : checkedMachine cfg.idAt 2 (.newPage .dirPage) ⟨P, fun _ => none, [], 0⟩ =
    .ok (some (cfg.idAt P.next), s₁) := rfl
  have hload : checkedMachine cfg.idAt 2 (.load .dirPage) s₁ = .ok (x, s₁) := rfl
  have hstore : checkedMachine cfg.idAt 2 (.store .dirPage y) s₁ = .ok ((), s₂) := rfl
  have hnew₂ : checkedMachine cfg.idAt 2 (.newPage .bucketPage) s₂ = .ok (_, _) := rfl
  have hcount₁ := hcount.2 () ⟨pool, fun _ => none⟩ rfl
  have hlt₁ := (CarriedWith.start hbacks).counts hlt hnew hcount₁.1
  obtain ⟨t₁, hpage, _, h₁⟩ := (CarriedWith.start hbacks).granted .debug hnew hlt₁ (by
    show (others.map Pin.page).toFinset.card < cfg.poolSize
    omega)
  obtain ⟨t₂, hloaded, _, h₂⟩ := h₁.granted .debug hload hlt₁ trivial
  obtain ⟨t₃, hstored, _, h₃⟩ := h₂.granted .debug hstore hlt₁ trivial
  -- no frame is left for the bucket page
  have hcount₃ := ((hcount₁.2 _ t₁ hpage).2 x t₂ hloaded).2 () t₃ hstored
  have hfull : ¬ (s₂.pinned others).card < cfg.poolSize := by
    have hpinned : s₂.pinned others = Insert.insert (cfg.idAt P.next) (others.map Pin.page).toFinset := by
      simp [CheckedStore.pinned, s₂]
    rw [hpinned, Finset.card_insert_of_notMem hbacks.next_unpinned]
    omega
  obtain ⟨page, t₄, hrun, hnone, hsame⟩ := h₃.not_granted .debug hnew₂ (h₃.counts hlt₁ hnew₂ hcount₃.1) hfull
  obtain rfl : page = none := Option.isNone_iff_eq_none.mp hnone
  have hcall : run (poolMachine .debug) (T.construct .debug dir₀) ⟨pool, fun _ => none⟩ =
      .ok ((cfg.idAt P.next, false), t₄) := by
    have hlatch : run (poolMachine .debug) (latch .tableWLock : TableProg K V Unit) ⟨pool, fun _ => none⟩ =
      .ok ((), ⟨pool, fun _ => none⟩) := rfl
    unfold construct
    have hnew' : run (poolMachine .debug) (newPage .dirPage : TableProg K V _) ⟨pool, fun _ => none⟩ =
      .ok (some (cfg.idAt P.next), t₁) := (run_call _ _).trans hpage
    have hload' : run (poolMachine .debug) T.loadDirectory t₁ = .ok (T.asDirectory x, t₂) := run_cmd_ok hloaded _
    have hstore' : run (poolMachine .debug) (storeDirectory ((T.asDirectory x).setPageId (cfg.idAt P.next))) t₂ =
      .ok ((), t₃) := (run_call _ _).trans hstored
    have hnew₂' : run (poolMachine .debug) (newPage .bucketPage : TableProg K V _) t₃ = .ok (none, t₄) :=
      (run_call _ _).trans hrun
    rw [run_bind_ok hlatch, run_bind_ok hnew']
    show run _ (T.loadDirectory >>= _) t₁ = _
    rw [run_bind_ok hload', run_bind_ok hstore', run_bind_ok hnew₂']
    rfl
  refine ⟨t₄.pool, by simp only [callPool, hcall], ?_⟩
  rw [hsame]
  exact h₃.backs.linked.pinned (k := ⟨cfg.idAt P.next, _, true⟩) (List.mem_cons_self ..)

/-- **With room for both pages the constructor makes the table.** -/
theorem construct_both (hbacks : Backs cfg P others pool) (hlt : cfg.idAt P.next < 2 ^ 31)
    (hcount : CountsUp .debug (T.construct .debug dir₀) ⟨pool, fun _ => none⟩)
    (hroom : (others.map Pin.page).toFinset.card + 2 ≤ cfg.poolSize) :
    ∃ pool', callPool .debug (T.construct .debug dir₀) pool = .ok ((cfg.idAt P.next, true), pool') ∧
      Backs cfg (firstPages cfg.idAt P) others pool' := by
  have hids := cfg.idAt_injective
  obtain ⟨ptr, n, hchecked⟩ := construct_run (T := T) hids (Nat.le_refl 2) P dir₀ (fun _ => none) 0
  obtain ⟨t', hrun, -, _, hcarried⟩ := (CarriedWith.start hbacks).run_granted .debug _ hlt hcount
    (construct_granted hroom P _ 0) hchecked
  exact ⟨t'.pool, by simp only [callPool, hrun], hcarried.backs⟩

theorem firstPages_opened {pool' : BufferPoolManagerInstance Disk (PageData K V)} (hbacks : Backs cfg P others pool)
    (hbacks' : Backs cfg (firstPages cfg.idAt P) others pool') : T.Opened pool pool' (cfg.idAt P.next) := by
  have hlt : cfg.idAt P.next < cfg.idAt (P.next + 1) := cfg.idAt_lt (Nat.lt_succ_self _)
  have hne : cfg.idAt (P.next + 1) ≠ cfg.idAt P.next := hlt.ne'
  have hlt' : cfg.idAt (P.next + 1) < cfg.idAt (P.next + 2) := cfg.idAt_lt (Nat.lt_succ_self _)
  have hcounter : pool'.nextPageId = cfg.idAt (P.next + 2) := hbacks'.counter
  have hdir : pool'.shown (cfg.idAt P.next) =
      .directory (firstDirectory (cfg.idAt P.next) (cfg.idAt (P.next + 1))) := by
    rw [hbacks'.shown ⟨P.next, Nat.lt_add_of_pos_right Nat.zero_lt_two, rfl⟩]
    exact Function.update_self ..
  have hbucket : pool'.shown (cfg.idAt (P.next + 1)) = 0 := by
    rw [hbacks'.shown ⟨P.next + 1, Nat.lt_succ_self _, rfl⟩]
    exact (Function.update_of_ne hne ..).trans (Function.update_self ..)
  have hslot : (T.asDirectory (pool'.shown (cfg.idAt P.next))).bucketPageIds 0 = cfg.idAt (P.next + 1) := by
    rw [hdir]
    show Function.update (fun _ => (0 : PageId)) 0 (cfg.idAt (P.next + 1)) 0 = _
    rw [Function.update_self]
  refine ⟨⟨hbacks.counter.le, ?_⟩, ?_, ?_, ?_, fun p => ?_⟩
  · rw [hcounter]
    exact hlt.trans hlt'
  · rw [hslot, hbacks.counter, hcounter]
    exact ⟨hlt.le, hlt'⟩
  · rw [hslot]
    exact hne
  · rw [hslot]
    exact hbucket
  · rw [hbacks'.linked.pin_count, hbacks.linked.pin_count]
    rfl

/-! ## When it is safe -/

variable {disk : Disk} {fuel : ℕ} {s : SharedPool Disk K V}

/-- The frames without a pin are those that the others leave. -/
theorem SharedInv.frames (h : SharedInv T cfg P s) :
    s.pool.unpinnedFrames.card + (s.others.map Pin.page).toFinset.card = cfg.poolSize := by
  have hcard : s.pool.pinnedFrames.card = (s.others.map Pin.page).toFinset.card := h.backs.linked.pinned_card
  rw [← hcard, ← h.backs.cfg_eq]
  exact s.pool.unpinned_add_pinned

/-- The first of the constructor's two requests is the same, whatever `directory_page_id_` holds before. -/
theorem construct_countsUp {t : PoolStore Disk K V} (dir₁ : PageId)
    (h : CountsUp .debug (T.construct .debug dir₁) t) (dir₀ : PageId) :
    CountsUp .debug (T.construct .debug dir₀) t := by
  refine (guarded_bind_iff _ _).mpr ⟨((guarded_bind_iff _ _).mp h).1, fun _ t₁ h₁ => ?_⟩
  have hrest := ((guarded_bind_iff _ _).mp h).2 _ t₁ h₁
  refine (guarded_bind_iff _ _).mpr ⟨((guarded_bind_iff _ _).mp hrest).1, fun page t₂ h₂ => ?_⟩
  have hpage := ((guarded_bind_iff _ _).mp hrest).2 page t₂ h₂
  cases page with
  | none => exact ⟨trivial, fun _ _ _ => trivial⟩
  | some dirId => exact hpage

/-- **Where there is a table, there are two frames**: its constructor got both of its pages. -/
theorem two_frames_of_table (hfuel : 10 ≤ fuel) (h : (sharing T cfg disk fuel).Reachable s) (htable : s.table ≠ none) :
    2 ≤ cfg.poolSize := by
  suffices hall : (sharing T cfg disk fuel).Reachable s ∧ (s.table ≠ none → 2 ≤ cfg.poolSize) from hall.2 htable
  refine h.invariant (I := fun s => (sharing T cfg disk fuel).Reachable s ∧ (s.table ≠ none → 2 ≤ cfg.poolSize))
    (fun s h₀ => ⟨.init h₀, fun hsome => ?_⟩) fun s e s' ⟨hreach, htwo⟩ hstep => ⟨hreach.step hstep, fun hsome => ?_⟩
  · obtain ⟨rfl, -⟩ := h₀
    exact absurd rfl hsome
  · cases e with
    | client e => exact htwo (hstep.2.1 ▸ hsome)
    | table op =>
      cases op with
      | call c =>
        obtain ⟨⟨dirId, hdir, -⟩, -⟩ := hstep
        exact htwo (by rw [hdir]; exact Option.some_ne_none dirId)
      | construct dir₀ =>
        obtain ⟨⟨-, hcount, dirId, hcall, -⟩, -⟩ := hstep
        obtain ⟨P, hP⟩ := SharedInv.reachable hfuel hreach
        have hframes := hP.frames
        by_contra hfew
        -- with one frame or none the constructor would not have had both pages
        by_cases hfull : (s.others.map Pin.page).toFinset.card < cfg.poolSize
        · obtain ⟨pool', hhalf, -⟩ := construct_half hP.backs hP.count hcount (by omega)
          cases hhalf.symm.trans hcall
        · cases (construct_none hP.backs hP.count hcount hfull).symm.trans hcall

/-! ### A pool without a frame -/

section noFrame

variable {α β : Type} {t : PoolStore Disk K V} {dirId : PageId}

/-- Without a frame no page is fetched. -/
theorem no_frame_fetch (h : pool.Inv) (hzero : pool.cfg.poolSize = 0) {p : PageId} {ret : Return}
    {pool' : BufferPoolManagerInstance Disk (PageData K V)} (hexec : pool.exec .debug (.fetchPg p) = .ok (ret, pool')) :
    ret.frame = none := by
  have hnone : ∀ f, ¬ pool.inPool f := by
    rintro f ⟨h0, hlt⟩
    rw [hzero] at hlt
    exact Int.not_lt.mpr h0 hlt
  cases exec_effect h.toConsistent hexec with
  | fetchHit hp => exact absurd (h.mapped_inPool _ _ hp) (hnone _)
  | fetchFull => rfl
  | fetchMiss hp hpick hr =>
    cases (h.fetch_none_iff (.fetchMiss hp hpick hr)).mpr ⟨hp, fun f hf => absurd hf (hnone f)⟩

/-- The program does not take page `dirId` for a bucket, and does not return. -/
def TurnedAway (dirId : PageId) (p : TableProg K V α) (t : PoolStore Disk K V) : Prop :=
  Guarded (poolMachine .debug) (fun c t => ¬ t.AsBucket dirId c) p t ∧ ∀ a t', run (poolMachine .debug) p t ≠ .ok (a, t')

theorem TurnedAway.bind {p : TableProg K V α} {f : α → TableProg K V β} (h : TurnedAway dirId p t) :
    TurnedAway dirId (p >>= f) t := by
  refine ⟨(guarded_bind_iff _ _).mpr ⟨h.1, fun a t' hrun => absurd hrun (h.2 a t')⟩, fun y t' hrun => ?_⟩
  obtain ⟨a, t₁, hp, -⟩ := run_bind_inv hrun
  exact h.2 a t₁ hp

/-- **Without a frame `Insert` does not get its directory.** -/
theorem insert_no_frame (h : pool.Inv) (hzero : pool.cfg.poolSize = 0) (key : K) (value : V) (fuel : ℕ) :
    Guarded (poolMachine .debug) (fun c t => ¬ t.AsBucket dirId c) (T.insert .debug dirId key value fuel)
      ⟨pool, fun _ => none⟩ := by
  cases fuel with
  | zero => trivial
  | succ fuel =>
    have hdir : TurnedAway dirId (fetchDirectoryPage .debug dirId) (⟨pool, fun _ => none⟩ : PoolStore Disk K V) := by
      refine ⟨⟨id, fun r t' _ => by cases r <;> trivial⟩, fun a t' hrun => ?_⟩
      obtain ⟨page, t₁, hpage, hcheck⟩ := run_bind_inv hrun
      rw [fetchPage, run_call] at hpage
      obtain ⟨⟨ret, pool'⟩, hexec, hret⟩ := except_bind_inv hpage
      cases hret
      rw [no_frame_fetch h hzero hexec] at hcheck
      cases hcheck
    have hregion : TurnedAway dirId (T.insertRegion .debug dirId key value) ⟨pool, fun _ => none⟩ := by
      have hlatch : run (poolMachine .debug) (latch .tableRLock : TableProg K V Unit) ⟨pool, fun _ => none⟩ =
        .ok ((), ⟨pool, fun _ => none⟩) := rfl
      unfold insertRegion
      refine ⟨(guarded_bind hlatch).mpr ⟨⟨id, fun _ _ _ => trivial⟩, hdir.bind.bind.1⟩, fun a t' hrun => ?_⟩
      rw [run_bind_ok hlatch] at hrun
      exact hdir.bind.bind.2 a t' hrun
    exact hregion.bind.1

end noFrame

/-! ### A pool without a frame to spare -/

/-- **An `Insert` takes a page for a bucket** that somebody keeps in the pool, if the object takes it for its
    directory and the first slot names the page itself. -/
theorem insert_takes_directory (hbacks : Backs cfg P others pool) (hlt : cfg.idAt P.next < 2 ^ 31) {p : PageId}
    (hpin : p ∈ (others.map Pin.page).toFinset) (hmem : P.mem p = .directory ⟨p, 0, fun _ => 0, fun _ => p⟩) (key : K)
    (value : V) (fuel : ℕ) : ¬ Guarded (poolMachine .debug) (fun c t => ¬ t.AsBucket p c)
      (T.insert .debug p key value (fuel + 1)) ⟨pool, fun _ => none⟩ := by
  have hcreated := hbacks.pinned_created hpin
  let s₁ : CheckedStore K V := ⟨P, Function.update (fun _ => none) .dirPage (some 0), [⟨0, p, false⟩], 1⟩
  let s₂ : CheckedStore K V := ⟨P, Function.update s₁.ptr .bucketPage (some 1), [⟨1, p, false⟩, ⟨0, p, false⟩], 2⟩
  have hfetch₁ : checkedMachine cfg.idAt 2 (.fetchPage .dirPage p) ⟨P, fun _ => none, [], 0⟩ = .ok (true, s₁) :=
    if_pos ⟨Nat.zero_lt_two, hcreated⟩
  have hload : checkedMachine cfg.idAt 2 (.load .dirPage) s₁ = .ok (P.mem p, s₁) := rfl
  have hfetch₂ : checkedMachine cfg.idAt 2 (.fetchPage .bucketPage p) s₁ = .ok (true, s₂) :=
    if_pos ⟨Nat.one_lt_two, hcreated⟩
  have hin : ∀ s : CheckedStore K V, p ∈ s.pinned others := fun s =>
    List.mem_toFinset.mpr (List.mem_append_right _ (List.mem_toFinset.mp hpin))
  obtain ⟨t₁, hpage₁, _, h₁⟩ := (CarriedWith.start hbacks).granted .debug hfetch₁ hlt (.inl (hin _))
  obtain ⟨t₂, hloaded, _, h₂⟩ := h₁.granted .debug hload hlt trivial
  obtain ⟨t₃, hpage₃, frameOf, h₃⟩ := h₂.granted .debug hfetch₂ hlt (.inl (hin _))
  -- the directory is fetched, and then the same page once more
  have hfor : run (poolMachine .debug) (T.fetchFor .debug p key) ⟨pool, fun _ => none⟩ = .ok (p, t₃) := by
    have hdir : run (poolMachine .debug) (fetchDirectoryPage .debug p : TableProg K V Bool) ⟨pool, fun _ => none⟩ =
      .ok (true, t₁) := run_cmd_ok hpage₁ _
    have hread : run (poolMachine .debug) T.loadDirectory t₁ = .ok (T.asDirectory (P.mem p), t₂) := run_cmd_ok hloaded _
    have hbucket : run (poolMachine .debug) (fetchBucketPage .debug p : TableProg K V Bool) t₂ = .ok (true, t₃) :=
      run_cmd_ok hpage₃ _
    have hname : T.keyToPageId key (T.asDirectory (P.mem p)) = p := by rw [hmem]; rfl
    unfold fetchFor
    rw [run_bind_ok hdir]
    show run _ (T.loadDirectory >>= _) t₁ = _
    rw [run_bind_ok hread, hname, run_bind_ok hbucket]
    rfl
  have hbucket : t₃.AsBucket p (.load .bucketPage) := by
    have hptr : t₃.ptr .bucketPage = some (frameOf 1) := h₃.ptr .bucketPage 1 rfl
    have hframe := h₃.backs.linked.pin_frame (pinOf frameOf ⟨1, p, false⟩) (List.mem_cons_self ..)
    refine ⟨nofun, ?_⟩
    rw [hptr]
    exact decide_eq_true (h₃.backs.linked.inv.mapped_pageId _ _ hframe)
  intro hguarded
  have hlatch : ∀ (l : LatchOp) (t : PoolStore Disk K V),
    run (poolMachine .debug) (latch l : TableProg K V Unit) t = .ok ((), t) := fun _ _ => rfl
  have hregion := ((guarded_bind_iff (T.insertRegion .debug p key value) _).mp hguarded).1
  unfold insertRegion at hregion
  have hrest := ((guarded_bind hfor).mp ((guarded_bind (hlatch ..)).mp hregion).2).2
  have hloadBucket := ((guarded_bind_iff _ _).mp ((guarded_bind (hlatch ..)).mp hrest).2).1
  exact hloadBucket.1 hbucket

/-- Somebody has pinned a page that is not the table's directory, if every frame has a pin. -/
theorem SharedInv.another_pin (h : SharedInv T cfg P s) (hpos : cfg.poolSize ≠ 0)
    (htwo : s.table ≠ none → 2 ≤ cfg.poolSize) (hzero : s.pool.unpinnedFrames.card = 0) :
    ∃ k ∈ s.others, s.table ≠ some k.page := by
  have hframes := h.frames
  by_contra hnone
  have hall : ∀ k ∈ s.others, s.table = some k.page := fun k hk => by
    by_contra hne
    exact hnone ⟨k, hk, hne⟩
  have hone : (s.others.map Pin.page).toFinset.card ≤ 1 := by
    refine Finset.card_le_one.mpr fun p hp q hq => ?_
    obtain ⟨k, hk, rfl⟩ := List.mem_map.mp (List.mem_toFinset.mp hp)
    obtain ⟨k', hk', rfl⟩ := List.mem_map.mp (List.mem_toFinset.mp hq)
    exact Option.some.inj ((hall k hk).symm.trans (hall k' hk'))
  obtain ⟨p, hp⟩ := Finset.card_pos.mp (show 0 < (s.others.map Pin.page).toFinset.card by omega)
  obtain ⟨k, hk, -⟩ := List.mem_map.mp (List.mem_toFinset.mp hp)
  have := htwo (by rw [hall k hk]; exact Option.some_ne_none _)
  omega

/-- **With every frame pinned the object may get hold of a page that is not its own.**  If `directory_page_id_`
    happens to name a page that another client keeps and writes to, `Insert` does what is written there. -/
theorem SharedInv.taken (h : SharedInv T cfg P s) (hfuel : 10 ≤ fuel) {k : Pin} (hk : k ∈ s.others)
    (hother : s.table ≠ some k.page) : ¬ T.LeftAlone cfg disk fuel s s k.page := by
  intro hleft
  let x : PageData K V := .directory ⟨k.page, 0, fun _ => 0, fun _ => k.page⟩
  let later : SharedPool Disk K V :=
    ⟨s.pool.setPage k.frame { s.pool.pages k.frame with data := x }, { k with wrote := true } :: s.others.erase k, s.table⟩
  have hwrite : (sharing T cfg disk fuel).step s (.client (.write k x)) later := by
    refine ⟨⟨(s.pool.record s.others).write k x, ⟨hk, rfl⟩, rfl⟩, rfl, fun k' x' he => ?_⟩
    cases he
    exact hother
  obtain ⟨n, rfl⟩ : ∃ n, fuel = n + 1 := ⟨fuel - 1, by omega⟩
  refine insert_takes_directory (h.backs.write hk x) h.count ?_ (Function.update_self ..) default default n
    (hleft.not_a_bucket _ later (.single hwrite) default default)
  exact List.mem_toFinset.mpr (List.mem_map.mpr ⟨_, List.mem_cons_self .., rfl⟩)

/-- **When the constructor does what one may expect of it.**  Over any pool that others use, with whatever pins they
    hold, it leaves a table or nothing exactly when two frames or more have no pin, or the pool has no frame at all.
    The id counter does not wrap meanwhile. -/
theorem constructs_safely_iff (hfuel : 10 ≤ fuel) (h : (sharing T cfg disk fuel).Reachable s)
    (hcount : ∀ dir₀, CountsUp .debug (T.construct .debug dir₀) ⟨s.pool, fun _ => none⟩) :
    T.ConstructsSafely cfg disk fuel s ↔ 2 ≤ s.pool.unpinnedFrames.card ∨ cfg.poolSize = 0 := by
  obtain ⟨P, hP⟩ := SharedInv.reachable hfuel h
  have hframes := hP.frames
  constructor
  · intro hsafe
    by_contra hno
    obtain ⟨hfew, hpos⟩ := not_or.mp hno
    by_cases hone : s.pool.unpinnedFrames.card = 1
    · obtain ⟨pool', hcall, hpinned⟩ := construct_half hP.backs hP.count (hcount 0) (by omega)
      rcases hsafe _ _ _ _ hcall with ⟨hdone, -⟩ | ⟨-, hleft⟩
      · cases hdone
      · have hsame := hleft.pins (cfg.idAt P.next)
        rw [hP.unborn hP.backs.counter.le] at hsame
        exact Int.ne_of_gt hpinned hsame
    · obtain ⟨k, hk, hother⟩ := hP.another_pin hpos (two_frames_of_table hfuel h) (by omega)
      have hnone := construct_none hP.backs hP.count (hcount k.page) (by omega)
      rcases hsafe _ _ _ _ hnone with ⟨hdone, -⟩ | ⟨-, hleft⟩
      · cases hdone
      · exact hP.taken hfuel hk hother hleft
  · rintro (htwo | hzero) dir₀ dirId done pool' hcall
    · obtain ⟨pool₁, hboth, hbacks⟩ := construct_both hP.backs hP.count (hcount dir₀) (by omega)
      obtain ⟨hret, rfl⟩ := Prod.mk.inj (Except.ok.inj (hcall.symm.trans hboth))
      obtain ⟨rfl, rfl⟩ := Prod.mk.inj hret
      exact .inl ⟨rfl, firstPages_opened hP.backs hbacks⟩
    · have hnone := construct_none hP.backs hP.count (hcount dir₀) (by omega)
      obtain ⟨hret, rfl⟩ := Prod.mk.inj (Except.ok.inj (hcall.symm.trans hnone))
      obtain ⟨rfl, rfl⟩ := Prod.mk.inj hret
      refine .inr ⟨rfl, fun p => rfl, fun es later hrun key value => ?_⟩
      obtain ⟨s₀, es₀, h₀, hrun₀⟩ := h
      obtain ⟨Q, hQ⟩ := SharedInv.reachable hfuel ⟨s₀, es₀ ++ es, h₀, hrun₀.append hrun⟩
      exact insert_no_frame hQ.backs.linked.inv (hQ.backs.cfg_eq ▸ hzero) key value fuel

/-- A table that is to come on a pool of `frames` frames. -/
def unshared (frames : ℕ) : SharedPool (PageId → PageData ℤ ℤ) ℤ ℤ :=
  ⟨create (Session.fresh frames).pool.cfg fun _ => 0, [], none⟩

theorem unshared_init (frames : ℕ) :
    (sharing smallTable (Session.fresh frames).pool.cfg (fun _ : PageId => (0 : PageData ℤ ℤ)) 10).init
      (unshared frames) := by
  refine ⟨rfl, ?_⟩
  simp [Traffic.Unwrapped, unshared, Session.fresh, create, Ledger.empty, int32]

/-- **With two frames it makes the table**, and so it does in four frames when another client keeps a page in one. -/
theorem constructs_safely_two_frames : smallTable.ConstructsSafely (Session.fresh 2).pool.cfg
      (fun _ : PageId => (0 : PageData ℤ ℤ)) 10 (unshared 2) ∧
    smallTable.ConstructsSafely fourFrameConfig (fun _ : PageId => (0 : PageData ℤ ℤ)) 10 keptPage :=
  ⟨(constructs_safely_iff (Nat.le_refl 10) (.init (unshared_init 2))
      (construct_countsUp 0 (by decide +kernel))).mpr (.inl (by decide +kernel)),
    (constructs_safely_iff (Nat.le_refl 10) keptPage_reachable
      (construct_countsUp 0 (by decide +kernel))).mpr (.inl (by decide +kernel))⟩

/-- **With one frame it leaves the directory page pinned**, and the next `Insert` takes it for a bucket page: the
    first slot of the directory holds 0, which is its own page id. -/
theorem construct_unsafe : ¬ smallTable.ConstructsSafely (Session.fresh 1).pool.cfg
      (fun _ : PageId => (0 : PageData ℤ ℤ)) 10 (unshared 1) ∧
    ∃ pool, callPool .debug (smallTable.construct .debug 0) (unshared 1).pool = .ok ((0, false), pool) ∧
      (unshared 1).pool.pinCountOf 0 = 0 ∧ pool.pinCountOf 0 = 1 ∧
      ¬ Guarded (poolMachine .debug) (fun c t => ¬ t.AsBucket 0 c) (smallTable.insert .debug 0 0 7 10)
        ⟨pool, fun _ => none⟩ := by
  have hsee : (callPool .debug (smallTable.construct .debug 0) (unshared 1).pool).toOption.map (fun x => (x.1,
      x.2.pinCountOf 0, decide (Guarded (poolMachine .debug) (fun c t => ¬ t.AsBucket 0 c)
        (smallTable.insert .debug 0 0 7 10) ⟨x.2, fun _ => none⟩))) = some ((0, false), 1, false) := by
    decide +kernel
  obtain ⟨⟨ret, pool⟩, hcall, hseen⟩ := Option.map_eq_some_iff.mp hsee
  obtain ⟨hret, hrest⟩ := Prod.mk.inj hseen
  obtain ⟨hpins, hinsert⟩ := Prod.mk.inj hrest
  obtain rfl : ret = (0, false) := hret
  have hcall : callPool .debug (smallTable.construct .debug 0) (unshared 1).pool = .ok ((0, false), pool) :=
    eq_ok_of_toOption hcall
  refine ⟨fun hsafe => ?_, pool, hcall, rfl, hpins, of_decide_eq_false hinsert⟩
  rcases hsafe 0 0 false pool hcall with ⟨hdone, -⟩ | ⟨-, hleft⟩
  · cases hdone
  · have hsame : pool.pinCountOf 0 = (unshared 1).pool.pinCountOf 0 := hleft.pins 0
    rw [hpins] at hsame
    cases hsame

end HashTableType

end BusTub
