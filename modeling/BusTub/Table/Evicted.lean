/-
  Latched frames and eviction.

  `GetValue`, `Insert` and `Remove` give the pin of their bucket back before its latch.  In between the frame is
  latched but not pinned, so the pool may put another page into it.

  1. **`LatchesPages`** says that it does not: who holds a page latch finds its page in the latched frame.

  2. **`between`** is the stretch of code where it may happen: what is left of the caller's job comes to its page
     unlatch without another `UnpinPage` of the bucket page.  Everywhere else a page that is latched is pinned too
     (`Accounted.between_of_unpinned`), in whatever order a method gives the two back.

  3. **`latches_iff_spares`**: one act keeps the frames exactly when it evicts none that is latched.

  4. `latched_pages_stay` — **the main result**: latched frames keep their pages in every run in which no page is
     evicted while a caller is on that stretch.  `latched_page_evicted` is a run in which one is.
-/
import BusTub.Table.Pinned
import BusTub.Table.Requests
import BusTub.Buffer.Victims

set_option linter.unusedSectionVars false

namespace BusTub

open Command BufferPoolManagerInstance

/-- The call to the pool that a command makes. -/
def Cmd.poolCall {K V : Type} : Cmd K V → Option Call
  | .newPage _ => some .newPg
  | .fetchPage _ p => some (.fetchPg p)
  | .unpinPage p d => some (.unpinPg p d)
  | .deletePage p => some (.deletePg p)
  | _ => none

/-- Whether a command settles that page `q` stays as it is up to the page unlatch: the unlatch does, and so does an
    `UnpinPage` of the page. -/
def Cmd.settles {K V : Type} (q : PageId) : Cmd K V → Option Bool
  | .latch l => some (l = .pageRUnlatch .bucketPage ∨ l = .pageWUnlatch .bucketPage)
  | .unpinPage p _ => if p = q then some false else none
  | _ => none

/-- What a command does to the page table it does by a call. -/
theorem poolMachine_table {Disk K V : Type} [DiskManager Disk (PageData K V)] {b : Build} {c : Cmd K V} {r : Cmd.Res c}
    {t t' : PoolStore Disk K V} (h : t.pool.Consistent) (hrun : poolMachine b c t = .ok (r, t')) :
    (∃ call ret, c.poolCall = some call ∧ t.pool.Effect call ret t'.pool) ∨
      c.poolCall = none ∧ t'.pool.pageTable = t.pool.pageTable := by
  cases c with
  | newPage v =>
    obtain ⟨⟨ret, pool⟩, hexec, hret⟩ := except_bind_inv hrun
    cases hret
    exact .inl ⟨_, ret, rfl, exec_effect h hexec⟩
  | fetchPage v p =>
    obtain ⟨⟨ret, pool⟩, hexec, hret⟩ := except_bind_inv hrun
    cases hret
    exact .inl ⟨_, ret, rfl, exec_effect h hexec⟩
  | unpinPage p d =>
    obtain ⟨⟨ret, pool⟩, hexec, hret⟩ := except_bind_inv hrun
    cases hret
    exact .inl ⟨_, ret, rfl, exec_effect h hexec⟩
  | deletePage p =>
    obtain ⟨⟨ret, pool⟩, hexec, hret⟩ := except_bind_inv hrun
    cases hret
    exact .inl ⟨_, ret, rfl, exec_effect h hexec⟩
  | load v =>
    obtain ⟨rfl, -⟩ := poolMachine_load hrun
    exact .inr ⟨rfl, rfl⟩
  | store v x =>
    obtain ⟨f, -, rfl⟩ := poolMachine_store hrun
    exact .inr ⟨rfl, rfl⟩
  | latch l =>
    cases hrun
    exact .inr ⟨rfl, rfl⟩

/-! ## Latched frames -/

namespace World

variable {ι Disk K V : Type} [DiskManager Disk (PageData K V)] (w : World ι Disk K V)

/-- **Who holds a page latch finds its page in the latched frame.** -/
def LatchesPages : Prop :=
  ∀ i f m, w.held (.page f) i = some m → ∃ p, w.page i .bucketPage = some p ∧ w.pool.pageTable p = some f

/-- The frame that a caller's next command evicts. -/
def evicts (i : ι) : Option FrameId :=
  match w.prog i with
  | some (.cmd c _) => c.poolCall.bind w.pool.evicts
  | _ => none

/-- An act evicts no frame that somebody has latched. -/
def Spares : Act ι K V → Prop
  | .call _ _ => True
  | .advance i => ∀ f ∈ w.evicts i, ∀ j, w.held (.page f) j = none

/-- What is left of a job comes to its page unlatch, and page `q` is not unpinned before. -/
def leaves (q : PageId) : JobProg K V → PoolStore Disk K V → Bool
  | .cmd c k, t =>
    match c.settles q with
    | some res => res
    | none =>
      match poolMachine .debug c t with
      | .ok (r, t') => leaves q (k r) t'
      | .error _ => false
  | _, _ => false

/-- **A caller is between its `UnpinPage` and its page unlatch.** -/
def between (i : ι) : Bool :=
  match w.prog i, w.page i .bucketPage with
  | some p, some q => leaves q p ⟨w.pool, w.ptr i⟩
  | _, _ => false

/-- An act evicts no page while a caller is between its `UnpinPage` and its page unlatch. -/
def Calm : Act ι K V → Prop
  | .call _ _ => True
  | .advance i => w.evicts i ≠ none → ∀ j, w.between j = false

instance [Fintype ι] : (e : Act ι K V) → Decidable (w.Calm e)
  | .call _ _ => isTrue trivial
  | .advance i => inferInstanceAs (Decidable (w.evicts i ≠ none → ∀ j, w.between j = false))

variable {w} {w' : World ι Disk K V}

/-- Nothing was latched or moved. -/
theorem LatchesPages.kept (h : w.LatchesPages)
    (hheld : ∀ i f m, w'.held (.page f) i = some m →
      w.held (.page f) i = some m ∧ w'.page i .bucketPage = w.page i .bucketPage)
    (hpool : ∀ p f i, w.held (.page f) i ≠ none → w.pool.pageTable p = some f → w'.pool.pageTable p = some f) :
    w'.LatchesPages := by
  intro i f m hm
  obtain ⟨hm', hpage⟩ := hheld i f m hm
  obtain ⟨p, hp, hf⟩ := h i f m hm'
  exact ⟨p, hpage.trans hp, hpool p f i (by rw [hm']; exact nofun) hf⟩

end World

/-! ## One act -/

namespace HashTableType

variable {ι Disk K V : Type} [DecidableEq ι] [Fintype ι] [DiskManager Disk (PageData K V)] [LawfulDiskManager Disk]
variable [Inhabited K] [Inhabited V] [DecidableEq K] [DecidableEq V]
variable {T : HashTableType K V} {cfg : PoolConfig} {b : Build} {dirId : PageId} {w w' : World ι Disk K V}
  {P : Pages K V} {seat : ι → Seat K V} {i : ι} {e : Act ι K V} {f : FrameId}

/-- Who holds a page latch is in the middle of a job, as a reader. -/
theorem Ruled.latched (h : Ruled b w i) (halive : ¬ w.Aborted) (hheld : w.held (.page f) i ≠ none) :
    ∃ p m, w.prog i = some p ∧ Goes b (.latched m) p .done ∧ w.held .table i = some .shared := by
  cases hprog : w.prog i with
  | none =>
    unfold Ruled at h
    rw [hprog] at h
    exact absurd (h (.page f)) hheld
  | some p =>
    obtain ⟨st, hgoes, hholds⟩ := h.prog hprog
    cases st with
    | out => exact absurd (hholds (.page f)) hheld
    | shared => exact absurd (hholds.2 f) hheld
    | latched m => exact ⟨p, m, rfl, hgoes, hholds.1⟩
    | exclusive => exact absurd (hholds.2 f) hheld
    | done => exact absurd (hholds (.page f)) hheld
    | aborted =>
      obtain ⟨e, rfl⟩ := aborted_fails hgoes
      exact absurd ⟨i, by rw [hprog]; rfl⟩ halive

/-- Nor does it ask for another page. -/
theorem Ruled.latched_keeps (h : Ruled b w i) (halive : ¬ w.Aborted) (hheld : w.held (.page f) i ≠ none)
    {c : Cmd K V} {k : Cmd.Res c → JobProg K V} (hprog : w.prog i = some (.cmd c k)) :
    (∀ page r, c.pageAfter page r = page) ∧ w.evicts i = none := by
  obtain ⟨p, m, hp, hgoes, -⟩ := h.latched halive hheld
  obtain rfl : .cmd c k = p := Option.some.inj (hprog.symm.trans hp)
  obtain ⟨hpre, -⟩ := hgoes
  simp only [World.evicts, hprog]
  cases c with
  | newPage v => cases hpre
  | fetchPage v p => cases hpre
  | _ => exact ⟨fun page r => rfl, rfl⟩

/-- A writer's page is nobody's latched page. -/
theorem Accounted.not_deletes (h : Accounted T cfg dirId w P seat) (hruled : ∀ i, Ruled .debug w i)
    (hcounts : w.Counts (.advance i)) {p : PageId} {k : Bool → JobProg K V}
    (hprog : w.prog i = some (.cmd (.deletePage p) k)) {j : ι} : w.held (.page f) j = none := by
  by_contra hheld
  obtain ⟨-, -, -, -, htable⟩ := (hruled j).latched h.not_aborted hheld
  obtain ⟨m, s, r, s', hview, hgentle, -⟩ := h.access hprog (fun l => nofun) hcounts
  have hmode : (seat i).view.mode = some m := by rw [hview]; rfl
  cases m with
  | shared => exact hgentle rfl
  | exclusive =>
    rw [(h.seated j).table] at htable
    by_cases hj : j = i
    · subst hj
      rw [hmode] at htable
      cases htable
    · rw [h.alone i hmode j hj] at htable
      cases htable

/-- A page latch is taken on the frame of the page that the variable points to. -/
theorem Accounted.takes (h : Accounted T cfg dirId w P seat) {l : LatchOp} {k : Unit → JobProg K V} {m : Mode}
    (hprog : w.prog i = some (.cmd (.latch l) k)) (hlatch : l.latch (w.ptr i) = some (.page f))
    (hmode : l.mode = some m) : ∃ p, w.page i .bucketPage = some p ∧ w.pool.pageTable p = some f := by
  have hmay := h.may hprog
  obtain ⟨m', s, hview⟩ := hmay.inside (fun he => by cases he; cases hlatch) (fun he => by cases he; cases hlatch)
  rw [hview] at hmay
  have hgrip := (h.seated i).grip m' s hview
  cases hmay with
  | tableRUnlock => cases hlatch
  | tableWUnlock => cases hlatch
  | access hc => exact absurd rfl (hc l)
  | give hl => cases hl <;> cases hmode
  | @take _ _ j hl hj =>
    obtain ⟨hmem, hptr⟩ := CheckedStore.holdOf_ok hj
    refine ⟨j.page, hgrip.page .bucketPage j hmem hptr, ?_⟩
    have hframe : l.latch (w.ptr i) = some (.page ((seat i).frameOf j.token)) := by
      have hset := hgrip.ptr .bucketPage j.token hptr
      cases hl <;> simp [LatchOp.latch, hset]
    obtain rfl : (seat i).frameOf j.token = f := Latch.page.inj (Option.some.inj (hframe.symm.trans hlatch))
    apply h.backs.linked.pin_frame (pinOf (seat i).frameOf j)
    show pinOf (seat i).frameOf j ∈ allPins seat
    refine (mem_allPins seat).mpr ⟨i, ?_⟩
    rw [Seat.pins, hview]
    exact List.mem_map_of_mem hmem

/-- A command that goes to the pool. -/
theorem Accounted.latches_access (h : Accounted T cfg dirId w P seat) (hruled : ∀ i, Ruled .debug w i)
    (hcounts : w.Counts (.advance i)) (hl : w.LatchesPages) {c : Cmd K V} {k : Cmd.Res c → JobProg K V}
    {r : Cmd.Res c} {t : PoolStore Disk K V} (hprog : w.prog i = some (.cmd c k))
    (hrun : poolMachine .debug c ⟨w.pool, w.ptr i⟩ = .ok (r, t)) :
    ((w.accessed i c r t).goOn i (some (k r))).LatchesPages ↔ w.Spares (.advance i) := by
  have hinv := h.backs.linked.inv
  -- who holds a page latch does not change the pointer it was found through
  have hpage : ∀ j f, w.held (.page f) j ≠ none →
      ((w.accessed i c r t).goOn i (some (k r))).page j .bucketPage = w.page j .bucketPage := by
    intro j f hheld
    show Function.update w.page i (c.pageAfter (w.page i) r) j .bucketPage = w.page j .bucketPage
    by_cases hj : j = i
    · subst hj
      rw [Function.update_self, ((hruled j).latched_keeps h.not_aborted hheld hprog).1]
    · rw [Function.update_of_ne hj]
  have hevicts : w.evicts i = c.poolCall.bind w.pool.evicts := by simp only [World.evicts, hprog]
  constructor
  · -- if the latched frame lost its page, the latch would be on no page's frame afterwards
    intro hl' f hf j
    by_contra hheld
    obtain ⟨m, hm⟩ := Option.ne_none_iff_exists'.mp hheld
    obtain ⟨p, hp, hframe⟩ := hl j f m hm
    obtain ⟨p', hp', hframe'⟩ := hl' j f m hm
    obtain rfl : p = p' := Option.some.inj (hp.symm.trans ((hpage j f hheld).symm.trans hp'))
    rw [hevicts] at hf
    obtain ⟨call, hcall, hf⟩ := Option.bind_eq_some_iff.mp hf
    rcases poolMachine_table hinv.toConsistent hrun with ⟨call', ret, hcall', he⟩ | ⟨hnone, -⟩
    · obtain rfl : call = call' := Option.some.inj (hcall.symm.trans hcall')
      exact hinv.lost he hframe hf hframe'
    · rw [hnone] at hcall
      cases hcall
  · -- a page leaves its frame by eviction or by deletion, and nobody deletes a latched page
    refine fun hspares => hl.kept (fun j f m hm => ⟨hm, hpage j f (fun hno => ?_)⟩) fun p f j hheld hframe => ?_
    · rw [show w.held (.page f) j = some m from hm] at hno
      cases hno
    · show t.pool.pageTable p = some f
      rcases poolMachine_table hinv.toConsistent hrun with ⟨call, ret, hcall, he⟩ | ⟨-, htable⟩
      · refine hinv.kept he hframe ?_ fun hf => hheld (hspares f ?_ j)
        · rintro rfl
          cases c with
          | deletePage q => exact hheld (h.not_deletes hruled hcounts hprog)
          | _ => cases hcall
        · rw [hevicts, hcall]
          exact hf
      · rw [htable]
        exact hframe

/-- **One act keeps every latched frame's page exactly if it spares the latched frames.** -/
theorem Accounted.latches_iff_spares (h : Accounted T cfg dirId w P seat) (hruled : ∀ i, Ruled .debug w i)
    (hl : w.LatchesPages) (hcounts : w.Counts e) (hturn : T.Turn .debug dirId w e w') :
    w'.LatchesPages ↔ w.Spares e := by
  have halive := h.not_aborted
  -- an act that begins or ends a job: its caller has no latch
  have hquiet : w'.held = w.held → w'.pool = w.pool → (∀ f, w.held (.page f) e.caller = none) → w'.LatchesPages := by
    intro hheld hpool hnone
    refine hl.kept (fun j f m hm => ?_) fun p f j _ hp => hpool ▸ hp
    rw [hheld] at hm
    refine ⟨hm, ?_⟩
    have hj : j ≠ e.caller := by
      rintro rfl
      rw [hnone f] at hm
      cases hm
    rw [(hturn.others hj).page]
  have hret : ∀ {i y}, w.prog i = some (.ret y) → ∀ f, w.held (.page f) i = none := by
    intro i y hprog f
    by_contra hheld
    obtain ⟨p, m, hp, hgoes, -⟩ := (hruled i).latched halive hheld
    obtain rfl : .ret y = p := Option.some.inj (hprog.symm.trans hp)
    cases hgoes
  have hspares : ∀ {i}, w.evicts i = none → w.Spares (.advance i) := by
    intro i hnone f hf
    rw [hnone] at hf
    cases hf
  cases hturn with
  | @call i c hprog =>
    refine ⟨fun _ => trivial, fun _ => hquiet rfl rfl fun f => ?_⟩
    by_contra hheld
    obtain ⟨p, m, hp, -⟩ := (hruled i).latched halive hheld
    rw [hprog] at hp
    cases hp
  | next hprog => exact ⟨fun _ => hspares (by simp only [World.evicts, hprog]), fun _ => hquiet rfl rfl (hret hprog)⟩
  | ret hprog => exact ⟨fun _ => hspares (by simp only [World.evicts, hprog]), fun _ => hquiet rfl rfl (hret hprog)⟩
  | @latch i l k x m hprog hlatch hmode hgrants =>
    refine ⟨fun _ => hspares (by simp [World.evicts, hprog, Cmd.poolCall]), fun _ j f m' hm => ?_⟩
    replace hm := (w.hold_held i x m (.page f) j).symm.trans hm
    split at hm
    · next hself =>
      obtain ⟨rfl, rfl⟩ := hself
      exact h.takes hprog hlatch (hmode.trans hm)
    · exact hl j f m' hm
  | access hprog hc hrun => exact h.latches_access hruled hcounts hl hprog hrun
  | fault hprog hrun =>
    obtain ⟨⟨r, t, hok⟩, hset⟩ := h.no_fault hprog hcounts
    rcases hrun with hrun | ⟨l, rfl, hnull⟩
    · cases hok.symm.trans hrun
    · exact absurd hnull (hset l rfl)

/-! ## Pinned or about to leave -/

/-- **Without a pin a reader is about to leave**: whoever holds a page latch, and has no pin of page `q`, comes to its
    page unlatch without an `UnpinPage` of it. -/
theorem leaves_of_unpinned {others : List Pin} {q : PageId} {m : Mode} (p : JobProg K V) :
    ∀ {s : CheckedStore K V} {P : Pages K V} {t : PoolStore Disk K V} {frameOf : ℕ → FrameId},
      Goes .debug (.latched m) p .done → T.KeepsRules cfg.idAt dirId p (.inside .shared s) →
      Rely dirId .shared s.pages P → CarriedWith cfg frameOf others { s with pages := P } t →
      cfg.idAt P.next < 2 ^ 31 → (∀ k ∈ s.holds, k.page ≠ q) → World.leaves q p t = true := by
  induction p with
  | ret x =>
    intro s P t frameOf hgoes
    cases hgoes
  | fail e =>
    intro s P t frameOf _ hrules
    cases hrules
  | cmd c k ih =>
    intro s P t frameOf hgoes hrules hrely hcarried hlt hnone
    obtain ⟨hpre, hgo⟩ := hgoes
    obtain ⟨hmay, hnext⟩ := hrules
    -- a call or an access that does not ask for a page: the pool does what the view says
    have haccess : (∀ l, c ≠ .latch l) → (∀ s : CheckedStore K V, s.Granted cfg.poolSize others c) →
        c.settles q = none →
        (∀ r, (latchRules .debug).post c (.latched m) r (.latched m)) → t.Counts c →
        (∀ r s', checkedMachine cfg.idAt 3 c { s with pages := P } = .ok (r, s') → ∀ k ∈ s'.holds, k.page ≠ q) →
        World.leaves q (.cmd c k) t = true := by
      intro hc hgrant hsettles hstage hcounts hholds
      cases hmay with
      | access _ _ hok =>
        obtain ⟨r, s', hrun⟩ := hok P hrely
        have hlt' := hcarried.counts hlt hrun hcounts
        obtain ⟨t', hpool, frameOf', hcarried'⟩ := hcarried.granted .debug hrun hlt' (hgrant _)
        have hrest := ih r (hgo r _ (hstage r)) (hnext r _ (.access hc hrely hrun)) (.refl ..) hcarried' hlt'
          (hholds r s' hrun)
        simp only [World.leaves, hsettles, hpool]
        exact hrest
      | _ => exact absurd rfl (hc _)
    cases c with
    | newPage v => cases hpre
    | fetchPage v p => cases hpre
    | deletePage p =>
      cases hmay with
      | access _ hgentle _ => exact absurd (hgentle rfl) id
    | unpinPage p d =>
      have hne : p ≠ q := by
        rintro rfl
        cases hmay with
        | access _ _ hok =>
          obtain ⟨r, s', hrun⟩ := hok P hrely
          obtain ⟨h, hmem, hpage, -⟩ := unpinPage_ok hrun
          exact hnone h hmem hpage
      refine haccess (fun _ => nofun) (fun _ => trivial) (if_neg hne) (fun _ => rfl) trivial fun r s' hrun => ?_
      obtain ⟨h, -, -, -, -, rfl⟩ := unpinPage_ok hrun
      exact fun k hk => hnone k (List.mem_of_mem_erase hk)
    | load v =>
      refine haccess (fun _ => nofun) (fun _ => trivial) rfl (fun _ => rfl) trivial fun r s' hrun => ?_
      obtain ⟨h, -, -, -, rfl⟩ := load_ok hrun
      exact hnone
    | store v x =>
      refine haccess (fun _ => nofun) (fun _ => trivial) rfl (fun _ => rfl) trivial fun r s' hrun => ?_
      obtain ⟨h, -, -, rfl⟩ := store_ok hrun
      intro k' hk'
      obtain ⟨k₀, hk₀, rfl⟩ := List.mem_map.mp hk'
      rw [markWrote_page]
      exact hnone k₀ hk₀
    | latch l =>
      obtain ⟨st, hmoves⟩ := hpre
      cases hmoves <;> rfl

/-- **A page that is latched is pinned, or its caller is between its `UnpinPage` and its page unlatch.** -/
theorem Accounted.between_of_unpinned (h : Accounted T cfg dirId w P seat) (hruled : Ruled .debug w i)
    (hheld : w.held (.page f) i ≠ none) {q : PageId} (hq : w.page i .bucketPage = some q)
    (hzero : w.pool.pinCountOf q = 0) : w.between i = true := by
  obtain ⟨p, m, hprog, hgoes, htable⟩ := hruled.latched h.not_aborted hheld
  obtain ⟨s, hview⟩ : ∃ s, (seat i).view = .inside .shared s := by
    rw [(h.seated i).table] at htable
    cases hv : (seat i).view with
    | inside m' s =>
      rw [hv] at htable
      cases htable
      exact ⟨s, rfl⟩
    | _ =>
      rw [hv] at htable
      cases htable
  have hrules := (h.seated i).rules p hprog
  rw [hview] at hrules
  have hgrip := (h.seated i).grip _ s hview
  have hbacks : Backs cfg P (s.holds.map (pinOf (seat i).frameOf) ++ otherPins seat i) w.pool := by
    have hpins : (seat i).pins = s.holds.map (pinOf (seat i).frameOf) := by rw [Seat.pins, hview]; rfl
    rw [← hpins]
    exact h.backs.perm (allPins_perm seat i)
  have hnone : ∀ k ∈ s.holds, k.page ≠ q := by
    rintro k hk rfl
    refine absurd hzero (h.pinned_iff.mpr ((mem_pinnedPages seat).mpr ⟨i, k, ?_, rfl⟩))
    rw [hview]
    exact hk
  simp only [World.between, hprog, hq]
  exact leaves_of_unpinned p hgoes hrules hgrip.rely (hgrip.carried hbacks) h.count hnone

/-- What an act evicts has no pin. -/
theorem Accounted.evicts_unpinned (h : Accounted T cfg dirId w P seat) {q : PageId}
    (hq : w.pool.pageTable q = some f) (hevicts : w.evicts i = some f) : w.pool.pinCountOf q = 0 := by
  have hlast : ∀ {call : Call}, w.pool.evicts call = some f → w.pool.replacer.tracked.getLast? = some f := by
    intro call hcall
    cases call with
    | newPg => exact (Option.ite_none_right_eq_some.mp hcall).2
    | fetchPg p => exact (Option.ite_none_right_eq_some.mp hcall).2
    | _ => cases hcall
  obtain ⟨call, hcall⟩ : ∃ call, w.pool.evicts call = some f := by
    unfold World.evicts at hevicts
    split at hevicts
    · obtain ⟨call, -, hcall⟩ := Option.bind_eq_some_iff.mp hevicts
      exact ⟨call, hcall⟩
    · cases hevicts
  rw [pinCountOf_some hq]
  exact h.backs.linked.inv.tracked_unpinned f (List.mem_of_getLast? (hlast hcall))

/-- **An act that evicts nothing while a caller is on its way from the one to the other spares the latched frames.** -/
theorem Accounted.spares_of_calm (h : Accounted T cfg dirId w P seat) (hruled : ∀ i, Ruled .debug w i)
    (hl : w.LatchesPages) (hcalm : w.Calm e) : w.Spares e := by
  cases e with
  | call i c => exact trivial
  | advance i =>
    intro f hf j
    by_contra hheld
    obtain ⟨m, hm⟩ := Option.ne_none_iff_exists'.mp hheld
    obtain ⟨q, hq, hframe⟩ := hl j f m hm
    have hbetween := h.between_of_unpinned (hruled j) hheld hq (h.evicts_unpinned hframe hf)
    have hnot := hcalm (by rw [show w.evicts i = some f from hf]; exact Option.some_ne_none f) j
    rw [hbetween] at hnot
    cases hnot

/-! ## Runs -/

/-- **A latched frame keeps its page** over a pool of any size, in every run in which no page is evicted while a
    caller is between its `UnpinPage` and its page unlatch. -/
theorem latched_pages_stay (hcount : cfg.idAt 2 < 2 ^ 31) {disk : Disk} {dir₀ : PageId}
    {pool : BufferPoolManagerInstance Disk (PageData K V)}
    (hopen : callPool .debug (T.construct .debug dir₀) (create cfg disk) = .ok ((dirId, true), pool))
    (h : (callers ι T .debug dirId pool fun w e => w.Counts e ∧ w.Calm e).Reachable w) : w.LatchesPages := by
  -- where a run leads is reachable, so the acts before it are accounted for
  suffices hall : (callers ι T .debug dirId pool fun w e => w.Counts e ∧ w.Calm e).Reachable w ∧ w.LatchesPages from hall.2
  refine h.invariant (I := fun w => (callers ι T .debug dirId pool _).Reachable w ∧ w.LatchesPages) ?_ ?_
  · rintro w rfl
    exact ⟨.init rfl, fun i f m hm => by cases hm⟩
  · rintro w e w' ⟨hreach, hl⟩ hstep
    refine ⟨hreach.step hstep, ?_⟩
    obtain ⟨⟨hcounts, hcalm⟩, hact⟩ := hstep
    have hruled := callers_ruled hreach
    rcases callers_accounted hcount hopen (fun w e he => he.1) hreach with ⟨P, seat, hw⟩ | ⟨haborted, -⟩
    · exact (hw.latches_iff_spares hruled hl hcounts (turn_of_act hact)).mpr (hw.spares_of_calm hruled hl hcalm)
    · exact absurd haborted (alive_of_act hact)

/-- One caller stores two pairs, which splits the bucket twice.  Before the last round of the second insertion the
    other caller looks the first pair up, up to where the page latch is held and the pin is not. -/
def lookUp : List (Act Bool ℤ ℤ) :=
  .call false (.call (.insert 0 7)) :: List.replicate 13 (.advance false) ++
  .call false (.call (.insert 2 7)) :: List.replicate 62 (.advance false) ++
  .call true (.call (.getValue 0 [])) :: List.replicate 9 (.advance true)

/-- Three frames have to do for four pages, but nothing is evicted on the last stretch: the frame keeps its page. -/
theorem latched_pages_stay_two : ∃ pool w, callPool .debug (oneSlotTable.construct .debug 0) emptyPool =
      .ok ((0, true), pool) ∧
    (callers Bool oneSlotTable .debug 0 pool fun w e => w.Counts e ∧ w.Calm e).Reachable w ∧
    w.pool.nextPageId = 4 ∧ w.held (.page 1) true = some .shared ∧ w.between true = true ∧ w.pool.pinCountOf 1 = 0 ∧
    w.LatchesPages := by
  have hsee : observe (fun w e => w.Counts e ∧ w.Calm e) lookUp
      (fun w => (w.pool.nextPageId, w.held (.page 1) true, w.between true, w.pool.pinCountOf 1)) =
      some ((0, true), 4, some .shared, true, 0) := by decide +kernel
  obtain ⟨pool, w, hopen, hrun, hw⟩ := observe_run hsee
  simp only [Prod.mk.injEq] at hw
  obtain ⟨hnext, hheld, hbetween, hpin⟩ := hw
  have hreach : (callers Bool oneSlotTable .debug 0 pool fun w e => w.Counts e ∧ w.Calm e).Reachable w :=
    ⟨_, _, rfl, hrun⟩
  exact ⟨pool, w, hopen, hreach, hnext, hheld, hbetween, hpin,
    latched_pages_stay (show threeFrames.idAt 2 < 2 ^ 31 by decide) hopen hreach⟩

/-- Then the insertion ends, and its caller looks up what is on the page of the first split. -/
def lookUpBeside : List (Act Bool ℤ ℤ) :=
  lookUp ++ List.replicate 13 (.advance false) ++
  .call false (.call (.getValue 1 [])) :: List.replicate 4 (.advance false)

/-- **It does not hold in every run**: over three frames the page of the first look-up is evicted under its
    latch, and the frame given to the page of the second one. -/
theorem latched_page_evicted : ∃ pool w, callPool .debug (oneSlotTable.construct .debug 0) emptyPool =
      .ok ((0, true), pool) ∧
    (callers Bool oneSlotTable .debug 0 pool World.Counts).Reachable w ∧
    w.held (.page 1) true = some .shared ∧ w.page true .bucketPage = some 1 ∧
    w.pool.pageTable 1 = none ∧ (w.pool.pages 1).pageId = 2 ∧ ¬ w.LatchesPages := by
  have hsee : observe World.Counts lookUpBeside (fun w =>
      (w.held (.page 1) true, w.page true .bucketPage, w.pool.pageTable 1, (w.pool.pages 1).pageId)) =
      some ((0, true), some .shared, some 1, none, 2) := by decide +kernel
  obtain ⟨pool, w, hopen, hrun, hw⟩ := observe_run hsee
  simp only [Prod.mk.injEq] at hw
  obtain ⟨hheld, hpage, hgone, hother⟩ := hw
  refine ⟨pool, w, hopen, ⟨_, _, rfl, hrun⟩, hheld, hpage, hgone, hother, fun hl => ?_⟩
  obtain ⟨p, hp, hframe⟩ := hl true 1 .shared hheld
  obtain rfl : 1 = p := Option.some.inj (hpage.symm.trans hp)
  rw [hgone] at hframe
  cases hframe

end HashTableType

end BusTub
