/-
  The latches of the table.

  1. **`latchRules`** are the rules that a job keeps: the table latch first, one page latch inside of it and
     nothing taken while that is held, everything given back, nothing done afterwards.  Every job keeps them in
     both builds (`job_latches`), whatever the pool answers.

  2. **`Ruled`** is what follows for a caller in a run: it holds what its stage says, so it takes latches in
     order (`Ruled.order`).

  3. `deadlock_free` — **the main result**: as long as a call is unfinished, some unfinished call is not
     blocked on a latch, and nobody asks for a latch that he holds.
-/
import BusTub.Table.Callers
import BusTub.Lib.Interface

set_option linter.unusedSectionVars false

namespace BusTub

open Command

/-! ## The rules of the latches -/

/-- How far a job is: before the table latch, under it, with a page latch, behind it; or a page was null. -/
inductive Stage where
  | out
  | shared
  | latched (m : Mode)
  | exclusive
  | done
  | aborted

/-- A job may use the pool and its pages. -/
inductive Stage.Inside : Stage → Prop where
  | shared : Inside .shared
  | latched (m : Mode) : Inside (.latched m)
  | exclusive : Inside .exclusive

/-- A job may fetch pages. -/
inductive Stage.Fetches : Stage → Prop where
  | shared : Fetches .shared
  | exclusive : Fetches .exclusive

/-- What an operation on a latch leads to. -/
inductive LatchOp.Moves : LatchOp → Stage → Stage → Prop
  | tableRLock : Moves .tableRLock .out .shared
  | tableRUnlock : Moves .tableRUnlock .shared .done
  | tableWLock : Moves .tableWLock .out .exclusive
  | tableWUnlock : Moves .tableWUnlock .exclusive .done
  | pageRLatch : Moves (.pageRLatch .bucketPage) .shared (.latched .shared)
  | pageRUnlatch : Moves (.pageRUnlatch .bucketPage) (.latched .shared) .shared
  | pageWLatch : Moves (.pageWLatch .bucketPage) .shared (.latched .exclusive)
  | pageWUnlatch : Moves (.pageWUnlatch .bucketPage) (.latched .exclusive) .shared

/-- Where any other command leads: an assert notices a null page. -/
def Stage.after (b : Build) (st : Stage) (gotNull : Bool) : Stage :=
  match b, gotNull with
  | .debug, true => .aborted
  | _, _ => st

/-- **The rules of the latches.** -/
def latchRules (b : Build) {K V : Type} : Interface (Cmd.Res (K := K) (V := V)) Stage where
  pre c st := match c with
    | .latch l => ∃ st', l.Moves st st'
    | .newPage _ => st.Fetches
    | .fetchPage _ _ => st.Fetches
    | _ => st.Inside
  post c st r st' := match c with
    | .latch l => l.Moves st st'
    | c => st' = st.after b (c.gotNull r)
  fails _ := True

/-- A program that leads from one stage to another. -/
def Goes (b : Build) {K V α : Type} (st : Stage) (p : TableProg K V α) (st' : Stage) : Prop :=
  Meets (latchRules b) (fun _ t => t = st') p st

namespace Goes

variable {K V α β : Type} {b : Build} {st st₁ st' : Stage}

/-- Two parts, the second from the stage that the first has reached. -/
theorem bind {p : TableProg K V α} {f : α → TableProg K V β} (h : Goes b st p st₁)
    (hf : ∀ a, Goes b st₁ (f a) st') : Goes b st (p >>= f) st' := by
  refine Meets.bind p st (Meets.mono (fun a t ht => ?_) p st h)
  subst ht
  exact hf a

/-- A value leaves the stage as it is. -/
theorem pure (a : α) : Goes b st (Pure.pure a : TableProg K V α) st := rfl

/-- So does a check, if it lets the program go on. -/
theorem check (x : Except Fault α) : Goes b st (TableProg.check x : TableProg K V α) st :=
  Meets.lift (fun _ _ => rfl) fun _ _ => trivial

/-- A latch moves from one stage to the next. -/
theorem latch {l : LatchOp} (h : l.Moves st st') : Goes b st (TableProg.latch l : TableProg K V Unit) st' := by
  refine Meets.call ⟨st', h⟩ fun _ t (ht : l.Moves st t) => ?_
  cases h <;> cases ht <;> rfl

/-- A command that does not ask for a page. -/
theorem command {c : Cmd K V} (hpre : (latchRules b).pre c st)
    (hpost : ∀ r t, (latchRules b).post c st r t → t = st.after b false) :
    Goes b st (Prog.call c : TableProg K V _) st := by
  refine Meets.call hpre fun r t ht => ?_
  rw [hpost r t ht]
  cases b <;> rfl

section inside

variable (h : st.Inside)
include h

/-- Pages are read between latches, -/
theorem load (v : PtrVar) : Goes b st (TableProg.load v : TableProg K V _) st := command h fun _ _ ht => ht

/-- and written there. -/
theorem store (v : PtrVar) (x : PageData K V) : Goes b st (TableProg.store v x) st := command h fun _ _ ht => ht

/-- Pins are given back at any stage inside, -/
theorem unpinPage (p : PageId) (d : Bool) : Goes b st (TableProg.unpinPage p d : TableProg K V _) st :=
  command h fun _ _ ht => ht

/-- and pages deleted. -/
theorem deletePage (p : PageId) : Goes b st (TableProg.deletePage p : TableProg K V _) st :=
  command h fun _ _ ht => ht

end inside

/-- An assertion stays at the stage of what it is about. -/
theorem assert {p : TableProg K V Bool} (h : Goes b st p st) : Goes b st (TableProg.assert_ b p) st := by
  cases b with
  | debug =>
    refine .bind h fun res => ?_
    cases res with
    | true => exact pure ()
    | false => exact trivial
  | ndebug => exact pure ()

/-- An assert that a page is not null: if the page was null, nothing follows. -/
theorem notNull {null : Bool} {f : Unit → TableProg K V α} (hf : Goes b st (f ()) st') :
    Goes b (st.after b null) (TableProg.check (assertThat b !null) >>= f) st' := by
  cases b with
  | debug =>
    cases null with
    | true => exact trivial
    | false => exact hf
  | ndebug => exact hf

/-- A fetch whose result is asserted; a caller without the page would have aborted. -/
theorem fetched (h : st.Fetches) (v : PtrVar) (p : PageId) : Goes b st (do
    let page ← TableProg.fetchPage v p
    TableProg.check (assertThat b page)
    Pure.pure page : TableProg K V Bool) st := by
  refine Meets.call_bind h fun page t ht => ?_
  rw [show t = st.after b (!page) from ht]
  have hrest : Goes b (st.after b !page) (do
      TableProg.check (assertThat b !!page)
      Pure.pure page : TableProg K V Bool) st := notNull (pure page)
  rwa [Bool.not_not] at hrest

/-- A new page whose result is asserted. -/
theorem newPage (h : st.Fetches) {v : PtrVar} {f : Option PageId → TableProg K V α}
    (hf : ∀ page, Goes b st (f page) st') : Goes b st (do
    let page ← TableProg.newPage v
    TableProg.check (assertThat b page.isSome)
    f page) st' := by
  refine Meets.call_bind h fun page t ht => ?_
  rw [show t = st.after b page.isNone from ht, ← Option.not_isNone]
  exact notNull (hf page)

end Goes

namespace HashTableType

open TableProg

variable {K V : Type} [Inhabited K] [Inhabited V] [DecidableEq K] [DecidableEq V]
variable {T : HashTableType K V} {b : Build} {dirId : PageId} {st : Stage}

/-- Reading the directory moves no latch, -/
theorem loadDirectory_goes (h : st.Inside) : Goes b st T.loadDirectory st := .bind (.load h _) fun _ => .pure _

/-- nor does reading a bucket, -/
theorem loadBucket_goes (h : st.Inside) (v : PtrVar) : Goes b st (T.loadBucket v) st :=
  .bind (.load h _) fun _ => .pure _

/-- nor an `UnpinPage` inside an `assert`, -/
theorem unpinPage_goes (h : st.Inside) (p : PageId) (d : Bool) :
    Goes b st (assert_ b (unpinPage p d) : TableProg K V Unit) st := .assert (.unpinPage h p d)

/-- nor that of the directory. -/
theorem unpinDirectory_goes (h : st.Inside) (d : Bool) : Goes b st (T.unpinDirectory b d) st :=
  .assert (.bind (loadDirectory_goes h) fun _ => .unpinPage h _ _)

/-- The head of an operation is run under the table latch alone. -/
theorem fetchFor_goes (hin : st.Inside) (h : st.Fetches) (key : K) : Goes b st (T.fetchFor b dirId key) st :=
  .bind (.fetched h _ _) fun _ => .bind (.check _) fun _ => .bind (loadDirectory_goes hin) fun _ =>
    .bind (.fetched h _ _) fun _ => .bind (.check _) fun _ => .pure _

/-- `GetValue`: table latch, page latch, and both released in the end. -/
theorem getValue_goes (key : K) (result : List V) : Goes b .out (T.getValue b dirId key result) .done :=
  .bind (.latch .tableRLock) fun _ => .bind (fetchFor_goes .shared .shared key) fun _ =>
    .bind (.latch .pageRLatch) fun _ => .bind (loadBucket_goes (.latched _) _) fun _ =>
    .bind (unpinDirectory_goes (.latched _) _) fun _ => .bind (unpinPage_goes (.latched _) _ _) fun _ =>
    .bind (.latch .pageRUnlatch) fun _ => .bind (.latch .tableRUnlock) fun _ => .pure _

/-- `Insert` up to its `SplitInsert`, on both of its branches. -/
theorem insertRegion_goes (key : K) (value : V) : Goes b .out (T.insertRegion b dirId key value) .done := by
  unfold insertRegion
  refine .bind (.latch .tableRLock) fun _ => .bind (fetchFor_goes .shared .shared key) fun _ =>
    .bind (.latch .pageWLatch) fun _ => .bind (loadBucket_goes (.latched _) _) fun _ => ?_
  split
  · exact .bind (.store (.latched _) _ _) fun _ => .bind (unpinDirectory_goes (.latched _) _) fun _ =>
      .bind (unpinPage_goes (.latched _) _ _) fun _ => .bind (.latch .pageWUnlatch) fun _ =>
      .bind (.latch .tableRUnlock) fun _ => .pure _
  · exact .bind (unpinPage_goes (.latched _) _ _) fun _ => .bind (unpinDirectory_goes (.latched _) _) fun _ =>
      .bind (.latch .pageWUnlatch) fun _ => .bind (.latch .tableRUnlock) fun _ => .pure _

/-- `Remove` up to its `Merge`. -/
theorem removeRegion_goes (key : K) (value : V) : Goes b .out (T.removeRegion b dirId key value) .done :=
  .bind (.latch .tableRLock) fun _ => .bind (fetchFor_goes .shared .shared key) fun _ =>
    .bind (.latch .pageWLatch) fun _ => .bind (loadBucket_goes (.latched _) _) fun _ =>
    .bind (.store (.latched _) _ _) fun _ => .bind (unpinPage_goes (.latched _) _ _) fun _ =>
    .bind (unpinDirectory_goes (.latched _) _) fun _ => .bind (.latch .pageWUnlatch) fun _ =>
    .bind (.latch .tableRUnlock) fun _ => .pure _

/-- A split moves its pairs under the table's write latch. -/
theorem redistribute_goes (p : PageId) : ∀ remaining arr_idx : ℕ,
    Goes b .exclusive (T.redistribute p remaining arr_idx) .exclusive := by
  intro remaining
  induction remaining with
  | zero => exact fun _ => .pure _
  | succ remaining ih =>
    intro arr_idx
    unfold redistribute
    refine .bind (loadBucket_goes .exclusive _) fun bucket => ?_
    split
    · refine .bind (loadDirectory_goes .exclusive) fun dir => ?_
      split
      · exact .bind (loadBucket_goes .exclusive _) fun split => .bind (.store .exclusive _ _) fun _ =>
          .bind (.store .exclusive _ _) fun _ => ih _
      · exact ih _
    · exact ih _

/-- A round of `SplitInsert` takes the table's write latch and no page latch. -/
theorem splitInsertRegion_goes (key : K) (value : V) :
    Goes b .out (T.splitInsertRegion b dirId key value) .done := by
  unfold splitInsertRegion
  refine .bind (.latch .tableWLock) fun _ => .bind (fetchFor_goes .exclusive .exclusive key) fun p =>
    .bind (loadDirectory_goes .exclusive) fun dir => .bind (loadBucket_goes .exclusive _) fun bucket => ?_
  split
  · exact .bind (.store .exclusive _ _) fun _ => .bind (unpinDirectory_goes .exclusive _) fun _ =>
      .bind (unpinPage_goes .exclusive _ _) fun _ => .bind (.latch .tableWUnlock) fun _ => .pure _
  · refine .bind (.check _) fun dir => ?_
    cases dir with
    | none =>
      exact .bind (unpinDirectory_goes .exclusive _) fun _ => .bind (unpinPage_goes .exclusive _ _) fun _ =>
        .bind (.latch .tableWUnlock) fun _ => .pure _
    | some dir =>
      have hlook : ∀ (v : PtrVar) (f : HashTableBucketPage K V → Bool),
          Goes b .exclusive (assert_ b (do let x ← T.loadBucket v; pure (f x))) .exclusive := fun v f =>
        .assert (.bind (loadBucket_goes .exclusive v) fun _ => .pure _)
      exact .bind (.store .exclusive _ _) fun _ => .newPage .exclusive fun page => .bind (.check _) fun dir =>
        .bind (.store .exclusive _ _) fun _ => .bind (hlook _ _) fun _ => .bind (hlook _ _) fun _ =>
        .bind (redistribute_goes _ _ _) fun _ => .bind (unpinDirectory_goes .exclusive _) fun _ =>
        .bind (unpinPage_goes .exclusive _ _) fun _ => .bind (unpinPage_goes .exclusive _ _) fun _ =>
        .bind (.latch .tableWUnlock) fun _ => .pure _

/-- So does `Merge`. -/
theorem merge_goes (key : K) : Goes b .out (T.merge b dirId key) .done := by
  have hback : ∀ p : PageId, Goes b .exclusive
      (do assert_ b (unpinPage p false); T.unpinDirectory b false; latch .tableWUnlock) .done := fun p =>
    .bind (unpinPage_goes .exclusive _ _) fun _ => .bind (unpinDirectory_goes .exclusive _) fun _ => .latch .tableWUnlock
  unfold merge
  refine .bind (.latch .tableWLock) fun _ => .bind (fetchFor_goes .exclusive .exclusive key) fun p =>
    .bind (loadDirectory_goes .exclusive) fun dir => .bind (loadBucket_goes .exclusive _) fun bucket => ?_
  split
  · exact hback p
  · refine .bind (.check _) fun _ => ?_
    split
    · exact hback p
    · exact .bind (.check _) fun _ => .bind (unpinPage_goes .exclusive _ _) fun _ =>
        .bind (.assert (.deletePage .exclusive _)) fun _ => .bind (.check _) fun _ => .bind (.check _) fun _ =>
        .bind (.store .exclusive _ _) fun _ => .bind (unpinDirectory_goes .exclusive _) fun _ => .latch .tableWUnlock

/-- `GetGlobalDepth` takes the table's read latch, -/
theorem getGlobalDepth_goes : Goes b .out (T.getGlobalDepth b dirId) .done :=
  .bind (.latch .tableRLock) fun _ => .bind (.fetched .shared _ _) fun _ =>
    .bind (loadDirectory_goes .shared) fun _ => .bind (unpinPage_goes .shared _ _) fun _ =>
    .bind (.latch .tableRUnlock) fun _ => .pure _

/-- and so does `VerifyIntegrity`. -/
theorem verifyIntegrity_goes : Goes b .out (T.verifyIntegrity b dirId) .done :=
  .bind (.latch .tableRLock) fun _ => .bind (.fetched .shared _ _) fun _ =>
    .bind (loadDirectory_goes .shared) fun _ => .bind (.check _) fun _ =>
    .bind (unpinPage_goes .shared _ _) fun _ => .latch .tableRUnlock

/-- **Every job keeps the rules of the latches.** -/
theorem job_latches (x : Job K V) : Goes b .out (T.jobProg b dirId x) .done := by
  cases x with
  | region x =>
    cases x with
    | entry c =>
      cases c with
      | insert key value =>
        refine .bind (insertRegion_goes key value) fun res => ?_
        cases res <;> exact .pure _
      | remove key value => exact .bind (removeRegion_goes key value) fun _ => .pure _
      | getValue key result => exact .bind (getValue_goes key result) fun _ => .pure _
    | splitInsert key value =>
      refine .bind (splitInsertRegion_goes key value) fun res => ?_
      cases res <;> exact .pure _
    | merge key value res => exact .bind (merge_goes key) fun _ => .pure _
  | getGlobalDepth => exact .bind getGlobalDepth_goes fun _ => .pure _
  | verifyIntegrity => exact .bind verifyIntegrity_goes fun _ => .pure _

/-! ## What a caller holds -/

variable {ι Disk : Type} [DecidableEq ι] [Fintype ι] [DiskManager Disk (PageData K V)]
variable {w w' : World ι Disk K V} {i : ι} {e : Act ι K V}

/-- What a caller holds at a stage. -/
def HoldsAt (w : World ι Disk K V) (i : ι) : Stage → Prop
  | .out => ∀ x, w.held x i = none
  | .shared => w.held .table i = some .shared ∧ ∀ f, w.held (.page f) i = none
  | .latched m => w.held .table i = some .shared ∧ ∃ f, w.ptr i .bucketPage = some f ∧
      ∀ g, w.held (.page g) i = if g = f then some m else none
  | .exclusive => w.held .table i = some .exclusive ∧ ∀ f, w.held (.page f) i = none
  | .done => ∀ x, w.held x i = none
  | .aborted => True

/-- A caller is somewhere in a job, and holds what it may hold there. -/
def Ruled (b : Build) (w : World ι Disk K V) (i : ι) : Prop :=
  match w.prog i with
  | none => HoldsAt w i .out
  | some p => ∃ st, Goes b st p .done ∧ HoldsAt w i st

/-- What a caller holds depends on that caller only, -/
theorem HoldsAt.same {j : ι} {st : Stage} (h : HoldsAt w j st) (hsame : SameCaller w w' j) : HoldsAt w' j st := by
  cases st <;> simp only [HoldsAt, hsame.held, hsame.ptr] at h ⊢ <;> exact h

/-- and so does the rest of its program. -/
theorem Ruled.same {j : ι} (h : Ruled b w j) (hsame : SameCaller w w' j) : Ruled b w' j := by
  unfold Ruled at h ⊢
  rw [hsame.prog]
  split at h
  · next hprog => exact h.same hsame
  · next p hprog =>
    obtain ⟨st, hgoes, hholds⟩ := h
    exact ⟨st, hgoes, hholds.same hsame⟩

/-- What is left of a program tells which latches its caller holds. -/
theorem Ruled.prog {p : JobProg K V} (h : Ruled b w i) (hprog : w.prog i = some p) :
    ∃ st, Goes b st p .done ∧ HoldsAt w i st := by
  unfold Ruled at h
  rwa [hprog] at h

/-- A caller that stands at a stage and has the rest of its program before it. -/
theorem ruled_of {p : JobProg K V} (st : Stage) (hprog : w.prog i = some p) (hgoes : Goes b st p .done)
    (hholds : HoldsAt w i st) : Ruled b w i := by
  unfold Ruled
  rw [hprog]
  exact ⟨st, hgoes, hholds⟩

/-- A caller that starts a job holds nothing. -/
theorem ruled_start (h : HoldsAt w i .out) (x : Job K V) : Ruled b (w.start i (T.jobProg b dirId x)) i :=
  ruled_of .out (w.start_prog i _) (job_latches x) h

/-- A latch is taken or given back. -/
theorem HoldsAt.hold {l : LatchOp} {x : Latch} {st st' : Stage} (h : HoldsAt w i st) (hmoves : l.Moves st st')
    (hlatch : l.latch (w.ptr i) = some x) (p : Option (JobProg K V)) :
    HoldsAt ((w.hold i x l.mode).goOn i p) i st' := by
  have hheld : ∀ y, ((w.hold i x l.mode).goOn i p).held y i = if y = x then l.mode else w.held y i := by
    intro y
    refine (w.hold_held i x l.mode y i).trans ?_
    simp only [and_true]
  cases hmoves with
  | tableRLock =>
    cases hlatch
    exact ⟨hheld .table, fun f => (hheld (.page f)).trans (h (.page f))⟩
  | tableWLock =>
    cases hlatch
    exact ⟨hheld .table, fun f => (hheld (.page f)).trans (h (.page f))⟩
  | tableRUnlock =>
    cases hlatch
    intro y
    cases y with
    | table => exact hheld .table
    | page f => exact (hheld (.page f)).trans (h.2 f)
  | tableWUnlock =>
    cases hlatch
    intro y
    cases y with
    | table => exact hheld .table
    | page f => exact (hheld (.page f)).trans (h.2 f)
  | pageRLatch | pageWLatch =>
    obtain ⟨f, hf, rfl⟩ := Option.map_eq_some_iff.mp hlatch
    refine ⟨(hheld .table).trans h.1, f, hf, fun g => ?_⟩
    rw [hheld, h.2 g]
    simp [LatchOp.mode]
  | pageRUnlatch | pageWUnlatch =>
    obtain ⟨f, hf, rfl⟩ := Option.map_eq_some_iff.mp hlatch
    obtain ⟨htable, f', hf', hpage⟩ := h
    obtain rfl : f' = f := Option.some.inj (hf'.symm.trans hf)
    refine ⟨(hheld .table).trans htable, fun g => ?_⟩
    rw [hheld, hpage g]
    simp [LatchOp.mode]

/-- Only a command that asks for a page changes a pointer. -/
theorem poolMachine_ptr {c : Cmd K V} {r : Cmd.Res c} {s t : PoolStore Disk K V} {st : Stage}
    (hpre : (latchRules b).pre c st) (hst : ¬ st.Fetches) (hc : ∀ l, c ≠ .latch l)
    (hrun : poolMachine b c s = .ok (r, t)) : t.ptr = s.ptr := by
  cases c with
  | newPage v => exact absurd hpre hst
  | fetchPage v p => exact absurd hpre hst
  | latch l => exact absurd rfl (hc l)
  | load v => rw [(poolMachine_load hrun).1]
  | store v x =>
    obtain ⟨f, -, rfl⟩ := poolMachine_store hrun
    rfl
  | unpinPage p d =>
    obtain ⟨⟨ret, pool⟩, -, hret⟩ := except_bind_inv hrun
    cases hret
    rfl
  | deletePage p =>
    obtain ⟨⟨ret, pool⟩, -, hret⟩ := except_bind_inv hrun
    cases hret
    rfl

/-- A command that went to the pool. -/
theorem HoldsAt.accessed {c : Cmd K V} {r : Cmd.Res c} {t : PoolStore Disk K V} {st : Stage} (h : HoldsAt w i st)
    (hpre : (latchRules b).pre c st) (hc : ∀ l, c ≠ .latch l)
    (hrun : poolMachine b c ⟨w.pool, w.ptr i⟩ = .ok (r, t)) (p : Option (JobProg K V)) :
    HoldsAt ((w.accessed i c r t).goOn i p) i (st.after b (c.gotNull r)) := by
  have hafter : st.after b (c.gotNull r) = .aborted ∨ st.after b (c.gotNull r) = st := by
    cases b <;> cases c.gotNull r
    · exact .inr rfl
    · exact .inl rfl
    · exact .inr rfl
    · exact .inr rfl
  rcases hafter with he | he
  · rw [he]
    trivial
  · rw [he]
    cases st with
    | latched m =>
      obtain ⟨htable, f, hf, hpage⟩ := h
      refine ⟨htable, f, ?_, hpage⟩
      show Function.update w.ptr i t.ptr i .bucketPage = some f
      rw [Function.update_self, poolMachine_ptr hpre (by rintro ⟨⟩) hc hrun]
      exact hf
    | _ => exact h

/-- **An act keeps its caller to the rules.** -/
theorem Turn.ruled (h : T.Turn b dirId w e w') (hr : Ruled b w e.caller) : Ruled b w' e.caller := by
  cases h with
  | @call i c hprog =>
    replace hr : Ruled b w i := hr
    unfold Ruled at hr
    rw [hprog] at hr
    exact ruled_start hr _
  | next hprog =>
    obtain ⟨st, rfl, hholds⟩ := hr.prog hprog
    exact ruled_start hholds _
  | @ret i r hprog =>
    obtain ⟨st, rfl, hholds⟩ := hr.prog hprog
    show Ruled b (w.goOn i none) i
    unfold Ruled
    rw [w.goOn_prog]
    exact hholds
  | @fault i c k e hprog =>
    exact ruled_of .aborted (w.goOn_prog i (some (.fail e))) trivial trivial
  | latch hprog hlatch hmode =>
    subst hmode
    obtain ⟨st, ⟨⟨st', hmoves⟩, hgoes⟩, hholds⟩ := hr.prog hprog
    exact ruled_of st' (World.goOn_prog ..) (hgoes () st' hmoves) (hholds.hold hmoves hlatch _)
  | @access i c k r t hprog hc hrun =>
    obtain ⟨st, ⟨hpre, hgoes⟩, hholds⟩ := hr.prog hprog
    have hpost : (latchRules b).post c st r (st.after b (c.gotNull r)) := by
      cases c with
      | latch l => exact absurd rfl (hc l)
      | _ => rfl
    exact ruled_of _ (World.goOn_prog ..) (hgoes r _ hpost) (hholds.accessed hpre hc hrun _)

/-- **Every caller keeps to the rules in every reachable state.** -/
theorem callers_ruled {pool : BufferPoolManagerInstance Disk (PageData K V)}
    {allowed : World ι Disk K V → Act ι K V → Prop} (h : (callers ι T b dirId pool allowed).Reachable w) (i : ι) :
    Ruled b w i := by
  refine h.invariant (I := fun w => ∀ i, Ruled b w i) ?_ (fun w e w' hr hstep i => ?_) i
  · rintro w rfl i x
    rfl
  · have hturn := turn_of_act hstep.2
    by_cases hi : i = e.caller
    · exact hi ▸ hturn.ruled (hr _)
    · exact (hr i).same (hturn.others hi)

/-! ## Nobody is stuck -/

/-- Who wants a latch has the command for it next. -/
theorem wanted_inv {x : Latch} {m : Mode} (h : w.wanted i = some (x, m)) :
    ∃ l k, w.prog i = some (.cmd (.latch l) k) ∧ l.latch (w.ptr i) = some x ∧ l.mode = some m := by
  unfold World.wanted at h
  split at h
  · next l k hprog =>
    obtain ⟨y, hy, h⟩ := Option.bind_eq_some_iff.mp h
    obtain ⟨m', hm', h⟩ := Option.bind_eq_some_iff.mp h
    cases h
    exact ⟨l, k, hprog, hy, hm'⟩
  · cases h

/-- **Latches are taken in order**: before the table latch a caller holds nothing, and before a page latch no
    other page latch. -/
theorem Ruled.order (h : Ruled b w i) {x : Latch} {m : Mode} (hwant : w.wanted i = some (x, m)) :
    (x = .table ∧ ∀ y, w.held y i = none) ∨ ((∃ f, x = .page f) ∧ ∀ f, w.held (.page f) i = none) := by
  obtain ⟨l, k, hprog, hlatch, hmode⟩ := wanted_inv hwant
  obtain ⟨st, ⟨⟨st', hmoves⟩, -⟩, hholds⟩ := h.prog hprog
  cases hmoves with
  | tableRLock => exact .inl ⟨(Option.some.inj hlatch).symm, hholds⟩
  | tableWLock => exact .inl ⟨(Option.some.inj hlatch).symm, hholds⟩
  | pageRLatch =>
    obtain ⟨f, -, rfl⟩ := Option.map_eq_some_iff.mp hlatch
    exact .inr ⟨⟨f, rfl⟩, hholds.2⟩
  | pageWLatch =>
    obtain ⟨f, -, rfl⟩ := Option.map_eq_some_iff.mp hlatch
    exact .inr ⟨⟨f, rfl⟩, hholds.2⟩
  | _ => cases hmode

/-- Nobody asks for a latch that he holds. -/
theorem Ruled.fresh (h : Ruled b w i) {x : Latch} {m : Mode} (hwant : w.wanted i = some (x, m)) :
    w.held x i = none := by
  rcases h.order hwant with ⟨-, hnone⟩ | ⟨⟨f, rfl⟩, hnone⟩
  · exact hnone x
  · exact hnone f

/-- Who wants something has not finished. -/
theorem wanted_unfinished {y : Latch × Mode} (h : w.wanted i = some y) : w.Unfinished i := by
  obtain ⟨l, k, hprog, -, -⟩ := wanted_inv h
  intro hnone
  rw [hprog] at hnone
  cases hnone

/-- Only a caller in the middle of a call holds a latch. -/
theorem Ruled.unfinished (h : Ruled b w i) {x : Latch} (hheld : w.held x i ≠ none) : w.Unfinished i := by
  intro hnone
  unfold Ruled at h
  rw [hnone] at h
  exact hheld (h x)

/-- **A latch that nobody holds is to be had by somebody who waits for it**: by a writer, if there is one. -/
theorem free_latch {x : Latch} {m : Mode} (hfree : ∀ j, w.held x j = none) (hwant : w.wanted i = some (x, m)) :
    ∃ j, w.Unfinished j ∧ ¬ w.Blocked j := by
  have hgrants : ∀ m, w.Grants x m := by
    intro m
    cases m with
    | shared => exact fun j => by rw [hfree j]; exact nofun
    | exclusive => exact hfree
  by_cases hwriter : ∃ j, w.wanted j = some (x, .exclusive)
  · obtain ⟨j, hj⟩ := hwriter
    refine ⟨j, wanted_unfinished hj, ?_⟩
    rintro ⟨y, m', hy, hwait⟩
    rw [hj] at hy
    cases hy
    rcases hwait with hno | ⟨hmode, -⟩
    · exact hno (hgrants _)
    · cases hmode
  · refine ⟨i, wanted_unfinished hwant, ?_⟩
    rintro ⟨y, m', hy, hwait⟩
    rw [hwant] at hy
    cases hy
    rcases hwait with hno | ⟨-, hsome⟩
    · exact hno (hgrants _)
    · exact hwriter hsome

/-- A caller that is not blocked can act, unless the process was aborted. -/
theorem act_of_not_blocked (hun : w.Unfinished i) (hfree : ¬ w.Blocked i) (halive : ¬ w.Aborted) :
    ∃ w', T.act b dirId w (.advance i) = some w' := by
  cases hprog : w.prog i with
  | none => exact absurd hprog hun
  | some p =>
    cases p with
    | ret y =>
      simp only [act, if_neg halive, hprog]
      cases y with
      | inl x => exact ⟨_, rfl⟩
      | inr r => exact ⟨_, rfl⟩
    | fail e => exact absurd ⟨i, by rw [hprog]; rfl⟩ halive
    | cmd c k =>
      have hcommand : ∃ y, w.command i b c = some y := by
        by_cases hc : ∃ l, c = .latch l
        · obtain ⟨l, rfl⟩ := hc
          simp only [World.command, World.latchOp]
          split
          · exact ⟨_, rfl⟩
          · next x hlatch =>
            split
            · exact ⟨_, rfl⟩
            · next m hmode =>
              have hwant : w.wanted i = some (x, m) := by simp [World.wanted, hprog, hlatch, hmode]
              have hgrants : w.Grants x m := by
                by_contra hno
                exact hfree ⟨x, m, hwant, .inl hno⟩
              exact ⟨_, if_pos hgrants⟩
        · exact ⟨_, command_access fun l he => hc ⟨l, he⟩⟩
      obtain ⟨y, hy⟩ := hcommand
      simp only [act, if_neg halive, hprog, hy]
      cases y with
      | ok y => exact ⟨_, rfl⟩
      | error e => exact ⟨_, rfl⟩

/-- **No deadlock.**  In every reachable state with an unfinished call some unfinished call is not blocked on a
    latch, so that it can act unless a failed assert has ended the process; and nobody asks for a latch that he
    holds. -/
theorem deadlock_free {pool : BufferPoolManagerInstance Disk (PageData K V)}
    {allowed : World ι Disk K V → Act ι K V → Prop} (h : (callers ι T b dirId pool allowed).Reachable w) :
    ((∃ i, w.Unfinished i) → ∃ i, w.Unfinished i ∧ ¬ w.Blocked i ∧
      (¬ w.Aborted → ∃ w', T.act b dirId w (.advance i) = some w')) ∧
    ∀ i x m, w.wanted i = some (x, m) → w.held x i = none := by
  have hruled := callers_ruled h
  refine ⟨fun hun => ?_, fun i x m hwant => (hruled i).fresh hwant⟩
  suffices hsome : ∃ i, w.Unfinished i ∧ ¬ w.Blocked i by
    obtain ⟨i, hi, hfree⟩ := hsome
    exact ⟨i, hi, hfree, act_of_not_blocked hi hfree⟩
  by_contra hno
  have hblocked : ∀ i, w.Unfinished i → w.Blocked i := fun i hi => by
    by_contra hfree
    exact hno ⟨i, hi, hfree⟩
  -- who holds a page latch waits for nothing
  have hpage : ∀ f i, w.held (.page f) i = none := by
    intro f i
    by_contra hheld
    obtain ⟨x, m, hwant, -⟩ := hblocked i ((hruled i).unfinished hheld)
    rcases (hruled i).order hwant with ⟨-, hnone⟩ | ⟨-, hnone⟩
    · exact hheld (hnone _)
    · exact hheld (hnone f)
  -- so nobody waits for a page latch, and who holds the table latch waits for nothing either
  have htable : ∀ i x m, w.wanted i = some (x, m) → x = .table ∧ w.held .table i = none := by
    intro i x m hwant
    rcases (hruled i).order hwant with ⟨rfl, hnone⟩ | ⟨⟨f, rfl⟩, -⟩
    · exact ⟨rfl, hnone _⟩
    · exact absurd (free_latch (hpage f) hwant) hno
  have hfree : ∀ i, w.held .table i = none := by
    intro i
    by_contra hheld
    obtain ⟨x, m, hwant, -⟩ := hblocked i ((hruled i).unfinished hheld)
    exact hheld (htable i x m hwant).2
  obtain ⟨i, hi⟩ := hun
  obtain ⟨x, m, hwant, -⟩ := hblocked i hi
  obtain ⟨rfl, -⟩ := htable i x m hwant
  exact hno (free_latch hfree hwant)

/-- One caller is about to split a bucket while the other reads. -/
def splitBesideReader : List (Act Bool ℤ ℤ) :=
  .call false (.call (.insert 0 7)) :: List.replicate 13 (.advance false) ++
  .call false (.call (.insert 2 7)) :: List.replicate 12 (.advance false) ++
  [.call true (.call (.getValue 0 [])), .advance true]

/-- It waits for the reader, which does not wait. -/
theorem deadlock_free_two : ∃ pool w, callPool .debug (oneSlotTable.construct .debug 0) emptyPool =
      .ok ((0, true), pool) ∧
    (callers Bool oneSlotTable .debug 0 pool fun _ _ => True).Reachable w ∧
    w.Blocked false ∧ ∃ i, w.Unfinished i ∧ ¬ w.Blocked i := by
  have hsee : observe (fun _ _ => True) splitBesideReader (fun w => (w.wanted false, w.held .table true)) =
      some ((0, true), some (.table, .exclusive), some .shared) := by decide +kernel
  obtain ⟨pool, w, hopen, hrun, hw⟩ := observe_run hsee
  obtain ⟨hwant, hheld⟩ := Prod.mk.inj hw
  have hreach : (callers Bool oneSlotTable .debug 0 pool fun _ _ => True).Reachable w := ⟨_, _, rfl, hrun⟩
  obtain ⟨hsome, -⟩ := deadlock_free hreach
  obtain ⟨i, hi, hfree, -⟩ := hsome ⟨false, wanted_unfinished hwant⟩
  refine ⟨pool, w, hopen, hreach, ⟨_, _, hwant, .inl fun hgrants => ?_⟩, i, hi, hfree⟩
  rw [hgrants true] at hheld
  cases hheld

end HashTableType

end BusTub
