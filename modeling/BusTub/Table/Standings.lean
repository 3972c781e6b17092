/-
  Where a caller stands in its job, seen from the pages alone.

  A job takes effect in one command: a writer's when it gets the table latch, since it is alone from there on;
  a reader's when it stores its bucket, or when it loads it and does not store it.

  1. **`Ends`** says what the end of a job means: which region comes next, or what the call returns.

  2. **`Standing`** says of a caller, command by command, whether its job has taken effect, and how the rest of
     the job comes out over the ideal store.

  3. **`Accounted.stores_apart`**: two callers that are about to store a bucket store two buckets.
-/
import BusTub.Table.Pinned
import BusTub.Table.Looks

set_option linter.unusedSectionVars false

namespace BusTub

open Command HashPartition

/-! ## Jobs and regions -/

/-- The call that a region belongs to. -/
def Region.call {K V : Type} : Region K V → TableCall K V
  | .entry c => c
  | .splitInsert key value => .insert key value
  | .merge key value _ => .remove key value

/-- The call that a job belongs to. -/
def Job.origin {K V : Type} : Job K V → PublicCall K V
  | .region x => .call x.call
  | .getGlobalDepth => .getGlobalDepth
  | .verifyIntegrity => .verifyIntegrity

/-- The phase of a caller before a job. -/
def Job.phase {K V : Type} : Job K V → Phase K V
  | .region x => .before x
  | .getGlobalDepth => .idle
  | .verifyIntegrity => .idle

/-- What the end of a job means for the phase of its caller, which made the call `c`. -/
inductive Ends {K V : Type} : Phase K V → PublicCall K V → Job K V ⊕ PublicRet V → Prop where
  | next (x : Region K V) : Ends (.before x) (.call x.call) (.inl (.region x))
  | ret (c : TableCall K V) (r : TableRet V) : Ends (.returning c r) (.call c) (.inr (.call r))
  | audit {c : PublicCall K V} (r : PublicRet V) (hc : ∀ c', c ≠ .call c') : Ends .idle c (.inr r)

namespace HashTableType

variable {K V : Type} [Inhabited K] [Inhabited V] [DecidableEq K] [DecidableEq V]
variable {T : HashTableType K V} {ids : ℕ → PageId} {b : Build} {dirId : PageId} {P P' : Pages K V}

theorem callIdeal_inv {α : Type} {p : TableProg K V α} {a : α} (h : callIdeal ids p P = .ok (a, P')) :
    ∃ ptr, run (idealMachine ids) p ⟨P, fun _ => none⟩ = .ok (a, ⟨P', ptr⟩) := by
  unfold callIdeal at h
  split at h
  · next a' s hrun =>
    cases h
    exact ⟨s.ptr, hrun⟩
  · cases h

/-- **A region is the run of its job.** -/
theorem runRegion_job {x : Region K V} {y : Phase K V} (h : T.runRegion ids b dirId x P = .ok (y, P')) :
    ∃ a ptr, run (idealMachine ids) (T.jobProg b dirId (.region x)) ⟨P, fun _ => none⟩ = .ok (a, ⟨P', ptr⟩) ∧
      Ends y (.call x.call) a := by
  cases x with
  | entry c =>
    cases c with
    | insert key value =>
      obtain ⟨⟨res, Q⟩, hcall, h⟩ := except_bind_inv h
      obtain ⟨ptr, hrun⟩ := callIdeal_inv hcall
      cases res with
      | some res =>
        cases h
        exact ⟨_, ptr, run_bind_ok hrun _, .ret ..⟩
      | none =>
        cases h
        exact ⟨_, ptr, run_bind_ok hrun _, .next (.splitInsert key value)⟩
    | remove key value =>
      obtain ⟨⟨res, Q⟩, hcall, h⟩ := except_bind_inv h
      obtain ⟨ptr, hrun⟩ := callIdeal_inv hcall
      cases h
      exact ⟨_, ptr, run_bind_ok hrun _, .next (.merge key value res)⟩
    | getValue key result =>
      obtain ⟨⟨res, Q⟩, hcall, h⟩ := except_bind_inv h
      obtain ⟨ptr, hrun⟩ := callIdeal_inv hcall
      cases h
      exact ⟨_, ptr, run_bind_ok hrun _, .ret ..⟩
  | splitInsert key value =>
    obtain ⟨⟨res, Q⟩, hcall, h⟩ := except_bind_inv h
    obtain ⟨ptr, hrun⟩ := callIdeal_inv hcall
    cases res with
    | some res =>
      cases h
      exact ⟨_, ptr, run_bind_ok hrun _, .ret ..⟩
    | none =>
      cases h
      exact ⟨_, ptr, run_bind_ok hrun _, .next (.entry (.insert key value))⟩
  | merge key value res =>
    obtain ⟨⟨u, Q⟩, hcall, h⟩ := except_bind_inv h
    obtain ⟨ptr, hrun⟩ := callIdeal_inv hcall
    cases h
    exact ⟨_, ptr, run_bind_ok hrun _, .ret ..⟩

/-- A job of its own ends with the return of its call. -/
theorem audit_ends {y : Job K V} (hy : ∀ x, y ≠ .region x) {s t : IdealStore K V} {a : Job K V ⊕ PublicRet V}
    (h : run (idealMachine ids) (T.jobProg b dirId y) s = .ok (a, t)) : Ends y.phase y.origin a := by
  cases y with
  | region x => exact absurd rfl (hy x)
  | getGlobalDepth =>
    obtain ⟨depth, s', -, hret⟩ := run_bind_inv h
    cases hret
    exact .audit _ fun _ => nofun
  | verifyIntegrity =>
    obtain ⟨u, s', -, hret⟩ := run_bind_inv h
    cases hret
    exact .audit _ fun _ => nofun

/-! ## Where a caller stands -/

variable {ι Disk : Type} [DecidableEq ι] [Fintype ι] [DiskManager Disk (PageData K V)]

/-- Who holds a latch exclusively holds it alone. -/
def Apart (w : World ι Disk K V) : Prop := ∀ x i j, i ≠ j → w.held x i = some .exclusive → w.held x j = none

/-- A caller has the page latch of its bucket's frame. -/
def HoldsBucket (w : World ι Disk K V) (i : ι) (m : Mode) : Prop :=
  ∃ f, w.ptr i .bucketPage = some f ∧ w.held (.page f) i = some m

/-- **Where a caller stands.**  The pages are `P`; `s` has the pages and phases that all jobs have come to which
    took effect. -/
inductive Standing (T : HashTableType K V) (ids : ℕ → PageId) (dirId : PageId) (w : World ι Disk K V)
    (made : ι → Option (PublicCall K V)) (P : Pages K V) (s : Shared ι K V) (i : ι) : Prop where
  | rest (hprog : w.prog i = none) (hphase : s.phase i = .idle)
  | waiting {y : Job K V} (hprog : w.prog i = some (T.jobProg .debug dirId y)) (htable : w.held .table i = none)
      (hpage : w.page i = fun _ => none) (hphase : s.phase i = y.phase) (hmade : made i = some y.origin)
  | searching {x : Region K V} {p : JobProg K V} {l : Option Mode} (hprog : w.prog i = some p)
      (htable : w.held .table i = some .shared) (hlooks : Looks dirId (.search l) p .settled)
      (hat : AtDirectory dirId (w.page i)) (hlatch : ∀ m, l = some m → HoldsBucket w i m)
      (hphase : s.phase i = .before x) (hmade : made i = some (.call x.call))
      (hrun : ∀ Q : Pages K V, Q.mem dirId = P.mem dirId → run (idealMachine ids) p ⟨Q, w.page i⟩ =
        run (idealMachine ids) (T.jobProg .debug dirId (.region x)) ⟨Q, fun _ => none⟩)
  | storing {x : Region K V} {d : PageData K V} {k : Unit → JobProg K V}
      (hprog : w.prog i = some (.cmd (.store .bucketPage d) k)) (htable : w.held .table i = some .shared)
      (hlooks : Looks dirId .settled (k ()) .settled) (hat : AtDirectory dirId (w.page i))
      (hlatch : HoldsBucket w i .exclusive) (hphase : s.phase i = .before x) (hmade : made i = some (.call x.call))
      (hrun : ∀ Q : Pages K V, Q.mem dirId = P.mem dirId → (∀ q, w.page i .bucketPage = some q → Q.mem q = P.mem q) →
        run (idealMachine ids) (.cmd (.store .bucketPage d) k) ⟨Q, w.page i⟩ =
          run (idealMachine ids) (T.jobProg .debug dirId (.region x)) ⟨Q, fun _ => none⟩)
  | settled {c : PublicCall K V} {p : JobProg K V} (hprog : w.prog i = some p)
      (htable : w.held .table i = some .shared) (hlooks : Looks dirId .settled p .settled)
      (hat : AtDirectory dirId (w.page i)) (hmade : made i = some c)
      (hends : ∀ a t, run (idealMachine ids) p ⟨P, w.page i⟩ = .ok (a, t) → Ends (s.phase i) c a)
  | writing {c : PublicCall K V} {p : JobProg K V} {a : Job K V ⊕ PublicRet V} {t : IdealStore K V}
      (hprog : w.prog i = some p) (htable : w.held .table i = some .exclusive)
      (hrun : run (idealMachine ids) p ⟨P, w.page i⟩ = .ok (a, t)) (hpages : t.pages = s.pages)
      (hmade : made i = some c) (hends : Ends (s.phase i) c a)
  | done {c : PublicCall K V} {a : Job K V ⊕ PublicRet V} (hprog : w.prog i = some (.ret a))
      (htable : w.held .table i = none) (hmade : made i = some c) (hends : Ends (s.phase i) c a)

variable {w w' : World ι Disk K V} {made made' : ι → Option (PublicCall K V)} {s s' : Shared ι K V} {i j : ι}

/-- Nobody else holds what a latch operation grants exclusively. -/
theorem Apart.hold (h : Apart w) {x : Latch} {m : Option Mode} (hgrants : ∀ m', m = some m' → w.Grants x m')
    (p : Option (JobProg K V)) : Apart ((w.hold i x m).goOn i p) := by
  intro y a b hab hy
  replace hy := (w.hold_held i x m y a).symm.trans hy
  refine (w.hold_held i x m y b).trans ?_
  by_cases hyx : y = x
  · subst hyx
    by_cases hai : a = i
    · rw [if_pos ⟨rfl, hai⟩] at hy
      rw [if_neg fun he => hab (hai.trans he.2.symm)]
      exact hgrants .exclusive hy b
    · rw [if_neg fun he => hai he.2] at hy
      by_cases hbi : b = i
      · rw [if_pos ⟨rfl, hbi⟩]
        cases m with
        | none => rfl
        | some m =>
          have hfree := hgrants m rfl
          cases m with
          | shared => exact absurd hy (hfree a)
          | exclusive => cases (hfree a).symm.trans hy
      · rw [if_neg fun he => hbi he.2]
        exact h y a b hab hy
  · rw [if_neg fun he => hyx he.1] at hy ⊢
    exact h y a b hab hy

/-- A caller that did nothing stands where it stood, if its directory and its bucket are as they were. -/
theorem Standing.same (h : Standing T ids dirId w made P s j) (hsame : SameCaller w w' j) (hmade' : made' j = made j)
    (hphase' : s'.phase j = s.phase j) (hdir : w.held .table j = some .shared → P'.mem dirId = P.mem dirId)
    (hbucket : ∀ d k q, w.prog j = some (.cmd (.store .bucketPage d) k) → w.held .table j = some .shared →
      HoldsBucket w j .exclusive → w.page j .bucketPage = some q → P'.mem q = P.mem q)
    (hwriter : w.held .table j = some .exclusive → P' = P ∧ s'.pages = s.pages) :
    Standing T ids dirId w' made' P' s' j := by
  have hholds : ∀ m, HoldsBucket w j m → HoldsBucket w' j m := by
    rintro m ⟨f, hf, hheld⟩
    exact ⟨f, hsame.ptr ▸ hf, (hsame.held _).trans hheld⟩
  cases h with
  | rest hprog hphase => exact .rest (hsame.prog.trans hprog) (hphase'.trans hphase)
  | waiting hprog htable hpage hphase hmade =>
    exact .waiting (hsame.prog.trans hprog) ((hsame.held _).trans htable) (hsame.page.trans hpage)
      (hphase'.trans hphase) (hmade'.trans hmade)
  | searching hprog htable hlooks hat hlatch hphase hmade hrun =>
    refine .searching (hsame.prog.trans hprog) ((hsame.held _).trans htable) hlooks (hsame.page ▸ hat)
      (fun m hm => hholds m (hlatch m hm)) (hphase'.trans hphase) (hmade'.trans hmade) fun Q hQ => ?_
    rw [hsame.page]
    exact hrun Q (hQ.trans (hdir htable))
  | @storing x d k hprog htable hlooks hat hlatch hphase hmade hrun =>
    refine .storing (hsame.prog.trans hprog) ((hsame.held _).trans htable) hlooks (hsame.page ▸ hat)
      (hholds _ hlatch) (hphase'.trans hphase) (hmade'.trans hmade) fun Q hQ hQq => ?_
    rw [hsame.page] at hQq ⊢
    exact hrun Q (hQ.trans (hdir htable)) fun q hq => (hQq q hq).trans (hbucket d k q hprog htable hlatch hq)
  | settled hprog htable hlooks hat hmade hends =>
    refine .settled (hsame.prog.trans hprog) ((hsame.held _).trans htable) hlooks (hsame.page ▸ hat)
      (hmade'.trans hmade) fun a t hrun => ?_
    rw [hsame.page] at hrun
    rw [hphase']
    exact hends a _ (hlooks.settled_run hat hrun (hdir htable).symm).2
  | writing hprog htable hrun hpages hmade hends =>
    obtain ⟨rfl, hs⟩ := hwriter htable
    refine .writing (hsame.prog.trans hprog) ((hsame.held _).trans htable) (hsame.page ▸ hrun) (hpages.trans hs.symm)
      (hmade'.trans hmade) ?_
    rw [hphase']
    exact hends
  | done hprog htable hmade hends =>
    refine .done (hsame.prog.trans hprog) ((hsame.held _).trans htable) (hmade'.trans hmade) ?_
    rw [hphase']
    exact hends

/-! ## The pages under the callers -/

variable [LawfulDiskManager Disk] {cfg : PoolConfig} {seat : ι → Seat K V}

/-- **What the pool does for a caller** the ideal store does for its pages. -/
theorem Accounted.ideal (h : Accounted T cfg dirId w P seat) {c : Cmd K V} {m : Mode} {x x' : CheckedStore K V}
    {r : Cmd.Res c} (hview : (seat i).view = .inside m x)
    (hrun : checkedMachine cfg.idAt 3 c { x with pages := P } = .ok (r, x')) :
    idealMachine cfg.idAt c ⟨P, w.page i⟩ = .ok (r, ⟨x'.pages, c.pageAfter (w.page i) r⟩) := by
  have hgrip := (h.seated i).grip m x hview
  have hmatch : Matches { x with pages := P } (⟨P, w.page i⟩ : IdealStore K V) :=
    ⟨.refl P, hgrip.fresh, hgrip.ptr_fresh, hgrip.page⟩
  obtain ⟨t, hideal, -⟩ := hmatch.step c _ _ r x' hrun
  have hpages := hmatch.step_pages c _ _ r r x' t rfl hrun hideal
  rw [hideal, ← hpages, ← ideal_ptr hideal]

/-- Where a caller stores its bucket. -/
theorem Accounted.store_page (h : Accounted T cfg dirId w P seat) {d : PageData K V} {k : Unit → JobProg K V}
    (hprog : w.prog i = some (.cmd (.store .bucketPage d) k)) : ∃ q f, w.page i .bucketPage = some q ∧
      w.ptr i .bucketPage = some f ∧ w.pool.pageTable q = some f := by
  have hmay := h.may hprog
  obtain ⟨m, x, hview⟩ := hmay.inside nofun nofun
  rw [hview] at hmay
  have hgrip := (h.seated i).grip m x hview
  cases hmay with
  | access hc hgentle hok =>
    obtain ⟨r, x', hrun⟩ := hok P hgrip.rely
    obtain ⟨hold, hmem, hptr, -⟩ := store_ok hrun
    refine ⟨hold.page, (seat i).frameOf hold.token, hgrip.page _ hold hmem hptr, hgrip.ptr _ _ hptr, ?_⟩
    have hpin : pinOf (seat i).frameOf hold ∈ allPins seat := by
      refine (mem_allPins seat).mpr ⟨i, ?_⟩
      rw [Seat.pins, hview]
      exact List.mem_map_of_mem hmem
    exact h.backs.linked.pin_frame _ hpin

/-- **Two callers that are about to store a bucket** store two buckets. -/
theorem Accounted.stores_apart (h : Accounted T cfg dirId w P seat) (hapart : Apart w) (hij : i ≠ j)
    {d d' : PageData K V} {k k' : Unit → JobProg K V} (hi : w.prog i = some (.cmd (.store .bucketPage d) k))
    (hj : w.prog j = some (.cmd (.store .bucketPage d') k')) (hlatch : HoldsBucket w i .exclusive)
    (hlatch' : HoldsBucket w j .exclusive) : w.page i .bucketPage ≠ w.page j .bucketPage := by
  obtain ⟨q, f, hq, hf, htable⟩ := h.store_page hi
  obtain ⟨q', f', hq', hf', htable'⟩ := h.store_page hj
  obtain ⟨g, hg, hheld⟩ := hlatch
  obtain ⟨g', hg', hheld'⟩ := hlatch'
  obtain rfl := Option.some.inj (hf.symm.trans hg)
  obtain rfl := Option.some.inj (hf'.symm.trans hg')
  intro he
  obtain rfl := Option.some.inj (hq.symm.trans (he.trans hq'))
  obtain rfl := Option.some.inj (htable.symm.trans htable')
  cases (hapart _ i j hij hheld).symm.trans hheld'

end HashTableType

end BusTub
