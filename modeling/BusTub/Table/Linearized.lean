/-
  Callers that take turns command by command are linearizable.

  `Concurrent` takes a latched region for one step.  Here every command is a step, over the pool, and what makes
  the regions atomic is the latches alone.

  1. **`logged`** is the system of `Callers` with a log of the calls made and of the results returned.

  2. **`InStep`**: the pages of the pool are those that the jobs have come to which took effect, but for a writer
     at work, and every caller stands where it should.  Each act keeps it (`InStep.step`), and what the system of
     regions does meanwhile is nothing, a call, a return, or one region, in the command in which a job takes
     effect.

  3. `commands_linearizable` — **the main result**: the log of every run is a history of the atomic object, and
     its set is what the pool holds.
-/
import BusTub.Table.Standings
import BusTub.Table.ConcurrentPool

set_option linter.unusedSectionVars false

namespace BusTub

open Command HashPartition AtomicObject BufferPoolManagerInstance

/-! ## The log -/

/-- The call that each caller has made, and the history so far. -/
structure Log (ι K V : Type) where
  made : ι → Option (PublicCall K V)
  seen : List (Seen ι (TableCall K V) (TableRet V))

/-- What a history shows of a call. -/
def PublicCall.shownBy {ι K V : Type} (i : ι) : PublicCall K V → List (Seen ι (TableCall K V) (TableRet V))
  | .call c => [.call i c]
  | .getGlobalDepth => []
  | .verifyIntegrity => []

/-- What a history shows when a call ends with `r`. -/
def PublicCall.returned {ι K V : Type} (i : ι) :
    PublicCall K V → PublicRet V → List (Seen ι (TableCall K V) (TableRet V))
  | .call c, .call r => [.ret i c r]
  | _, _ => []

section log

variable {ι Disk K V : Type} [DecidableEq ι]

/-- An act adds to the log that a call is made or returns. -/
def Log.after (x : Log ι K V) (w : World ι Disk K V) : Act ι K V → Log ι K V
  | .call i c => ⟨Function.update x.made i (some c), x.seen ++ c.shownBy i⟩
  | .advance i =>
    match w.prog i, x.made i with
    | some (.ret (.inr r)), some c => { x with seen := x.seen ++ c.returned i r }
    | _, _ => x

variable [Fintype ι] [DiskManager Disk (PageData K V)]
variable [Inhabited K] [Inhabited V] [DecidableEq K] [DecidableEq V]

/-- **The callers `ι` and their log**, over one pool, as long as the id counter does not wrap. -/
def HashTableType.logged (ι : Type) [DecidableEq ι] [Fintype ι] (T : HashTableType K V) (dirId : PageId)
    (pool : BufferPoolManagerInstance Disk (PageData K V)) :
    StepSystem (World ι Disk K V × Log ι K V) (Act ι K V) where
  init s := s = (.rest pool, ⟨fun _ => none, []⟩)
  step s e s' := (HashTableType.callers ι T .debug dirId pool World.Counts).step s.1 e s'.1 ∧ s'.2 = s.2.after s.1 e

end log

namespace HashTableType

variable {ι Disk K V : Type} [DecidableEq ι] [Fintype ι] [DiskManager Disk (PageData K V)] [LawfulDiskManager Disk]
variable [Inhabited K] [Inhabited V] [DecidableEq K] [DecidableEq V]
variable {T : HashTableType K V} {cfg : PoolConfig} {dirId : PageId} {w w' : World ι Disk K V}
  {made made' : ι → Option (PublicCall K V)} {P P' : Pages K V} {seat seat' : ι → Seat K V}
  {s s' : Shared ι K V} {i : ι} {e : Act ι K V}

/-! ## The callers in step -/

/-- **The pool and its callers, in step with the system of regions.** -/
structure InStep (T : HashTableType K V) (cfg : PoolConfig) (dirId : PageId) (w : World ι Disk K V)
    (made : ι → Option (PublicCall K V)) (P : Pages K V) (seat : ι → Seat K V) (s : Shared ι K V) : Prop where
  accounted : Accounted T cfg dirId w P seat
  apart : Apart w
  inv : ∃ A S, T.TableInv cfg.idAt s.pages dirId A S
  pages : (∀ i, w.held .table i ≠ some .exclusive) → s.pages = P
  standing : ∀ i, Standing T cfg.idAt dirId w made P s i

namespace InStep

/-- One caller acts, and the others stand where they stood. -/
theorem change (h : InStep T cfg dirId w made P seat s) (hacc : Accounted T cfg dirId w' P' seat')
    (hsame : ∀ j, j ≠ i → SameCaller w w' j) (hmade : ∀ j, j ≠ i → made' j = made j)
    (hphase : ∀ j, j ≠ i → s'.phase j = s.phase j) (hapart : Apart w')
    (hinv : ∃ A S, T.TableInv cfg.idAt s'.pages dirId A S)
    (hpages : (∀ i, w'.held .table i ≠ some .exclusive) → s'.pages = P')
    (hstand : Standing T cfg.idAt dirId w' made' P' s' i)
    (hdir : ∀ j, j ≠ i → w.held .table j = some .shared → P'.mem dirId = P.mem dirId)
    (hbucket : ∀ j, j ≠ i → ∀ d k q, w.prog j = some (.cmd (.store .bucketPage d) k) →
      w.held .table j = some .shared → HoldsBucket w j .exclusive → w.page j .bucketPage = some q →
      P'.mem q = P.mem q)
    (hwriter : ∀ j, j ≠ i → w.held .table j = some .exclusive → P' = P ∧ s'.pages = s.pages) :
    InStep T cfg dirId w' made' P' seat' s' := by
  refine ⟨hacc, hapart, hinv, hpages, fun j => ?_⟩
  by_cases hj : j = i
  · exact hj ▸ hstand
  · exact (h.standing j).same (hsame j hj) (hmade j hj) (hphase j hj) (hdir j hj) (hbucket j hj) (hwriter j hj)

/-- One caller acts, and the pages are as they were. -/
theorem keep (h : InStep T cfg dirId w made P seat s) (hacc : Accounted T cfg dirId w' P seat')
    (hsame : ∀ j, j ≠ i → SameCaller w w' j) (hmade : ∀ j, j ≠ i → made' j = made j)
    (hphase : ∀ j, j ≠ i → s'.phase j = s.phase j) (hpages : s'.pages = s.pages) (hapart : Apart w')
    (hwriter : (∀ i, w'.held .table i ≠ some .exclusive) → s.pages = P)
    (hstand : Standing T cfg.idAt dirId w' made' P s' i) : InStep T cfg dirId w' made' P seat' s' := by
  refine h.change hacc hsame hmade hphase hapart ?_ (fun hno => hpages.trans (hwriter hno)) hstand
    (fun _ _ _ => rfl) (fun _ _ _ _ _ _ _ _ _ => rfl) fun _ _ _ => ⟨rfl, hpages⟩
  rw [hpages]
  exact h.inv

/-- Nobody has made a call yet. -/
theorem at_rest {A : Partition PageId} {S : Finset (K × V)} {pool : BufferPoolManagerInstance Disk (PageData K V)}
    (hbacks : Backs cfg P [] pool) (hcount : cfg.idAt P.next < 2 ^ 31) (hinv : T.TableInv cfg.idAt P dirId A S) :
    InStep T cfg dirId (World.rest pool : World ι Disk K V) (fun _ => none) P (fun _ => ⟨.out, fun _ => 0⟩)
      ⟨P, fun _ => .idle⟩ where
  accounted := accounted_rest hbacks hcount hinv.toLayout
  apart x i j _ hi := by cases hi
  inv := ⟨A, S, hinv⟩
  pages _ := rfl
  standing i := .rest rfl rfl

/-- A caller under the shared table latch has no writer beside it. -/
theorem no_writer (h : InStep T cfg dirId w made P seat s) (htable : w.held .table i = some .shared) :
    ∀ j, w.held .table j ≠ some .exclusive := by
  intro j hj
  by_cases hij : j = i
  · rw [hij, htable] at hj
    cases hj
  · cases (h.apart .table j i hij hj).symm.trans htable

/-- Where a caller stands at the end of its job. -/
theorem ended (h : InStep T cfg dirId w made P seat s) {a : Job K V ⊕ PublicRet V}
    (hprog : w.prog i = some (.ret a)) : w.held .table i = none ∧ ∃ c, made i = some c ∧ Ends (s.phase i) c a := by
  have hview : (seat i).view = .done := (h.accounted.seated i).rules _ hprog
  have hnone : w.held .table i = none := by
    rw [(h.accounted.seated i).table, hview]
    rfl
  refine ⟨hnone, ?_⟩
  cases h.standing i with
  | rest hprog' => cases hprog.symm.trans hprog'
  | @waiting y hprog' =>
    have hbegins : Begins dirId y (T.jobProg .debug dirId y) := job_begins y
    rw [← Option.some.inj (hprog.symm.trans hprog')] at hbegins
    cases hbegins
  | searching _ htable => cases hnone.symm.trans htable
  | storing _ htable => cases hnone.symm.trans htable
  | settled _ htable => cases hnone.symm.trans htable
  | writing _ htable => cases hnone.symm.trans htable
  | done hprog' _ hmade hends =>
    cases hprog.symm.trans hprog'
    exact ⟨_, hmade, hends⟩

end InStep

/-- The callers are in step again, after the system of regions did what a history shows as `news`. -/
def Advances (T : HashTableType K V) (cfg : PoolConfig) (dirId : PageId) (P₁ : Pages K V) (s : Shared ι K V)
    (w' : World ι Disk K V) (made' : ι → Option (PublicCall K V))
    (news : List (Seen ι (TableCall K V) (TableRet V))) : Prop :=
  ∃ P' seat' ds s', InStep T cfg dirId w' made' P' seat' s' ∧
    (concurrent ι T cfg.idAt .debug dirId P₁).Run s ds s' ∧ ds.filterMap SharedEvent.seen = news

variable {P₁ : Pages K V}

theorem InStep.quiet (h : InStep T cfg dirId w' made' P' seat' s) : Advances T cfg dirId P₁ s w' made' [] :=
  ⟨P', seat', [], s, h, .nil s, rfl⟩

theorem InStep.stepped (h : InStep T cfg dirId w' made' P' seat' s') {d : SharedEvent ι K V}
    (hstep : (concurrent ι T cfg.idAt .debug dirId P₁).step s d s') :
    Advances T cfg dirId P₁ s w' made' d.seen.toList := by
  refine ⟨P', seat', [d], s', h, .single hstep, ?_⟩
  cases hd : d.seen <;> simp [hd]

namespace InStep

/-! ### A call is made, goes on, and returns -/

/-- A caller begins a job. -/
theorem start (h : InStep T cfg dirId w made P seat s) (hview : (seat i).view.mode = none) (y : Job K V)
    (hmade : ∀ j, j ≠ i → made' j = made j) (hmade' : made' i = some y.origin)
    (hphase : ∀ j, j ≠ i → s'.phase j = s.phase j) (hphase' : s'.phase i = y.phase) (hpages : s'.pages = s.pages) :
    ∃ seat', InStep T cfg dirId (w.start i (T.jobProg .debug dirId y)) made' P seat' s' := by
  obtain ⟨seat', hacc⟩ := h.accounted.start hview y
  refine ⟨seat', h.keep hacc (fun j hj => ⟨Function.update_of_ne hj .., Function.update_of_ne hj ..,
    Function.update_of_ne hj .., fun _ => rfl⟩) hmade hphase hpages h.apart h.pages ?_⟩
  exact .waiting (w.start_prog i _) ((h.accounted.seated i).table.trans hview) (Function.update_self ..) hphase' hmade'

/-- A caller makes a call. -/
theorem call (h : InStep T cfg dirId w made P seat s) (hprog : w.prog i = none) (c : PublicCall K V) :
    Advances T cfg dirId P₁ s (w.start i (T.jobProg .debug dirId c.job)) (Function.update made i (some c))
      (c.shownBy i) := by
  have hview : (seat i).view.mode = none := by rw [(h.accounted.seated i).idle hprog]; rfl
  have hidle : s.phase i = .idle := by
    cases h.standing i with
    | rest _ hphase => exact hphase
    | waiting hprog' => cases hprog.symm.trans hprog'
    | searching hprog' => cases hprog.symm.trans hprog'
    | storing hprog' => cases hprog.symm.trans hprog'
    | settled hprog' => cases hprog.symm.trans hprog'
    | writing hprog' => cases hprog.symm.trans hprog'
    | done hprog' => cases hprog.symm.trans hprog'
  have hmade : ∀ j, j ≠ i → Function.update made i (some c) j = made j := fun j hj => Function.update_of_ne hj ..
  have haudit : c.job.phase = .idle → c.job.origin = c → c.shownBy i = [] →
      Advances T cfg dirId P₁ s (w.start i (T.jobProg .debug dirId c.job)) (Function.update made i (some c))
        (c.shownBy i) := by
    intro hphase horigin hnone
    obtain ⟨seat', h'⟩ := h.start hview c.job hmade (by rw [horigin, Function.update_self]) (fun _ _ => rfl)
      (hidle.trans hphase.symm) rfl
    rw [hnone]
    exact h'.quiet
  cases c with
  | call c =>
    let s' : Shared ι K V := { s with phase := Function.update s.phase i (.before (.entry c)) }
    have hothers : ∀ j, j ≠ i → s'.phase j = s.phase j := fun j hj => Function.update_of_ne hj ..
    have hphase : s'.phase i = .before (.entry c) := Function.update_self ..
    obtain ⟨seat', h'⟩ := h.start hview (PublicCall.call c).job hmade (Function.update_self ..) hothers hphase rfl
    exact h'.stepped (d := .call i c) ⟨hidle, rfl⟩
  | getGlobalDepth => exact haudit rfl rfl rfl
  | verifyIntegrity => exact haudit rfl rfl rfl

/-- A caller goes on with its next job. -/
theorem next (h : InStep T cfg dirId w made P seat s) {y : Job K V} (hprog : w.prog i = some (.ret (.inl y))) :
    Advances T cfg dirId P₁ s (w.start i (T.jobProg .debug dirId y)) made [] := by
  have hview : (seat i).view = .done := (h.accounted.seated i).rules _ hprog
  obtain ⟨-, c, hmade, hends⟩ := h.ended hprog
  generalize hphase : s.phase i = z at hends
  cases hends with
  | next x =>
    obtain ⟨seat', h'⟩ := h.start (by rw [hview]; rfl) (.region x) (fun _ _ => rfl) hmade (fun _ _ => rfl) hphase rfl
    exact h'.quiet

/-- A call returns. -/
theorem finish (P₁ : Pages K V) (h : InStep T cfg dirId w made P seat s) {r : PublicRet V}
    (hprog : w.prog i = some (.ret (.inr r))) :
    ∃ c, made i = some c ∧ Advances T cfg dirId P₁ s (w.goOn i none) made (c.returned i r) := by
  have hview : (seat i).view = .done := (h.accounted.seated i).rules _ hprog
  obtain ⟨-, c, hmade, hends⟩ := h.ended hprog
  obtain ⟨seat', hacc⟩ := h.accounted.finish (i := i) (by rw [hview]; rfl)
  have hrest : ∀ s' : Shared ι K V, (∀ j, j ≠ i → s'.phase j = s.phase j) → s'.pages = s.pages →
      s'.phase i = .idle → InStep T cfg dirId (w.goOn i none) made P seat' s' := fun s' hothers hpages hidle =>
    h.keep hacc (fun j hj => ⟨Function.update_of_ne hj .., rfl, rfl, fun _ => rfl⟩) (fun _ _ => rfl) hothers hpages
      h.apart h.pages (.rest (w.goOn_prog i _) hidle)
  refine ⟨c, hmade, ?_⟩
  generalize hphase : s.phase i = z at hends
  cases hends with
  | ret c r =>
    have h' := hrest { s with phase := Function.update s.phase i .idle } (fun j hj => Function.update_of_ne hj ..) rfl
      (Function.update_self ..)
    exact h'.stepped (d := .ret i c r) ⟨hphase, rfl⟩
  | @audit _ _ hc =>
    have hnone : c.returned i r = [] := by
      cases c with
      | call c' => exact absurd rfl (hc c')
      | getGlobalDepth => rfl
      | verifyIntegrity => rfl
    rw [hnone]
    exact (hrest s (fun _ _ => rfl) rfl hphase).quiet

/-! ### Latches -/

/-- A caller gives the table latch back. -/
theorem exit (h : InStep T cfg dirId w made P seat s) {l : LatchOp} {k : Unit → JobProg K V} {m : Mode}
    (hprog : w.prog i = some (.cmd (.latch l) k)) (hl : l = .tableRUnlock ∨ l = .tableWUnlock)
    (hheld : w.held .table i = some m) (hdone : T.KeepsRules cfg.idAt dirId (k ()) .done)
    (hacc : Accounted T cfg dirId ((w.hold i .table none).goOn i (some (k ()))) P seat')
    (hsame : ∀ j, j ≠ i → SameCaller w ((w.hold i .table none).goOn i (some (k ()))) j) :
    InStep T cfg dirId ((w.hold i .table none).goOn i (some (k ()))) made P seat' s := by
  have hfree : ((w.hold i .table none).goOn i (some (k ()))).held .table i = none :=
    (w.hold_held i .table none .table i).trans (if_pos ⟨rfl, rfl⟩)
  have hapart : Apart ((w.hold i .table none).goOn i (some (k ()))) := h.apart.hold (fun m hm => by cases hm) _
  -- after the table latch a region does nothing but return
  have hend : ∃ a, k () = .ret a := by
    generalize k () = p at hdone
    cases p with
    | ret a => exact ⟨a, rfl⟩
    | fail e => cases hdone
    | cmd c k =>
      obtain ⟨hmay, -⟩ := hdone
      cases hmay
  obtain ⟨a, ha⟩ := hend
  -- it is left to say how the caller stood: settled as a reader, or a writer whose pages are shown now
  suffices hstand : s.pages = P ∧ ∃ c, made i = some c ∧ Ends (s.phase i) c a by
    obtain ⟨hpages, c, hmade, hends⟩ := hstand
    refine h.keep hacc hsame (fun _ _ => rfl) (fun _ _ => rfl) rfl hapart (fun _ => hpages) ?_
    exact .done ((World.goOn_prog ..).trans (congrArg some ha)) hfree hmade hends
  cases h.standing i with
  | rest hprog' => cases hprog.symm.trans hprog'
  | waiting _ htable => cases hheld.symm.trans htable
  | done _ htable => cases hheld.symm.trans htable
  | searching hprog' _ hlooks =>
    cases hprog.symm.trans hprog'
    obtain ⟨hmay, -⟩ := hlooks
    cases hmay with
    | search _ hno => exact absurd rfl (hno _)
    | latch hon => cases hon <;> simp at hl
  | storing hprog' => cases hprog.symm.trans hprog'
  | settled hprog' htable _ _ hmade hends =>
    cases hprog.symm.trans hprog'
    refine ⟨h.pages (h.no_writer htable), _, hmade, hends a ⟨P, w.page i⟩ ?_⟩
    show run _ (k ()) _ = _
    rw [ha]
    rfl
  | @writing c p a' t hprog' _ hrun hpages hmade hends =>
    cases hprog.symm.trans hprog'
    replace hrun : run (idealMachine cfg.idAt) (k ()) ⟨P, w.page i⟩ = .ok (a', t) := hrun
    rw [ha] at hrun
    cases hrun
    exact ⟨hpages.symm, c, hmade, hends⟩

/-- A caller takes a page latch or gives it back. -/
theorem onPage (h : InStep T cfg dirId w made P seat s) {l : LatchOp} {k : Unit → JobProg K V} {f : FrameId}
    (hprog : w.prog i = some (.cmd (.latch l) k)) (hlatch : l.latch (w.ptr i) = some (.page f))
    (hgrants : ∀ m, l.mode = some m → w.Grants (.page f) m) (hheld : w.held .table i = some .shared)
    (hacc : Accounted T cfg dirId ((w.hold i (.page f) l.mode).goOn i (some (k ()))) P seat')
    (hsame : ∀ j, j ≠ i → SameCaller w ((w.hold i (.page f) l.mode).goOn i (some (k ()))) j) :
    InStep T cfg dirId ((w.hold i (.page f) l.mode).goOn i (some (k ()))) made P seat' s := by
  have htable' : ((w.hold i (.page f) l.mode).goOn i (some (k ()))).held .table i = some .shared :=
    ((w.hold_held i (.page f) l.mode .table i).trans (if_neg nofun)).trans hheld
  refine h.keep hacc hsame (fun _ _ => rfl) (fun _ _ => rfl) rfl (h.apart.hold hgrants _)
    (fun _ => h.pages (h.no_writer hheld)) ?_
  cases h.standing i with
  | rest hprog' => cases hprog.symm.trans hprog'
  | waiting _ htable => cases hheld.symm.trans htable
  | done _ htable => cases hheld.symm.trans htable
  | writing _ htable => cases hheld.symm.trans htable
  | storing hprog' => cases hprog.symm.trans hprog'
  | searching hprog' _ hlooks hat _ hphase hmade hrun =>
    cases hprog.symm.trans hprog'
    obtain ⟨hmay, hnext⟩ := hlooks
    cases hmay with
    | search _ hno => exact absurd rfl (hno _)
    | @latch _ m hon =>
      have hbucket : w.ptr i .bucketPage = some f ∧ l.mode = some m ∧
          Looks dirId (.search (some m)) (k ()) .settled := by
        cases hon with
        | shared | exclusive =>
          obtain ⟨g, hg, hgf⟩ := Option.map_eq_some_iff.mp hlatch
          cases hgf
          exact ⟨hg, rfl, hnext () _ rfl⟩
      obtain ⟨hptr, hmode, hlooks'⟩ := hbucket
      refine .searching (World.goOn_prog ..) htable' hlooks' hat (fun m' hm' => ⟨f, hptr, ?_⟩) hphase hmade hrun
      cases hm'
      exact ((w.hold_held i (.page f) l.mode (.page f) i).trans (if_pos ⟨rfl, rfl⟩)).trans hmode
  | settled hprog' _ hlooks hat hmade hends =>
    cases hprog.symm.trans hprog'
    exact .settled (World.goOn_prog ..) htable' (hlooks.2 () _ rfl) hat hmade hends

/-! ### A job takes effect -/

section effect

variable (hcmp : ∀ k k', T.comparator k k' = 0 ↔ k = k')
include hcmp

/-- The region that a job is. -/
theorem region (P₁ : Pages K V) (h : InStep T cfg dirId w made P seat s) {x : Region K V} (hphase : s.phase i = .before x)
    (hpages : s.pages = P) : ∃ a Q ptr s', (concurrent ι T cfg.idAt .debug dirId P₁).step s (.region i) s' ∧
      run (idealMachine cfg.idAt) (T.jobProg .debug dirId (.region x)) ⟨P, fun _ => none⟩ = .ok (a, ⟨Q, ptr⟩) ∧
      s'.pages = Q ∧ (∀ j, j ≠ i → s'.phase j = s.phase j) ∧ Ends (s'.phase i) (.call x.call) a ∧
      ∃ A S, T.TableInv cfg.idAt Q dirId A S := by
  obtain ⟨A, S, hinv⟩ := h.inv
  obtain ⟨y, Q, A', S', hregion, hinv', -⟩ := hinv.runRegion_spec hcmp cfg.idAt_injective .debug x
  obtain ⟨a, ptr, hrun, hends⟩ := runRegion_job hregion
  rw [hpages] at hrun
  refine ⟨a, Q, ptr, ⟨Q, Function.update s.phase i y⟩, ⟨x, y, Q, hphase, hregion, rfl⟩, hrun, rfl,
    fun j hj => Function.update_of_ne hj .., ?_, A', S', hinv'⟩
  show Ends (Function.update s.phase i y i) _ a
  rw [Function.update_self]
  exact hends

/-- **A writer's job takes effect** when the writer gets the table latch. -/
theorem enter_writer (h : InStep T cfg dirId w made P seat s) {x : Region K V} {k : Unit → JobProg K V}
    (hjob : T.jobProg .debug dirId (.region x) = .cmd (.latch .tableWLock) k)
    (hacc : Accounted T cfg dirId ((w.hold i .table (some .exclusive)).goOn i (some (k ()))) P seat')
    (hsame : ∀ j, j ≠ i → SameCaller w ((w.hold i .table (some .exclusive)).goOn i (some (k ()))) j)
    (hgrants : w.Grants .table .exclusive) (hpage : w.page i = fun _ => none) (hphase : s.phase i = .before x)
    (hmade : made i = some (.call x.call)) :
    Advances T cfg dirId P₁ s ((w.hold i .table (some .exclusive)).goOn i (some (k ()))) made [] := by
  obtain ⟨a, Q, ptr, s', hstep, hrun, hpages, hphases, hends, hinv⟩ := h.region (i := i) hcmp P₁ hphase
    (h.pages fun j hj => by cases (hgrants j).symm.trans hj)
  rw [hjob, ← hpage] at hrun
  have htable : ((w.hold i .table (some .exclusive)).goOn i (some (k ()))).held .table i = some .exclusive :=
    (w.hold_held i .table (some .exclusive) .table i).trans (if_pos ⟨rfl, rfl⟩)
  have h' : InStep T cfg dirId ((w.hold i .table (some .exclusive)).goOn i (some (k ()))) made P seat' s' := by
    refine h.change hacc hsame (fun _ _ => rfl) hphases (h.apart.hold (fun m hm => ?_) _) (hpages ▸ hinv)
      (fun hno => absurd htable (hno i)) ?_ (fun _ _ _ => rfl) (fun _ _ _ _ _ _ _ _ _ => rfl) fun j _ hj => ?_
    · cases hm
      exact hgrants
    · exact .writing (World.goOn_prog ..) htable hrun hpages.symm hmade hends
    · cases (hgrants j).symm.trans hj
  exact h'.stepped hstep

/-- **A caller gets the table latch.** -/
theorem enter (h : InStep T cfg dirId w made P seat s) {l : LatchOp} {k : Unit → JobProg K V} {m : Mode}
    (hprog : w.prog i = some (.cmd (.latch l) k)) (hlatch : l.latch (w.ptr i) = some .table) (hmode : l.mode = some m)
    (hgrants : w.Grants .table m) (hview : (seat i).view = .out)
    (hacc : Accounted T cfg dirId ((w.hold i .table (some m)).goOn i (some (k ()))) P seat')
    (hsame : ∀ j, j ≠ i → SameCaller w ((w.hold i .table (some m)).goOn i (some (k ()))) j) :
    Advances T cfg dirId P₁ s ((w.hold i .table (some m)).goOn i (some (k ()))) made [] := by
  -- the caller comes without the latch, and nobody's mode is against him
  have hnone : w.held .table i = none := by
    rw [(h.accounted.seated i).table, hview]
    rfl
  have hheld : ((w.hold i .table (some m)).goOn i (some (k ()))).held .table i = some m :=
    (w.hold_held i .table (some m) .table i).trans (if_pos ⟨rfl, rfl⟩)
  have hapart : Apart ((w.hold i .table (some m)).goOn i (some (k ()))) := h.apart.hold (fun m' hm => by
    cases hm
    exact hgrants) _
  cases h.standing i with
  | rest hprog' => cases hprog.symm.trans hprog'
  | searching _ htable => cases hnone.symm.trans htable
  | storing _ htable => cases hnone.symm.trans htable
  | settled _ htable => cases hnone.symm.trans htable
  | writing _ htable => cases hnone.symm.trans htable
  | done hprog' => cases hprog.symm.trans hprog'
  | @waiting y hprog' _ hpage hphase hmade =>
    have hjob := Option.some.inj (hprog'.symm.trans hprog)
    have hbegins : Begins dirId y (T.jobProg .debug dirId y) := job_begins y
    -- nothing of the region has run yet, so the rest is the whole region
    have hsee : ∀ Q : Pages K V, run (idealMachine cfg.idAt) (k ()) ⟨Q, w.page i⟩ =
        run (idealMachine cfg.idAt) (T.jobProg .debug dirId y) ⟨Q, fun _ => none⟩ := by
      intro Q
      rw [hjob, hpage]
      rfl
    -- he has fetched no page yet
    have hat : AtDirectory dirId (w.page i) := by
      rw [hpage]
      exact fun p hp => (by cases hp)
    rw [hjob] at hbegins
    cases hbegins with
    | look hlooks =>
      obtain rfl : m = .shared := (Option.some.inj hmode).symm
      refine (h.keep hacc hsame (fun _ _ => rfl) (fun _ _ => rfl) rfl hapart (fun _ => h.pages hgrants) ?_).quiet
      exact .searching (World.goOn_prog ..) hheld hlooks hat nofun hphase hmade fun Q _ => hsee Q
    | audit hy hlooks =>
      obtain rfl : m = .shared := (Option.some.inj hmode).symm
      refine (h.keep hacc hsame (fun _ _ => rfl) (fun _ _ => rfl) rfl hapart (fun _ => h.pages hgrants) ?_).quiet
      refine .settled (World.goOn_prog ..) hheld hlooks hat hmade fun a t hrun => ?_
      rw [hphase]
      exact audit_ends hy ((hsee P).symm.trans hrun)
    | write =>
      obtain rfl : m = .exclusive := (Option.some.inj hmode).symm
      exact h.enter_writer hcmp hjob hacc hsame hgrants hpage hphase hmade

/-- **An operation on a latch.** -/
theorem latch (h : InStep T cfg dirId w made P seat s) {l : LatchOp} {k : Unit → JobProg K V} {y : Latch}
    (hprog : w.prog i = some (.cmd (.latch l) k)) (hlatch : l.latch (w.ptr i) = some y)
    (hgrants : ∀ m, l.mode = some m → w.Grants y m)
    (hsame : ∀ j, j ≠ i → SameCaller w ((w.hold i y l.mode).goOn i (some (k ()))) j) :
    Advances T cfg dirId P₁ s ((w.hold i y l.mode).goOn i (some (k ()))) made [] := by
  obtain ⟨seat', hacc⟩ := h.accounted.latch hprog hlatch hgrants hsame
  have hmay := h.accounted.may hprog
  have hrules := ((h.accounted.seated i).rules _ hprog).2
  have htable := (h.accounted.seated i).table
  cases hview : (seat i).view with
  | out =>
    rw [hview] at hmay
    cases hmay with
    | tableRLock =>
      cases hlatch
      exact h.enter hcmp hprog rfl rfl (hgrants _ rfl) hview hacc hsame
    | tableWLock =>
      cases hlatch
      exact h.enter hcmp hprog rfl rfl (hgrants _ rfl) hview hacc hsame
  | inside m x =>
    rw [hview] at hmay hrules htable
    cases hmay with
    | tableRUnlock =>
      cases hlatch
      exact (h.exit hprog (.inl rfl) htable (hrules () _ .tableRUnlock) hacc hsame).quiet
    | tableWUnlock =>
      cases hlatch
      exact (h.exit hprog (.inr rfl) htable (hrules () _ .tableWUnlock) hacc hsame).quiet
    | take hl =>
      obtain ⟨f, rfl⟩ := hl.onPage hlatch
      exact (h.onPage hprog hlatch hgrants htable hacc hsame).quiet
    | give hl =>
      obtain ⟨f, rfl⟩ := hl.onPage hlatch
      exact (h.onPage hprog hlatch hgrants htable hacc hsame).quiet
    | access hc => exact absurd rfl (hc _)
  | done =>
    rw [hview] at hmay
    cases hmay
  | dead =>
    rw [hview] at hmay
    cases hmay

/-! ### A command that goes to the pool -/

/-- **A reader's job takes effect** in a command after which its look is settled. -/
theorem settle (h : InStep T cfg dirId w made P seat s) {x : Region K V} {p : JobProg K V}
    (hacc : Accounted T cfg dirId w' P' seat') (hsame : ∀ j, j ≠ i → SameCaller w w' j) (hapart : Apart w')
    (htable : w.held .table i = some .shared) (htable' : w'.held .table i = some .shared)
    (hphase : s.phase i = .before x) (hmade : made i = some (.call x.call)) (hprog' : w'.prog i = some p)
    (hlooks : Looks dirId .settled p .settled) (hat : AtDirectory dirId (w'.page i))
    (hrun : run (idealMachine cfg.idAt) p ⟨P', w'.page i⟩ =
      run (idealMachine cfg.idAt) (T.jobProg .debug dirId (.region x)) ⟨P, fun _ => none⟩)
    (hdir : P'.mem dirId = P.mem dirId)
    (hbucket : ∀ j, j ≠ i → ∀ d k q, w.prog j = some (.cmd (.store .bucketPage d) k) → HoldsBucket w j .exclusive →
      w.page j .bucketPage = some q → P'.mem q = P.mem q) : Advances T cfg dirId P₁ s w' made [] := by
  obtain ⟨a, Q, ptr, s', hstep, hjob, hpages, hphases, hends, hinv⟩ := h.region (i := i) hcmp P₁ hphase
    (h.pages (h.no_writer htable))
  -- nothing is left that changes a page
  obtain rfl : Q = P' := (hlooks.settled_run hat (hrun.trans hjob) rfl).1
  have h' : InStep T cfg dirId w' made Q seat' s' := by
    refine h.change hacc hsame (fun _ _ => rfl) hphases hapart (hpages ▸ hinv) (fun _ => hpages) ?_
      (fun _ _ _ => hdir) (fun j hj d k q hprog _ => hbucket j hj d k q hprog) fun j hj hw => ?_
    · refine .settled hprog' htable' hlooks hat hmade fun a' t' hrun' => ?_
      cases (hrun'.symm.trans hrun).trans hjob
      exact hends
    · exact absurd hw (h.no_writer htable j)
  exact h'.stepped hstep

section access

variable {c : Cmd K V} {k : Cmd.Res c → JobProg K V} {r : Cmd.Res c} {t : PoolStore Disk K V}
  (hprog : w.prog i = some (.cmd c k))
  (hideal : idealMachine cfg.idAt c ⟨P, w.page i⟩ = .ok (r, ⟨P', c.pageAfter (w.page i) r⟩))
  (hacc : Accounted T cfg dirId ((w.accessed i c r t).goOn i (some (k r))) P' seat')
  (hsame : ∀ j, j ≠ i → SameCaller w ((w.accessed i c r t).goOn i (some (k r))) j)
include hprog hideal hacc hsame

omit hcmp hprog hideal hacc hsame in
theorem accessed_page : ((w.accessed i c r t).goOn i (some (k r))).page i = c.pageAfter (w.page i) r :=
  Function.update_self ..

omit hcmp in
/-- A writer's command. -/
theorem access_writing (h : InStep T cfg dirId w made P seat s) {z : PublicCall K V} {a : Job K V ⊕ PublicRet V}
    {u : IdealStore K V} (htable : w.held .table i = some .exclusive)
    (hrun : run (idealMachine cfg.idAt) (.cmd c k) ⟨P, w.page i⟩ = .ok (a, u)) (hpages : u.pages = s.pages)
    (hmade : made i = some z) (hends : Ends (s.phase i) z a) :
    InStep T cfg dirId ((w.accessed i c r t).goOn i (some (k r))) made P' seat' s := by
  rw [run_cmd_ok hideal] at hrun
  have hnone : ∀ j, j ≠ i → w.held .table j = none := fun j hj => h.apart .table i j (Ne.symm hj) htable
  refine h.change hacc hsame (fun _ _ => rfl) (fun _ _ => rfl) h.apart h.inv (fun hno => absurd htable (hno i)) ?_
    (fun j hj hj' => ?_) (fun j hj _ _ _ _ hj' => ?_) fun j hj hj' => ?_
  · refine .writing (World.goOn_prog ..) htable ?_ hpages hmade hends
    rw [accessed_page]
    exact hrun
  · cases (hnone j hj).symm.trans hj'
  · cases (hnone j hj).symm.trans hj'
  · cases (hnone j hj).symm.trans hj'

/-- **A command in a search**: the load of the bucket may settle the look. -/
theorem access_searching (h : InStep T cfg dirId w made P seat s) (hc : ∀ l, c ≠ .latch l)
    (hpool : poolMachine .debug c ⟨w.pool, w.ptr i⟩ = .ok (r, t)) {x : Region K V} {l : Option Mode}
    (htable : w.held .table i = some .shared) (hlooks : Looks dirId (.search l) (.cmd c k) .settled)
    (hat : AtDirectory dirId (w.page i)) (hlatch : ∀ m, l = some m → HoldsBucket w i m)
    (hphase : s.phase i = .before x) (hmade : made i = some (.call x.call))
    (hrun : ∀ Q : Pages K V, Q.mem dirId = P.mem dirId → run (idealMachine cfg.idAt) (.cmd c k) ⟨Q, w.page i⟩ =
      run (idealMachine cfg.idAt) (T.jobProg .debug dirId (.region x)) ⟨Q, fun _ => none⟩) :
    Advances T cfg dirId P₁ s ((w.accessed i c r t).goOn i (some (k r))) made [] := by
  obtain ⟨hmay, hnext⟩ := hlooks
  -- a reader holds the table latch: the pages are those of the set
  have hwriter := h.pages (h.no_writer htable)
  cases hmay with
  | latch => exact absurd rfl (hc _)
  | search hquiet =>
    -- the command neither reads the bucket nor writes a page
    obtain ⟨hP, hat', hsee⟩ := hquiet.ideal hat hideal
    obtain rfl : P' = P := hP
    have hlooks' : Looks dirId (.search none) (k r) .settled := by
      refine hnext r _ ?_
      cases hquiet with
      | latch l => exact absurd rfl (hc l)
      | _ => rfl
    refine (h.keep hacc hsame (fun _ _ => rfl) (fun _ _ => rfl) rfl h.apart (fun _ => hwriter) ?_).quiet
    refine .searching (World.goOn_prog ..) htable hlooks' ?_ nofun hphase hmade fun Q hQ => ?_
    · rw [accessed_page]
      exact hat'
    · rw [accessed_page, ← hrun Q hQ]
      exact (run_cmd_ok (hsee Q hQ) k).symm
  | load m =>
    -- the bucket is read: from here the look is settled or about to store
    obtain ⟨rfl, -⟩ := poolMachine_load hpool
    cases hq : w.page i .bucketPage with
    | none =>
      simp only [idealMachine, hq] at hideal
      cases hideal
    | some q =>
      have hload : ∀ Q : Pages K V, idealMachine cfg.idAt (.load .bucketPage) ⟨Q, w.page i⟩ =
          .ok (Q.mem q, ⟨Q, w.page i⟩) := fun Q => by simp only [idealMachine, hq]
      obtain ⟨rfl, hstore⟩ := Prod.mk.inj (Except.ok.inj (hideal.symm.trans (hload P)))
      obtain rfl : P' = P := congrArg IdealStore.pages hstore
      rcases Looks.found_cases (hnext (P'.mem q) _ rfl) with hsettled | ⟨d, k', hk, rfl, hsettled⟩
      · -- the bucket is not stored: what it held settles the result
        refine h.settle hcmp hacc hsame h.apart htable htable hphase hmade (World.goOn_prog ..) hsettled ?_ ?_ rfl
          fun _ _ _ _ _ _ _ _ => rfl
        · rw [accessed_page]
          exact hat
        · rw [accessed_page, ← hrun P' rfl]
          exact (run_cmd_ok (hload P') k).symm
      · -- a store follows, under the exclusive latch on the bucket's frame
        obtain ⟨f, hf, hheld⟩ := hlatch _ rfl
        refine (h.keep hacc hsame (fun _ _ => rfl) (fun _ _ => rfl) rfl h.apart (fun _ => hwriter) ?_).quiet
        refine .storing ((World.goOn_prog ..).trans (congrArg some hk)) htable hsettled ?_ ⟨f, ?_, hheld⟩ hphase hmade
          fun Q hQ hQq => ?_
        · rw [accessed_page]
          exact hat
        · show Function.update w.ptr i _ i .bucketPage = some f
          rw [Function.update_self]
          exact hf
        · rw [accessed_page] at hQq ⊢
          rw [← hk, ← hrun Q hQ, run_cmd_ok (hload Q), hQq q hq]
          rfl

/-- A caller stores its bucket. -/
theorem access_storing (h : InStep T cfg dirId w made P seat s) {x : Region K V} {d : PageData K V}
    {k' : Unit → JobProg K V} (hstore : w.prog i = some (.cmd (.store .bucketPage d) k'))
    (htable : w.held .table i = some .shared) (hlooks : Looks dirId .settled (k' ()) .settled)
    (hat : AtDirectory dirId (w.page i)) (hlatch : HoldsBucket w i .exclusive) (hphase : s.phase i = .before x)
    (hmade : made i = some (.call x.call)) (hdir : P'.mem dirId = P.mem dirId)
    (hrun : ∀ Q : Pages K V, Q.mem dirId = P.mem dirId → (∀ q, w.page i .bucketPage = some q → Q.mem q = P.mem q) →
      run (idealMachine cfg.idAt) (.cmd (.store .bucketPage d) k') ⟨Q, w.page i⟩ =
        run (idealMachine cfg.idAt) (T.jobProg .debug dirId (.region x)) ⟨Q, fun _ => none⟩) :
    Advances T cfg dirId P₁ s ((w.accessed i c r t).goOn i (some (k r))) made [] := by
  cases hprog.symm.trans hstore
  cases hq : w.page i .bucketPage with
  | none =>
    simp only [idealMachine, hq] at hideal
    cases hideal
  | some q =>
    have hwrite : idealMachine cfg.idAt (.store .bucketPage d) ⟨P, w.page i⟩ =
        .ok ((), ⟨P.write q d, w.page i⟩) := by simp only [idealMachine, hq]
    obtain ⟨-, hstore⟩ := Prod.mk.inj (Except.ok.inj (hideal.symm.trans hwrite))
    obtain rfl : P' = P.write q d := congrArg IdealStore.pages hstore
    refine h.settle hcmp hacc hsame h.apart htable htable hphase hmade (World.goOn_prog ..) hlooks ?_ ?_ hdir
      fun j hj d' k' q' hj' hlatch' hq' => ?_
    · rw [accessed_page]
      exact hat
    · rw [accessed_page, ← hrun P rfl fun _ _ => rfl]
      exact (run_cmd_ok hwrite _).symm
    · -- nobody else is about to store this bucket
      have hne := h.accounted.stores_apart h.apart (Ne.symm hj) hprog hj' hlatch hlatch'
      rw [hq, hq'] at hne
      exact Function.update_of_ne (fun he => hne (congrArg some he.symm)) ..

/-- **A command that goes to the pool.** -/
theorem access (h : InStep T cfg dirId w made P seat s) (hc : ∀ l, c ≠ .latch l)
    (hpool : poolMachine .debug c ⟨w.pool, w.ptr i⟩ = .ok (r, t))
    (hdir : w.held .table i = some .shared → P'.mem dirId = P.mem dirId) (hin : w.held .table i ≠ none) :
    Advances T cfg dirId P₁ s ((w.accessed i c r t).goOn i (some (k r))) made [] := by
  cases h.standing i with
  | rest hprog' => cases hprog.symm.trans hprog'
  | waiting _ htable => exact absurd htable hin
  | done _ htable => exact absurd htable hin
  | searching hprog' htable hlooks hat hlatch hphase hmade hrun =>
    cases hprog.symm.trans hprog'
    exact access_searching hcmp hprog hideal hacc hsame h hc hpool htable hlooks hat hlatch hphase hmade hrun
  | storing hprog' htable hlooks hat hlatch hphase hmade hrun =>
    exact access_storing hcmp hprog hideal hacc hsame h hprog' htable hlooks hat hlatch hphase hmade (hdir htable) hrun
  | settled hprog' htable hlooks hat hmade hends =>
    cases hprog.symm.trans hprog'
    obtain ⟨hmay, hnext⟩ := hlooks
    cases hmay with
    | settled hquiet =>
      obtain ⟨hP, hat', hsee⟩ := hquiet.ideal hat hideal
      obtain rfl : P' = P := hP
      refine (h.keep hacc hsame (fun _ _ => rfl) (fun _ _ => rfl) rfl h.apart
        (fun _ => h.pages (h.no_writer htable)) ?_).quiet
      refine .settled (World.goOn_prog ..) htable (hnext r _ rfl) ?_ hmade fun a u hrun => hends a u ?_
      · rw [accessed_page]
        exact hat'
      · rw [accessed_page] at hrun
        exact (run_cmd_ok hideal k).trans hrun
  | writing hprog' htable hrun hpages hmade hends =>
    cases hprog.symm.trans hprog'
    exact (access_writing hprog hideal hacc hsame h htable hrun hpages hmade hends).quiet

end access

/-- **An act keeps the callers in step**, unless it gets a null page, which ends the process and needs a pool with
    too few frames. -/
theorem step (P₁ : Pages K V) {x : Log ι K V} (h : InStep T cfg dirId w x.made P seat s) (hcounts : w.Counts e)
    (hturn : T.Turn .debug dirId w e w') : (∃ news, (x.after w e).seen = x.seen ++ news ∧
        Advances T cfg dirId P₁ s w' (x.after w e).made news) ∨
      w'.Aborted ∧ (x.after w e).seen = x.seen ∧ w.pool.cfg.poolSize < max 3 (Fintype.card ι + 1) := by
  have hsame : ∀ j, j ≠ e.caller → SameCaller w w' j := fun j hj => hturn.others hj
  -- only the end of a call adds to what its caller has seen
  have hsilent : ∀ {i : ι} {p : JobProg K V}, w.prog i = some p → (∀ r, p ≠ .ret (.inr r)) →
      x.after w (.advance i) = x := by
    intro i p hprog hp
    cases p with
    | ret a =>
      cases a with
      | inl y => simp [Log.after, hprog]
      | inr r => exact absurd rfl (hp r)
    | fail e => simp [Log.after, hprog]
    | cmd c k => simp [Log.after, hprog]
  cases hturn with
  | @call i c hprog => exact .inl ⟨_, rfl, h.call hprog c⟩
  | @next i y hprog =>
    rw [hsilent hprog nofun]
    exact .inl ⟨[], (List.append_nil _).symm, h.next hprog⟩
  | @ret i r hprog =>
    obtain ⟨c, hmade, h'⟩ := h.finish P₁ hprog
    have hafter : x.after w (.advance i) = { x with seen := x.seen ++ c.returned i r } := by
      simp [Log.after, hprog, hmade]
    rw [hafter]
    exact .inl ⟨_, rfl, h'⟩
  | latch hprog hlatch hmode hgrants =>
    subst hmode
    rw [hsilent hprog nofun]
    exact .inl ⟨[], (List.append_nil _).symm, h.latch hcmp hprog hlatch hgrants hsame⟩
  | @access i c k r t hprog hc hrun =>
    rw [hsilent hprog nofun]
    obtain ⟨m, y, r₁, y', hview, hgentle, hrely, hchecked, hpool⟩ := h.accounted.access hprog hc hcounts
    have hmode : w.held .table i = some m := by
      rw [(h.accounted.seated i).table, hview]
      rfl
    rcases hpool with ⟨t₁, frameOf, hrun₁, hcount, ht⟩ | ⟨r₁, t₁, hrun₁, hnull, -, hsmall⟩
    · -- a null page: the code goes on to a failed assertion
      obtain ⟨rfl, rfl⟩ := Prod.mk.inj (Except.ok.inj (hrun.symm.trans hrun₁))
      have hacc := h.accounted.accessed hc hprog hview hgentle hrely hchecked hcount ht hsame
      -- under the shared latch nobody changes the directory page
      have hdir : w.held .table i = some .shared → y'.pages.mem dirId = P.mem dirId := by
        intro hm
        obtain rfl : m = .shared := Option.some.inj (hmode.symm.trans hm)
        have hgentle' : Gentle dirId { y with pages := P } c := by
          have hg := hgentle rfl
          cases c <;> exact hg
        exact (gentle_rely hgentle' hchecked).2.2
      refine .inl ⟨[], (List.append_nil _).symm, ?_⟩
      refine access hcmp hprog (h.accounted.ideal hview hchecked) hacc hsame h hc hrun hdir fun hnone => ?_
      cases hmode.symm.trans hnone
    · obtain ⟨rfl, rfl⟩ := Prod.mk.inj (Except.ok.inj (hrun.symm.trans hrun₁))
      have hrules := (h.accounted.seated i).rules _ hprog
      rw [hview] at hrules
      obtain ⟨e, he⟩ := dead_fails (hrules.2 r .dead (.null hnull))
      refine .inr ⟨⟨i, ?_⟩, rfl, hsmall⟩
      rw [World.goOn_prog, he]
      rfl
  | fault hprog hrun =>
    -- a fault is no command of a caller who keeps to his rules
    obtain ⟨⟨r, t, hok⟩, hset⟩ := h.accounted.no_fault hprog hcounts
    rcases hrun with hrun | ⟨l, rfl, hnull⟩
    · cases hok.symm.trans hrun
    · exact absurd hnull (hset l rfl)

end effect

end InStep

/-! ## Runs -/

/-- The constructor gets its two pages only from a pool with two frames. -/
theorem two_frames {disk : Disk} {dir₀ : PageId} (hcount : cfg.idAt 2 < 2 ^ 31)
    {pool : BufferPoolManagerInstance Disk (PageData K V)}
    (hopen : callPool .debug (T.construct .debug dir₀) (create cfg disk) = .ok ((dirId, true), pool)) :
    2 ≤ cfg.poolSize := by
  by_contra hpool
  have hfresh : Backs cfg (Pages.empty : Pages K V) [] (create cfg disk) := .fresh hcount disk
  have hroom : (create cfg disk : BufferPoolManagerInstance Disk (PageData K V)).obtainable < 2 := by
    show ((List.range cfg.poolSize).map Int.ofNat).length + 0 < 2
    rw [List.length_map, List.length_range]
    omega
  obtain ⟨ptr, hrun⟩ := callPool_inv hopen
  obtain ⟨-, -, -, hno⟩ := construct_stuck hfresh.linked.inv.toConsistent hroom hrun
  cases hno

/-- What the constructor leaves is an empty table. -/
theorem opened_empty (hcount : cfg.idAt 2 < 2 ^ 31) {disk : Disk} {dir₀ : PageId}
    {pool : BufferPoolManagerInstance Disk (PageData K V)}
    (hopen : callPool .debug (T.construct .debug dir₀) (create cfg disk) = .ok ((dirId, true), pool)) :
    ∃ (P : Pages K V) (A : HashPartition.Partition PageId), Backs cfg P [] pool ∧ cfg.idAt P.next < 2 ^ 31 ∧
      T.TableInv cfg.idAt P dirId A ∅ := by
  have hids := cfg.idAt_injective
  have hdisc : Disciplined cfg.idAt 2 (T.construct .debug dir₀) Pages.empty _ _ :=
    construct_run hids (Nat.le_refl 2) Pages.empty dir₀
  obtain ⟨s, hopen', hbacks⟩ := Disciplined.callPool (two_frames hcount hopen) hdisc .debug hcount (.fresh hcount disk)
  obtain ⟨hret, rfl⟩ := Prod.mk.inj (Except.ok.inj (hopen'.symm.trans hopen))
  obtain rfl : cfg.idAt 0 = dirId := (Prod.mk.inj hret).1
  exact ⟨_, _, hbacks, hcount, firstPages_inv hids Pages.empty fun p hp => by cases hp⟩

/-- The log is one of the system of regions, and the callers are in step with it unless a page was null. -/
def Linear (T : HashTableType K V) (cfg : PoolConfig) (dirId : PageId) (P₁ : Pages K V)
    (z : World ι Disk K V × Log ι K V) : Prop :=
  ∃ ds s, (concurrent ι T cfg.idAt .debug dirId P₁).Run ⟨P₁, fun _ => .idle⟩ ds s ∧
    ds.filterMap SharedEvent.seen = z.2.seen ∧
    ((∃ P seat, InStep T cfg dirId z.1 z.2.made P seat s) ∨
      z.1.Aborted ∧ cfg.poolSize < max 3 (Fintype.card ι + 1))

/-- **The log of every run is one of the system of regions.** -/
theorem logged_linear (hcmp : ∀ k k', T.comparator k k' = 0 ↔ k = k') {A : HashPartition.Partition PageId}
    {pool : BufferPoolManagerInstance Disk (PageData K V)} (hbacks : Backs cfg P₁ [] pool)
    (hcount : cfg.idAt P₁.next < 2 ^ 31) (hinv : T.TableInv cfg.idAt P₁ dirId A ∅)
    {es : List (Act ι K V)} {z : World ι Disk K V × Log ι K V}
    (hrun : (logged ι T dirId pool).Run (.rest pool, ⟨fun _ => none, []⟩) es z) : Linear T cfg dirId P₁ z := by
  refine hrun.invariant (I := Linear T cfg dirId P₁) (fun z e z' hz hstep => ?_)
    ⟨[], _, .nil _, rfl, .inl ⟨P₁, _, .at_rest hbacks hcount hinv⟩⟩
  obtain ⟨⟨hcounts, hact⟩, hlog⟩ := hstep
  obtain ⟨ds, s, hds, hseen, ⟨P, seat, h⟩ | ⟨haborted, -⟩⟩ := hz
  · unfold Linear
    rw [hlog]
    rcases h.step hcmp P₁ hcounts (turn_of_act hact) with
      ⟨news, hnews, P', seat', ds', s', h', hds', hseen'⟩ | ⟨haborted, hsame, hsmall⟩
    · refine ⟨ds ++ ds', s', hds.append hds', ?_, .inl ⟨P', seat', h'⟩⟩
      rw [List.filterMap_append, hseen, hseen', hnews]
    · rw [h.accounted.backs.cfg_eq] at hsmall
      exact ⟨ds, s, hds, hseen.trans hsame.symm, .inr ⟨haborted, hsmall⟩⟩
  · exact absurd haborted (alive_of_act hact)

/-- **The table is linearizable command by command.**  Over a pool of any size, which any number of callers use
    with their commands in any order, as far as the latches let them: what is seen of their calls is a history of
    the atomic object.  Its set is what the pool holds whenever no writer is at work and the process runs; and
    it does not stop if the pool has three frames, and one more than there are callers. -/
theorem commands_linearizable (hcmp : ∀ k k', T.comparator k k' = 0 ↔ k = k') (hcount : cfg.idAt 2 < 2 ^ 31)
    {disk : Disk} {dir₀ : PageId} {pool : BufferPoolManagerInstance Disk (PageData K V)}
    (hopen : callPool .debug (T.construct .debug dir₀) (create cfg disk) = .ok ((dirId, true), pool))
    {es : List (Act ι K V)} {w : World ι Disk K V} {x : Log ι K V}
    (hrun : (logged ι T dirId pool).Run (.rest pool, ⟨fun _ => none, []⟩) es (w, x)) :
    (∃ as t, (system T.RefStep ∅).Run ⟨∅, fun _ => .idle⟩ as t ∧ as.filterMap AtomicObject.Event.seen = x.seen ∧
      (¬ w.Aborted → (∀ i, w.held .table i ≠ some .exclusive) → ∀ e, T.HoldsPool w.pool dirId e ↔ e ∈ t.obj)) ∧
    (max 3 (Fintype.card ι + 1) ≤ cfg.poolSize → ¬ w.Aborted) := by
  obtain ⟨P₁, A, hbacks, hnext, hinv⟩ := opened_empty hcount hopen
  obtain ⟨ds, s, hds, hseen, hstep⟩ := logged_linear hcmp hbacks hnext hinv hrun
  obtain ⟨t₀, as, t, rfl, hatomic, ⟨⟨B, hinv'⟩, -⟩, hseen'⟩ :=
    (concurrent_forwardSim (ι := ι) hcmp cfg.idAt_injective hinv .debug).traces rfl hds
  refine ⟨⟨as, t, hatomic, hseen'.trans hseen, fun halive hno e => ?_⟩, fun hlarge haborted => ?_⟩
  · rcases hstep with ⟨P, seat, h⟩ | ⟨haborted, -⟩
    · obtain rfl := h.pages hno
      rw [hinv'.toLayout.holdsPool_iff h.accounted.backs, hinv'.holds_iff]
    · exact absurd haborted halive
  · rcases hstep with ⟨P, seat, h⟩ | ⟨-, hsmall⟩
    · exact h.accounted.not_aborted haborted
    · omega

/-! ## A run -/

/-- Acts one after another, with their log. -/
def logs (T : HashTableType K V) (dirId : PageId) :
    List (Act ι K V) → World ι Disk K V × Log ι K V → Option (World ι Disk K V × Log ι K V)
  | [], z => some z
  | e :: es, z =>
    if z.1.Counts e then
      match T.act .debug dirId z.1 e with
      | some w => logs T dirId es (w, z.2.after z.1 e)
      | none => none
    else none

theorem logs_run {pool : BufferPoolManagerInstance Disk (PageData K V)} : ∀ {es : List (Act ι K V)}
    {z z' : World ι Disk K V × Log ι K V}, T.logs dirId es z = some z' → (logged ι T dirId pool).Run z es z' := by
  intro es
  induction es with
  | nil =>
    intro z z' h
    cases h
    exact .nil z
  | cons e es ih =>
    intro z z' h
    unfold logs at h
    split at h
    · next hcounts =>
      split at h
      · next w hact =>
        have hfirst : (logged ι T dirId pool).Run z [e] (w, z.2.after z.1 e) := .single ⟨⟨hcounts, hact⟩, rfl⟩
        exact hfirst.append (ih h)
      · cases h
    · cases h

/-- One caller inserts a pair while the other, which is at the same bucket, waits for its page latch. -/
def insertBesideReader : List (Act Bool ℤ ℤ) :=
  .call false (.call (.insert 5 7)) :: List.replicate 5 (.advance false) ++
  .call true (.call (.getValue 5 [])) :: List.replicate 4 (.advance true) ++
  List.replicate 6 (.advance false) ++ List.replicate 8 (.advance true) ++ List.replicate 2 (.advance false)

/-- The other one finds the pair, and returns first. -/
theorem commands_linearizable_two : ∃ pool w, ∃ x : Log Bool ℤ ℤ,
    callPool .debug (oneSlotTable.construct .debug 0) emptyPool = .ok ((0, true), pool) ∧
    (logged Bool oneSlotTable 0 pool).Run (.rest pool, ⟨fun _ => none, []⟩) insertBesideReader (w, x) ∧
    ¬ w.Aborted ∧ ∃ (as : List (AtomicObject.Event Bool (TableCall ℤ ℤ) (TableRet ℤ))) (t : _),
      (system oneSlotTable.RefStep ∅).Run ⟨∅, fun _ => .idle⟩ as t ∧
      rets (.getValue 5 []) (.values true [7]) (as.filterMap AtomicObject.Event.seen) = 1 ∧
      rets (.insert 5 7) (.flag true) (as.filterMap AtomicObject.Event.seen) = 1 := by
  have hsee : (callPool .debug (oneSlotTable.construct .debug 0) emptyPool).toOption.bind (fun y =>
      (oneSlotTable.logs 0 insertBesideReader (World.rest y.2, ⟨fun _ => none, []⟩)).map fun z =>
        (y.1, rets (.getValue 5 []) (.values true [7]) z.2.seen, rets (.insert 5 7) (.flag true) z.2.seen)) =
      some ((0, true), 1, 1) := by decide +kernel
  simp only [Option.bind_eq_some_iff, Option.map_eq_some_iff] at hsee
  obtain ⟨⟨r, pool⟩, hopen, ⟨w, x⟩, hlogs, hseen⟩ := hsee
  obtain ⟨rfl, hrets⟩ := Prod.mk.inj hseen
  obtain ⟨hget, hinsert⟩ := Prod.mk.inj hrets
  have hopen' := eq_ok_of_toOption hopen
  have hrun : (logged Bool oneSlotTable 0 pool).Run _ insertBesideReader (w, x) := logs_run hlogs
  obtain ⟨⟨as, t, hatomic, hsame, -⟩, hroom⟩ := commands_linearizable (T := oneSlotTable) smallTable_comparator
    (show threeFrames.idAt 2 < 2 ^ 31 by decide) hopen' hrun
  refine ⟨pool, w, x, hopen', hrun, hroom (by decide), as, t, hatomic, ?_, ?_⟩
  · rw [hsame]
    exact hget
  · rw [hsame]
    exact hinsert

end HashTableType

end BusTub
