/-
  Concurrent callers.

  Every latched region of a call is one step; between the regions of a call any other caller may take
  steps.  `Insert` goes back and forth between its own region and that of `SplitInsert`, and `Remove`
  has the region of `Merge` after its own.

  1. **`concurrent`** is the step system of any number of callers over one table.

  2. **`linearizable`**: it implements the atomic object of the reference set.  A call takes effect in
     the region that settles its result; splits and merges leave the set alone.
-/
import BusTub.Table.Calls
import BusTub.Lib.AtomicObject

set_option linter.unusedSectionVars false

namespace BusTub

open Command HashPartition AtomicObject

/-- The latched regions: the first one of a call, and the two that may follow. -/
inductive Region (K V : Type) where
  | entry (c : TableCall K V)
  | splitInsert (key : K) (value : V)
  | merge (key : K) (value : V) (res : Bool)
  deriving DecidableEq

/-- Where a caller is: outside, before a region, or about to return. -/
inductive Phase (K V : Type) where
  | idle
  | before (x : Region K V)
  | returning (c : TableCall K V) (r : TableRet V)
  deriving DecidableEq

/-- The table's pages and its callers. -/
structure Shared (ι K V : Type) where
  pages : Pages K V
  phase : ι → Phase K V

/-- A call is made, a caller runs its next region, a call returns. -/
inductive SharedEvent (ι K V : Type) where
  | call (i : ι) (c : TableCall K V)
  | region (i : ι)
  | ret (i : ι) (c : TableCall K V) (r : TableRet V)

/-- What a history shows of an event. -/
def SharedEvent.seen {ι K V : Type} : SharedEvent ι K V → Option (Seen ι (TableCall K V) (TableRet V))
  | .call i c => some (.call i c)
  | .region _ => none
  | .ret i c r => some (.ret i c r)

namespace HashTableType

variable {K V : Type} [Inhabited K] [Inhabited V] [DecidableEq K] [DecidableEq V]

/-- Run a region over the pages: the caller's next phase, and the pages it leaves. -/
def runRegion (T : HashTableType K V) (ids : ℕ → PageId) (b : Build) (dirId : PageId) :
    Region K V → Pages K V → Except Fault (Phase K V × Pages K V)
  | .entry (.insert key value), P => do
    let (res, P) ← callIdeal ids (T.insertRegion b dirId key value) P
    match res with
    | some res => .ok (.returning (.insert key value) (.flag res), P)
    | none => .ok (.before (.splitInsert key value), P)
  | .splitInsert key value, P => do
    let (res, P) ← callIdeal ids (T.splitInsertRegion b dirId key value) P
    match res with
    | some res => .ok (.returning (.insert key value) (.flag res), P)
    | none => .ok (.before (.entry (.insert key value)), P)
  | .entry (.remove key value), P => do
    let (res, P) ← callIdeal ids (T.removeRegion b dirId key value) P
    .ok (.before (.merge key value res), P)
  | .merge key value res, P => do
    let (_, P) ← callIdeal ids (T.merge b dirId key) P
    .ok (.returning (.remove key value) (.flag res), P)
  | .entry (.getValue key result), P => do
    let (res, P) ← callIdeal ids (T.getValue b dirId key result) P
    .ok (.returning (.getValue key result) (.values res.1 res.2), P)

variable {ι : Type} [DecidableEq ι]

/-- **The callers `ι` over the table whose directory is at `dirId`**, from the pages `P₁`. -/
def concurrent (ι : Type) [DecidableEq ι] (T : HashTableType K V) (ids : ℕ → PageId) (b : Build)
    (dirId : PageId) (P₁ : Pages K V) : StepSystem (Shared ι K V) (SharedEvent ι K V) where
  init s := s = ⟨P₁, fun _ => .idle⟩
  step s e s' := match e with
    | .call i c => s.phase i = .idle ∧
        s' = { s with phase := Function.update s.phase i (.before (.entry c)) }
    | .region i => ∃ x y P, s.phase i = .before x ∧ T.runRegion ids b dirId x s.pages = .ok (y, P) ∧
        s' = ⟨P, Function.update s.phase i y⟩
    | .ret i c r => s.phase i = .returning c r ∧ s' = { s with phase := Function.update s.phase i .idle }

/-- A step of the callers, where it can be made. -/
def advance (T : HashTableType K V) (ids : ℕ → PageId) (b : Build) (dirId : PageId) (s : Shared ι K V) :
    SharedEvent ι K V → Option (Shared ι K V)
  | .call i c =>
    if s.phase i = .idle then some { s with phase := Function.update s.phase i (.before (.entry c)) } else none
  | .region i =>
    match s.phase i with
    | .before x =>
      (T.runRegion ids b dirId x s.pages).toOption.map fun r => ⟨r.2, Function.update s.phase i r.1⟩
    | _ => none
  | .ret i c r =>
    if s.phase i = .returning c r then some { s with phase := Function.update s.phase i .idle } else none

theorem advance_step {T : HashTableType K V} {ids : ℕ → PageId} {b : Build} {dirId : PageId} {P₁ : Pages K V}
    {s t : Shared ι K V} {e : SharedEvent ι K V} (h : T.advance ids b dirId s e = some t) :
    (concurrent ι T ids b dirId P₁).step s e t := by
  cases e with
  | call i c =>
    obtain ⟨hidle, ht⟩ := Option.ite_none_right_eq_some.mp h
    exact ⟨hidle, (Option.some.inj ht).symm⟩
  | region i =>
    cases hx : s.phase i with
    | before x =>
      simp only [advance, hx] at h
      obtain ⟨⟨y, P⟩, hrun, rfl⟩ := Option.map_eq_some_iff.mp h
      exact ⟨x, y, P, hx, eq_ok_of_toOption hrun, rfl⟩
    | _ =>
      simp only [advance, hx] at h
      cases h
  | ret i c r =>
    obtain ⟨hret, ht⟩ := Option.ite_none_right_eq_some.mp h
    exact ⟨hret, (Option.some.inj ht).symm⟩

/-- Two callers of a table with two slots a bucket: the third insertion splits the bucket while the other caller is about
    to remove a pair, and the removal joins the two again. -/
def splitAndMerge : List (SharedEvent Bool ℤ ℤ) :=
  [.call true (.insert 0 7), .region true, .ret true (.insert 0 7) (.flag true),
    .call true (.insert 1 7), .region true, .ret true (.insert 1 7) (.flag true),
    .call true (.insert 2 7), .region true, .call false (.remove 1 7), .region true, .region false,
    .region true, .region false, .ret false (.remove 1 7) (.flag true)]

/-! ## Regions and effects -/

/-- The call a region belongs to, and its result if that is settled. -/
def Region.status : Region K V → Status (TableCall K V) (TableRet V)
  | .entry c => .pending c
  | .splitInsert key value => .pending (.insert key value)
  | .merge key value res => .done (.remove key value) (.flag res)

/-- What the atomic object knows of a phase. -/
def Phase.status : Phase K V → Status (TableCall K V) (TableRet V)
  | .idle => .idle
  | .before x => Region.status x
  | .returning c r => .done c r

variable {T : HashTableType K V} {ids : ℕ → PageId} {b : Build} {dirId : PageId} {P : Pages K V}
  {A : Partition PageId} {S : Finset (K × V)}

section

variable (hcmp : ∀ k k', T.comparator k k' = 0 ↔ k = k') (hids : Function.Injective ids)
include hcmp hids

/-- **A region never fails, and either settles its call's result with a step of the reference, or
    leaves call and set alone.** -/
theorem TableInv.runRegion_spec (h : T.TableInv ids P dirId A S) (b : Build) (x : Region K V) :
    ∃ y P' A' S', T.runRegion ids b dirId x P = .ok (y, P') ∧ T.TableInv ids P' dirId A' S' ∧
      ((Phase.status y = Region.status x ∧ S' = S) ∨
        ∃ c r, Region.status x = .pending c ∧ Phase.status y = .done c r ∧ T.RefStep S c r S') := by
  have hcap := Nat.le_refl 3
  cases x with
  | entry c =>
    cases c with
    | insert key value =>
      have hfollow := T.insertRegion_follows b ids 3 dirId key value
      -- a bucket with room settles the result; a full one leaves it to `SplitInsert`
      rcases h.insertRegion_spec hcap hcmp key value with ⟨r, P', S', hrun, hinv, href⟩ | hrun
      · obtain ⟨Q, hcall, hcov⟩ := Disciplined.callIdeal hrun hfollow
        refine ⟨.returning (.insert key value) (.flag r), Q, A, S', ?_, hinv.covers hcov,
          .inr ⟨_, _, rfl, rfl, href⟩⟩
        simp [runRegion, hcall, bind, Except.bind]
      · obtain ⟨Q, hcall, hcov⟩ := Disciplined.callIdeal hrun hfollow
        refine ⟨.before (.splitInsert key value), Q, A, S, ?_, h.covers hcov, .inl ⟨rfl, rfl⟩⟩
        simp [runRegion, hcall, bind, Except.bind]
    | remove key value =>
      obtain ⟨r, P', S', hrun, hinv, href⟩ := h.removeRegion_spec hcap hcmp key value
      obtain ⟨Q, hcall, hcov⟩ := Disciplined.callIdeal hrun (T.removeRegion_follows b ids 3 dirId key value)
      refine ⟨.before (.merge key value r), Q, A, S', ?_, hinv.covers hcov, .inr ⟨_, _, rfl, rfl, href⟩⟩
      simp [runRegion, hcall, bind, Except.bind]
    | getValue key result =>
      obtain ⟨r, hrun, href⟩ := h.getValue_spec hcap hcmp key result
      obtain ⟨Q, hcall, hcov⟩ := Disciplined.callIdeal hrun (T.getValue_follows b ids 3 dirId key result)
      refine ⟨.returning (.getValue key result) (.values r.1 r.2), Q, A, S, ?_, h.covers hcov,
        .inr ⟨_, _, rfl, rfl, href⟩⟩
      simp [runRegion, hcall, bind, Except.bind]
  | splitInsert key value =>
    have hfollow := T.splitInsertRegion_follows b ids 3 dirId key value
    rcases h.splitInsertRegion_spec hcap hcmp hids key value with
      ⟨r, P', S', hrun, hinv, href⟩ | ⟨P', A', hrun, hinv, -⟩
    · obtain ⟨Q, hcall, hcov⟩ := Disciplined.callIdeal hrun hfollow
      refine ⟨.returning (.insert key value) (.flag r), Q, A, S', ?_, hinv.covers hcov,
        .inr ⟨_, _, rfl, rfl, href⟩⟩
      simp [runRegion, hcall, bind, Except.bind]
    · obtain ⟨Q, hcall, hcov⟩ := Disciplined.callIdeal hrun hfollow
      refine ⟨.before (.entry (.insert key value)), Q, A', S, ?_, hinv.covers hcov, .inl ⟨rfl, rfl⟩⟩
      simp [runRegion, hcall, bind, Except.bind]
  | merge key value res =>
    -- the result was settled before, by the region of `Remove`
    obtain ⟨P', A', hrun, hinv⟩ := h.merge_spec hcap key
    obtain ⟨Q, hcall, hcov⟩ := Disciplined.callIdeal hrun (T.merge_follows b ids 3 dirId key)
    refine ⟨.returning (.remove key value) (.flag res), Q, A', S, ?_, hinv.covers hcov, .inl ⟨rfl, rfl⟩⟩
    simp [runRegion, hcall, bind, Except.bind]

/-! ## The simulation -/

omit hcmp hids in
/-- The pages hold the object's set, and every caller is where the object has it. -/
def Simulated (T : HashTableType K V) (ids : ℕ → PageId) (dirId : PageId) (s : Shared ι K V)
    (t : State ι (Finset (K × V)) (TableCall K V) (TableRet V)) : Prop :=
  (∃ A, T.TableInv ids s.pages dirId A t.obj) ∧ ∀ i, t.status i = Phase.status (s.phase i)

/-- **The table implements the atomic object of the reference set.** -/
theorem concurrent_forwardSim (h : T.TableInv ids P dirId A ∅) (b : Build) :
    (concurrent ι T ids b dirId P).ForwardSim (system T.RefStep ∅) SharedEvent.seen AtomicObject.Event.seen
      (Simulated T ids dirId) where
  init s hs := by
    subst hs
    exact ⟨⟨∅, fun _ => .idle⟩, rfl, ⟨A, h⟩, fun _ => rfl⟩
  step s t e s' hR hstep := by
    obtain ⟨⟨A, hinv⟩, hstatus⟩ := hR
    have hupdate : ∀ (i : ι) (y : Phase K V), ∀ j, Function.update t.status i (Phase.status y) j =
        Phase.status (Function.update s.phase i y j) := by
      intro i y j
      by_cases hj : j = i
      · simp [hj]
      · simp [hj, hstatus]
    cases e with
    | call i c =>
      -- a call is announced, and pending on both sides
      obtain ⟨hidle, rfl⟩ := hstep
      have hstep' : (system T.RefStep ∅).step t (.call i c)
          { t with status := Function.update t.status i (.pending c) } := by
        refine ⟨?_, rfl⟩
        rw [hstatus, hidle]
        rfl
      exact ⟨_, _, .single hstep', ⟨⟨A, hinv⟩, hupdate i (.before (.entry c))⟩, rfl⟩
    | region i =>
      -- a region either changes nothing that the set shows or is where the call takes effect
      obtain ⟨x, y, P', hx, hrun, rfl⟩ := hstep
      obtain ⟨y', Q, A', S', hrun', hinv', heffect⟩ := hinv.runRegion_spec hcmp hids b x
      rw [hrun] at hrun'
      cases hrun'
      rcases heffect with ⟨hsame, rfl⟩ | ⟨c, r, hpend, hdone, href⟩
      · -- the atomic object does nothing
        refine ⟨[], t, .nil t, ⟨⟨A', hinv'⟩, fun j => ?_⟩, rfl⟩
        rw [← hupdate i y j, hsame]
        by_cases hj : j = i
        · rw [hj, Function.update_self, hstatus, hx]
          rfl
        · rw [Function.update_of_ne hj]
      · -- the call takes effect
        have hstep' : (system T.RefStep ∅).step t (.act i c r)
            ⟨S', Function.update t.status i (.done c r)⟩ := by
          refine ⟨?_, S', href, rfl⟩
          rw [hstatus, hx]
          exact hpend
        exact ⟨_, _, .single hstep', ⟨⟨A', hinv'⟩, hdone ▸ hupdate i y⟩, rfl⟩
    | ret i c r =>
      -- the result was settled when the call took effect
      obtain ⟨hret, rfl⟩ := hstep
      have hstep' : (system T.RefStep ∅).step t (.ret i c r)
          { t with status := Function.update t.status i .idle } := by
        refine ⟨?_, rfl⟩
        rw [hstatus, hret]
        rfl
      exact ⟨_, _, .single hstep', ⟨⟨A, hinv⟩, hupdate i .idle⟩, rfl⟩

end

/-! ## The history -/

section history

variable {as : List (AtomicObject.Event ι (TableCall K V) (TableRet V))}
  {t : State ι (Finset (K × V)) (TableCall K V) (TableRet V)}

/-- A pair was inserted once more than it was removed if it is there, and as often if it is not. -/
theorem acts_balance (hrun : (system T.RefStep ∅).Run ⟨∅, fun _ => .idle⟩ as t) (key : K) (value : V) :
    acts (.insert key value) (.flag true) as =
      acts (.remove key value) (.flag true) as + if (key, value) ∈ t.obj then 1 else 0 := by
  induction hrun with
  | nil => rfl
  | @snoc s u as e _ hstep ih =>
    rw [acts_snoc, acts_snoc]
    cases e with
    | call i c =>
      obtain ⟨-, rfl⟩ := hstep
      simpa [AtomicObject.Event.isAct] using ih
    | ret i c r =>
      obtain ⟨-, rfl⟩ := hstep
      simpa [AtomicObject.Event.isAct] using ih
    | act i c r =>
      obtain ⟨-, S', href, rfl⟩ := hstep
      cases href with
      | @inserted k v hnew hroom =>
        by_cases he : k = key ∧ v = value
        · obtain ⟨rfl, rfl⟩ := he
          rw [if_neg hnew] at ih
          simp [AtomicObject.Event.isAct, ih]
        · have hne : (key, value) ≠ (k, v) := fun heq => he (by cases heq; exact ⟨rfl, rfl⟩)
          simp [AtomicObject.Event.isAct, he, ih, Finset.mem_insert, hne]
      | notInserted hno => simpa [AtomicObject.Event.isAct] using ih
      | @removed k v hmem =>
        by_cases he : k = key ∧ v = value
        · obtain ⟨rfl, rfl⟩ := he
          rw [if_pos hmem] at ih
          simp [AtomicObject.Event.isAct, ih]
        · have hne : (key, value) ≠ (k, v) := fun heq => he (by cases heq; exact ⟨rfl, rfl⟩)
          simp [AtomicObject.Event.isAct, he, ih, Finset.mem_erase, hne]
      | notRemoved hmem => simpa [AtomicObject.Event.isAct] using ih
      | got hnodup hmem => simpa [AtomicObject.Event.isAct] using ih

end history

/-- Pair `e` lies in the bucket that its key is looked up in. -/
def Holds (T : HashTableType K V) (P : Pages K V) (dirId : PageId) (e : K × V) : Prop :=
  e ∈ T.pairsAt P (T.keyToPageId e.1 (T.directoryAt P dirId))

theorem TableInv.holds_iff (h : T.TableInv ids P dirId A S) (e : K × V) : T.Holds P dirId e ↔ e ∈ S := by
  unfold Holds
  rw [h.page, h.mem_iff]

/-- **The table is linearizable.**  In every run of any number of callers no region fails, and the
    history is one of the atomic object, whose set is what the pages hold.  So a pair that is never
    removed is inserted at most once, and is there once its `Insert` has returned true. -/
theorem linearizable (hcmp : ∀ k k', T.comparator k k' = 0 ↔ k = k') (hids : Function.Injective ids)
    (b : Build) {P₁ : Pages K V} {dir₀ : PageId} (hdel : ∀ p ∈ P.deleted, P.Created ids p)
    (hopen : callIdeal ids (T.construct b dir₀) P = .ok ((dirId, true), P₁))
    {es : List (SharedEvent ι K V)} {s : Shared ι K V}
    (hrun : (concurrent ι T ids b dirId P₁).Run ⟨P₁, fun _ => .idle⟩ es s) :
    (∀ i x, s.phase i = .before x → ∃ y P', T.runRegion ids b dirId x s.pages = .ok (y, P')) ∧
    (∃ as t, (system T.RefStep ∅).Run ⟨∅, fun _ => .idle⟩ as t ∧
      as.filterMap AtomicObject.Event.seen = es.filterMap SharedEvent.seen ∧
      ∀ e, T.Holds s.pages dirId e ↔ e ∈ t.obj) ∧
    (∀ key value, rets (.insert key value) (.flag true) (es.filterMap SharedEvent.seen) ≤
      calls (.remove key value) (es.filterMap SharedEvent.seen) + 1) ∧
    (∀ key value, calls (.remove key value) (es.filterMap SharedEvent.seen) = 0 →
      0 < rets (.insert key value) (.flag true) (es.filterMap SharedEvent.seen) →
      T.Holds s.pages dirId (key, value)) := by
  obtain ⟨t₀, as, t, rfl, hatomic, ⟨⟨A, hinv⟩, hstatus⟩, hseen⟩ :=
    (concurrent_forwardSim (ι := ι) hcmp hids (construct_spec hids b hdel hopen) b).traces rfl hrun
  have hbalance := acts_balance hatomic
  have hrets := fun key value => rets_le_acts hatomic (.insert key value) (.flag true)
  have hcalls := fun key value => acts_le_calls hatomic (.remove key value) (.flag true)
  rw [hseen] at hrets hcalls
  refine ⟨fun i x _ => ?_, ⟨as, t, hatomic, hseen, hinv.holds_iff⟩, fun key value => ?_,
    fun key value hnone hsome => ?_⟩
  · obtain ⟨y, P', -, -, hregion, -⟩ := hinv.runRegion_spec hcmp hids b x
    exact ⟨y, P', hregion⟩
  · have h1 := hrets key value
    have h2 := hcalls key value
    have h3 := hbalance key value
    split at h3 <;> omega
  · have h1 := hrets key value
    have h2 := hcalls key value
    have h3 := hbalance key value
    rw [hinv.holds_iff]
    by_contra hno
    rw [if_neg hno] at h3
    omega

theorem linearizable_two_callers : ∃ P₁ s,
    callIdeal countingIds (smallTable.construct .debug 0) noPages = .ok ((0, true), P₁) ∧
    (concurrent Bool smallTable countingIds .debug 0 P₁).Run ⟨P₁, fun _ => .idle⟩
      [.call true (.insert 5 7), .call false (.insert 5 7), .region true] s ∧
    ∃ as t, (system smallTable.RefStep ∅).Run ⟨∅, fun _ => .idle⟩ as t ∧
      as.filterMap AtomicObject.Event.seen = [.call true (.insert 5 7), .call false (.insert 5 7)] := by
  obtain ⟨P₁, hopen⟩ := smallTable_opens .debug
  have hdel : ∀ p ∈ noPages.deleted, noPages.Created countingIds p := fun p hp => (by cases hp)
  have hinv := construct_spec countingIds_injective .debug hdel hopen
  obtain ⟨y, P', -, -, hregion, -⟩ := hinv.runRegion_spec smallTable_comparator countingIds_injective .debug
    (.entry (.insert 5 7))
  have h₁ : (concurrent Bool smallTable countingIds .debug 0 P₁).step ⟨P₁, fun _ => .idle⟩
      (.call true (.insert 5 7)) ⟨P₁, Function.update (fun _ => .idle) true (.before (.entry (.insert 5 7)))⟩ :=
    ⟨rfl, rfl⟩
  have h₂ : (concurrent Bool smallTable countingIds .debug 0 P₁).step
      ⟨P₁, Function.update (fun _ => .idle) true (.before (.entry (.insert 5 7)))⟩ (.call false (.insert 5 7))
      ⟨P₁, fun _ => .before (.entry (.insert 5 7))⟩ := by
    refine ⟨rfl, congrArg (Shared.mk P₁) ?_⟩
    funext i
    cases i <;> rfl
  have h₃ : (concurrent Bool smallTable countingIds .debug 0 P₁).step
      ⟨P₁, fun _ => .before (.entry (.insert 5 7))⟩ (.region true)
      ⟨P', Function.update (fun _ => .before (.entry (.insert 5 7))) true y⟩ :=
    ⟨.entry (.insert 5 7), y, P', rfl, hregion, rfl⟩
  have hrun := ((StepSystem.Run.single h₁).snoc h₂).snoc h₃
  obtain ⟨-, ⟨as, t, hatomic, hseen, -⟩, -⟩ :=
    linearizable smallTable_comparator countingIds_injective .debug hdel hopen hrun
  exact ⟨P₁, _, hopen, hrun, as, t, hatomic, hseen⟩

end HashTableType

end BusTub
