/-
  Callers that take turns command by command.

  In `Concurrent` a latched region is one step.  Here every command of every caller is a step of its own, on
  one pool, and the latches keep the callers apart.

  1. **Jobs.**  A call is a chain of jobs, each under one hold of the table latch.  One after another they are
     the method (`jobs_method`).

  2. **Latches.**  `table_latch_` is one latch, and every frame has one, which stays with the frame when
     another page is read into it.  Their class is not part of these sources.  It is taken to be a
     reader/writer latch: shared if nobody holds it exclusively, exclusive if nobody holds it at all.  Whether
     a waiting writer keeps new readers out is left open: it may, so a reader that it keeps out counts as
     blocked (`Blocked`), and it need not, so a reader may go first (`Grants`).

  3. **`act`** is what a caller does next: the next command of its job, the next job of its call, or the
     return.  A failed assert aborts the process, so nobody acts after it.  `Turn` lists what an act can be.
-/
import BusTub.Table.Completes
import BusTub.Table.Concurrent
import Mathlib.Data.Fintype.Basic

set_option linter.unusedSectionVars false

namespace BusTub

open Command

/-! ## Jobs -/

/-- A part of a call that runs under one hold of the table latch. -/
inductive Job (K V : Type) where
  | region (x : Region K V)
  | getGlobalDepth
  | verifyIntegrity

/-- The first job of a call. -/
def PublicCall.job {K V : Type} : PublicCall K V → Job K V
  | .call c => .region (.entry c)
  | .getGlobalDepth => .getGlobalDepth
  | .verifyIntegrity => .verifyIntegrity

/-- What a caller runs: a job, which ends with the job that follows or with the call's result. -/
abbrev JobProg (K V : Type) : Type := TableProg K V (Job K V ⊕ PublicRet V)

/-- The program of a job. -/
def HashTableType.jobProg {K V : Type} [Inhabited K] [Inhabited V] [DecidableEq V] (T : HashTableType K V)
    (b : Build) (dirId : PageId) : Job K V → TableProg K V (Job K V ⊕ PublicRet V)
  | .region (.entry (.insert key value)) => do
    match ← T.insertRegion b dirId key value with
    | some res => pure (.inr (.call (.flag res)))
    | none => pure (.inl (.region (.splitInsert key value)))
  | .region (.splitInsert key value) => do
    match ← T.splitInsertRegion b dirId key value with
    | some res => pure (.inr (.call (.flag res)))
    | none => pure (.inl (.region (.entry (.insert key value))))
  | .region (.entry (.remove key value)) => do
    let res ← T.removeRegion b dirId key value
    pure (.inl (.region (.merge key value res)))
  | .region (.merge key _ res) => do
    T.merge b dirId key
    pure (.inr (.call (.flag res)))
  | .region (.entry (.getValue key result)) => do
    let res ← T.getValue b dirId key result
    pure (.inr (.call (.values res.1 res.2)))
  | .getGlobalDepth => do
    let global_depth ← T.getGlobalDepth b dirId
    pure (.inr (.depth global_depth))
  | .verifyIntegrity => do
    T.verifyIntegrity b dirId
    pure (.inr .void)

section jobs

open TableProg

variable {K V : Type} [Inhabited K] [Inhabited V] [DecidableEq K] [DecidableEq V]

/-- A job and those that follow it, `fuel` at most. -/
def HashTableType.jobs (T : HashTableType K V) (b : Build) (dirId : PageId) :
    (fuel : ℕ) → Job K V → TableProg K V (PublicRet V)
  | 0, _ => Prog.fail .diverges
  | fuel + 1, x => do
    match ← T.jobProg b dirId x with
    | .inl x => HashTableType.jobs T b dirId fuel x
    | .inr r => pure r

variable (T : HashTableType K V) (b : Build) (dirId : PageId)

theorem HashTableType.jobs_insert (key : K) (value : V) : ∀ fuel : ℕ,
    T.jobs b dirId (2 * fuel) (.region (.entry (.insert key value))) =
      T.insert b dirId key value fuel >>= fun res => pure (.call (.flag res)) := by
  intro fuel
  induction fuel with
  | zero => rfl
  | succ fuel ih =>
    show (T.insertRegion b dirId key value >>= _) >>= _ = (T.insertRegion b dirId key value >>= _) >>= _
    rw [Prog.bind_bind, Prog.bind_bind]
    congr 1
    funext res
    cases res with
    | some res => rfl
    | none =>
      show (T.splitInsertRegion b dirId key value >>= _) >>= _ = (T.splitInsertRegion b dirId key value >>= _) >>= _
      rw [Prog.bind_bind, Prog.bind_bind]
      congr 1
      funext res
      cases res with
      | some res => rfl
      | none => exact ih

/-- **The jobs of a call, one after another, are its method.** -/
theorem HashTableType.jobs_method (fuel : ℕ) (c : PublicCall K V) :
    T.jobs b dirId (2 * (fuel + 1)) c.job = T.publicMethod b dirId (fuel + 1) c := by
  cases c with
  | call c =>
    cases c with
    | insert key value =>
      refine (T.jobs_insert b dirId key value (fuel + 1)).trans ?_
      show _ = (T.insert b dirId key value (fuel + 1) >>= _) >>= _
      rw [Prog.bind_bind]
      rfl
    | remove key value =>
      show (T.removeRegion b dirId key value >>= _) >>= _ = ((T.removeRegion b dirId key value >>= _) >>= _) >>= _
      rw [Prog.bind_bind, Prog.bind_bind, Prog.bind_bind]
      congr 1
      funext res
      show (T.merge b dirId key >>= _) >>= _ = (T.merge b dirId key >>= fun _ => pure res) >>= _
      rw [Prog.bind_bind, Prog.bind_bind]
      rfl
    | getValue key result =>
      show (T.getValue b dirId key result >>= _) >>= _ = (T.getValue b dirId key result >>= _) >>= _
      rw [Prog.bind_bind, Prog.bind_bind]
      rfl
  | getGlobalDepth =>
    show (T.getGlobalDepth b dirId >>= _) >>= _ = T.getGlobalDepth b dirId >>= _
    rw [Prog.bind_bind]
    rfl
  | verifyIntegrity =>
    show (T.verifyIntegrity b dirId >>= _) >>= _ = T.verifyIntegrity b dirId >>= _
    rw [Prog.bind_bind]
    rfl

end jobs

/-! ## Latches -/

/-- How a latch is held. -/
inductive Mode where
  | shared
  | exclusive
  deriving DecidableEq, Repr

/-- `table_latch_`, and the latch of a frame. -/
inductive Latch where
  | table
  | page (f : FrameId)
  deriving DecidableEq, Repr

/-- The latch that an operation is on, unless its pointer is null. -/
def LatchOp.latch (ptr : PtrVar → Option FrameId) : LatchOp → Option Latch
  | .tableRLock => some .table
  | .tableRUnlock => some .table
  | .tableWLock => some .table
  | .tableWUnlock => some .table
  | .pageRLatch v => (ptr v).map .page
  | .pageRUnlatch v => (ptr v).map .page
  | .pageWLatch v => (ptr v).map .page
  | .pageWUnlatch v => (ptr v).map .page

/-- The mode that an operation takes its latch in; none if it gives it back. -/
def LatchOp.mode : LatchOp → Option Mode
  | .tableRLock => some .shared
  | .tableRUnlock => none
  | .tableWLock => some .exclusive
  | .tableWUnlock => none
  | .pageRLatch _ => some .shared
  | .pageRUnlatch _ => none
  | .pageWLatch _ => some .exclusive
  | .pageWUnlatch _ => none

/-- The page that each variable was made to point to, after a command. -/
def Cmd.pageAfter {K V : Type} (page : PtrVar → Option PageId) : (c : Cmd K V) → Cmd.Res c → PtrVar → Option PageId
  | .newPage v, id => Function.update page v id
  | .fetchPage v p, res => Function.update page v (if res then some p else none)
  | _, _ => page

/-! ## The system -/

/-- A pool and its callers. -/
structure World (ι Disk K V : Type) where
  pool : BufferPoolManagerInstance Disk (PageData K V)
  /-- What is left of a caller's job; none while it makes no call. -/
  prog : ι → Option (JobProg K V)
  ptr : ι → PtrVar → Option FrameId
  /-- The page that a variable was made to point to, which the code does not remember. -/
  page : ι → PtrVar → Option PageId
  held : Latch → ι → Option Mode

/-- A caller makes a call, or does what is next. -/
inductive Act (ι K V : Type) where
  | call (i : ι) (c : PublicCall K V)
  | advance (i : ι)

/-- Whose act it is. -/
def Act.caller {ι K V : Type} : Act ι K V → ι
  | .call i _ => i
  | .advance i => i

namespace World

variable {ι Disk K V : Type} [DiskManager Disk (PageData K V)]

/-- Nobody has made a call yet. -/
def rest (pool : BufferPoolManagerInstance Disk (PageData K V)) : World ι Disk K V :=
  ⟨pool, fun _ => none, fun _ _ => none, fun _ _ => none, fun _ _ => none⟩

variable [DecidableEq ι] (w : World ι Disk K V) (i : ι)

/-- Change what is left of a caller's job. -/
def goOn (p : Option (JobProg K V)) : World ι Disk K V := { w with prog := Function.update w.prog i p }

/-- A caller starts a job, with new local variables. -/
def start (p : JobProg K V) : World ι Disk K V :=
  { w with
    prog := Function.update w.prog i (some p)
    ptr := Function.update w.ptr i fun _ => none
    page := Function.update w.page i fun _ => none }

/-- A caller holds a latch as `m` says. -/
def hold (x : Latch) (m : Option Mode) : World ι Disk K V :=
  { w with held := Function.update w.held x (Function.update (w.held x) i m) }

/-- The latch can be had. -/
def Grants (x : Latch) : Mode → Prop
  | .shared => ∀ j, w.held x j ≠ some .exclusive
  | .exclusive => ∀ j, w.held x j = none

instance [Fintype ι] (x : Latch) (m : Mode) : Decidable (w.Grants x m) := by
  cases m <;> unfold Grants <;> infer_instance

/-- Whether a program has failed. -/
def failed : Option (JobProg K V) → Bool
  | some (.fail _) => true
  | _ => false

/-- The process was aborted. -/
def Aborted : Prop := ∃ i, failed (w.prog i) = true

instance [Fintype ι] : Decidable w.Aborted := by
  unfold Aborted; infer_instance

/-- A caller's command left the pool and its variables as `t` says. -/
def accessed (c : Cmd K V) (r : Cmd.Res c) (t : PoolStore Disk K V) : World ι Disk K V :=
  { w with
    pool := t.pool
    ptr := Function.update w.ptr i t.ptr
    page := Function.update w.page i (c.pageAfter (w.page i) r) }

@[simp] theorem goOn_prog (p : Option (JobProg K V)) : (w.goOn i p).prog i = p := Function.update_self ..

@[simp] theorem start_prog (p : JobProg K V) : (w.start i p).prog i = some p := Function.update_self ..

theorem hold_held (x : Latch) (m : Option Mode) (y : Latch) (j : ι) :
    (w.hold i x m).held y j = if y = x ∧ j = i then m else w.held y j := by
  show Function.update w.held x (Function.update (w.held x) i m) y j = _
  by_cases hy : y = x
  · subst hy
    rw [Function.update_self, Function.update_apply]
    simp
  · rw [Function.update_of_ne hy, if_neg fun he => hy he.1]

/-- A call to the pool or an access to a page. -/
def access (b : Build) (c : Cmd K V) : Except Fault (Cmd.Res c × World ι Disk K V) :=
  match poolMachine b c ⟨w.pool, w.ptr i⟩ with
  | .ok (r, t) => .ok (r, w.accessed i c r t)
  | .error e => .error e

/-- An operation on a latch; none while it has to wait. -/
def latchOp [Fintype ι] (l : LatchOp) : Option (Except Fault (Unit × World ι Disk K V)) :=
  match l.latch (w.ptr i) with
  | none => some (.error .nullPointer)
  | some x =>
    match l.mode with
    | none => some (.ok ((), w.hold i x none))
    | some m => if w.Grants x m then some (.ok ((), w.hold i x (some m))) else none

/-- A command; none while it has to wait. -/
def command [Fintype ι] (b : Build) : (c : Cmd K V) → Option (Except Fault (Cmd.Res c × World ι Disk K V))
  | .newPage v => some (w.access i b (.newPage v))
  | .fetchPage v p => some (w.access i b (.fetchPage v p))
  | .unpinPage p d => some (w.access i b (.unpinPage p d))
  | .deletePage p => some (w.access i b (.deletePage p))
  | .load v => some (w.access i b (.load v))
  | .store v x => some (w.access i b (.store v x))
  | .latch l => w.latchOp i l

end World

namespace HashTableType

variable {ι Disk K V : Type} [DecidableEq ι] [Fintype ι] [DiskManager Disk (PageData K V)]
variable [Inhabited K] [Inhabited V] [DecidableEq K] [DecidableEq V]

/-- What an act does; none if it is not to be done now. -/
def act (T : HashTableType K V) (b : Build) (dirId : PageId) (w : World ι Disk K V) :
    Act ι K V → Option (World ι Disk K V)
  | .call i c =>
    if w.Aborted then none
    else match w.prog i with
    | none => some (w.start i (T.jobProg b dirId c.job))
    | some _ => none
  | .advance i =>
    if w.Aborted then none
    else match w.prog i with
    | none => none
    | some (.ret (.inl x)) => some (w.start i (T.jobProg b dirId x))
    | some (.ret (.inr _)) => some (w.goOn i none)
    | some (.fail _) => none
    | some (.cmd c k) =>
      match w.command i b c with
      | none => none
      | some (.ok (r, w')) => some (w'.goOn i (some (k r)))
      | some (.error e) => some (w.goOn i (some (.fail e)))

/-- **The callers `ι` of the table whose directory is at `dirId`**, over one pool, as far as their acts are
    `allowed`. -/
def callers (ι : Type) [DecidableEq ι] [Fintype ι] (T : HashTableType K V) (b : Build) (dirId : PageId)
    (pool : BufferPoolManagerInstance Disk (PageData K V)) (allowed : World ι Disk K V → Act ι K V → Prop) :
    StepSystem (World ι Disk K V) (Act ι K V) where
  init w := w = .rest pool
  step w e w' := allowed w e ∧ T.act b dirId w e = some w'

end HashTableType

namespace World

variable {ι Disk K V : Type} [DecidableEq ι] [DiskManager Disk (PageData K V)]

/-- The latch that a caller is about to take, and how. -/
def wanted (w : World ι Disk K V) (i : ι) : Option (Latch × Mode) :=
  match w.prog i with
  | some (.cmd (.latch l) _) => do
    let x ← l.latch (w.ptr i)
    let m ← l.mode
    some (x, m)
  | _ => none

/-- A caller waits for a latch: it cannot be had, or a writer waits for it and the caller is a reader. -/
def Blocked (w : World ι Disk K V) (i : ι) : Prop :=
  ∃ x m, w.wanted i = some (x, m) ∧ (¬ w.Grants x m ∨ m = .shared ∧ ∃ j, w.wanted j = some (x, .exclusive))

/-- A caller has made a call that has not returned. -/
def Unfinished (w : World ι Disk K V) (i : ι) : Prop := w.prog i ≠ none

end World

/-! ## One act -/

namespace HashTableType

variable {ι Disk K V : Type} [DecidableEq ι] [Fintype ι] [DiskManager Disk (PageData K V)]
variable [Inhabited K] [Inhabited V] [DecidableEq K] [DecidableEq V]
variable {T : HashTableType K V} {b : Build} {dirId : PageId}

/-- **What an act can be.** -/
inductive Turn (T : HashTableType K V) (b : Build) (dirId : PageId) (w : World ι Disk K V) :
    Act ι K V → World ι Disk K V → Prop where
  | call {i : ι} {c : PublicCall K V} (hprog : w.prog i = none) :
      Turn T b dirId w (.call i c) (w.start i (T.jobProg b dirId c.job))
  | next {i : ι} {x : Job K V} (hprog : w.prog i = some (.ret (.inl x))) :
      Turn T b dirId w (.advance i) (w.start i (T.jobProg b dirId x))
  | ret {i : ι} {r : PublicRet V} (hprog : w.prog i = some (.ret (.inr r))) :
      Turn T b dirId w (.advance i) (w.goOn i none)
  | latch {i : ι} {l : LatchOp} {k : Unit → JobProg K V} {x : Latch} {m : Option Mode}
      (hprog : w.prog i = some (.cmd (.latch l) k)) (hlatch : l.latch (w.ptr i) = some x) (hmode : l.mode = m)
      (hgrants : ∀ m', m = some m' → w.Grants x m') :
      Turn T b dirId w (.advance i) ((w.hold i x m).goOn i (some (k ())))
  | access {i : ι} {c : Cmd K V} {k : Cmd.Res c → JobProg K V} {r : Cmd.Res c} {t : PoolStore Disk K V}
      (hprog : w.prog i = some (.cmd c k)) (hc : ∀ l, c ≠ .latch l)
      (hrun : poolMachine b c ⟨w.pool, w.ptr i⟩ = .ok (r, t)) :
      Turn T b dirId w (.advance i) ((w.accessed i c r t).goOn i (some (k r)))
  | fault {i : ι} {c : Cmd K V} {k : Cmd.Res c → JobProg K V} {e : Fault} (hprog : w.prog i = some (.cmd c k))
      (hrun : poolMachine b c ⟨w.pool, w.ptr i⟩ = .error e ∨ ∃ l, c = .latch l ∧ l.latch (w.ptr i) = none) :
      Turn T b dirId w (.advance i) (w.goOn i (some (.fail e)))

variable {w w' : World ι Disk K V} {i : ι} {e : Act ι K V}

/-- A command is an operation on a latch or goes to the pool. -/
theorem command_access {c : Cmd K V} (hc : ∀ l, c ≠ .latch l) : w.command i b c = some (w.access i b c) := by
  cases c with
  | latch l => exact absurd rfl (hc l)
  | _ => rfl

/-- Nobody acts after the process was aborted. -/
theorem alive_of_act (hact : T.act b dirId w e = some w') : ¬ w.Aborted :=
  fun h => by cases e <;> simp [act, h] at hact

theorem act_advance_cmd {c : Cmd K V} {k : Cmd.Res c → JobProg K V} (hprog : w.prog i = some (.cmd c k))
    (hact : T.act b dirId w (.advance i) = some w') : T.Turn b dirId w (.advance i) w' := by
  simp only [act, if_neg (alive_of_act hact), hprog] at hact
  by_cases hc : ∃ l, c = .latch l
  · obtain ⟨l, rfl⟩ := hc
    cases hlatch : l.latch (w.ptr i) with
    | none =>
      simp only [World.command, World.latchOp, hlatch] at hact
      cases hact
      exact .fault hprog (.inr ⟨l, rfl, hlatch⟩)
    | some x =>
      cases hmode : l.mode with
      | none =>
        simp only [World.command, World.latchOp, hlatch, hmode] at hact
        cases hact
        exact .latch hprog hlatch hmode fun m hm => (by cases hm)
      | some m =>
        by_cases hgrants : w.Grants x m
        · simp only [World.command, World.latchOp, hlatch, hmode, if_pos hgrants] at hact
          cases hact
          exact .latch hprog hlatch hmode fun m' hm => by
            cases hm
            exact hgrants
        · simp only [World.command, World.latchOp, hlatch, hmode, if_neg hgrants] at hact
          cases hact
  · have hc' : ∀ l, c ≠ .latch l := fun l he => hc ⟨l, he⟩
    simp only [command_access hc', World.access] at hact
    cases hrun : poolMachine b c ⟨w.pool, w.ptr i⟩ with
    | error e =>
      simp only [hrun] at hact
      cases hact
      exact .fault hprog (.inl hrun)
    | ok x =>
      obtain ⟨r, t⟩ := x
      simp only [hrun] at hact
      cases hact
      exact .access hprog hc' hrun

theorem turn_of_act (hact : T.act b dirId w e = some w') : T.Turn b dirId w e w' := by
  have haborted := alive_of_act hact
  cases e with
  | call i c =>
    simp only [act, if_neg haborted] at hact
    split at hact
    · next hprog =>
      cases hact
      exact .call hprog
    · cases hact
  | advance i =>
    cases hprog : w.prog i with
    | none => simp [act, haborted, hprog] at hact
    | some p =>
      cases p with
      | cmd c k => exact act_advance_cmd hprog hact
      | fail e => simp [act, haborted, hprog] at hact
      | ret y =>
        cases y with
        | inl x =>
          simp only [act, if_neg haborted, hprog] at hact
          cases hact
          exact .next hprog
        | inr r =>
          simp only [act, if_neg haborted, hprog] at hact
          cases hact
          exact .ret hprog

/-- A caller is as it was. -/
structure SameCaller (w w' : World ι Disk K V) (j : ι) : Prop where
  prog : w'.prog j = w.prog j
  ptr : w'.ptr j = w.ptr j
  page : w'.page j = w.page j
  held : ∀ x, w'.held x j = w.held x j

/-- **An act changes no other caller.** -/
theorem Turn.others (h : T.Turn b dirId w e w') {j : ι} (hj : j ≠ e.caller) : SameCaller w w' j := by
  cases h with
  | call => exact ⟨Function.update_of_ne hj .., Function.update_of_ne hj .., Function.update_of_ne hj .., fun _ => rfl⟩
  | next => exact ⟨Function.update_of_ne hj .., Function.update_of_ne hj .., Function.update_of_ne hj .., fun _ => rfl⟩
  | ret => exact ⟨Function.update_of_ne hj .., rfl, rfl, fun _ => rfl⟩
  | fault => exact ⟨Function.update_of_ne hj .., rfl, rfl, fun _ => rfl⟩
  | access => exact ⟨Function.update_of_ne hj .., Function.update_of_ne hj .., Function.update_of_ne hj .., fun _ => rfl⟩
  | @latch i l k x m =>
    replace hj : j ≠ i := hj
    exact ⟨Function.update_of_ne hj .., rfl, rfl, fun y => (w.hold_held i x m y j).trans (if_neg fun he => hj he.2)⟩

/-! ## Runs -/

/-- Acts one after another, as far as they are allowed. -/
def acts (T : HashTableType K V) (b : Build) (dirId : PageId) (allowed : World ι Disk K V → Act ι K V → Prop)
    [∀ w e, Decidable (allowed w e)] : List (Act ι K V) → World ι Disk K V → Option (World ι Disk K V)
  | [], w => some w
  | e :: es, w =>
    if allowed w e then
      match T.act b dirId w e with
      | some w' => acts T b dirId allowed es w'
      | none => none
    else none

theorem acts_run {pool : BufferPoolManagerInstance Disk (PageData K V)} {allowed : World ι Disk K V → Act ι K V → Prop}
    [∀ w e, Decidable (allowed w e)] : ∀ {es : List (Act ι K V)} {w w' : World ι Disk K V},
      T.acts b dirId allowed es w = some w' → (callers ι T b dirId pool allowed).Run w es w' := by
  intro es
  induction es with
  | nil =>
    intro w w' h
    cases h
    exact .nil w
  | cons e es ih =>
    intro w w' h
    unfold acts at h
    split at h
    · next hallowed =>
      split at h
      · next w₁ hact =>
        have hfirst : (callers ι T b dirId pool allowed).Run w [e] w₁ := .single ⟨hallowed, hact⟩
        exact hfirst.append (ih h)
      · cases h
    · cases h

/-- A table whose buckets have one slot. -/
def oneSlotTable : HashTableType ℤ ℤ := { smallTable with bucketArraySize := 1 }

/-- A fresh pool of three frames. -/
def emptyPool : BufferPoolManagerInstance (PageId → PageData ℤ ℤ) (PageData ℤ ℤ) :=
  .create threeFrames fun _ => 0

/-- Two callers on it. -/
abbrev TwoCallers : Type := World Bool (PageId → PageData ℤ ℤ) ℤ ℤ

/-- What two callers do after the construction, and what is seen of where they are then. -/
def observe {α : Type} (allowed : TwoCallers → Act Bool ℤ ℤ → Prop) [∀ w e, Decidable (allowed w e)]
    (es : List (Act Bool ℤ ℤ)) (see : TwoCallers → α) : Option ((PageId × Bool) × α) := do
  let (r, pool) ← (callPool .debug (oneSlotTable.construct .debug 0) emptyPool).toOption
  let w ← oneSlotTable.acts .debug 0 allowed es (.rest pool)
  some (r, see w)

theorem observe_run {α : Type} {allowed : TwoCallers → Act Bool ℤ ℤ → Prop} [∀ w e, Decidable (allowed w e)]
    {es : List (Act Bool ℤ ℤ)} {see : TwoCallers → α} {r : PageId × Bool} {x : α}
    (h : observe allowed es see = some (r, x)) : ∃ pool w,
      callPool .debug (oneSlotTable.construct .debug 0) emptyPool = .ok (r, pool) ∧
      (callers Bool oneSlotTable .debug 0 pool allowed).Run (.rest pool) es w ∧ see w = x := by
  simp only [observe, Option.bind_eq_bind, Option.bind_eq_some_iff] at h
  obtain ⟨⟨r', pool⟩, hopen, w, hrun, hseen⟩ := h
  cases hseen
  exact ⟨pool, w, eq_ok_of_toOption hopen, acts_run hrun, rfl⟩

end HashTableType

end BusTub
