/-
  No assertion fails.

  In the build that evaluates asserts a failed assert ends a method with a fault, and so do a null pointer and
  an index out of bounds.  So it is enough that every method returns.

  1. **`PublicCall`** are the public methods of a table: the three of `TableCall`, `GetGlobalDepth`, and
     `VerifyIntegrity`, which asserts what it has to say.

  2. `asserts_hold` — **the main result**: over a fresh pool of three frames or more that nobody else uses, any
     sequence of them returns.  It rests on the layout, which every method leaves (`Layout.publicCall_run`).
-/
import BusTub.Table.OverPool

set_option linter.unusedSectionVars false

namespace BusTub

open BufferPoolManagerInstance

/-- A call of a public method. -/
inductive PublicCall (K V : Type) where
  | call (c : TableCall K V)
  | getGlobalDepth
  | verifyIntegrity
  deriving DecidableEq

/-- What it returns. -/
inductive PublicRet (V : Type) where
  | call (r : TableRet V)
  | depth (global_depth : ℕ)
  | void
  deriving DecidableEq

namespace HashTableType

variable {K V : Type} [Inhabited K] [Inhabited V] [DecidableEq K] [DecidableEq V]

/-- The method that a public call runs. -/
def publicMethod (T : HashTableType K V) (b : Build) (dirId : PageId) (fuel : ℕ) :
    PublicCall K V → TableProg K V (PublicRet V)
  | .call c => do
    let ret ← T.method b dirId fuel c
    pure (.call ret)
  | .getGlobalDepth => do
    let global_depth ← T.getGlobalDepth b dirId
    pure (.depth global_depth)
  | .verifyIntegrity => do
    T.verifyIntegrity b dirId
    pure .void

/-- Make public calls over the ideal store. -/
def publicIdeal (T : HashTableType K V) (ids : ℕ → PageId) (b : Build) (dirId : PageId) (fuel : ℕ) :
    List (PublicCall K V) → Pages K V → Except Fault (List (PublicRet V) × Pages K V) :=
  runCalls fun c => callIdeal ids (T.publicMethod b dirId fuel c)

/-- Make public calls over a pool. -/
def publicPool {Disk : Type} [DiskManager Disk (PageData K V)] (T : HashTableType K V) (b : Build)
    (dirId : PageId) (fuel : ℕ) : List (PublicCall K V) → BufferPoolManagerInstance Disk (PageData K V) →
      Except Fault (List (PublicRet V) × BufferPoolManagerInstance Disk (PageData K V)) :=
  runCalls fun c => callPool b (T.publicMethod b dirId fuel c)

variable {T : HashTableType K V} {ids : ℕ → PageId} {cap : ℕ} {P : Pages K V} {dirId : PageId}
  {A : HashPartition.Partition PageId}

/-- **Every public call returns and leaves a layout.** -/
theorem Layout.publicCall_run (hcap : 3 ≤ cap) (hids : Function.Injective ids) {fuel : ℕ} (hfuel : 10 ≤ fuel)
    (h : T.Layout ids P dirId A) (c : PublicCall K V) : ∃ r P' A',
      Disciplined ids cap (T.publicMethod .debug dirId fuel c) P r P' ∧ T.Layout ids P' dirId A' := by
  cases c with
  | call c =>
    obtain ⟨r, P', A', hrun, hlayout⟩ := h.call_run hcap hids hfuel c
    exact ⟨_, P', A', hrun.bind (.pure _ P'), hlayout⟩
  | getGlobalDepth => exact ⟨_, P, A, (h.getGlobalDepth_run hcap).bind (.pure _ P), h⟩
  | verifyIntegrity => exact ⟨_, P, A, (h.verifyIntegrity_run hcap).bind (.pure _ P), h⟩

/-- **Every public call returns and keeps the invariant.** -/
theorem TableInv.publicCall_spec (hcap : 3 ≤ cap) (hids : Function.Injective ids) {fuel : ℕ} (hfuel : 10 ≤ fuel)
    {S : Finset (K × V)} (h : T.TableInv ids P dirId A S) (hcmp : ∀ k k', T.comparator k k' = 0 ↔ k = k')
    (c : PublicCall K V) : ∃ r P' A' S',
      Disciplined ids cap (T.publicMethod .debug dirId fuel c) P r P' ∧ T.TableInv ids P' dirId A' S' := by
  cases c with
  | call c =>
    obtain ⟨r, P', A', S', hrun, hinv, -⟩ := h.call_spec hcap hids hfuel hcmp c
    exact ⟨_, P', A', S', hrun.bind (.pure _ P'), hinv⟩
  | getGlobalDepth => exact ⟨_, P, A, S, (h.getGlobalDepth_run hcap).bind (.pure _ P), h⟩
  | verifyIntegrity => exact ⟨_, P, A, S, (h.verifyIntegrity_run hcap).bind (.pure _ P), h⟩

/-- **No assertion of the table, of its pages or of the pool can fail.**  Over a fresh pool of three frames or
    more, in the build that evaluates asserts, the construction and any public calls after it return.  The id
    counter, which the calls take to `idAt P₂.next`, has not wrapped. -/
theorem asserts_hold {Disk : Type} [DiskManager Disk (PageData K V)] [LawfulDiskManager Disk]
    {cfg : PoolConfig} (hpool : 3 ≤ cfg.poolSize) {fuel : ℕ} (hfuel : 10 ≤ fuel) (T : HashTableType K V)
    (disk : Disk) (dir₀ : PageId) (calls : List (PublicCall K V)) : ∃ P₁ rets P₂,
      callIdeal cfg.idAt (T.construct .debug dir₀) Pages.empty = .ok ((cfg.idAt 0, true), P₁) ∧
      T.publicIdeal cfg.idAt .debug (cfg.idAt 0) fuel calls P₁ = .ok (rets, P₂) ∧
      (cfg.idAt P₂.next < 2 ^ 31 → ∃ s₁ s₂,
        callPool .debug (T.construct .debug dir₀) (create cfg disk) = .ok ((cfg.idAt 0, true), s₁) ∧
        T.publicPool .debug (cfg.idAt 0) fuel calls s₁ = .ok (rets, s₂)) := by
  obtain ⟨P₁, rets, P₂, hopen, hcalls, hagree⟩ := opened_agree Disk T hpool
    (fun c P A h => h.publicCall_run (Nat.le_refl 3) cfg.idAt_injective hfuel c) disk dir₀ calls
  refine ⟨P₁, rets, P₂, hopen, hcalls, fun hcount => ?_⟩
  obtain ⟨s₁, s₂, hopen', hcalls', -⟩ := hagree hcount
  exact ⟨s₁, s₂, hopen', hcalls'⟩

/-- The insertions that split a bucket twice, then the two methods that only look. -/
def mixedCalls : List (PublicCall ℤ ℤ) :=
  [.call (.insert 0 7), .call (.insert 2 7), .call (.insert 4 7), .getGlobalDepth, .verifyIntegrity]

/-- Over three frames they all return, and no counter is near its end. -/
theorem asserts_hold_three_frames :
    ∃ (rets : List (PublicRet ℤ)) (s₁ s₂ : BufferPoolManagerInstance (PageId → PageData ℤ ℤ) (PageData ℤ ℤ)),
      callPool .debug (smallTable.construct .debug 0) (create threeFrames fun _ => 0) =
        .ok ((threeFrames.idAt 0, true), s₁) ∧
      smallTable.publicPool .debug (threeFrames.idAt 0) 10 mixedCalls s₁ = .ok (rets, s₂) := by
  obtain ⟨P₁, rets, P₂, hopen, hcalls, hagree⟩ := asserts_hold
    (show 3 ≤ threeFrames.poolSize from Nat.le_refl 3) (Nat.le_refl 10) smallTable
    (fun _ => 0 : PageId → PageData ℤ ℤ) 0 mixedCalls
  -- how many pages there are afterwards
  have hideal : (do
      let (_, P) ← callIdeal threeFrames.idAt (smallTable.construct .debug 0) Pages.empty
      let (_, P) ← smallTable.publicIdeal threeFrames.idAt .debug (threeFrames.idAt 0) 10 mixedCalls P
      .ok P.next : Except Fault ℕ) = .ok 4 := rfl
  rw [hopen] at hideal
  replace hideal : (smallTable.publicIdeal threeFrames.idAt .debug (threeFrames.idAt 0) 10 mixedCalls P₁ >>=
    fun x => .ok x.2.next) = Except.ok 4 := hideal
  rw [hcalls] at hideal
  have hnext : P₂.next = 4 := Except.ok.inj hideal
  obtain ⟨s₁, s₂, hopen', hcalls'⟩ := hagree (by rw [hnext]; decide)
  exact ⟨rets, s₁, s₂, hopen', hcalls'⟩

end HashTableType

end BusTub
