/-
  The atomic object: what it means for concurrent calls to be linearizable.

  Callers `ι` share an object with states `σ`, whose calls `C` return results `R` as `spec` says.  In
  the atomic object a call takes effect in a single step of its own, at some moment between the moment
  it is made and the moment it returns.  An implementation is linearizable if every history of its
  calls and returns is a history of the atomic object.

  1. **`AtomicObject.system`** is the atomic object as a step system, and `seen` is what a history
     shows of its events.

  2. **Counting**: a result is returned no more often than calls took effect with it, and a call takes
     effect no more often than it is made (`rets_le_acts`, `acts_le_calls`).
-/
import BusTub.Lib.StepSystem
import Mathlib.Data.Finset.Insert
import Mathlib.Data.Finset.Card

set_option linter.unusedSectionVars false

namespace AtomicObject

variable {ι σ C R : Type} [DecidableEq ι]

/-- Where a caller is. -/
inductive Status (C R : Type) where
  | idle
  | pending (c : C)
  | done (c : C) (r : R)

structure State (ι σ C R : Type) where
  obj : σ
  status : ι → Status C R

/-- A call is made, takes effect, returns. -/
inductive Event (ι C R : Type) where
  | call (i : ι) (c : C)
  | act (i : ι) (c : C) (r : R)
  | ret (i : ι) (c : C) (r : R)

/-- What a history consists of. -/
inductive Seen (ι C R : Type) where
  | call (i : ι) (c : C)
  | ret (i : ι) (c : C) (r : R)

/-- What a history shows of an event. -/
def Event.seen : Event ι C R → Option (Seen ι C R)
  | .call i c => some (.call i c)
  | .act _ _ _ => none
  | .ret i c r => some (.ret i c r)

/-- **The atomic object**, starting from `o₀`. -/
def system (spec : σ → C → R → σ → Prop) (o₀ : σ) : StepSystem (State ι σ C R) (Event ι C R) where
  init s := s = ⟨o₀, fun _ => .idle⟩
  step s e s' := match e with
    | .call i c => s.status i = .idle ∧ s' = { s with status := Function.update s.status i (.pending c) }
    | .act i c r => s.status i = .pending c ∧
        ∃ o', spec s.obj c r o' ∧ s' = ⟨o', Function.update s.status i (.done c r)⟩
    | .ret i c r => s.status i = .done c r ∧ s' = { s with status := Function.update s.status i .idle }

/-! ## Counting -/

variable [DecidableEq C] [DecidableEq R]

def Event.isAct (c : C) (r : R) : Event ι C R → Bool
  | .act _ c' r' => decide (c' = c ∧ r' = r)
  | _ => false

def Seen.isCall (c : C) : Seen ι C R → Bool
  | .call _ c' => decide (c' = c)
  | _ => false

def Seen.isRet (c : C) (r : R) : Seen ι C R → Bool
  | .ret _ c' r' => decide (c' = c ∧ r' = r)
  | _ => false

variable {spec : σ → C → R → σ → Prop} {o₀ : σ} {es : List (Event ι C R)} {t : State ι σ C R}

/-- How often `c` took effect with result `r`. -/
def acts (c : C) (r : R) (es : List (Event ι C R)) : ℕ := es.countP (Event.isAct c r)

/-- How often `c` is called in a history. -/
def calls (c : C) (h : List (Seen ι C R)) : ℕ := h.countP (Seen.isCall c)

/-- How often `c` returns `r` in a history. -/
def rets (c : C) (r : R) (h : List (Seen ι C R)) : ℕ := h.countP (Seen.isRet c r)

theorem acts_snoc (c : C) (r : R) (es : List (Event ι C R)) (e : Event ι C R) :
    acts c r (es ++ [e]) = acts c r es + if e.isAct c r then 1 else 0 := by
  simp [acts, List.countP_append, List.countP_singleton]

theorem calls_snoc (c : C) (es : List (Event ι C R)) (e : Event ι C R) :
    calls c ((es ++ [e]).filterMap Event.seen) =
      calls c (es.filterMap Event.seen) + (e.seen.toList).countP (Seen.isCall c) := by
  rw [calls, List.filterMap_append, List.countP_append]
  cases e <;> rfl

theorem rets_snoc (c : C) (r : R) (es : List (Event ι C R)) (e : Event ι C R) :
    rets c r ((es ++ [e]).filterMap Event.seen) =
      rets c r (es.filterMap Event.seen) + (e.seen.toList).countP (Seen.isRet c r) := by
  rw [rets, List.filterMap_append, List.countP_append]
  cases e <;> rfl

open Classical in
/-- When the status of one caller changes, the set of callers with status `x` changes by that one. -/
theorem exists_update {f : ι → Status C R} {x : Status C R} {D : Finset ι} (hD : ∀ j, j ∈ D ↔ f j = x)
    (i : ι) (y : Status C R) : ∃ D' : Finset ι, (∀ j, j ∈ D' ↔ Function.update f i y j = x) ∧
      D'.card + (if f i = x then 1 else 0) = D.card + if y = x then 1 else 0 := by
  have herase : (D.erase i).card + (if f i = x then 1 else 0) = D.card := by
    by_cases hi : f i = x
    · rw [if_pos hi, Finset.card_erase_add_one ((hD i).mpr hi)]
    · rw [if_neg hi, Finset.erase_eq_of_notMem fun hmem => hi ((hD i).mp hmem)]
      rfl
  by_cases hy : y = x
  · refine ⟨insert i (D.erase i), fun j => ?_, ?_⟩
    · by_cases hj : j = i
      · simp [hj, hy]
      · simp [hj, hD]
    · rw [Finset.card_insert_of_notMem (Finset.notMem_erase i D), if_pos hy]
      omega
  · refine ⟨D.erase i, fun j => ?_, ?_⟩
    · by_cases hj : j = i
      · simp [hj, hy]
      · simp [hj, hD]
    · rw [if_neg hy]
      omega

/-- The callers whose call took effect and has not returned make the difference. -/
theorem rets_add_done (hrun : (system spec o₀).Run ⟨o₀, fun _ => .idle⟩ es t) (c : C) (r : R) :
    ∃ D : Finset ι, (∀ i, i ∈ D ↔ t.status i = .done c r) ∧
      rets c r (es.filterMap Event.seen) + D.card = acts c r es := by
  -- a caller joins `D` when its call takes effect and leaves it when the call returns
  induction hrun with
  | nil => exact ⟨∅, fun i => by simp, rfl⟩
  | @snoc s u es e _ hstep ih =>
    obtain ⟨D, hD, hcount⟩ := ih
    rw [acts_snoc, rets_snoc]
    cases e with
    | call i c' =>
      obtain ⟨hidle, rfl⟩ := hstep
      obtain ⟨D', hD', hcard⟩ := exists_update hD i (.pending c')
      refine ⟨D', hD', ?_⟩
      simp [hidle] at hcard
      simp [Event.seen, Event.isAct, Seen.isRet]
      omega
    | act i c' r' =>
      obtain ⟨hpend, o', -, rfl⟩ := hstep
      obtain ⟨D', hD', hcard⟩ := exists_update hD i (.done c' r')
      refine ⟨D', hD', ?_⟩
      simp [hpend] at hcard
      simp [Event.seen, Event.isAct]
      omega
    | ret i c' r' =>
      obtain ⟨hdone, rfl⟩ := hstep
      obtain ⟨D', hD', hcard⟩ := exists_update hD i .idle
      refine ⟨D', hD', ?_⟩
      simp [hdone] at hcard
      simp [Event.seen, Event.isAct, Seen.isRet, List.countP_singleton]
      omega

/-- **A result is returned no more often than it came about.** -/
theorem rets_le_acts (hrun : (system spec o₀).Run ⟨o₀, fun _ => .idle⟩ es t) (c : C) (r : R) :
    rets c r (es.filterMap Event.seen) ≤ acts c r es := by
  obtain ⟨D, -, hcount⟩ := rets_add_done hrun c r
  omega

/-- The callers whose call has not taken effect are among the calls made. -/
theorem acts_add_pending (hrun : (system spec o₀).Run ⟨o₀, fun _ => .idle⟩ es t) (c : C) (r : R) :
    ∃ D : Finset ι, (∀ i, i ∈ D ↔ t.status i = .pending c) ∧
      acts c r es + D.card ≤ calls c (es.filterMap Event.seen) := by
  -- only an inequality: a pending call may still take effect with another result
  induction hrun with
  | nil => exact ⟨∅, fun i => by simp, Nat.le_refl 0⟩
  | @snoc s u es e _ hstep ih =>
    obtain ⟨D, hD, hcount⟩ := ih
    rw [acts_snoc, calls_snoc]
    cases e with
    | call i c' =>
      obtain ⟨hidle, rfl⟩ := hstep
      obtain ⟨D', hD', hcard⟩ := exists_update hD i (.pending c')
      refine ⟨D', hD', ?_⟩
      simp [hidle] at hcard
      simp [Event.seen, Event.isAct, Seen.isCall, List.countP_singleton]
      omega
    | act i c' r' =>
      obtain ⟨hpend, o', -, rfl⟩ := hstep
      obtain ⟨D', hD', hcard⟩ := exists_update hD i (.done c' r')
      refine ⟨D', hD', ?_⟩
      by_cases hc : c' = c
      · simp [hpend, hc] at hcard
        simp [Event.seen, Event.isAct, hc]
        split <;> omega
      · simp [hpend, hc] at hcard
        simp [Event.seen, Event.isAct, hc]
        omega
    | ret i c' r' =>
      obtain ⟨hdone, rfl⟩ := hstep
      obtain ⟨D', hD', hcard⟩ := exists_update hD i .idle
      refine ⟨D', hD', ?_⟩
      simp [hdone] at hcard
      simp [Event.seen, Event.isAct, Seen.isCall]
      omega

/-- **A call takes effect no more often than it is made.** -/
theorem acts_le_calls (hrun : (system spec o₀).Run ⟨o₀, fun _ => .idle⟩ es t) (c : C) (r : R) :
    acts c r es ≤ calls c (es.filterMap Event.seen) := by
  obtain ⟨D, -, hcount⟩ := acts_add_pending hrun c r
  omega

end AtomicObject
