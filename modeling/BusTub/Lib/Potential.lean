/-
  The potential method, for runs of a step system.

  A potential is a number that every state has.  If each step pays its price out of what the potential falls
  by and of what its event brings in, a run pays all its prices out of the potential it starts with and of
  what its events bring in (`Run.paid`).

  The potential of several callers is the sum over them, and a step of one caller changes one summand
  (`sum_update`).
-/
import BusTub.Lib.StepSystem
import Mathlib.Algebra.BigOperators.Group.Finset.Basic
import Mathlib.Algebra.BigOperators.Ring.List
import Mathlib.Algebra.Ring.Nat
import Mathlib.Data.Fintype.Basic

namespace StepSystem

variable {σ ε : Type*} {M : StepSystem σ ε} {I : σ → Prop}

/-- What the events of a run come to. -/
def total (f : ε → ℕ) (es : List ε) : ℕ := (es.map f).sum

/-- A run without events costs nothing. -/
@[simp] theorem total_nil (f : ε → ℕ) : total f [] = 0 := rfl

/-- Costs of parts add up. -/
@[simp] theorem total_append (f : ε → ℕ) (es es' : List ε) : total f (es ++ es') = total f es + total f es' := by
  unfold total
  rw [List.map_append, List.sum_append]

@[simp] theorem total_single (f : ε → ℕ) (e : ε) : total f [e] = f e := by
  show f e + 0 = f e
  omega

/-- A fixed factor can be taken out. -/
theorem total_mul (k : ℕ) (f : ε → ℕ) (es : List ε) : total (fun e => k * f e) es = k * total f es :=
  List.sum_map_mul_left es f k

/-- What is bounded event by event is bounded in total. -/
theorem total_le {f g : ε → ℕ} (hle : ∀ e, f e ≤ g e) (es : List ε) : total f es ≤ total g es := by
  induction es with
  | nil => exact Nat.le_refl 0
  | cons e es ih => exact Nat.add_le_add (hle e) ih

/-- **The potential method.** -/
theorem Run.paid (potential : σ → ℕ) (price income : ε → ℕ)
    (hstep : ∀ s e t, I s → M.step s e t → I t ∧ price e + potential t ≤ potential s + income e)
    {s t : σ} {es : List ε} (h : M.Run s es t) (hs : I s) :
    I t ∧ total price es + potential t ≤ potential s + total income es := by
  induction h with
  | nil => exact ⟨hs, by simp⟩
  | snoc _ hst ih =>
    obtain ⟨hI, hpaid⟩ := ih
    obtain ⟨hI', hone⟩ := hstep _ _ _ hI hst
    refine ⟨hI', ?_⟩
    rw [total_append, total_append, total_single, total_single]
    omega

/-- One summand is exchanged. -/
theorem sum_update {ι α : Type*} [Fintype ι] [DecidableEq ι] (f : α → ℕ) (x : ι → α) (i : ι) (a : α) :
    (∑ j, f (Function.update x i a j)) + f (x i) = (∑ j, f (x j)) + f a := by
  have hsplit : ∀ y : ι → α, (∑ j, f (y j)) = f (y i) + ∑ j ∈ Finset.univ.erase i, f (y j) := fun y =>
    (Finset.add_sum_erase _ (fun j => f (y j)) (Finset.mem_univ i)).symm
  have hrest : (∑ j ∈ Finset.univ.erase i, f (Function.update x i a j)) = ∑ j ∈ Finset.univ.erase i, f (x j) := by
    refine Finset.sum_congr rfl fun j hj => ?_
    rw [Function.update_of_ne (Finset.ne_of_mem_erase hj)]
  rw [hsplit, hsplit x, hrest, Function.update_self]
  omega

end StepSystem
