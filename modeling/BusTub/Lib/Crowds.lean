/-
  How crowded the cells of a partition are.

  The members of a finite set have numbers, and the crowd of `x` at depth `d` are the members whose number agrees
  with `x` in the low `d` bits.

  1. **`Thrifty`**: a partition is thrifty if no cell was halved for a crowd of `B` or fewer.  Halving a cell with a
     larger crowd keeps it so (`Thrifty.split`).

  2. **A thrifty partition whose crowds all fit is the only one**: every number has the least depth at which
     its crowd fits (`Thrifty.isLeast`), and the greatest depth is the least one at which all crowds
     fit (`Thrifty.isLeast_all`).  Nothing else about how it came about is left in it.
-/
import BusTub.Lib.HashPartition
import Mathlib.Data.Finset.Card
import Mathlib.Order.Bounds.Basic

set_option linter.unusedSectionVars false

namespace HashPartition

variable {α : Type*} [DecidableEq α] {num : α → ℕ} {S S' : Finset α} {x y d e B : ℕ} {a : α}

/-- How many members of `S` agree with `x` in the low `d` bits. -/
def crowdAt (num : α → ℕ) (S : Finset α) (x d : ℕ) : ℕ := (S.filter fun a => num a ≡ x [MOD 2 ^ d]).card

/-- More bits, fewer who agree. -/
theorem crowdAt_anti (hde : d ≤ e) : crowdAt num S x e ≤ crowdAt num S x d :=
  Finset.card_le_card (Finset.monotone_filter_right S fun _ _ h => modEq_of_le hde h)

theorem crowdAt_mono (hsub : S ⊆ S') : crowdAt num S x d ≤ crowdAt num S' x d :=
  Finset.card_le_card (Finset.filter_subset_filter _ hsub)

theorem crowdAt_congr (h : x ≡ y [MOD 2 ^ d]) : crowdAt num S x d = crowdAt num S y d := by
  unfold crowdAt
  refine congrArg Finset.card (Finset.filter_congr fun a _ => ?_)
  exact ⟨fun ha => ha.trans h, fun ha => ha.trans h.symm⟩

/-- A new member who agrees with `x` makes its crowd larger. -/
theorem crowdAt_lt_insert (hnew : a ∉ S) (ha : num a ≡ x [MOD 2 ^ d]) :
    crowdAt num S x d < crowdAt num (insert a S) x d := by
  refine Finset.card_lt_card (Finset.ssubset_iff.mpr ⟨a, fun hmem => hnew (Finset.mem_of_mem_filter a hmem), ?_⟩)
  intro c hc
  rw [Finset.mem_filter, Finset.mem_insert]
  rcases Finset.mem_insert.mp hc with rfl | hc
  · exact ⟨.inl rfl, ha⟩
  · obtain ⟨hmem, hmod⟩ := Finset.mem_filter.mp hc
    exact ⟨.inr hmem, hmod⟩

namespace Partition

variable {P : Type*} {A : Partition P} {i g : ℕ} {q : P}

/-- **No cell was halved for a crowd of `B` or fewer.** -/
def Thrifty (A : Partition P) (num : α → ℕ) (S : Finset α) (B : ℕ) : Prop :=
  ∀ x e, A.depth x = e + 1 → B < crowdAt num S x e

theorem thrifty_whole (p : P) : (whole p).Thrifty num S B := by
  intro x e he
  cases he

theorem Thrifty.mono (h : A.Thrifty num S B) (hsub : S ⊆ S') : A.Thrifty num S' B :=
  fun x e he => Nat.lt_of_lt_of_le (h x e he) (crowdAt_mono hsub)

/-- **A cell may be halved for a larger crowd.** -/
theorem Thrifty.split [DecidableEq P] (h : A.Thrifty num S B) (hq : ∀ n, A.page n ≠ q)
    (hcrowd : B < crowdAt num S i (A.depth i)) : (A.split i q hq).Thrifty num S B := by
  intro x e he
  by_cases hin : x ≡ i [MOD 2 ^ A.depth i]
  · have hdepth : (A.split i q hq).depth x = A.depth i + 1 := if_pos hin
    obtain rfl : e = A.depth i := by omega
    rw [crowdAt_congr hin]
    exact hcrowd
  · have hdepth : (A.split i q hq).depth x = A.depth x := if_neg hin
    exact h x e (hdepth ▸ he)

/-- **The depth of `x` is the least one at which its crowd fits.** -/
theorem Thrifty.isLeast (h : A.Thrifty num S B) (hfit : crowdAt num S x (A.depth x) ≤ B) :
    IsLeast {d | crowdAt num S x d ≤ B} (A.depth x) := by
  refine ⟨hfit, fun d hd => ?_⟩
  by_contra hlt
  obtain ⟨e, he⟩ := Nat.exists_eq_succ_of_ne_zero (Nat.ne_zero_of_lt (Nat.not_le.mp hlt))
  have hbig := h x e he
  have hsmall : crowdAt num S x e ≤ crowdAt num S x d := crowdAt_anti (by omega)
  exact absurd (hsmall.trans hd) (Nat.not_le.mpr hbig)

/-- **The greatest depth is the least one at which all crowds fit.** -/
theorem Thrifty.isLeast_all (h : A.Thrifty num S B) (hfit : ∀ x, crowdAt num S x (A.depth x) ≤ B)
    (hle : ∀ x, A.depth x ≤ g) (htight : g = 0 ∨ ∃ x, A.depth x = g) :
    IsLeast {d | ∀ x, crowdAt num S x d ≤ B} g := by
  refine ⟨fun x => (crowdAt_anti (hle x)).trans (hfit x), fun d hd => ?_⟩
  rcases htight with rfl | ⟨x, rfl⟩
  · exact Nat.zero_le d
  · exact (h.isLeast (hfit x)).2 (hd x)

end Partition

end HashPartition
