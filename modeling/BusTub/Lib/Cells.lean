/-
  The cells of a partition, counted.

  1. **`Partition.cells g`** are the pages of the numbers below `2 ^ g`.  Once `g` bounds the depths these are
     all the pages there are (`mem_cells`), so that a larger `g` gives the same ones.

  2. **Halving a cell adds one page, joining two takes one away** (`cells_split`, `cells_merge`).

  3. **How many cells there can be**: at most `2 ^ g`, and more than `g` if some cell has depth `g`, since its
     siblings at the lower depths all have cells of their own (`lt_card_cells`).
-/
import BusTub.Lib.Siblings
import Mathlib.Data.Finset.Card
import Mathlib.Data.Finset.Image

set_option linter.unusedSectionVars false

namespace HashPartition

namespace Partition

variable {P : Type*} [DecidableEq P] {A B : Partition P} {g g' i s e : ℕ} {p q : P}

/-- The pages of the numbers below `2 ^ g`. -/
def cells (A : Partition P) (g : ℕ) : Finset P := (Finset.range (2 ^ g)).image A.page

/-! ## Which pages they are -/

theorem mem_cells (hg : ∀ x, A.depth x ≤ g) : p ∈ A.cells g ↔ ∃ x, A.page x = p := by
  unfold cells
  rw [Finset.mem_image]
  constructor
  · rintro ⟨x, -, hx⟩
    exact ⟨x, hx⟩
  · rintro ⟨x, rfl⟩
    refine ⟨x % 2 ^ g, ?_, A.page_mod (hg x)⟩
    rw [Finset.mem_range]
    exact Nat.mod_lt _ (Nat.two_pow_pos g)

/-- Partitions with the same pages have the same cells. -/
theorem cells_congr (hA : ∀ x, A.depth x ≤ g) (hB : ∀ x, B.depth x ≤ g')
    (h : ∀ p, (∃ x, A.page x = p) ↔ ∃ x, B.page x = p) : A.cells g = B.cells g' := by
  ext p
  rw [mem_cells hA, mem_cells hB]
  exact h p

/-- Two partitions with the same pages are one. -/
theorem ext_page (h : ∀ x, A.page x = B.page x) (hdepth : ∀ x, A.depth x = B.depth x) : A = B := by
  cases A
  cases B
  obtain rfl := funext h
  obtain rfl := funext hdepth
  rfl

theorem cells_whole : (whole p).cells g = {p} := by
  ext r
  rw [mem_cells (fun _ => Nat.zero_le g), Finset.mem_singleton]
  constructor
  · rintro ⟨x, rfl⟩
    rfl
  · rintro rfl
    exact ⟨0, rfl⟩

/-! ## Halving and joining -/

section split

variable (hq : ∀ x, A.page x ≠ q)

/-- A split keeps the page of the cell it halves. -/
theorem split_page_same : (A.split i q hq).page i = A.page i :=
  if_neg (not_modEq_pow_both (Nat.ModEq.refl i))

theorem split_page_new : (A.split i q hq).page (i + 2 ^ A.depth i) = q := if_pos (Nat.ModEq.refl _)

/-- **Halving a cell adds the new page.** -/
theorem cells_split (hA : ∀ x, A.depth x ≤ g) (hB : ∀ x, (A.split i q hq).depth x ≤ g') :
    (A.split i q hq).cells g' = insert q (A.cells g) := by
  ext p
  rw [mem_cells hB, Finset.mem_insert, mem_cells hA]
  constructor
  · rintro ⟨x, rfl⟩
    by_cases hup : x ≡ i + 2 ^ A.depth i [MOD 2 ^ (A.depth i + 1)]
    · exact .inl (if_pos hup)
    · exact .inr ⟨x, (if_neg hup).symm⟩
  · rintro (rfl | ⟨x, rfl⟩)
    · exact ⟨_, split_page_new hq⟩
    -- the page of `x` is still that of `x`, or else that of `i`
    · by_cases hup : x ≡ i + 2 ^ A.depth i [MOD 2 ^ (A.depth i + 1)]
      · refine ⟨i, (split_page_same hq).trans ?_⟩
        exact ((A.page_eq_iff' x i).mpr (sibling_modEq hup)).symm
      · exact ⟨x, if_neg hup⟩

theorem card_cells_split (hA : ∀ x, A.depth x ≤ g) (hB : ∀ x, (A.split i q hq).depth x ≤ g') :
    ((A.split i q hq).cells g').card = (A.cells g).card + 1 := by
  rw [cells_split hq hA hB]
  refine Finset.card_insert_of_notMem fun hmem => ?_
  obtain ⟨x, hx⟩ := (mem_cells hA).mp hmem
  exact hq x hx

end split

section merge

variable (hi : A.depth i = e + 1) (hs : A.depth s = e + 1) (hsib : s ≡ i + 2 ^ e [MOD 2 ^ (e + 1)])
include hi hs hsib

/-- The sibling of a cell is another cell. -/
theorem page_sibling_ne : A.page s ≠ A.page i := by
  rw [Ne, A.page_eq_iff', hi]
  exact fun h => not_modEq_pow_both h hsib

/-- **Joining a cell to its sibling takes its page away.** -/
theorem cells_merge (hA : ∀ x, A.depth x ≤ g) (hB : ∀ x, (A.merge i s e hi hs hsib).depth x ≤ g') :
    (A.merge i s e hi hs hsib).cells g' = (A.cells g).erase (A.page i) := by
  have hin : ∀ x, x ≡ i [MOD 2 ^ (e + 1)] ↔ A.page x = A.page i := fun x => by rw [A.page_eq_iff', hi]
  ext p
  rw [mem_cells hB, Finset.mem_erase, mem_cells hA]
  constructor
  · rintro ⟨x, rfl⟩
    by_cases hx : x ≡ i [MOD 2 ^ (e + 1)]
    · rw [show (A.merge i s e hi hs hsib).page x = A.page s from if_pos hx]
      exact ⟨page_sibling_ne hi hs hsib, s, rfl⟩
    · rw [show (A.merge i s e hi hs hsib).page x = A.page x from if_neg hx]
      exact ⟨fun he => hx ((hin x).mpr he), x, rfl⟩
  · rintro ⟨hne, x, rfl⟩
    exact ⟨x, if_neg fun hx => hne ((hin x).mp hx)⟩

theorem card_cells_merge (hA : ∀ x, A.depth x ≤ g) (hB : ∀ x, (A.merge i s e hi hs hsib).depth x ≤ g') :
    ((A.merge i s e hi hs hsib).cells g').card + 1 = (A.cells g).card := by
  rw [cells_merge hi hs hsib hA hB]
  exact Finset.card_erase_add_one ((mem_cells hA).mpr ⟨i, rfl⟩)

end merge

/-! ## How many cells there can be -/

theorem card_cells_le : (A.cells g).card ≤ 2 ^ g := by
  refine Finset.card_image_le.trans (Nat.le_of_eq ?_)
  exact Finset.card_range _

theorem cells_pos : 0 < (A.cells g).card := by
  rw [Finset.card_pos]
  exact ⟨A.page 0, Finset.mem_image_of_mem _ (Finset.mem_range.mpr (Nat.two_pow_pos g))⟩

/-- Siblings disagree in the bit that was flipped. -/
theorem sibling_not_modEq (x e : ℕ) : ¬ x ^^^ 2 ^ e ≡ x [MOD 2 ^ (e + 1)] :=
  fun h => not_modEq_pow_both h (xor_two_pow_modEq x e)

variable {x : ℕ}

/-- The sibling of `x` at a depth below its own is in another cell, which is deeper than that. -/
theorem sibling_cell (he : e < A.depth x) : A.page (x ^^^ 2 ^ e) ≠ A.page x ∧ e < A.depth (x ^^^ 2 ^ e) := by
  have hne : A.page (x ^^^ 2 ^ e) ≠ A.page x := by
    rw [Ne, A.page_eq_iff']
    exact fun h => sibling_not_modEq x e (modEq_of_le he h)
  refine ⟨hne, Nat.lt_of_not_le fun hle => hne ?_⟩
  exact A.page_eq (modEq_of_le hle (sibling_low x e))

/-- Siblings at different depths are in different cells. -/
theorem siblings_ne {d : ℕ} (hde : d < e) (he : e < A.depth x) : A.page (x ^^^ 2 ^ d) ≠ A.page (x ^^^ 2 ^ e) := by
  obtain ⟨-, hd⟩ := sibling_cell (A := A) (hde.trans he)
  rw [Ne, A.page_eq_iff]
  intro h
  have hlow : x ^^^ 2 ^ e ≡ x [MOD 2 ^ (d + 1)] := modEq_of_le hde (sibling_low x e)
  exact sibling_not_modEq x d ((modEq_of_le hd h).trans hlow)

/-- **A cell of depth `g` has `g` others beside it.** -/
theorem lt_card_cells (hA : ∀ x, A.depth x ≤ g) (hx : A.depth x = g) : g < (A.cells g).card := by
  have hinj : Set.InjOn (fun e => A.page (x ^^^ 2 ^ e)) (Finset.range g) := by
    intro d hd e he heq
    rw [Finset.mem_coe, Finset.mem_range, ← hx] at hd he
    rcases Nat.lt_trichotomy d e with hlt | heq' | hgt
    · exact absurd heq (siblings_ne hlt he)
    · exact heq'
    · exact absurd heq.symm (siblings_ne hgt hd)
  have hsub : (Finset.range g).image (fun e => A.page (x ^^^ 2 ^ e)) ⊆ (A.cells g).erase (A.page x) := by
    intro p hp
    obtain ⟨e, he, rfl⟩ := Finset.mem_image.mp hp
    rw [Finset.mem_range, ← hx] at he
    rw [Finset.mem_erase, mem_cells hA]
    exact ⟨(sibling_cell he).1, _, rfl⟩
  have hcard := Finset.card_le_card hsub
  rw [Finset.card_image_of_injOn hinj, Finset.card_range] at hcard
  have herase := Finset.card_erase_add_one ((mem_cells hA).mpr ⟨x, rfl⟩)
  omega

end Partition

end HashPartition
