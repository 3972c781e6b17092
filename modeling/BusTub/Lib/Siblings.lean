/-
  Cells that could be joined to their sibling.

  The numbers of a set `H` occupy the cells of a partition.  A vacant cell is mergeable if its sibling
  has the same depth, and a partition is tidy if no cell is.

  1. **`TidyBeside.split`**: while one cell is halved again and again, only its two newest halves can
     be mergeable; whatever was left behind has a deeper sibling.

  2. **`tidy_merge_iff`**: joining a cell to its sibling may make a third cell mergeable, the sibling of
     the joined cell, and no other.
-/
import BusTub.Lib.HashPartition

namespace HashPartition

variable {i s x y d e : ℕ}

/-! ## Flipping a bit -/

theorem sibling_sibling (x e : ℕ) : x ^^^ 2 ^ e ^^^ 2 ^ e = x := by
  rw [Nat.xor_assoc, Nat.xor_self, Nat.xor_zero]

theorem sibling_congr (h : x ≡ y [MOD 2 ^ (e + 1)]) : x ^^^ 2 ^ e ≡ y ^^^ 2 ^ e [MOD 2 ^ (e + 1)] :=
  (xor_two_pow_modEq x e).trans ((h.add_right _).trans (xor_two_pow_modEq y e).symm)

theorem sibling_low (x e : ℕ) : x ^^^ 2 ^ e ≡ x [MOD 2 ^ e] := sibling_modEq (xor_two_pow_modEq x e)

/-- Of the numbers that agree with `y` in `e` bits, those outside the class of `e + 1` bits are the siblings
    of those inside. -/
theorem sibling_of_not_modEq (h : x ≡ y [MOD 2 ^ e]) (hne : ¬ x ≡ y [MOD 2 ^ (e + 1)]) :
    x ^^^ 2 ^ e ≡ y [MOD 2 ^ (e + 1)] := by
  have hup := (modEq_pow_succ_iff.mp h).resolve_left hne
  have hsib := sibling_congr (hup.trans (xor_two_pow_modEq y e).symm)
  rwa [sibling_sibling] at hsib

namespace Partition

variable {P : Type*} (A : Partition P) (H : Set ℕ)

/-! ## Mergeable cells -/

/-- No number of `H` is in the cell of `x`. -/
def Vacant (x : ℕ) : Prop := ∀ n ∈ H, A.page n ≠ A.page x

/-- The cell of `x` is vacant, and its sibling has the same depth. -/
def Mergeable (x : ℕ) : Prop := ∃ e, A.depth x = e + 1 ∧ A.depth (x ^^^ 2 ^ e) = e + 1 ∧ A.Vacant H x

/-- **No cell could be joined to its sibling.** -/
def Tidy : Prop := ∀ x, ¬ A.Mergeable H x

/-- Only the cell of `k` and its sibling may be mergeable, and the latter only if it has the same depth. -/
def TidyBeside (k : ℕ) : Prop :=
  ∀ x, A.Mergeable H x → ∃ e, A.depth k = e + 1 ∧ A.depth x = e + 1 ∧ x ≡ k [MOD 2 ^ e]

variable {A H} {H' : Set ℕ} {k : ℕ}

theorem Vacant.anti (h : A.Vacant H x) (hsub : H' ⊆ H) : A.Vacant H' x := fun n hn => h n (hsub hn)

theorem Mergeable.anti (h : A.Mergeable H x) (hsub : H' ⊆ H) : A.Mergeable H' x := by
  obtain ⟨e, hx, hsib, hv⟩ := h
  exact ⟨e, hx, hsib, hv.anti hsub⟩

/-- Being mergeable is a property of the cell. -/
theorem Mergeable.congr (h : A.Mergeable H x) (hxy : A.page x = A.page y) : A.Mergeable H y := by
  obtain ⟨e, hx, hsib, hv⟩ := h
  have hmod := (A.page_eq_iff x y).mp hxy
  refine ⟨e, (A.depth_eq x y hxy).symm.trans hx, ?_, fun n hn => hxy ▸ hv n hn⟩
  rw [hx] at hmod
  have hs : A.depth (x ^^^ 2 ^ e) = A.depth (y ^^^ 2 ^ e) := by
    apply A.depth_congr
    rw [hsib]
    exact sibling_congr hmod
  exact hs ▸ hsib

theorem Tidy.mono (h : A.Tidy H) (hsub : H ⊆ H') : A.Tidy H' := fun x hx => h x (hx.anti hsub)

theorem Tidy.beside (h : A.Tidy H) (k : ℕ) : A.TidyBeside H k := fun x hx => absurd hx (h x)

/-- A number that takes the only mergeable cell leaves none. -/
theorem tidy_of_taken (hsub : H ⊆ H') (hk : k ∈ H') (h : ∀ x, A.Mergeable H x → A.page x = A.page k) :
    A.Tidy H' := by
  intro x hx
  have hin := h x (hx.anti hsub)
  obtain ⟨e, -, -, hv⟩ := hx
  exact hv k hk hin.symm

/-- When the numbers that leave are all in the cell of `k`, no other cell gets mergeable. -/
theorem Tidy.leave (h : A.Tidy H) (hleave : ∀ n ∈ H, n ∈ H' ∨ A.page n = A.page k) (hx : A.Mergeable H' x) :
    A.page x = A.page k := by
  by_contra hout
  obtain ⟨e, hdx, hsib, hv⟩ := hx
  refine h x ⟨e, hdx, hsib, fun n hn hnx => ?_⟩
  rcases hleave n hn with hstay | hgone
  · exact hv n hstay hnx
  · exact hout (hnx.symm.trans hgone)

/-! ## Halving the cell of a number -/

section split

variable {q : P} (hq : ∀ h, A.page h ≠ q)

/-- Outside the cell that is halved nothing gets mergeable, and no sibling is inside. -/
theorem Mergeable.of_split (h : (A.split i q hq).Mergeable H x) (hout : ¬ x ≡ i [MOD 2 ^ A.depth i]) :
    A.Mergeable H x ∧ ∀ e, A.depth x = e + 1 → ¬ x ^^^ 2 ^ e ≡ i [MOD 2 ^ A.depth i] := by
  obtain ⟨e, hx, hsib, hv⟩ := h
  have hdepth : (A.split i q hq).depth x = A.depth x := if_neg hout
  have hpage : (A.split i q hq).page x = A.page x := if_neg fun hup => hout (sibling_modEq hup)
  rw [hdepth] at hx
  have hsout : ¬ x ^^^ 2 ^ e ≡ i [MOD 2 ^ A.depth i] := by
    intro hin
    have hsdepth : (A.split i q hq).depth (x ^^^ 2 ^ e) = A.depth i + 1 := if_pos hin
    obtain rfl : e = A.depth i := by omega
    exact hout ((sibling_low x _).symm.trans hin)
  have hsdepth : (A.split i q hq).depth (x ^^^ 2 ^ e) = A.depth (x ^^^ 2 ^ e) := if_neg hsout
  refine ⟨⟨e, hx, hsdepth ▸ hsib, fun n hn hnx => ?_⟩, fun e' he' => ?_⟩
  · -- a number in the cell of `x` keeps its page
    refine hv n hn ?_
    rw [hpage, ← hnx]
    refine if_neg fun hup => hout ?_
    rw [← A.page_eq_iff', ← hnx, A.page_eq_iff']
    exact sibling_modEq hup
  · obtain rfl : e' = e := by omega
    exact hsout

/-- **Halving the cell of `k` once more** leaves nothing mergeable but the two halves. -/
theorem TidyBeside.split (h : A.TidyBeside H k) (hk : A.page k = A.page i) :
    (A.split i q hq).TidyBeside H k := by
  intro x hx
  have hki : k ≡ i [MOD 2 ^ A.depth i] := (A.page_eq_iff' k i).mp hk
  by_cases hin : x ≡ i [MOD 2 ^ A.depth i]
  · exact ⟨A.depth i, if_pos hki, if_pos hin, hin.trans hki.symm⟩
  · exfalso
    obtain ⟨hm, hout⟩ := hx.of_split hq hin
    obtain ⟨e, hdk, hdx, hxk⟩ := h x hm
    have hdi : A.depth i = e + 1 := (A.depth_eq k i hk).symm.trans hdk
    rw [hdi] at hin hki
    apply hout e hdx
    rw [hdi]
    exact (sibling_of_not_modEq hxk fun hc => hin (hc.trans hki)).trans hki

end split

/-! ## Joining a cell to its sibling -/

section merge

variable (hi : A.depth i = e + 1) (hs : A.depth s = e + 1) (hsib : s ≡ i + 2 ^ e [MOD 2 ^ (e + 1)])

theorem merge_depth_in (hx : x ≡ i [MOD 2 ^ e]) : (A.merge i s e hi hs hsib).depth x = e := if_pos hx

theorem merge_depth_out (hx : ¬ x ≡ i [MOD 2 ^ e]) : (A.merge i s e hi hs hsib).depth x = A.depth x := if_neg hx

/-- Outside the joined cell numbers share their page with the same numbers as before. -/
theorem merge_page_eq_iff (hx : ¬ x ≡ i [MOD 2 ^ e]) (n : ℕ) :
    (A.merge i s e hi hs hsib).page n = (A.merge i s e hi hs hsib).page x ↔ A.page n = A.page x := by
  rw [(A.merge i s e hi hs hsib).page_eq_iff', merge_depth_out hi hs hsib hx, A.page_eq_iff']

/-- **What joining the vacant cell of `i` to an occupied sibling may leave**: the sibling of the joined cell,
    if it is vacant and of the same depth. -/
theorem tidy_merge_iff (hbeside : ∀ x, A.Mergeable H x → A.page x = A.page i) (hocc : ¬ A.Vacant H s) :
    (A.merge i s e hi hs hsib).Tidy H ↔
      ¬ ∃ f, e = f + 1 ∧ A.depth (i ^^^ 2 ^ f) = f + 1 ∧ A.Vacant H (i ^^^ 2 ^ f) := by
  constructor
  · rintro htidy ⟨f, rfl, hdepth, hv⟩
    have hout : ¬ i ^^^ 2 ^ f ≡ i [MOD 2 ^ (f + 1)] := fun hc => not_modEq_pow_both hc (xor_two_pow_modEq i f)
    refine htidy (i ^^^ 2 ^ f) ⟨f, (merge_depth_out hi hs hsib hout).trans hdepth, ?_, fun n hn hne => ?_⟩
    · rw [sibling_sibling]
      exact merge_depth_in hi hs hsib rfl
    · exact hv n hn ((merge_page_eq_iff hi hs hsib hout n).mp hne)
  · rintro hno x ⟨f, hx, hxs, hv⟩
    by_cases hin : x ≡ i [MOD 2 ^ e]
    · -- the joined cell has what its sibling had
      obtain ⟨n, hn, hns⟩ : ∃ n ∈ H, A.page n = A.page s := by
        by_contra hc
        exact hocc fun n hn hns => hc ⟨n, hn, hns⟩
      refine hv n hn ?_
      rw [(A.merge i s e hi hs hsib).page_eq_iff', merge_depth_in hi hs hsib hin]
      have hnmod := (A.page_eq_iff' n s).mp hns
      rw [hs] at hnmod
      exact ((modEq_of_le (Nat.le_succ e) hnmod).trans (sibling_modEq hsib)).trans hin.symm
    · rw [merge_depth_out hi hs hsib hin] at hx
      have hvx : A.Vacant H x := fun n hn hne => hv n hn ((merge_page_eq_iff hi hs hsib hin n).mpr hne)
      by_cases hsin : x ^^^ 2 ^ f ≡ i [MOD 2 ^ e]
      · -- `x` is in the sibling of the joined cell
        rw [merge_depth_in hi hs hsib hsin] at hxs
        subst hxs
        have hsame : A.page x = A.page (i ^^^ 2 ^ f) := by
          apply A.page_eq
          rw [hx, ← sibling_sibling x f]
          exact sibling_congr hsin
        exact hno ⟨f, rfl, (A.depth_eq _ _ hsame).symm.trans hx, fun n hn => hsame ▸ hvx n hn⟩
      · rw [merge_depth_out hi hs hsib hsin] at hxs
        have hpage := hbeside x ⟨f, hx, hxs, hvx⟩
        rw [A.page_eq_iff', hi] at hpage
        exact hin (modEq_of_le (Nat.le_succ e) hpage)

end merge

end Partition

end HashPartition
