/-
  Partitions of the natural numbers by their low bits, as extendible hashing keeps them.

  A hash value `h` belongs to the cell of all `h'` that agree with it in the low `depth h` bits, and
  every cell has a page of its own.  Agreement in the low `d` bits is congruence modulo `2 ^ d`.

  1. **Halving a class**: the numbers that agree in `d` bits fall into two classes of `d + 1` bits
     (`modEq_two_mul_iff`), the second one `2 ^ d` further on.

  2. **`Partition.split`** halves one cell and gives the upper half a new page; **`Partition.merge`**
     joins a cell to its sibling's page.  Both carry the proof that the result is a partition again.
-/
import Mathlib.Data.Nat.ModEq
import Mathlib.Tactic.Ring

namespace HashPartition

/-! ## Agreement in the low bits -/

/-- Agreement in more bits is agreement in fewer. -/
theorem modEq_of_le {a b d e : ℕ} (hde : d ≤ e) (h : a ≡ b [MOD 2 ^ e]) : a ≡ b [MOD 2 ^ d] :=
  h.of_dvd (pow_dvd_pow 2 hde)

/-- A class modulo `m` is the disjoint union of two classes modulo `m * 2`. -/
theorem modEq_two_mul_iff {a b m : ℕ} (hm : 0 < m) :
    a ≡ b [MOD m] ↔ a ≡ b [MOD m * 2] ∨ a ≡ b + m [MOD m * 2] := by
  have hb : (b + m) / m = b / m + 1 := Nat.add_div_right b hm
  have hbm : (b + m) % m = b % m := Nat.add_mod_right b m
  unfold Nat.ModEq
  rw [Nat.mod_mul (x := a), Nat.mod_mul (x := b), Nat.mod_mul (x := b + m), hb, hbm]
  constructor
  · intro h
    rw [h]
    rcases Nat.mod_two_eq_zero_or_one (a / m) with ha | ha <;>
      rcases Nat.mod_two_eq_zero_or_one (b / m) with hb | hb
    · exact .inl (by rw [ha, hb])
    · exact .inr (by rw [ha, Nat.add_mod, hb])
    · exact .inr (by rw [ha, Nat.add_mod, hb])
    · exact .inl (by rw [ha, hb])
  · have ha : a % m < m := Nat.mod_lt a hm
    have hb : b % m < m := Nat.mod_lt b hm
    rintro (h | h)
    · have := congrArg (· % m) h
      simpa [Nat.add_mul_mod_self_left] using this
    · have := congrArg (· % m) h
      simpa [Nat.add_mul_mod_self_left] using this

theorem not_modEq_both {a b m : ℕ} (hm : 0 < m) (h : a ≡ b [MOD m * 2]) : ¬ a ≡ b + m [MOD m * 2] := by
  intro h'
  have hb : (b + m) / m = b / m + 1 := Nat.add_div_right b hm
  have hbm : (b + m) % m = b % m := Nat.add_mod_right b m
  have heq : b % (m * 2) = (b + m) % (m * 2) := h.symm.trans h'
  rw [Nat.mod_mul (x := b), Nat.mod_mul (x := b + m), hb, hbm] at heq
  have hmul : m * (b / m % 2) = m * ((b / m + 1) % 2) := by omega
  have := Nat.eq_of_mul_eq_mul_left hm hmul
  omega

/-- The class of `d` bits of `a`, in halves of `d + 1` bits. -/
theorem modEq_pow_succ_iff {a b d : ℕ} :
    a ≡ b [MOD 2 ^ d] ↔ a ≡ b [MOD 2 ^ (d + 1)] ∨ a ≡ b + 2 ^ d [MOD 2 ^ (d + 1)] := by
  rw [pow_succ]
  exact modEq_two_mul_iff (Nat.two_pow_pos d)

theorem not_modEq_pow_both {a b d : ℕ} (h : a ≡ b [MOD 2 ^ (d + 1)]) :
    ¬ a ≡ b + 2 ^ d [MOD 2 ^ (d + 1)] := by
  rw [pow_succ] at *
  exact not_modEq_both (Nat.two_pow_pos d) h

/-- Flipping bit `d` gives a sibling. -/
theorem xor_two_pow_modEq (i d : ℕ) : i ^^^ 2 ^ d ≡ i + 2 ^ d [MOD 2 ^ (d + 1)] := by
  have hpos := Nat.two_pow_pos d
  have hlow : (i ^^^ 2 ^ d) % 2 ^ d = i % 2 ^ d := by
    rw [Nat.xor_mod_two_pow, Nat.mod_self, Nat.xor_zero]
  have hhigh : (i ^^^ 2 ^ d) / 2 ^ d = i / 2 ^ d ^^^ 1 := by
    rw [Nat.xor_div_two_pow, Nat.div_self hpos]
  have hflip : (i / 2 ^ d ^^^ 1) % 2 = (i / 2 ^ d + 1) % 2 := by
    have hx := Nat.xor_mod_two_pow (a := i / 2 ^ d) (b := 1) (n := 1)
    rw [pow_one] at hx
    rw [hx]
    rcases Nat.mod_two_eq_zero_or_one (i / 2 ^ d) with h | h
    · rw [h, Nat.add_mod, h]
      rfl
    · rw [h, Nat.add_mod, h]
      rfl
  show (i ^^^ 2 ^ d) % 2 ^ (d + 1) = (i + 2 ^ d) % 2 ^ (d + 1)
  rw [pow_succ, Nat.mod_mul, Nat.mod_mul (x := i + 2 ^ d), hlow, hhigh, hflip, Nat.add_mod_right,
    Nat.add_div_right i hpos]

theorem sibling_modEq {a b d : ℕ} (h : a ≡ b + 2 ^ d [MOD 2 ^ (d + 1)]) : a ≡ b [MOD 2 ^ d] :=
  modEq_pow_succ_iff.mpr (.inr h)

/-- Of the numbers that agree with `b` in `d` bits, the second class has the other bit `d`. -/
theorem modEq_sibling_iff_testBit {a b d : ℕ} (h : a ≡ b [MOD 2 ^ d]) :
    a ≡ b + 2 ^ d [MOD 2 ^ (d + 1)] ↔ a.testBit d ≠ b.testBit d := by
  -- bit `d` is decided by the remainder modulo `2 ^ (d + 1)`
  have hbit : ∀ x : ℕ, x.testBit d = (x % 2 ^ (d + 1)).testBit d := by
    intro x
    rw [Nat.testBit_mod_two_pow]
    simp
  rcases modEq_pow_succ_iff.mp h with hlow | hup
  · have hsame : a.testBit d = b.testBit d := by
      rw [hbit a, hbit b]
      exact congrArg (Nat.testBit · d) hlow
    exact ⟨fun hup => absurd hup (not_modEq_pow_both hlow), fun hne => absurd hsame hne⟩
  · have hflip : a.testBit d = !b.testBit d := by
      rw [hbit a, show a % 2 ^ (d + 1) = (b + 2 ^ d) % 2 ^ (d + 1) from hup, ← hbit, Nat.add_comm,
        Nat.testBit_two_pow_add_eq]
    refine ⟨fun _ => ?_, fun _ => hup⟩
    rw [hflip]
    exact Bool.not_ne_self _

/-! ## Partitions -/

/-- Every number has a depth and a page, and shares its page exactly with the numbers that agree
    with it in so many low bits. -/
structure Partition (P : Type*) where
  page : ℕ → P
  depth : ℕ → ℕ
  page_eq_iff : ∀ h h', page h = page h' ↔ h ≡ h' [MOD 2 ^ depth h]
  depth_eq : ∀ h h', page h = page h' → depth h = depth h'

namespace Partition

variable {P : Type*} (A : Partition P)

/-- One cell with every number in it. -/
def whole (p : P) : Partition P where
  page _ := p
  depth _ := 0
  page_eq_iff h h' := by simp [Nat.modEq_one]
  depth_eq _ _ _ := rfl

theorem page_eq {h h' : ℕ} (hm : h ≡ h' [MOD 2 ^ A.depth h]) : A.page h = A.page h' :=
  (A.page_eq_iff h h').mpr hm

theorem depth_congr {h h' : ℕ} (hm : h ≡ h' [MOD 2 ^ A.depth h]) : A.depth h = A.depth h' :=
  A.depth_eq h h' (A.page_eq hm)

/-- The low `g` bits decide everything about a number of depth at most `g`. -/
theorem mod_modEq {h g : ℕ} (hg : A.depth h ≤ g) : h ≡ h % 2 ^ g [MOD 2 ^ A.depth h] :=
  modEq_of_le hg (Nat.mod_modEq h (2 ^ g)).symm

theorem page_mod {h g : ℕ} (hg : A.depth h ≤ g) : A.page (h % 2 ^ g) = A.page h :=
  (A.page_eq (A.mod_modEq hg)).symm

theorem depth_mod {h g : ℕ} (hg : A.depth h ≤ g) : A.depth (h % 2 ^ g) = A.depth h :=
  (A.depth_congr (A.mod_modEq hg)).symm

/-- Belonging to the cell of `h₀` does not depend on whose depth is used. -/
theorem page_eq_iff' (h h₀ : ℕ) : A.page h = A.page h₀ ↔ h ≡ h₀ [MOD 2 ^ A.depth h₀] := by
  rw [eq_comm, A.page_eq_iff h₀ h]
  exact ⟨Nat.ModEq.symm, Nat.ModEq.symm⟩

/-- A number outside the cell of `h₀` disagrees with everything in it. -/
theorem not_modEq_cell {h h' : ℕ} (h₀ : ℕ) (hout : ¬ h ≡ h₀ [MOD 2 ^ A.depth h₀])
    (hin : h' ≡ h₀ [MOD 2 ^ A.depth h₀]) : ¬ h ≡ h' [MOD 2 ^ A.depth h] := by
  intro hm
  apply hout
  rw [← A.page_eq_iff' h h₀, A.page_eq hm]
  exact (A.page_eq_iff' h' h₀).mpr hin

section split

variable [DecidableEq P]

/-- Halve the cell of `h₀`; the half that `h₀` is not in gets the new page `q`. -/
def split (h₀ : ℕ) (q : P) (hq : ∀ h, A.page h ≠ q) : Partition P where
  page h := if h ≡ h₀ + 2 ^ A.depth h₀ [MOD 2 ^ (A.depth h₀ + 1)] then q else A.page h
  depth h := if h ≡ h₀ [MOD 2 ^ A.depth h₀] then A.depth h₀ + 1 else A.depth h
  page_eq_iff h h' := by
    by_cases hin : h ≡ h₀ [MOD 2 ^ A.depth h₀]
    · rw [if_pos hin]
      rcases modEq_pow_succ_iff.mp hin with hlow | hup
      · -- `h` is in the half that keeps the page
        rw [if_neg (not_modEq_pow_both hlow)]
        by_cases hup' : h' ≡ h₀ + 2 ^ A.depth h₀ [MOD 2 ^ (A.depth h₀ + 1)]
        · rw [if_pos hup']
          refine ⟨fun he => absurd he (hq h), fun hm => ?_⟩
          exact absurd (hm.trans hup') (not_modEq_pow_both hlow)
        · rw [if_neg hup', eq_comm, (A.page_eq_iff' h' h),
            ← A.depth_congr (show h₀ ≡ h [MOD 2 ^ A.depth h₀] from hin.symm)]
          constructor
          · intro hm
            rcases modEq_pow_succ_iff.mp (hm.trans hin) with hlow' | hup''
            · exact hlow.trans hlow'.symm
            · exact absurd hup'' hup'
          · intro hm
            exact modEq_of_le (Nat.le_succ _) hm.symm
      · -- `h` is in the half that gets `q`, which no other number has
        rw [if_pos hup]
        by_cases hup' : h' ≡ h₀ + 2 ^ A.depth h₀ [MOD 2 ^ (A.depth h₀ + 1)]
        · rw [if_pos hup']
          exact ⟨fun _ => hup.trans hup'.symm, fun _ => rfl⟩
        · rw [if_neg hup']
          exact ⟨fun he => absurd he.symm (hq h'), fun hm => absurd (hm.symm.trans hup) hup'⟩
    · -- `h` is outside the cell, where nothing changes
      rw [if_neg hin, if_neg (fun hup => hin (sibling_modEq hup))]
      by_cases hup' : h' ≡ h₀ + 2 ^ A.depth h₀ [MOD 2 ^ (A.depth h₀ + 1)]
      · rw [if_pos hup']
        exact ⟨fun he => absurd he (hq h), fun hm => absurd hm (A.not_modEq_cell _ hin (sibling_modEq hup'))⟩
      · rw [if_neg hup']
        exact A.page_eq_iff h h'
  depth_eq h h' := by
    by_cases hin : h ≡ h₀ [MOD 2 ^ A.depth h₀]
    · by_cases hin' : h' ≡ h₀ [MOD 2 ^ A.depth h₀]
      · rw [if_pos hin, if_pos hin']
        exact fun _ => rfl
      · rw [if_neg (fun hup => hin' (sibling_modEq hup))]
        split
        · exact fun he => absurd he.symm (hq h')
        · intro he
          -- two numbers of one page are in one cell
          refine absurd ?_ hin'
          rw [← A.page_eq_iff' h' h₀, ← he]
          exact (A.page_eq_iff' h h₀).mpr hin
    · rw [if_neg (fun hup => hin (sibling_modEq hup)), if_neg hin]
      split
      · exact fun he => absurd he (hq h)
      · intro he
        have hin' : ¬ h' ≡ h₀ [MOD 2 ^ A.depth h₀] := fun hin' => hin <| by
          rw [← A.page_eq_iff' h h₀, he]
          exact (A.page_eq_iff' h' h₀).mpr hin'
        rw [if_neg hin']
        exact A.depth_eq h h' he

end split

section merge

variable {A} {h₀ h₁ e : ℕ} (hd₀ : A.depth h₀ = e + 1) (hd₁ : A.depth h₁ = e + 1)
  (hsib : h₁ ≡ h₀ + 2 ^ e [MOD 2 ^ (e + 1)])
include hd₀ hd₁ hsib

omit hd₀ in
/-- Once the cell of `h₀` has its sibling's page, the whole joined class has it. -/
theorem joined_page {h : ℕ} (hin : h ≡ h₀ [MOD 2 ^ e]) :
    (if h ≡ h₀ [MOD 2 ^ (e + 1)] then A.page h₁ else A.page h) = A.page h₁ := by
  rcases modEq_pow_succ_iff.mp hin with hlow | hup
  · exact if_pos hlow
  · rw [if_neg (fun hlow => not_modEq_pow_both hlow hup), A.page_eq_iff' h h₁, hd₁]
    exact hup.trans hsib.symm

omit hd₀ hd₁ hsib in
theorem unjoined_page {h : ℕ} (hout : ¬ h ≡ h₀ [MOD 2 ^ e]) :
    (if h ≡ h₀ [MOD 2 ^ (e + 1)] then A.page h₁ else A.page h) = A.page h :=
  if_neg fun hlow => hout (modEq_of_le (Nat.le_succ e) hlow)

omit hd₀ in
/-- No number outside the joined class has the sibling's page. -/
theorem unjoined_page_ne {h : ℕ} (hout : ¬ h ≡ h₀ [MOD 2 ^ e]) : A.page h ≠ A.page h₁ := by
  intro he
  rw [A.page_eq_iff' h h₁, hd₁] at he
  exact hout ((modEq_of_le (Nat.le_succ e) he).trans (sibling_modEq hsib))

/-- A number outside the joined class disagrees with everything in it. -/
theorem unjoined_not_modEq {h h' : ℕ} (hout : ¬ h ≡ h₀ [MOD 2 ^ e]) (hin : h' ≡ h₀ [MOD 2 ^ e]) :
    ¬ h ≡ h' [MOD 2 ^ A.depth h] := by
  rcases modEq_pow_succ_iff.mp hin with hlow | hup
  · apply A.not_modEq_cell h₀
    · rw [hd₀]
      exact fun hc => hout (modEq_of_le (Nat.le_succ e) hc)
    · rw [hd₀]
      exact hlow
  · apply A.not_modEq_cell h₁
    · rw [hd₁]
      exact fun hc => hout ((modEq_of_le (Nat.le_succ e) hc).trans (sibling_modEq hsib))
    · rw [hd₁]
      exact hup.trans hsib.symm

end merge

/-- Join the cell of `h₀`, of depth `e + 1`, to the page of its sibling `h₁` of the same depth. -/
def merge (h₀ h₁ e : ℕ) (hd₀ : A.depth h₀ = e + 1) (hd₁ : A.depth h₁ = e + 1)
    (hsib : h₁ ≡ h₀ + 2 ^ e [MOD 2 ^ (e + 1)]) : Partition P where
  page h := if h ≡ h₀ [MOD 2 ^ (e + 1)] then A.page h₁ else A.page h
  depth h := if h ≡ h₀ [MOD 2 ^ e] then e else A.depth h
  page_eq_iff h h' := by
    by_cases hin : h ≡ h₀ [MOD 2 ^ e]
    · rw [joined_page hd₁ hsib hin, if_pos hin]
      by_cases hin' : h' ≡ h₀ [MOD 2 ^ e]
      · rw [joined_page hd₁ hsib hin']
        exact ⟨fun _ => hin.trans hin'.symm, fun _ => rfl⟩
      · rw [unjoined_page hin']
        exact ⟨fun he => absurd he.symm (unjoined_page_ne hd₁ hsib hin'),
          fun hm => absurd (hm.symm.trans hin) hin'⟩
    · rw [unjoined_page hin, if_neg hin]
      by_cases hin' : h' ≡ h₀ [MOD 2 ^ e]
      · rw [joined_page hd₁ hsib hin']
        exact ⟨fun he => absurd he (unjoined_page_ne hd₁ hsib hin),
          fun hm => absurd hm (unjoined_not_modEq hd₀ hd₁ hsib hin hin')⟩
      · rw [unjoined_page hin']
        exact A.page_eq_iff h h'
  depth_eq h h' := by
    by_cases hin : h ≡ h₀ [MOD 2 ^ e]
    · by_cases hin' : h' ≡ h₀ [MOD 2 ^ e]
      · rw [if_pos hin, if_pos hin']
        exact fun _ => rfl
      · rw [joined_page hd₁ hsib hin, unjoined_page hin']
        exact fun he => absurd he.symm (unjoined_page_ne hd₁ hsib hin')
    · rw [unjoined_page hin, if_neg hin]
      by_cases hin' : h' ≡ h₀ [MOD 2 ^ e]
      · rw [joined_page hd₁ hsib hin']
        exact fun he => absurd he (unjoined_page_ne hd₁ hsib hin)
      · rw [unjoined_page hin', if_neg hin']
        exact A.depth_eq h h'

end Partition

end HashPartition
