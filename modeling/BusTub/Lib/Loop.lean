/-
  Counting loops of an imperative program, and their invariant rule.

  `forStride` is `for (i = curr; i < size; i += step) body`, over a state `σ` and with failures `ε`;
  a loop that is still running when the fuel is gone fails with `stuck`.  The rule `forStride_spec`
  asks for an invariant indexed by the loop variable, and `visited_iff` says which indices have had
  their turn when the variable moves on.
-/
import Mathlib.Data.Nat.ModEq
import Mathlib.Data.Set.Insert

namespace Loop

variable {σ ε : Type*}

/-- `for (i = curr; i < size; i += step) body`. -/
def forStride (stuck : ε) (size step : ℕ) (body : ℕ → σ → Except ε σ) : (fuel curr : ℕ) → σ → Except ε σ
  | 0, curr, s => if curr < size then .error stuck else .ok s
  | fuel + 1, curr, s =>
    if curr < size then do
      let s ← body curr s
      forStride stuck size step body fuel (curr + step) s
    else .ok s

/-- **The invariant rule**: a loop whose body keeps `I` ends, beyond `size`, in a state with `I`. -/
theorem forStride_spec {stuck : ε} {size step : ℕ} {body : ℕ → σ → Except ε σ} (I : ℕ → σ → Prop)
    (hstep : 0 < step)
    (hbody : ∀ i s, i < size → I i s → ∃ s', body i s = .ok s' ∧ I (i + step) s') :
    ∀ (fuel curr : ℕ) (s : σ), size ≤ curr + fuel → I curr s →
      ∃ i s', forStride stuck size step body fuel curr s = .ok s' ∧ size ≤ i ∧ I i s' := by
  intro fuel
  induction fuel with
  | zero =>
    intro curr s hfuel hI
    exact ⟨curr, s, if_neg (by omega), by omega, hI⟩
  | succ fuel ih =>
    intro curr s hfuel hI
    unfold forStride
    by_cases hlt : curr < size
    · obtain ⟨s₁, hs₁, hI₁⟩ := hbody curr s hlt hI
      obtain ⟨i, s', hrun, hi, hI'⟩ := ih (curr + step) s₁ (by omega) hI₁
      refine ⟨i, s', ?_, hi, hI'⟩
      rw [if_pos hlt, hs₁]
      exact hrun
    · exact ⟨curr, s, if_neg hlt, by omega, hI⟩

/-- When the loop variable moves on from `c` by `step`, exactly `c` joins the indices visited. -/
theorem visited_iff {i c r step : ℕ} (hs : 0 < step) (hc : c ≡ r [MOD step]) :
    (i < c + step ∧ i ≡ r [MOD step]) ↔ (i < c ∧ i ≡ r [MOD step]) ∨ i = c := by
  constructor
  · rintro ⟨hlt, hi⟩
    rcases Nat.lt_trichotomy i c with h | h | h
    · exact .inl ⟨h, hi⟩
    · exact .inr h
    · exfalso
      have hdvd : step ∣ i - c := (Nat.modEq_iff_dvd' (le_of_lt h)).mp (hc.trans hi.symm)
      have := Nat.le_of_dvd (by omega) hdvd
      omega
  · rintro (⟨h, hi⟩ | rfl)
    · exact ⟨by omega, hi⟩
    · exact ⟨by omega, hc⟩

/-- **Collecting rule**: if the body at `c` turns the state of the indices `X` into that of `X` with
    `c`, the loop ends in the state of all indices of its residue class. -/
theorem forStride_collect {stuck : ε} {size step r : ℕ} {body : ℕ → σ → Except ε σ}
    (F : Set ℕ → σ) (hstep : 0 < step)
    (hbody : ∀ c X, c < size → c ≡ r [MOD step] → c ∉ X → body c (F X) = .ok (F (insert c X))) :
    forStride stuck size step body size (r % step) (F ∅) =
      .ok (F {j | j < size ∧ j ≡ r [MOD step]}) := by
  have hnone : {j | j < r % step ∧ j < size ∧ j ≡ r [MOD step]} = ∅ := by
    ext j
    simp only [Set.mem_ofPred_eq, Set.mem_empty_iff_false, iff_false]
    rintro ⟨hlt, -, hj⟩
    have hmod : j % step = r % step := hj
    have hle := Nat.mod_le j step
    omega
  obtain ⟨i, s', hrun, hi, -, hs'⟩ := @forStride_spec _ _ stuck size step body
    (fun c s => c ≡ r [MOD step] ∧ s = F {j | j < c ∧ j < size ∧ j ≡ r [MOD step]}) hstep
    (fun c s hc ⟨hr, hs⟩ => by
      subst hs
      refine ⟨_, hbody c _ hc hr (fun hmem => Nat.lt_irrefl c hmem.1), ?_, ?_⟩
      · exact (Nat.add_modEq_right).trans hr
      · congr 1
        ext j
        simp only [Set.mem_insert_iff, Set.mem_ofPred_eq]
        have hv := visited_iff (i := j) hstep hr
        constructor
        · rintro (rfl | ⟨h1, h2, h3⟩)
          · exact ⟨(hv.mpr (.inr rfl)).1, hc, hr⟩
          · exact ⟨(hv.mpr (.inl ⟨h1, h3⟩)).1, h2, h3⟩
        · rintro ⟨h1, h2, h3⟩
          rcases hv.mp ⟨h1, h3⟩ with h | h
          · exact .inr ⟨h.1, h2, h3⟩
          · exact .inl h)
    size (r % step) (F ∅) (by omega) ⟨Nat.mod_modEq r step, by rw [hnone]⟩
  rw [hrun, hs']
  congr 3
  ext j
  constructor
  · exact fun h => h.2
  · exact fun h => ⟨by omega, h⟩

end Loop
