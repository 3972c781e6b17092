/-
  What a program costs at most.

  1. **`Within`**: every command has a price, and a program is within a budget if the budget pays for whatever
     commands it issues, however they turn out.  It has one rule for each way to build a program.  A part of a
     program is free if it is within nothing.

  2. **`Within.run`**: if every command adds at most its price to a gauge of the state, a run adds at most the
     budget.

  3. **`metered`** is a machine with a meter, which every command that returns moves on.
-/
import BusTub.Lib.Command
import Mathlib.Data.Nat.Init

namespace Command

variable {C : Type} {Res : C → Type} {ε σ τ α β : Type}

/-- The commands that the program issues cost at most the budget, whatever they return. -/
def Within (price : C → ℕ) : ℕ → Prog Res ε α → Prop
  | _, .ret _ => True
  | _, .fail _ => True
  | n, .cmd c k => price c ≤ n ∧ ∀ r, Within price (n - price c) (k r)

namespace Within

variable {price : C → ℕ} {n m : ℕ}

theorem pure (a : α) : Within price n (Pure.pure a : Prog Res ε α) := trivial

theorem fail (e : ε) : Within price n (Prog.fail e : Prog Res ε α) := trivial

theorem lift (x : Except ε α) : Within price n (Prog.lift x : Prog Res ε α) := by
  cases x with
  | ok a => exact trivial
  | error e => exact trivial

theorem call {c : C} (h : price c ≤ n) : Within price n (Prog.call c : Prog Res ε (Res c)) := ⟨h, fun _ => trivial⟩

/-- A larger budget. -/
theorem mono {p : Prog Res ε α} (h : Within price n p) (hle : n ≤ m) : Within price m p := by
  induction p generalizing n m with
  | ret a => exact trivial
  | fail e => exact trivial
  | cmd c k ih =>
    have hprice := h.1
    exact ⟨by omega, fun r => ih r (h.2 r) (by omega)⟩

/-- **Two parts** share the budget. -/
theorem bind {p : Prog Res ε α} {f : α → Prog Res ε β} (h : Within price n p) (hf : ∀ a, Within price m (f a)) :
    Within price (n + m) (p >>= f) := by
  induction p generalizing n with
  | ret a => exact (hf a).mono (Nat.le_add_left m n)
  | fail e => exact trivial
  | cmd c k ih =>
    have hprice := h.1
    refine ⟨by omega, fun r => ?_⟩
    rw [show n + m - price c = n - price c + m by omega]
    exact ih r (h.2 r)

/-- A free part leaves the budget to the rest. -/
theorem free_bind {p : Prog Res ε α} {f : α → Prog Res ε β} (h : Within price 0 p)
    (hf : ∀ a, Within price n (f a)) : Within price n (p >>= f) := by
  have hbind := h.bind hf
  rwa [Nat.zero_add] at hbind

/-- **What a run adds to a gauge is within the budget.** -/
theorem run {M : Machine Res ε σ} (gauge : σ → ℕ)
    (hcmd : ∀ c s r s', M c s = .ok (r, s') → gauge s' ≤ gauge s + price c) {p : Prog Res ε α}
    (h : Within price n p) {s s' : σ} {a : α} (hrun : run M p s = .ok (a, s')) : gauge s' ≤ gauge s + n := by
  induction p generalizing n s with
  | ret a =>
    cases hrun
    exact Nat.le_add_right _ _
  | fail e => cases hrun
  | cmd c k ih =>
    obtain ⟨r, s₁, hc, hk⟩ := run_cmd_inv hrun
    have hone := hcmd c s r s₁ hc
    have hrest := ih r (h.2 r) hk
    have hprice := h.1
    omega

end Within

/-! ## A machine with a meter -/

section metered

variable (M : Machine Res ε σ) (bill : (c : C) → σ → τ → τ)

/-- The machine `M`, with a meter that `bill` moves on at every command. -/
def metered : Machine Res ε (σ × τ) := fun c s =>
  match M c s.1 with
  | .ok (r, s') => .ok (r, (s', bill c s.1 s.2))
  | .error e => .error e

variable {M bill}

theorem metered_ok {c : C} {s s' : σ} {r : Res c} (t : τ) (h : M c s = .ok (r, s')) :
    metered M bill c (s, t) = .ok (r, (s', bill c s t)) := by
  simp only [metered, h]

theorem metered_inv {c : C} {u u' : σ × τ} {r : Res c} (h : metered M bill c u = .ok (r, u')) :
    M c u.1 = .ok (r, u'.1) ∧ u'.2 = bill c u.1 u.2 := by
  unfold metered at h
  split at h
  · next r₁ s₁ hc =>
    cases h
    exact ⟨hc, rfl⟩
  · cases h

/-- The meter changes nothing. -/
theorem run_metered {p : Prog Res ε α} {s s' : σ} {a : α} (t : τ) (h : run M p s = .ok (a, s')) :
    ∃ t', run (metered M bill) p (s, t) = .ok (a, (s', t')) := by
  induction p generalizing s t with
  | ret a =>
    cases h
    exact ⟨t, rfl⟩
  | fail e => cases h
  | cmd c k ih =>
    obtain ⟨r, s₁, hc, hk⟩ := run_cmd_inv h
    obtain ⟨t', hrun⟩ := ih r (bill c s t) hk
    exact ⟨t', (run_cmd_ok (metered_ok t hc) k).trans hrun⟩

end metered

end Command
