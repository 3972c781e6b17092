/-
  Programs over an interface of commands, and machines that run them.

  A `Prog` is a tree of commands: it returns, fails, or issues a command and goes on with the
  command's result.  A `Machine` gives every command a meaning on a state of its own, so one program
  runs on different machines.  Three rules carry over from one command to every program, and the fourth
  goes along the program:

  1. **`run_invariant`** — what each command preserves, a run preserves.

  2. **`run_before`** — what holds after a command only if it held before, holds at the end of a run
     only if it held at the start.

  3. **`run_simulates`** — if one machine follows another command by command, it follows it through
     every run, with the same result.  The commands need to agree only up to states that are still
     good, where being good is inherited backwards.

  4. **`Triple`** is partial correctness of one program, with a rule for each way to build one.

  `Follows` relates two programs as the third rule does two machines, for when they are not quite the same
  text: it is built up along the programs (`Follows.bind`).  A part is `Silent` if the second machine does not
  notice it.
-/
import Mathlib.Init

namespace Command

variable {C : Type} {Res : C → Type} {ε : Type}

/-- A program that issues commands in `C`, with results in `Res`. -/
inductive Prog (Res : C → Type) (ε α : Type) where
  | ret (a : α)
  | fail (e : ε)
  | cmd (c : C) (k : Res c → Prog Res ε α)

namespace Prog

variable {α β : Type}

/-- Run `p`, then `f` on its result. -/
def bind : Prog Res ε α → (α → Prog Res ε β) → Prog Res ε β
  | ret a, f => f a
  | fail e, _ => fail e
  | cmd c k, f => cmd c fun r => (k r).bind f

instance : Monad (Prog Res ε) where
  pure := ret
  bind := bind

/-- Issue one command. -/
def call (c : C) : Prog Res ε (Res c) := cmd c ret

/-- A computation without commands. -/
def lift : Except ε α → Prog Res ε α
  | .ok a => ret a
  | .error e => fail e

/-- Three parts may be put together either way. -/
theorem bind_bind {γ : Type} (p : Prog Res ε α) (f : α → Prog Res ε β) (g : β → Prog Res ε γ) :
    (p >>= f) >>= g = p >>= fun a => f a >>= g := by
  induction p with
  | ret a => rfl
  | fail e => rfl
  | cmd c k ih =>
    show cmd c (fun r => (k r >>= f) >>= g) = cmd c fun r => k r >>= fun a => f a >>= g
    exact congrArg (cmd c) (funext ih)

end Prog

/-- The meaning of every command on states `σ`. -/
def Machine (Res : C → Type) (ε σ : Type) : Type := (c : C) → σ → Except ε (Res c × σ)

variable {σ τ α β : Type}

/-- Run a program on a machine. -/
def run (M : Machine Res ε σ) : Prog Res ε α → σ → Except ε (α × σ)
  | .ret a, s => .ok (a, s)
  | .fail e, _ => .error e
  | .cmd c k, s =>
    match M c s with
    | .ok (r, s') => run M (k r) s'
    | .error e => .error e

variable {M : Machine Res ε σ} {N : Machine Res ε τ}

/-! ## What a run is made of -/

@[simp] theorem run_pure (a : α) (s : σ) : run M (pure a : Prog Res ε α) s = .ok (a, s) := rfl

/-- A command that the machine carries out, and then the rest. -/
theorem run_cmd_ok {c : C} {s s' : σ} {r : Res c} (h : M c s = .ok (r, s')) (k : Res c → Prog Res ε α) :
    run M (.cmd c k) s = run M (k r) s' := by
  simp [run, h]

/-- A command that the machine refuses ends the program. -/
theorem run_cmd_error {c : C} {s : σ} {e : ε} (h : M c s = .error e) (k : Res c → Prog Res ε α) :
    run M (.cmd c k) s = .error e := by
  simp [run, h]

/-- A program that went through carried out its first command. -/
theorem run_cmd_inv {c : C} {k : Res c → Prog Res ε α} {s t : σ} {a : α}
    (h : run M (.cmd c k) s = .ok (a, t)) :
    ∃ r s', M c s = .ok (r, s') ∧ run M (k r) s' = .ok (a, t) := by
  cases hc : M c s with
  | error e =>
    rw [run_cmd_error hc] at h
    cases h
  | ok r => exact ⟨r.1, r.2, rfl, run_cmd_ok hc k ▸ h⟩

@[simp] theorem run_call (c : C) (s : σ) : run M (Prog.call c) s = M c s := by
  cases hc : M c s with
  | error e => exact run_cmd_error hc _
  | ok r => exact run_cmd_ok hc _

@[simp] theorem run_fail (e : ε) (s : σ) : run M (Prog.fail e : Prog Res ε α) s = .error e := rfl

@[simp] theorem run_lift_ok (a : α) (s : σ) : run M (Prog.lift (.ok a)) s = .ok (a, s) := rfl

@[simp] theorem run_lift_error (e : ε) (s : σ) :
    run M (Prog.lift (.error e) : Prog Res ε α) s = .error e := rfl

/-- One program after another, on the machine. -/
theorem run_bind (p : Prog Res ε α) (f : α → Prog Res ε β) (s : σ) :
    run M (p >>= f) s = match run M p s with
      | .ok (a, s') => run M (f a) s'
      | .error e => .error e := by
  show run M (p.bind f) s = _
  induction p generalizing s with
  | ret a => rfl
  | fail e => rfl
  | cmd c k ih =>
    show run M (.cmd c fun r => (k r).bind f) s = _
    cases hc : M c s with
    | error e => rw [run_cmd_error hc, run_cmd_error hc]
    | ok r => rw [run_cmd_ok hc, run_cmd_ok hc, ih]

/-- A program goes on with what its first part returned. -/
theorem run_bind_ok {p : Prog Res ε α} {s s' : σ} {a : α} (h : run M p s = .ok (a, s'))
    (f : α → Prog Res ε β) : run M (p >>= f) s = run M (f a) s' := by
  rw [run_bind, h]

/-- **Inversion**: a run of two parts that returns ran both. -/
theorem run_bind_inv {p : Prog Res ε α} {f : α → Prog Res ε β} {s t : σ} {y : β}
    (h : run M (p >>= f) s = .ok (y, t)) :
    ∃ a s', run M p s = .ok (a, s') ∧ run M (f a) s' = .ok (y, t) := by
  rw [run_bind] at h
  cases hp : run M p s with
  | error e =>
    rw [hp] at h
    cases h
  | ok r =>
    rw [hp] at h
    exact ⟨r.1, r.2, rfl, h⟩

/-! ## The rules -/

/-- **What every command preserves, a run preserves.** -/
theorem run_invariant {I : σ → Prop} (hcmd : ∀ c s r s', I s → M c s = .ok (r, s') → I s')
    (p : Prog Res ε α) : ∀ s a s', I s → run M p s = .ok (a, s') → I s' := by
  induction p with
  | ret a =>
    intro s a' s' hs h
    cases h
    exact hs
  | fail e =>
    intro s a s' _ h
    cases h
  | cmd c k ih =>
    intro s a s' hs h
    obtain ⟨r, s₁, hc, hk⟩ := run_cmd_inv h
    exact ih r s₁ a s' (hcmd c s r s₁ hs hc) hk

/-- **What a command never establishes, a run never establishes.** -/
theorem run_before {G : σ → Prop} (hcmd : ∀ c s r s', M c s = .ok (r, s') → G s' → G s)
    (p : Prog Res ε α) : ∀ s a s', run M p s = .ok (a, s') → G s' → G s := by
  -- the contrapositive is an invariant
  intro s a s' h hg
  refine Classical.byContradiction fun hs => ?_
  exact run_invariant (I := fun s => ¬ G s) (fun c s r s' hs hc hg => hs (hcmd c s r s' hc hg)) p
    s a s' hs h hg

/-- **Simulation**: machine `N` follows machine `M` through every run that ends in a good state. -/
theorem run_simulates {R : σ → τ → Prop} {G : σ → Prop}
    (hback : ∀ c s r s', M c s = .ok (r, s') → G s' → G s)
    (hcmd : ∀ c s t r s', R s t → M c s = .ok (r, s') → G s' → ∃ t', N c t = .ok (r, t') ∧ R s' t')
    (p : Prog Res ε α) : ∀ s t a s', R s t → run M p s = .ok (a, s') → G s' →
      ∃ t', run N p t = .ok (a, t') ∧ R s' t' := by
  induction p with
  | ret a =>
    intro s t a' s' hR h _
    cases h
    exact ⟨t, rfl, hR⟩
  | fail e =>
    intro s t a s' _ h
    cases h
  | cmd c k ih =>
    intro s t a s' hR h hg
    obtain ⟨r, s₁, hc, hk⟩ := run_cmd_inv h
    have hg₁ : G s₁ := run_before hback (k r) s₁ a s' hk hg
    obtain ⟨t₁, ht₁, hR₁⟩ := hcmd c s t r s₁ hR hc hg₁
    obtain ⟨t', ht', hR'⟩ := ih r s₁ t₁ a s' hR₁ hk hg
    exact ⟨t', (run_cmd_ok ht₁ k).trans ht', hR'⟩

/-! ## Partial correctness -/

/-- Whenever `p` starts in `I` and returns, what it returned and the state it leaves are in `Q`. -/
def Triple (M : Machine Res ε σ) (I : σ → Prop) (p : Prog Res ε α) (Q : α → σ → Prop) : Prop :=
  ∀ s a s', I s → run M p s = .ok (a, s') → Q a s'

namespace Triple

variable {I : σ → Prop} {Q Q' : α → σ → Prop}

/-- A value is given where the postcondition holds of it already. -/
theorem pure {a : α} (h : ∀ s, I s → Q a s) : Triple M I (Pure.pure a : Prog Res ε α) Q := by
  intro s a' s' hs hrun
  cases hrun
  exact h s hs

/-- Failing meets every postcondition: the triple is about programs that return. -/
theorem fail (e : ε) : Triple M I (Prog.fail e : Prog Res ε α) Q := by
  intro s a s' _ hrun
  cases hrun

/-- One command: what the machine's step establishes. -/
theorem call {c : C} {Q : Res c → σ → Prop} (h : ∀ s r s', I s → M c s = .ok (r, s') → Q r s') :
    Triple M I (Prog.call c) Q := by
  intro s r s' hs hrun
  rw [run_call] at hrun
  exact h s r s' hs hrun

/-- A pure computation that may fail changes no state. -/
theorem lift {x : Except ε α} (h : ∀ a s, x = .ok a → I s → Q a s) : Triple M I (Prog.lift x) Q := by
  intro s a s' hs hrun
  cases x with
  | error e => cases hrun
  | ok a' =>
    cases hrun
    exact h _ s rfl hs

/-- The rule of composition: what the first part establishes is what the second part may rely on. -/
theorem bind {p : Prog Res ε α} {f : α → Prog Res ε β} {S : β → σ → Prop} (h : Triple M I p Q)
    (hf : ∀ a, Triple M (Q a) (f a) S) : Triple M I (p >>= f) S := by
  intro s y s' hs hrun
  obtain ⟨a, s₁, hp, hk⟩ := run_bind_inv hrun
  exact hf a s₁ y s' (h s a s₁ hs hp) hk

/-- The rule of consequence. -/
theorem mono {p : Prog Res ε α} (h : Triple M I p Q) (hq : ∀ a s, Q a s → Q' a s) : Triple M I p Q' :=
  fun s a s' hs hrun => hq a s' (h s a s' hs hrun)

end Triple

/-! ## Two programs -/

section follows

variable (M N) (R : σ → τ → Prop)

/-- Whatever `p` does on `M`, `q` does on `N`, with the same result. -/
def Follows (p q : Prog Res ε α) : Prop :=
  ∀ s t a s', R s t → run M p s = .ok (a, s') → ∃ t', run N q t = .ok (a, t') ∧ R s' t'

/-- Machine `N` does not notice `p` on `M`. -/
def Silent (p : Prog Res ε α) : Prop :=
  ∀ s t a s', R s t → run M p s = .ok (a, s') → R s' t

variable {M N R}

/-- If the second machine follows the first one command by command, it follows it through every program. -/
theorem Follows.same
    (hcmd : ∀ c s t r s', R s t → M c s = .ok (r, s') → ∃ t', N c t = .ok (r, t') ∧ R s' t')
    (p : Prog Res ε α) : Follows M N R p p := by
  intro s t a s' hR h
  exact run_simulates (G := fun _ => True) (fun _ _ _ _ _ _ => trivial)
    (fun c s t r s' hR h _ => hcmd c s t r s' hR h) p s t a s' hR h trivial

/-- Both give the value and stay where they are. -/
theorem Follows.pure (a : α) : Follows M N R (pure a : Prog Res ε α) (Pure.pure a) := by
  intro s t a' s' hR h
  cases h
  exact ⟨t, rfl, hR⟩

/-- A pure part is followed if it goes through where the first one does. -/
theorem Follows.lift {x y : Except ε α} (hxy : ∀ a, x = .ok a → y = .ok a) :
    Follows M N R (Prog.lift x : Prog Res ε α) (Prog.lift y) := by
  intro s t a s' hR h
  cases x with
  | error e => cases h
  | ok a' =>
    cases h
    rw [hxy a rfl]
    exact ⟨t, rfl, hR⟩

/-- Part by part. -/
theorem Follows.bind {p q : Prog Res ε α} {f g : α → Prog Res ε β} (h : Follows M N R p q)
    (hf : ∀ a, Follows M N R (f a) (g a)) : Follows M N R (p >>= f) (q >>= g) := by
  intro s t y s' hR hrun
  obtain ⟨a, s₁, hp, hk⟩ := run_bind_inv hrun
  obtain ⟨t₁, hq, hR₁⟩ := h s t a s₁ hR hp
  obtain ⟨t', hg, hR'⟩ := hf a s₁ t₁ y s' hR₁ hk
  exact ⟨t', (run_bind_ok hq g).trans hg, hR'⟩

/-- A command is silent if the other machine need not do anything. -/
theorem Silent.call {c : C} (h : ∀ s t r s', R s t → M c s = .ok (r, s') → R s' t) :
    Silent M R (Prog.call c : Prog Res ε (Res c)) := by
  intro s t r s' hR hrun
  rw [run_call] at hrun
  exact h s t r s' hR hrun

/-- A value is given without a step. -/
theorem Silent.pure (a : α) : Silent M R (Pure.pure a : Prog Res ε α) := by
  intro s t a' s' hR h
  cases h
  exact hR

/-- A program that fails has nothing to be followed. -/
theorem Silent.fail (e : ε) : Silent M R (Prog.fail e : Prog Res ε α) := by
  intro s t a s' _ h
  cases h

/-- Silent parts make a silent whole. -/
theorem Silent.bind {p : Prog Res ε α} {f : α → Prog Res ε β} (h : Silent M R p)
    (hf : ∀ a, Silent M R (f a)) : Silent M R (p >>= f) := by
  intro s t y s' hR hrun
  obtain ⟨a, s₁, hp, hk⟩ := run_bind_inv hrun
  exact hf a s₁ t y s' (h s t a s₁ hR hp) hk

end follows

end Command
