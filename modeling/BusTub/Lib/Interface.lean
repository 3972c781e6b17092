/-
  Programs against the rules of an interface.

  A machine gives every command a meaning.  An `Interface` says less: on states of its own it says when a
  command may be issued, what may come of it, and when a program may fail.  So it can describe what one program
  sees while others run between its commands.

  **`Meets`**: however the commands turn out, the program issues only commands that it may issue, fails only
  where it may, and ends as it should.  It has one rule for each way to build a program, and a machine follows
  another through such a program as soon as it does so in the commands that the rules admit (`Meets.simulates`).

  **`Guarded`** is the case of a machine whose commands have a condition: every command of the run is issued where
  its condition holds.

  **`noting`** is a machine with a flag, which tells whether something was seen in a result.
-/
import BusTub.Lib.Command

namespace Command

variable {C : Type} {Res : C → Type} {ε σ α β : Type}

/-- The rules of an interface, on states `σ`. -/
structure Interface (Res : C → Type) (σ : Type) where
  /-- The command may be issued. -/
  pre : C → σ → Prop
  /-- It may return this, and go on from there. -/
  post : (c : C) → σ → Res c → σ → Prop
  /-- A program may fail. -/
  fails : σ → Prop

/-- The program keeps the rules from `s` on, and returns only as `Q` says. -/
def Meets (I : Interface Res σ) (Q : α → σ → Prop) : Prog Res ε α → σ → Prop
  | .ret a, s => Q a s
  | .fail _, s => I.fails s
  | .cmd c k, s => I.pre c s ∧ ∀ r s', I.post c s r s' → Meets I Q (k r) s'

variable {I : Interface Res σ} {Q Q' : α → σ → Prop} {s : σ}

/-- A weaker end. -/
theorem Meets.mono (hQ : ∀ a t, Q a t → Q' a t) (p : Prog Res ε α) :
    ∀ s, Meets I Q p s → Meets I Q' p s := by
  induction p with
  | ret a => exact fun s h => hQ a s h
  | fail e => exact fun s h => h
  | cmd c k ih => exact fun s h => ⟨h.1, fun r s' hpost => ih r s' (h.2 r s' hpost)⟩

/-- **Two parts**: the first ends where the second may begin. -/
theorem Meets.bind {R : β → σ → Prop} {f : α → Prog Res ε β} (p : Prog Res ε α) :
    ∀ s, Meets I (fun a t => Meets I R (f a) t) p s → Meets I R (p >>= f) s := by
  induction p with
  | ret a => exact fun s h => h
  | fail e => exact fun s h => h
  | cmd c k ih =>
    intro s h
    show I.pre c s ∧ ∀ r s', I.post c s r s' → Meets I R (k r >>= f) s'
    exact ⟨h.1, fun r s' hpost => ih r s' (h.2 r s' hpost)⟩

/-- One command, and the rest. -/
theorem Meets.call_bind {c : C} {R : β → σ → Prop} {f : Res c → Prog Res ε β} (hpre : I.pre c s)
    (hpost : ∀ r s', I.post c s r s' → Meets I R (f r) s') : Meets I R (Prog.call c >>= f) s :=
  ⟨hpre, hpost⟩

theorem Meets.call {c : C} {R : Res c → σ → Prop} (hpre : I.pre c s)
    (hpost : ∀ r s', I.post c s r s' → R r s') : Meets I R (Prog.call c : Prog Res ε (Res c)) s :=
  ⟨hpre, hpost⟩

/-- A computation without commands. -/
theorem Meets.lift {x : Except ε α} (hok : ∀ a, x = .ok a → Q a s) (herr : ∀ e, x = .error e → I.fails s) :
    Meets I Q (Prog.lift x) s := by
  cases x with
  | ok a => exact hok a rfl
  | error e => exact herr e rfl

/-- **Simulation under rules**: machine `N` follows machine `M` through every run of a program that keeps the
    rules, if it does so in every command that may be issued. -/
theorem Meets.simulates {τ υ : Type} {M : Machine Res ε τ} {N : Machine Res ε υ} {R : σ → τ → υ → Prop}
    (hcmd : ∀ c s t u r t', I.pre c s → R s t u → M c t = .ok (r, t') →
      ∃ s' u', I.post c s r s' ∧ N c u = .ok (r, u') ∧ R s' t' u') (p : Prog Res ε α) :
    ∀ s t u a t', Meets I Q p s → R s t u → run M p t = .ok (a, t') →
      ∃ s' u', Q a s' ∧ run N p u = .ok (a, u') ∧ R s' t' u' := by
  induction p with
  | ret a =>
    intro s t u a' t' h hR hrun
    cases hrun
    exact ⟨s, u, h, rfl, hR⟩
  | fail e =>
    intro s t u a t' _ _ hrun
    cases hrun
  | cmd c k ih =>
    intro s t u a t' h hR hrun
    obtain ⟨r, t₁, hc, hk⟩ := run_cmd_inv hrun
    obtain ⟨s₁, u₁, hpost, hu₁, hR₁⟩ := hcmd c s t u r t₁ h.1 hR hc
    obtain ⟨s', u', hQ, hu', hR'⟩ := ih r s₁ t₁ u₁ a t' (h.2 r s₁ hpost) hR₁ hk
    exact ⟨s', u', hQ, (run_cmd_ok hu₁ k).trans hu', hR'⟩

/-! ## Machines with a condition on their commands -/

section guarded

variable (M : Machine Res ε σ) (pre : C → σ → Prop)

/-- The rules of a machine whose commands are issued only where `pre` holds. -/
def guarded : Interface Res σ where
  pre := pre
  post c s r s' := M c s = .ok (r, s')
  fails _ := True

/-- Every command of the run of `p` from `s` on is issued where `pre` holds. -/
abbrev Guarded (p : Prog Res ε α) (s : σ) : Prop := Meets (guarded M pre) (fun _ _ => True) p s

variable {M pre}

/-- **Two parts**: the second begins where the run of the first ends. -/
theorem guarded_bind_iff {f : α → Prog Res ε β} (p : Prog Res ε α) : ∀ s, Guarded M pre (p >>= f) s ↔
    Guarded M pre p s ∧ ∀ a s', run M p s = .ok (a, s') → Guarded M pre (f a) s' := by
  induction p with
  | ret a =>
    intro s
    constructor
    · intro h
      refine ⟨trivial, fun a' s' hrun => ?_⟩
      cases hrun
      exact h
    · exact fun h => h.2 a s rfl
  | fail e => exact fun s => ⟨fun _ => ⟨trivial, fun _ _ hrun => (by cases hrun)⟩, fun _ => trivial⟩
  | cmd c k ih =>
    intro s
    constructor
    · intro h
      refine ⟨⟨h.1, fun r s₁ hc => ((ih r s₁).mp (h.2 r s₁ hc)).1⟩, fun a s' hrun => ?_⟩
      obtain ⟨r, s₁, hc, hk⟩ := run_cmd_inv hrun
      exact ((ih r s₁).mp (h.2 r s₁ hc)).2 a s' hk
    · rintro ⟨⟨hpre, hk⟩, hf⟩
      refine ⟨hpre, fun r s₁ hc => (ih r s₁).mpr ⟨hk r s₁ hc, fun a s' hrun => ?_⟩⟩
      exact hf a s' ((run_cmd_ok hc k).trans hrun)

/-- Two parts, if the run of the first is known. -/
theorem guarded_bind {f : α → Prog Res ε β} {p : Prog Res ε α} {s s' : σ} {a : α}
    (hrun : run M p s = .ok (a, s')) : Guarded M pre (p >>= f) s ↔ Guarded M pre p s ∧ Guarded M pre (f a) s' := by
  rw [guarded_bind_iff]
  refine and_congr_right fun _ => ⟨fun h => h a s' hrun, fun h a₁ s₁ hrun₁ => ?_⟩
  obtain ⟨rfl, rfl⟩ := Prod.mk.inj (Except.ok.inj (hrun.symm.trans hrun₁))
  exact h

theorem guarded_call {c : C} {s : σ} : Guarded M pre (Prog.call c : Prog Res ε (Res c)) s ↔ pre c s :=
  ⟨fun h => h.1, fun h => ⟨h, fun _ _ _ => trivial⟩⟩

variable (M pre)

/-- Whether it is so can be found out by running `p`. -/
instance Guarded.decidable [∀ c s, Decidable (pre c s)] : ∀ (p : Prog Res ε α) (s : σ), Decidable (Guarded M pre p s)
  | .ret _, _ => isTrue trivial
  | .fail _, _ => isTrue trivial
  | .cmd c k, s =>
    match hrun : M c s with
    | .error _ => decidable_of_iff (pre c s)
      ⟨fun h => ⟨h, fun _ _ hok => (by cases hrun.symm.trans hok)⟩, fun h => h.1⟩
    | .ok (r, s') =>
      have : Decidable (Guarded M pre (k r) s') := Guarded.decidable (k r) s'
      decidable_of_iff (pre c s ∧ Guarded M pre (k r) s')
        ⟨fun h => ⟨h.1, fun _ _ hok => (by cases hrun.symm.trans hok; exact h.2)⟩, fun h => ⟨h.1, h.2 r s' hrun⟩⟩

end guarded

/-! ## A machine that takes note -/

section noting

variable (M : Machine Res ε σ) (see : (c : C) → Res c → Bool)

/-- The machine `M`, with a flag that is set as soon as `see` sees something in a result. -/
def noting : Machine Res ε (σ × Bool) := fun c s =>
  match M c s.1 with
  | .ok (r, s') => .ok (r, (s', s.2 || see c r))
  | .error e => .error e

variable {M see}

theorem noting_ok {c : C} {s s' : σ} {r : Res c} (flag : Bool) (h : M c s = .ok (r, s')) :
    noting M see c (s, flag) = .ok (r, (s', flag || see c r)) := by
  simp only [noting, h]

theorem noting_inv {c : C} {s s' : σ} {r : Res c} {flag flag' : Bool}
    (h : noting M see c (s, flag) = .ok (r, (s', flag'))) : M c s = .ok (r, s') ∧ flag' = (flag || see c r) := by
  unfold noting at h
  split at h
  · next r₁ s₁ hc =>
    cases h
    exact ⟨hc, rfl⟩
  · cases h

/-- Taking note changes nothing. -/
theorem run_noting (p : Prog Res ε α) : ∀ {s s' : σ} {a : α} (flag : Bool), run M p s = .ok (a, s') →
    ∃ flag', run (noting M see) p (s, flag) = .ok (a, (s', flag')) := by
  induction p with
  | ret a =>
    intro s s' a' flag h
    cases h
    exact ⟨flag, rfl⟩
  | fail e =>
    intro s s' a flag h
    cases h
  | cmd c k ih =>
    intro s s' a flag h
    obtain ⟨r, s₁, hc, hk⟩ := run_cmd_inv h
    obtain ⟨flag', hrun⟩ := ih r (flag || see c r) hk
    exact ⟨flag', (run_cmd_ok (noting_ok flag hc) k).trans hrun⟩

/-- What a note-taking run does, the run does. -/
theorem run_of_noting (p : Prog Res ε α) : ∀ {s s' : σ} {a : α} {flag flag' : Bool},
    run (noting M see) p (s, flag) = .ok (a, (s', flag')) → run M p s = .ok (a, s') := by
  induction p with
  | ret a =>
    intro s s' a' flag flag' h
    cases h
    rfl
  | fail e =>
    intro s s' a flag flag' h
    cases h
  | cmd c k ih =>
    intro s s' a flag flag' h
    obtain ⟨r, ⟨s₁, flag₁⟩, hc, hk⟩ := run_cmd_inv h
    exact (run_cmd_ok (noting_inv hc).1 k).trans (ih r hk)

end noting

end Command
