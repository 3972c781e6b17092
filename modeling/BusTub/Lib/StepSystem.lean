/-
  Labelled transition systems: runs, reachable states, and the two proof rules for them.

  A `StepSystem σ ε` has initial states and a step relation labelled with events.  Two rules carry
  every result about whole runs:

  * `Reachable.invariant` — what holds initially and is preserved by each step holds in every
    reachable state (and `Run.invariant`, the same along a run from a given state).

  * `ForwardSim.traces` — if every step of one system is matched by steps of another that look the
    same from outside, every run is matched by a run that looks the same.
-/
import Mathlib.Init

/-- A labelled transition system. -/
structure StepSystem (σ ε : Type*) where
  init : σ → Prop
  step : σ → ε → σ → Prop

namespace StepSystem

variable {σ ε : Type*}

/-- A finite run, with its events in order. -/
inductive Run (M : StepSystem σ ε) : σ → List ε → σ → Prop where
  | nil (s : σ) : Run M s [] s
  | snoc {s t u : σ} {es : List ε} {e : ε} (hrun : Run M s es t) (hstep : M.step t e u) :
      Run M s (es ++ [e]) u

/-- Reached by a run from an initial state. -/
def Reachable (M : StepSystem σ ε) (s : σ) : Prop := ∃ s₀ es, M.init s₀ ∧ M.Run s₀ es s

variable {M : StepSystem σ ε}

theorem Run.single {s t : σ} {e : ε} (h : M.step s e t) : M.Run s [e] t :=
  .snoc (.nil s) h

theorem Run.append {s t u : σ} {es es' : List ε} (h : M.Run s es t) (h' : M.Run t es' u) :
    M.Run s (es ++ es') u := by
  induction h' with
  | nil => rwa [List.append_nil]
  | snoc _ hstep ih => exact List.append_assoc .. ▸ .snoc ih hstep

/-- What is computed step by step is a run. -/
theorem Run.of_foldlM {next : σ → ε → Option σ} (hnext : ∀ {s e t}, next s e = some t → M.step s e t) :
    ∀ {es : List ε} {s t : σ}, es.foldlM next s = some t → M.Run s es t
  | [], s, t, h => by
    obtain rfl : s = t := Option.some.inj h
    exact .nil s
  | e :: es, s, t, h => by
    rw [List.foldlM_cons, Option.bind_eq_bind, Option.bind_eq_some_iff] at h
    obtain ⟨u, hfirst, hrest⟩ := h
    exact (Run.single (hnext hfirst)).append (Run.of_foldlM hnext hrest)

theorem Reachable.init {s : σ} (h : M.init s) : M.Reachable s := ⟨s, [], h, .nil s⟩

theorem Reachable.step {s t : σ} {e : ε} (h : M.Reachable s) (hstep : M.step s e t) :
    M.Reachable t := by
  obtain ⟨s₀, es, h₀, hrun⟩ := h
  exact ⟨s₀, _, h₀, .snoc hrun hstep⟩

/-- **The invariant rule along a run.** -/
theorem Run.invariant {I : σ → Prop} (hstep : ∀ s e t, I s → M.step s e t → I t) {s t : σ}
    {es : List ε} (h : M.Run s es t) (hs : I s) : I t := by
  induction h with
  | nil => exact hs
  | snoc _ hst ih => exact hstep _ _ _ ih hst

/-- **The invariant rule.** -/
theorem Reachable.invariant {I : σ → Prop} (hinit : ∀ s, M.init s → I s)
    (hstep : ∀ s e t, I s → M.step s e t → I t) {s : σ} (h : M.Reachable s) : I s := by
  obtain ⟨s₀, es, h₀, hrun⟩ := h
  exact hrun.invariant hstep (hinit s₀ h₀)

/-! ## Simulation -/

/-- System `N` matches every step of `M`, up to what `seen` shows of the events. -/
structure ForwardSim {τ δ l : Type*} (M : StepSystem σ ε) (N : StepSystem τ δ) (seen : ε → Option l)
    (seen' : δ → Option l) (R : σ → τ → Prop) : Prop where
  init : ∀ s, M.init s → ∃ t, N.init t ∧ R s t
  step : ∀ s t e s', R s t → M.step s e s' →
    ∃ ds t', N.Run t ds t' ∧ R s' t' ∧ ds.filterMap seen' = (seen e).toList

/-- **The simulation rule.** -/
theorem ForwardSim.traces {τ δ l : Type*} {N : StepSystem τ δ} {seen : ε → Option l} {seen' : δ → Option l}
    {R : σ → τ → Prop} (h : ForwardSim M N seen seen' R) {s₀ s : σ} {es : List ε} (h₀ : M.init s₀)
    (hrun : M.Run s₀ es s) : ∃ t₀ ds t, N.init t₀ ∧ N.Run t₀ ds t ∧ R s t ∧
      ds.filterMap seen' = es.filterMap seen := by
  induction hrun with
  | nil =>
    obtain ⟨t₀, ht₀, hR⟩ := h.init _ h₀
    exact ⟨t₀, [], t₀, ht₀, .nil t₀, hR, rfl⟩
  | @snoc s u es e _ hstep ih =>
    obtain ⟨t₀, ds, t₁, ht₀, hrun, hR, hseen⟩ := ih
    obtain ⟨ds', t', hrun', hR', hseen'⟩ := h.step _ _ _ _ hR hstep
    refine ⟨t₀, ds ++ ds', t', ht₀, hrun.append hrun', hR', ?_⟩
    rw [List.filterMap_append, List.filterMap_append, hseen, hseen']
    cases he : seen e <;> simp [he]

end StepSystem
