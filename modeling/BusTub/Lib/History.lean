/-
  Histories of something that is taken up and dropped again.

  A history is a list of events, the oldest first.  Some events take the thing up (`on`), some drop it
  (`off`); taking up what one already has changes nothing.

  1. **`Kept`**: it is kept if some `on` came after every `off`.

  2. **`BeganAt`**: the current keeping began at the position whose `on` found it not kept, if nothing
     dropped it since.

  Both are computed along the history (`kept_snoc`, `beganAt_snoc`), so an invariant that mentions them is
  proved one event at a time.
-/
import Mathlib.Data.List.Induction

namespace History

variable {ε : Type} (on off : ε → Prop)

/-- Some `on` came after every `off`. -/
def Kept (es : List ε) : Prop :=
  ∃ i : Nat, (∃ e, es[i]? = some e ∧ on e) ∧ ∀ (j : Nat) (e : ε), es[j]? = some e → off e → j < i

/-- The current keeping began with event `i`. -/
structure BeganAt (es : List ε) (i : Nat) : Prop where
  taken : ∃ e, es[i]? = some e ∧ on e
  not_dropped : ∀ (j : Nat) (e : ε), es[j]? = some e → off e → j < i
  not_before : ¬ Kept on off (es.take i)

variable {on off} {es : List ε} {e : ε} {i : Nat}

/-- The events of a longer history. -/
theorem getElem?_snoc {j : Nat} {x : ε} :
    (es ++ [e])[j]? = some x ↔ es[j]? = some x ∨ (j = es.length ∧ e = x) := by
  rcases Nat.lt_trichotomy j es.length with hlt | rfl | hgt
  · rw [List.getElem?_append_left hlt]
    exact ⟨.inl, fun h => h.resolve_right fun h' => absurd h'.1 (Nat.ne_of_lt hlt)⟩
  · simp
  · have hnone : es[j]? = none := List.getElem?_eq_none (Nat.le_of_lt hgt)
    have hnone' : (es ++ [e])[j]? = none := List.getElem?_eq_none (by simp; omega)
    rw [hnone, hnone']
    exact ⟨fun h => (by cases h), fun h => h.elim (fun h' => by cases h') fun h' => absurd h'.1 (Nat.ne_of_gt hgt)⟩

theorem lt_length_of_getElem? {j : Nat} {x : ε} (h : es[j]? = some x) : j < es.length :=
  (List.getElem?_eq_some_iff.mp h).1

theorem BeganAt.lt_length (h : BeganAt on off es i) : i < es.length := by
  obtain ⟨e, he, -⟩ := h.taken
  exact lt_length_of_getElem? he

/-- What began is kept. -/
theorem BeganAt.kept (h : BeganAt on off es i) : Kept on off es := ⟨i, h.taken, h.not_dropped⟩

theorem not_kept_nil : ¬ Kept on off ([] : List ε) := by
  rintro ⟨i, ⟨e, he, -⟩, -⟩
  cases he

section snoc

variable (hdisj : ∀ e, on e → ¬ off e)
include hdisj

/-- **One more event**: it is kept afterwards if the event took it up, or it was kept and is not dropped. -/
theorem kept_snoc : Kept on off (es ++ [e]) ↔ ¬ off e ∧ (on e ∨ Kept on off es) := by
  constructor
  · rintro ⟨i, ⟨x, hx, hon⟩, hoff⟩
    have hnot : ¬ off e := by
      intro hdrop
      have hlt := hoff es.length e (getElem?_snoc.mpr (.inr ⟨rfl, rfl⟩)) hdrop
      rcases getElem?_snoc.mp hx with hx | ⟨rfl, rfl⟩
      · exact absurd (lt_length_of_getElem? hx) (Nat.lt_asymm hlt)
      · exact hdisj _ hon hdrop
    refine ⟨hnot, ?_⟩
    rcases getElem?_snoc.mp hx with hx | ⟨-, rfl⟩
    · exact .inr ⟨i, ⟨x, hx, hon⟩, fun j y hy => hoff j y (getElem?_snoc.mpr (.inl hy))⟩
    · exact .inl hon
  · rintro ⟨hnot, hon | ⟨i, ⟨x, hx, hon⟩, hoff⟩⟩
    · refine ⟨es.length, ⟨e, getElem?_snoc.mpr (.inr ⟨rfl, rfl⟩), hon⟩, fun j y hy hdrop => ?_⟩
      rcases getElem?_snoc.mp hy with hy | ⟨-, rfl⟩
      · exact lt_length_of_getElem? hy
      · exact absurd hdrop hnot
    · refine ⟨i, ⟨x, getElem?_snoc.mpr (.inl hx), hon⟩, fun j y hy hdrop => ?_⟩
      rcases getElem?_snoc.mp hy with hy | ⟨-, rfl⟩
      · exact hoff j y hy hdrop
      · exact absurd hdrop hnot

/-- **One more event**: a keeping began where it did, unless the event ends it, and a new one begins with an
    `on` that finds nothing kept. -/
theorem beganAt_snoc : BeganAt on off (es ++ [e]) i ↔
    ¬ off e ∧ (BeganAt on off es i ∨ (on e ∧ ¬ Kept on off es ∧ i = es.length)) := by
  constructor
  · intro h
    refine ⟨((kept_snoc hdisj).mp h.kept).1, ?_⟩
    obtain ⟨x, hx, hon⟩ := h.taken
    have hbefore := h.not_before
    rcases getElem?_snoc.mp hx with hx | ⟨rfl, rfl⟩
    · have hle := Nat.le_of_lt (lt_length_of_getElem? hx)
      rw [List.take_append_of_le_length hle] at hbefore
      exact .inl ⟨⟨x, hx, hon⟩, fun j y hy => h.not_dropped j y (getElem?_snoc.mpr (.inl hy)), hbefore⟩
    · rw [List.take_append_of_le_length (Nat.le_refl _), List.take_length] at hbefore
      exact .inr ⟨hon, hbefore, rfl⟩
  · rintro ⟨hnot, h | ⟨hon, hbefore, rfl⟩⟩
    · obtain ⟨x, hx, hon⟩ := h.taken
      refine ⟨⟨x, getElem?_snoc.mpr (.inl hx), hon⟩, fun j y hy hdrop => ?_, ?_⟩
      · rcases getElem?_snoc.mp hy with hy | ⟨-, rfl⟩
        · exact h.not_dropped j y hy hdrop
        · exact absurd hdrop hnot
      · rw [List.take_append_of_le_length (Nat.le_of_lt h.lt_length)]
        exact h.not_before
    · refine ⟨⟨e, getElem?_snoc.mpr (.inr ⟨rfl, rfl⟩), hon⟩, fun j y hy hdrop => ?_, ?_⟩
      · rcases getElem?_snoc.mp hy with hy | ⟨-, rfl⟩
        · exact lt_length_of_getElem? hy
        · exact absurd hdrop hnot
      · rw [List.take_append_of_le_length (Nat.le_refl _), List.take_length]
        exact hbefore

/-- What is kept began somewhere. -/
theorem kept_iff_began : Kept on off es ↔ ∃ i, BeganAt on off es i := by
  refine ⟨fun h => ?_, fun ⟨i, h⟩ => h.kept⟩
  -- along the history, event by event
  induction es using List.reverseRecOn with
  | nil => exact absurd h not_kept_nil
  | append_singleton es e ih =>
    obtain ⟨hnot, h⟩ := (kept_snoc hdisj).mp h
    by_cases hk : Kept on off es
    · obtain ⟨i, hi⟩ := ih hk
      exact ⟨i, (beganAt_snoc hdisj).mpr ⟨hnot, .inl hi⟩⟩
    · exact ⟨es.length, (beganAt_snoc hdisj).mpr ⟨hnot, .inr ⟨h.resolve_right hk, hk, rfl⟩⟩⟩

end snoc

end History
