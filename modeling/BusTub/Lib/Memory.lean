/-
  Programs that read and write memory cells, and the cells that they touch.

  A program is a state monad over the cells; `load` and `store` are its only accesses, and each notes its address.

  * `result`, `after`, `readsOf` — what a program returns, what it leaves, and where it reads.

  * `Touches R W` — a program reads in `R` only, writes in `W` only, and leaves every cell outside `W` as it was.
    It is proved from the parts of a program by the rules `pure`, `bind`, `load`, `loads`, `store` and `change`.
-/
import Mathlib.Data.Set.Basic
import Mathlib.Logic.Function.Basic

/-- The cells, and the addresses read and written so far. -/
structure MemoryState (A V : Type) where
  cells : A → V
  reads : List A
  writes : List A

/-- A program over memory. -/
abbrev MemoryM (A V : Type) := StateM (MemoryState A V)

namespace MemoryM

variable {A V α β : Type}

/-- Read a cell. -/
def load (a : A) : MemoryM A V V := fun s => (s.cells a, { s with reads := s.reads ++ [a] })

/-- Read cells in order. -/
def loads (as : List A) : MemoryM A V (List V) := as.mapM load

/-- Write a cell. -/
def store [DecidableEq A] (a : A) (v : V) : MemoryM A V Unit := fun s =>
  ((), { s with cells := Function.update s.cells a v, writes := s.writes ++ [a] })

/-- Read a cell and write it back changed. -/
def change [DecidableEq A] (a : A) (f : V → V) : MemoryM A V Unit := do
  let v ← load a
  store a (f v)

/-- Nothing read or written yet. -/
def fresh (m : A → V) : MemoryState A V := { cells := m, reads := [], writes := [] }

/-- What a program returns. -/
def result (c : MemoryM A V α) (m : A → V) : α := (c (fresh m)).1

/-- The memory that it leaves. -/
def after (c : MemoryM A V α) (m : A → V) : A → V := (c (fresh m)).2.cells

/-- The addresses that it reads. -/
def readsOf (c : MemoryM A V α) (m : A → V) : List A := (c (fresh m)).2.reads

/-! ## What the accesses do -/

theorem loads_eq : ∀ (as : List A) (s : MemoryState A V),
    loads as s = (as.map s.cells, { s with reads := s.reads ++ as }) := by
  intro as
  induction as with
  | nil =>
    intro s
    show (([] : List V), s) = _
    rw [List.append_nil]
    rfl
  | cons a as ih =>
    intro s
    have hcons : loads (a :: as) s =
        (s.cells a :: (loads as (load a s).2).1, (loads as (load a s).2).2) := by
      unfold loads
      rw [List.mapM_cons]
      rfl
    rw [hcons, ih]
    show (s.cells a :: as.map s.cells, ({ s with reads := s.reads ++ [a] ++ as } : MemoryState A V)) = _
    rw [List.append_assoc]
    rfl

/-! ## The cells that a program touches -/

/-- A program reads in `R`, writes in `W`, and leaves the other cells as they were. -/
structure Touches (R W : Set A) (c : MemoryM A V α) : Prop where
  reads : ∀ s, ∀ a ∈ (c s).2.reads, a ∈ s.reads ∨ a ∈ R
  writes : ∀ s, ∀ a ∈ (c s).2.writes, a ∈ s.writes ∨ a ∈ W
  frame : ∀ s, ∀ a ∉ W, (c s).2.cells a = s.cells a

variable {R W : Set A} {c : MemoryM A V α}

theorem Touches.pure (x : α) : Touches R W (pure x : MemoryM A V α) where
  reads _ _ ha := .inl ha
  writes _ _ ha := .inl ha
  frame _ _ _ := rfl

theorem Touches.bind {f : α → MemoryM A V β} (h : Touches R W c) (hf : ∀ x, Touches R W (f x)) :
    Touches R W (c >>= f) := by
  constructor
  · intro s a ha
    rcases (hf (c s).1).reads (c s).2 a ha with hc | hR
    · exact h.reads s a hc
    · exact .inr hR
  · intro s a ha
    rcases (hf (c s).1).writes (c s).2 a ha with hc | hW
    · exact h.writes s a hc
    · exact .inr hW
  · intro s a ha
    have hrest := (hf (c s).1).frame (c s).2 a ha
    exact hrest.trans (h.frame s a ha)

theorem Touches.load {a : A} (ha : a ∈ R) : Touches R W (load a : MemoryM A V V) := by
  constructor
  · intro s x hx
    rcases List.mem_append.mp hx with hx | hx
    · exact .inl hx
    · rw [List.mem_singleton.mp hx]
      exact .inr ha
  · exact fun _ _ hx => .inl hx
  · exact fun _ _ _ => rfl

theorem Touches.loads {as : List A} (has : ∀ a ∈ as, a ∈ R) : Touches R W (loads as : MemoryM A V (List V)) := by
  constructor
  · intro s x hx
    rw [loads_eq] at hx
    exact (List.mem_append.mp hx).imp id (has x)
  · intro s x hx
    rw [loads_eq] at hx
    exact .inl hx
  · intro s x _
    rw [loads_eq]

/-- A program that writes nowhere leaves every cell. -/
theorem Touches.cells_eq (h : Touches R ∅ c) (s : MemoryState A V) : (c s).2.cells = s.cells := by
  funext a
  exact h.frame s a (Set.notMem_empty a)

variable [DecidableEq A]

theorem Touches.store {a : A} (ha : a ∈ W) (v : V) : Touches R W (store a v) := by
  constructor
  · exact fun _ _ hx => .inl hx
  · intro s x hx
    rcases List.mem_append.mp hx with hx | hx
    · exact .inl hx
    · rw [List.mem_singleton.mp hx]
      exact .inr ha
  · intro s x hx
    apply Function.update_of_ne
    intro he
    rw [he] at hx
    exact hx ha

theorem Touches.change {a : A} (hR : a ∈ R) (hW : a ∈ W) (f : V → V) : Touches R W (change a f) :=
  (Touches.load hR).bind fun v => .store hW (f v)

omit [DecidableEq A] in
/-- Outside the cells written nothing changes. -/
theorem Touches.after_eq (h : Touches R W c) (m : A → V) {a : A} (ha : a ∉ W) : after c m a = m a :=
  h.frame (fresh m) a ha

theorem after_change (a : A) (f : V → V) (m : A → V) :
    after (change a f) m = Function.update m a (f (m a)) := rfl

end MemoryM
