/-
  Memory programs, seen through what the cells show.

  The cells mean something: `abs` reads a value of an abstract type off them.  A program over the cells is a program
  over these values, if what it returns and what its cells show afterwards depend on what they show before.

  1. **`Acts`**: from cells that show `t` the program returns `x` and leaves cells that show `t'`, and it keeps to its
     cells.  It has a rule for each way to build a program, so a program is run on abstract values instead.

  2. **`Plain`**: a program does the same whatever has been read and written before.  Its accesses are noted, but it
     does not look at the notes.  So one access of memory gives a step of `Acts` (`Acts.of_plain`).

  3. `stores` writes bytes one behind the other: they can be read back (`map_after_stores`), and the cells before and
     behind them are as they were.  `bytesOf` gives the bytes of a number.
-/
import BusTub.Lib.Memory
import Mathlib.Algebra.Group.Nat.Defs
import Mathlib.Data.List.Basic
import Mathlib.Data.Nat.Init

namespace MemoryM

variable {A V S α β : Type}

/-! ## Programs that do not look at the notes -/

/-- The program depends on the cells only. -/
structure Plain (c : MemoryM A V α) : Prop where
  result : ∀ s, (c s).1 = result c s.cells
  after : ∀ s, (c s).2.cells = after c s.cells

/-- A value needs no memory. -/
theorem Plain.pure (x : α) : Plain (pure x : MemoryM A V α) := ⟨fun _ => rfl, fun _ => rfl⟩

/-- A load gives the same whatever was noted before. -/
theorem Plain.load (a : A) : Plain (load a : MemoryM A V V) := ⟨fun _ => rfl, fun _ => rfl⟩

/-- Many loads, one after the other. -/
theorem Plain.loads (as : List A) : Plain (loads as : MemoryM A V (List V)) := by
  constructor
  · intro s
    unfold MemoryM.result
    rw [loads_eq, loads_eq]
    rfl
  · intro s
    unfold MemoryM.after
    rw [loads_eq, loads_eq]
    rfl

/-- A store changes the same cell whatever was noted before. -/
theorem Plain.store [DecidableEq A] (a : A) (v : V) : Plain (store a v) := ⟨fun _ => rfl, fun _ => rfl⟩

variable {c : MemoryM A V α} {k : α → MemoryM A V β} {m : A → V}

/-- The result of two parts is that of the second on what the first has left. -/
theorem Plain.result_bind (hk : ∀ x, Plain (k x)) :
    MemoryM.result (c >>= k) m = MemoryM.result (k (MemoryM.result c m)) (MemoryM.after c m) :=
  (hk _).result (c (fresh m)).2

/-- And so is the memory. -/
theorem Plain.after_bind (hk : ∀ x, Plain (k x)) :
    MemoryM.after (c >>= k) m = MemoryM.after (k (MemoryM.result c m)) (MemoryM.after c m) :=
  (hk _).after (c (fresh m)).2

/-- Plain parts make a plain whole. -/
theorem Plain.bind (h : Plain c) (hk : ∀ x, Plain (k x)) : Plain (c >>= k) := by
  constructor
  · intro s
    rw [result_bind hk]
    show (k (c s).1 (c s).2).1 = _
    rw [(hk _).result, h.result, h.after]
  · intro s
    rw [after_bind hk]
    show (k (c s).1 (c s).2).2.cells = _
    rw [(hk _).after, h.result, h.after]

/-- A load and a store of the same cell. -/
theorem Plain.change [DecidableEq A] (a : A) (f : V → V) : Plain (change a f) :=
  (Plain.load a).bind fun v => .store a (f v)

/-! ## Bytes one behind the other -/

/-- Write bytes from address `a` on. -/
def stores : ℕ → List V → MemoryM ℕ V Unit
  | _, [] => pure ()
  | a, v :: vs => do
    store a v
    stores (a + 1) vs

/-- Many stores, one behind the other. -/
theorem Plain.stores : ∀ (a : ℕ) (vs : List V), Plain (stores a vs)
  | _, [] => .pure ()
  | a, v :: vs => (Plain.store a v).bind fun _ => Plain.stores (a + 1) vs

/-- The first of the stores, and then the others one cell further. -/
theorem after_stores_cons (a : ℕ) (v : V) (vs : List V) (m : ℕ → V) :
    after (stores a (v :: vs)) m = after (stores (a + 1) vs) (Function.update m a v) :=
  Plain.after_bind fun _ => Plain.stores (a + 1) vs

/-- What lies before the bytes or behind them is as it was. -/
theorem after_stores_of_outside : ∀ (vs : List V) (a : ℕ) (m : ℕ → V) {x : ℕ}, x < a ∨ a + vs.length ≤ x →
    after (stores a vs) m x = m x
  | [], _, _, _, _ => rfl
  | v :: vs, a, m, x, hx => by
    rw [List.length_cons] at hx
    rw [after_stores_cons, after_stores_of_outside vs (a + 1) _ (by omega)]
    exact Function.update_of_ne (by omega) _ _

/-- **The bytes can be read back.** -/
theorem map_after_stores : ∀ (vs : List V) (a : ℕ) (m : ℕ → V),
    (List.range' a vs.length).map (after (stores a vs) m) = vs
  | [], _, _ => rfl
  | v :: vs, a, m => by
    rw [List.length_cons, List.range'_succ, List.map_cons, after_stores_cons, map_after_stores vs (a + 1),
      after_stores_of_outside vs (a + 1) _ (.inl (Nat.lt_succ_self a)), Function.update_self]

/-- Bytes read elsewhere are as they were. -/
theorem map_after_stores_of_apart {vs : List V} {a b n : ℕ} (m : ℕ → V) (h : b + n ≤ a ∨ a + vs.length ≤ b) :
    (List.range' b n).map (after (stores a vs) m) = (List.range' b n).map m := by
  apply List.map_congr_left
  intro x hx
  have hmem := List.mem_range'_1.mp hx
  exact after_stores_of_outside vs a m (by omega)

/-- Stores touch the cells that they write, which lie one behind the other. -/
theorem Touches.stores {R W : Set ℕ} : ∀ (vs : List V) (a : ℕ), (∀ x, a ≤ x → x < a + vs.length → x ∈ W) →
    Touches R W (stores a vs)
  | [], _, _ => .pure ()
  | v :: vs, a, h => by
    rw [List.length_cons] at h
    refine (Touches.store (h a (Nat.le_refl a) (by omega)) v).bind fun _ => ?_
    exact Touches.stores vs (a + 1) fun x hle hlt => h x (by omega) (by omega)

/-- What may be read and written may be more than is. -/
theorem Touches.mono {R W R' W' : Set A} (h : Touches R W c) (hR : R ⊆ R') (hW : W ⊆ W') : Touches R' W' c where
  reads s a ha := (h.reads s a ha).imp_right fun h => hR h
  writes s a ha := (h.writes s a ha).imp_right fun h => hW h
  frame s a ha := h.frame s a fun hmem => ha (hW hmem)

/-! ## Numbers as bytes -/

/-- The lowest `k` bytes of a number, the lowest first. -/
def bytesOf : ℕ → ℕ → List (BitVec 8)
  | 0, _ => []
  | k + 1, x => BitVec.ofNat 8 x :: bytesOf k (x / 256)

/-- The number of its bytes. -/
def natOf (bytes : List (BitVec 8)) : ℕ := bytes.foldr (fun byte rest => byte.toNat + 256 * rest) 0

/-- A number of `k` bytes is written with `k` bytes. -/
@[simp] theorem length_bytesOf : ∀ k x : ℕ, (bytesOf k x).length = k
  | 0, _ => rfl
  | k + 1, x => congrArg (· + 1) (length_bytesOf k (x / 256))

/-- Read again, it is the number as far as `k` bytes hold it. -/
theorem natOf_bytesOf : ∀ k x : ℕ, natOf (bytesOf k x) = x % 256 ^ k
  | 0, x => (Nat.mod_one x).symm
  | k + 1, x => by
    show (BitVec.ofNat 8 x).toNat + 256 * natOf (bytesOf k (x / 256)) = _
    rw [natOf_bytesOf k, BitVec.toNat_ofNat, show 256 ^ (k + 1) = 256 * 256 ^ k from Nat.pow_succ']
    exact Nat.mod_mul.symm

/-! ## What the cells show -/

/-- **From cells that show `t` the program returns `x` and leaves cells that show `t'`**; it reads in `R` and
    writes in `W` only. -/
structure Acts (abs : (A → V) → S) (R W : Set A) (c : MemoryM A V α) (t : S) (x : α) (t' : S) : Prop where
  result : ∀ s, abs s.cells = t → (c s).1 = x
  shows : ∀ s, abs s.cells = t → abs (c s).2.cells = t'
  reads : ∀ s, abs s.cells = t → ∀ a ∈ (c s).2.reads, a ∈ s.reads ∨ a ∈ R
  writes : ∀ s, abs s.cells = t → ∀ a ∈ (c s).2.writes, a ∈ s.writes ∨ a ∈ W
  frame : ∀ s, abs s.cells = t → ∀ a ∉ W, (c s).2.cells a = s.cells a

namespace Acts

variable {abs : (A → V) → S} {R W : Set A} {t t₁ t' : S} {x : α} {y : β}

/-- One access of memory. -/
theorem of_plain (hplain : Plain c) (htouches : Touches R W c) (hresult : ∀ m, abs m = t → MemoryM.result c m = x)
    (hshows : ∀ m, abs m = t → abs (MemoryM.after c m) = t') : Acts abs R W c t x t' where
  result s hs := (hplain.result s).trans (hresult _ hs)
  shows s hs := (congrArg abs (hplain.after s)).trans (hshows _ hs)
  reads s _ := htouches.reads s
  writes s _ := htouches.writes s
  frame s _ := htouches.frame s

/-- An access that changes nothing. -/
theorem of_reading (hplain : Plain c) (htouches : Touches R ∅ c) (hresult : ∀ m, abs m = t → MemoryM.result c m = x) :
    Acts abs R W c t x t := by
  refine of_plain hplain (htouches.mono (Set.Subset.refl R) (Set.empty_subset W)) hresult fun m hm => ?_
  rw [show MemoryM.after c m = m from htouches.cells_eq (fresh m)]
  exact hm

/-- A value is what the page says without a look at it. -/
theorem pure (t : S) (x : α) : Acts abs R W (pure x : MemoryM A V α) t x t :=
  of_plain (.pure x) (.pure x) (fun _ _ => rfl) fun _ hm => hm

/-- **Two parts**: the second goes on from what the first leaves. -/
theorem bind (h : Acts abs R W c t x t₁) (hk : Acts abs R W (k x) t₁ y t') : Acts abs R W (c >>= k) t y t' := by
  have hrest : ∀ s, abs s.cells = t → k (c s).1 (c s).2 = k x (c s).2 := fun s hs => by rw [h.result s hs]
  constructor
  · intro s hs
    show (k (c s).1 (c s).2).1 = y
    rw [hrest s hs]
    exact hk.result _ (h.shows s hs)
  · intro s hs
    show abs (k (c s).1 (c s).2).2.cells = t'
    rw [hrest s hs]
    exact hk.shows _ (h.shows s hs)
  · intro s hs a ha
    replace ha : a ∈ (k (c s).1 (c s).2).2.reads := ha
    rw [hrest s hs] at ha
    rcases hk.reads _ (h.shows s hs) a ha with hr | hR
    · exact h.reads s hs a hr
    · exact .inr hR
  · intro s hs a ha
    replace ha : a ∈ (k (c s).1 (c s).2).2.writes := ha
    rw [hrest s hs] at ha
    rcases hk.writes _ (h.shows s hs) a ha with hw | hW
    · exact h.writes s hs a hw
    · exact .inr hW
  · intro s hs a ha
    show (k (c s).1 (c s).2).2.cells a = _
    rw [hrest s hs]
    exact (hk.frame _ (h.shows s hs) a ha).trans (h.frame s hs a ha)

/-- What is computed from a result is computed from what the page says. -/
theorem map (h : Acts abs R W c t x t') (g : α → β) : Acts abs R W (g <$> c) t (g x) t' := by
  rw [map_eq_pure_bind]
  exact h.bind (.pure t' (g x))

/-- What it comes to from given cells. -/
theorem eq (h : Acts abs R W c (abs m) x t') : MemoryM.result c m = x ∧ abs (MemoryM.after c m) = t' :=
  ⟨h.result (fresh m) rfl, h.shows (fresh m) rfl⟩

/-- A program that acts on whatever the cells show keeps to its cells. -/
theorem touches (h : ∀ t, ∃ x t', Acts abs R W c t x t') : Touches R W c where
  reads s := by
    obtain ⟨x, t', h⟩ := h (abs s.cells)
    exact h.reads s rfl
  writes s := by
    obtain ⟨x, t', h⟩ := h (abs s.cells)
    exact h.writes s rfl
  frame s := by
    obtain ⟨x, t', h⟩ := h (abs s.cells)
    exact h.frame s rfl

end Acts

end MemoryM
