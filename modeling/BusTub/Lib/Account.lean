/-
  What a cache keeps of what is written to it.

  Clients write to a resident page in place.  The page goes back to the store only if somebody said that it was
  dirty, and it is the clients who have to say so.

  1. **`Account`** is what the operations and their answers tell of one page: what was written last, how many pins
     there are, and whether it was written since somebody last said so.

  2. **`Account.Allows`** is what the clients owe: only a pinned page is written, and who gives back the last pin of a
     written page says that it is dirty.

  3. **`Kept.self`** and **`Kept.other`**: as long as they do, the cache loses nothing.  What was written last is in
     the cache while the page is resident, and in the store when it is not.

  4. **`Kept.answers`**: so two caches that keep one account of a page, whatever their sizes, show the same contents.
-/
import BusTub.Lib.LruCache

set_option linter.unusedSectionVars false

namespace LruCache

/-- One page, as the operations and their answers tell of it. -/
structure Account (D : Type*) where
  contents : D
  pins : ℕ
  /-- It was written, and nobody has said that it is dirty since. -/
  touched : Bool

variable {P D : Type*} [DecidableEq P] [Zero D]

/-- The page that an operation is about. -/
def Op.subject : Op P D → Option P
  | .create p | .fetch p | .release p _ | .flush p | .delete p | .write p _ => some p
  | .flushAll => none

namespace Account

/-- The account of a page after an operation on it. -/
def after (g : Account D) : Op P D → Answer D → Account D
  | .create _, .page (some _) => { contents := 0, pins := g.pins + 1, touched := false }
  | .fetch _, .page (some _) => { g with pins := g.pins + 1 }
  | .release _ dirty, _ => { g with pins := g.pins - 1, touched := g.touched && !dirty }
  | .write _ x, _ => { g with contents := x, touched := true }
  | _, _ => g

/-- The account of page `p` after the operations `es`. -/
def along (g : Account D) (p : P) (es : List (Op P D × Answer D)) : Account D :=
  (es.filter fun e => e.1.subject = some p).foldl (fun g e => g.after e.1 e.2) g

/-- What a client may do with the page. -/
def Allows (g : Account D) : Op P D → Prop
  | .write _ _ => 0 < g.pins
  | .release _ dirty => g.pins = 1 → g.touched = true → dirty = true
  | _ => True

/-- The clients have done with page `p` what they may. -/
def Obeyed (g : Account D) (p : P) (es : List (Op P D × Answer D)) : Prop :=
  ∀ before e rest, es = before ++ e :: rest → e.1.subject = some p → (g.along p before).Allows e.1

variable {g : Account D} {p : P} {es : List (Op P D × Answer D)} {e : Op P D × Answer D}

/-- An event on the page moves its account. -/
theorem along_same (he : e.1.subject = some p) : g.along p (es ++ [e]) = (g.along p es).after e.1 e.2 := by
  unfold along
  rw [List.filter_append, List.foldl_append]
  simp [he]

/-- An event on another page leaves the account of this one. -/
theorem along_other (he : e.1.subject ≠ some p) : g.along p (es ++ [e]) = g.along p es := by
  unfold along
  rw [List.filter_append, List.foldl_append]
  simp [he]

/-- A history that keeps to the discipline does so at its last event. -/
theorem Obeyed.last (h : g.Obeyed p (es ++ [e])) (he : e.1.subject = some p) : (g.along p es).Allows e.1 :=
  h es e [] rfl he

/-- A history that keeps to the discipline has done so all along. -/
theorem Obeyed.before (h : g.Obeyed p (es ++ [e])) : g.Obeyed p es := by
  rintro before e' rest rfl he
  exact h before e' (rest ++ [e]) (by simp) he

/-! Whether they have can be checked from the first operation on. -/

instance (g : Account D) : (op : Op P D) → Decidable (g.Allows op)
  | .write _ _ => inferInstanceAs (Decidable (0 < g.pins))
  | .release _ dirty => inferInstanceAs (Decidable (g.pins = 1 → g.touched = true → dirty = true))
  | .create _ | .fetch _ | .flush _ | .flushAll | .delete _ => .isTrue trivial

/-- The account after the first operation. -/
def next (g : Account D) (p : P) (e : Op P D × Answer D) : Account D :=
  if e.1.subject = some p then g.after e.1 e.2 else g

/-- The account of a history, read from its first event on. -/
theorem along_cons : g.along p (e :: es) = (g.next p e).along p es := by
  unfold along next
  by_cases he : e.1.subject = some p
  · rw [List.filter_cons_of_pos (by simpa using he), List.foldl_cons, if_pos he]
  · rw [List.filter_cons_of_neg (by simpa using he), if_neg he]

/-- The empty history keeps to every discipline. -/
theorem obeyed_nil : g.Obeyed p [] := by
  rintro before e rest hes
  exact absurd hes.symm (List.append_ne_nil_of_right_ne_nil _ (List.cons_ne_nil e rest))

/-- A history keeps to the discipline when its first event does and the rest does from there. -/
theorem obeyed_cons :
    g.Obeyed p (e :: es) ↔ (e.1.subject = some p → g.Allows e.1) ∧ (g.next p e).Obeyed p es := by
  constructor
  · refine fun h => ⟨h [] e es rfl, fun before e' rest hes he' => ?_⟩
    have hlater := h (e :: before) e' rest (by rw [hes, List.cons_append]) he'
    rwa [along_cons] at hlater
  · rintro ⟨hfirst, hrest⟩ before e' rest hes he'
    cases before with
    | nil =>
      obtain ⟨rfl, rfl⟩ := List.cons.inj hes
      exact hfirst he'
    | cons x before =>
      obtain ⟨rfl, rfl⟩ := List.cons.inj hes
      rw [along_cons]
      exact hrest before e' rest rfl he'

instance decidableObeyed : (g : Account D) → (es : List (Op P D × Answer D)) → Decidable (g.Obeyed p es)
  | _, [] => .isTrue obeyed_nil
  | g, e :: es =>
    haveI : Decidable ((g.next p e).Obeyed p es) := decidableObeyed (g.next p e) es
    decidable_of_iff _ obeyed_cons.symm

end Account

/-! ## Nothing is lost -/

/-- **The cache agrees with the account of page `p`.** -/
structure Kept (c : LruCache P D) (p : P) (g : Account D) : Prop where
  pins : c.pins p = g.pins
  shown : c.Resident p → c.data p = g.contents
  stored : (c.Resident p → c.dirty p = false ∧ g.touched = false) → c.stored p = g.contents
  said : g.pins = 0 → g.touched = false

variable {c : LruCache P D} {p q : P} {g : Account D}

/-- An empty cache keeps for each page what the store has of it. -/
theorem kept_empty (size : ℕ) (stored : P → D) (p : P) : (empty size stored).Kept p ⟨stored p, 0, false⟩ where
  pins := rfl
  shown hp := by
    rcases hp with hp | hp
    · cases hp
    · exact absurd hp (Nat.lt_irrefl 0)
  stored _ := rfl
  said _ := rfl

/-- A page without pins is in the store once it is written back. -/
theorem Kept.written_back (h : c.Kept p g) (hs : c.Sound) (hp : p ∈ c.idle) : c.writtenBack p p = g.contents := by
  have h0 : g.pins = 0 := by rw [← h.pins, hs.unpinned p hp]
  unfold writtenBack
  split
  · rw [Function.update_self]
    exact h.shown (.inl hp)
  · next hd => exact h.stored fun _ => ⟨by simpa using hd, h.said h0⟩

/-- Writing one page back leaves what is stored of the others. -/
theorem writtenBack_other (hq : q ≠ p) : c.writtenBack q p = c.stored p := by
  unfold writtenBack
  split
  · exact Function.update_of_ne hq.symm _ _
  · rfl

/-- Making room brings no page in. -/
theorem resident_makeRoom (h : c.makeRoom.Resident p) : c.Resident p := by
  rcases h with h | h
  · exact .inl (c.makeRoom_idle.subset h)
  · rw [Line.makeRoom_pins] at h
    exact .inr h

/-- When room is made, the page goes to the store or stays where it is. -/
theorem Kept.spilled (h : c.Kept p g) (hs : c.Sound)
    (hclean : c.makeRoom.Resident p → c.dirty p = false ∧ g.touched = false) : c.spilled p = g.contents := by
  by_cases hroom : c.room = 0
  · rcases List.eq_nil_or_concat' c.idle with hnil | ⟨l, q, hl⟩
    · -- nobody waits: no page leaves and nothing is written
      have hsame : c.spilled = c.stored := by
        unfold LruCache.spilled Line.victim
        rw [if_pos hroom, hnil]
        rfl
      rw [hsame]
      refine h.stored fun hp => hclean ?_
      rcases hp with hp | hp
      · rw [hnil] at hp
        cases hp
      · exact .inr (by rwa [Line.makeRoom_pins])
    · -- the last in line leaves
      have hspilled : c.spilled = c.writtenBack q := by
        unfold LruCache.spilled Line.victim
        rw [if_pos hroom, hl, List.getLast?_concat]
      have hidle : c.makeRoom.idle = l := by
        unfold Line.makeRoom
        rw [if_pos hroom, hl]
        exact List.dropLast_concat
      rw [hspilled]
      by_cases hqp : q = p
      · subst hqp
        exact h.written_back hs (by rw [hl]; simp)
      · rw [writtenBack_other hqp]
        refine h.stored fun hp => hclean ?_
        rcases hp with hp | hp
        · refine .inl ?_
          rw [hidle]
          rw [hl, List.mem_append, List.mem_singleton] at hp
          exact hp.resolve_right fun he => hqp he.symm
        · exact .inr (by rwa [Line.makeRoom_pins])
  · have hsame : c.spilled = c.stored := by
      unfold LruCache.spilled Line.victim
      rw [if_neg hroom]
    have hidle : c.makeRoom.idle = c.idle := by
      unfold Line.makeRoom
      rw [if_neg hroom]
    rw [hsame]
    refine h.stored fun hp => hclean ?_
    rcases hp with hp | hp
    · exact .inl (by rwa [hidle])
    · exact .inr (by rwa [Line.makeRoom_pins])

/-- Whoever else is pinned, page `p` stays where it is. -/
theorem resident_hold (l : Line P) (hq : q ≠ p) : (l.hold q).Resident p ↔ l.Resident p := by
  unfold Line.Resident Line.hold
  simp only [List.mem_filter, decide_eq_true_eq, Function.update_of_ne hq.symm]
  exact or_congr_left (and_iff_left hq.symm)

/-- Letting go of one page neither brings another in nor puts it out. -/
theorem resident_release (l : Line P) (hq : q ≠ p) : (l.release q).Resident p ↔ l.Resident p := by
  unfold Line.Resident Line.release
  simp only [Function.update_of_ne hq.symm]
  refine or_congr_left ?_
  split
  · rw [List.mem_cons]
    exact or_iff_right hq.symm
  · rfl

/-- Throwing one page out leaves the others. -/
theorem resident_delete (l : Line P) (hq : q ≠ p) : (l.delete q).Resident p ↔ l.Resident p := by
  unfold Line.Resident Line.delete
  simp only [List.mem_filter, decide_eq_true_eq]
  exact or_congr_left (and_iff_left hq.symm)

/-- Another page is let in. -/
theorem Kept.load_other (h : c.Kept p g) (hs : c.Sound) (hq : q ≠ p) (x : D) {m : P → D} (hm : m p = c.spilled p) :
    Kept { c.load q x with stored := m } p g := by
  have hback : (c.makeRoom.hold q).Resident p ↔ c.makeRoom.Resident p := resident_hold _ hq
  constructor
  · show Function.update c.makeRoom.pins q _ p = _
    rw [Function.update_of_ne hq.symm, Line.makeRoom_pins]
    exact h.pins
  · intro hp
    show Function.update c.data q x p = _
    rw [Function.update_of_ne hq.symm]
    exact h.shown (resident_makeRoom (hback.mp hp))
  · intro hclean
    refine hm.trans (h.spilled hs fun hp => ?_)
    have hdirty : Function.update c.dirty q false p = c.dirty p := Function.update_of_ne hq.symm _ _
    rw [← hdirty]
    exact hclean (hback.mpr hp)
  · exact h.said

/-- **What is done to other pages does not matter.** -/
theorem Kept.other (h : c.Kept p g) (hs : c.Sound) {op : Op P D} (hop : op.subject ≠ some p) :
    (c.step op).2.Kept p g := by
  cases op with
  | create q =>
    have hq : q ≠ p := fun he => hop (congrArg some he)
    rw [step]
    split
    · exact h
    · -- a page let in may push this one out, which writes it back if it is dirty
      exact h.load_other hs hq 0 (Function.update_of_ne hq.symm _ _)
  | fetch q =>
    have hq : q ≠ p := fun he => hop (congrArg some he)
    rw [step]
    split
    · have hback : (c.hold q).Resident p ↔ c.Resident p := resident_hold _ hq
      exact ⟨(Function.update_of_ne hq.symm _ _).trans h.pins, fun hp => h.shown (hback.mp hp),
        fun hclean => h.stored fun hp => hclean (hback.mpr hp), h.said⟩
    · split
      · exact h
      · exact h.load_other hs hq _ rfl
  | release q dirty =>
    have hq : q ≠ p := fun he => hop (congrArg some he)
    have hdirty : Function.update c.dirty q (dirty || c.dirty q) p = c.dirty p := Function.update_of_ne hq.symm _ _
    rw [step]
    split
    · have hback : (c.release q).Resident p ↔ c.Resident p := resident_release _ hq
      refine ⟨(Function.update_of_ne hq.symm _ _).trans h.pins, fun hp => h.shown (hback.mp hp),
        fun hclean => h.stored fun hp => ?_, h.said⟩
      rw [← hdirty]
      exact hclean (hback.mpr hp)
    · show Kept (if q ∈ c.idle then _ else c) p g
      split
      · refine ⟨h.pins, h.shown, fun hclean => h.stored fun hp => ?_, h.said⟩
        rw [← hdirty]
        exact hclean hp
      · exact h
  | flush q =>
    have hq : q ≠ p := fun he => hop (congrArg some he)
    rw [step]
    split
    · exact ⟨h.pins, h.shown, fun hclean => (Function.update_of_ne hq.symm _ _).trans (h.stored hclean), h.said⟩
    · exact h
  | flushAll =>
    refine ⟨h.pins, h.shown, fun hclean => ?_, h.said⟩
    -- every page of the cache is written, this one too
    show (if c.Resident p then c.data p else c.stored p) = _
    split
    · next hp => exact h.shown hp
    · next hp => exact h.stored fun hp' => absurd hp' hp
  | delete q =>
    have hq : q ≠ p := fun he => hop (congrArg some he)
    rw [step]
    split
    · exact h
    · show Kept (if q ∈ c.idle then _ else c) p g
      split
      · have hback : (c.delete q).Resident p ↔ c.Resident p := resident_delete _ hq
        exact ⟨h.pins, fun hp => h.shown (hback.mp hp), fun hclean =>
          (writtenBack_other hq).trans (h.stored fun hp => hclean (hback.mpr hp)), h.said⟩
      · exact h
  | write q x =>
    have hq : q ≠ p := fun he => hop (congrArg some he)
    exact ⟨h.pins, fun hp => (Function.update_of_ne hq.symm _ _).trans (h.shown hp), h.stored, h.said⟩

/-- The page is let in. -/
theorem Kept.load_self (h : c.Kept p g) (x y : D) (touched : Bool) {m : P → D} (hm : m p = y) (hx : x = y) :
    Kept { c.load p x with stored := m } p { contents := y, pins := g.pins + 1, touched := touched } := by
  constructor
  · show Function.update c.makeRoom.pins p _ p = _
    rw [Function.update_self, Line.makeRoom_pins, h.pins]
  · intro _
    exact (Function.update_self ..).trans hx
  · exact fun _ => hm
  · exact fun h0 => by cases h0

/-- **What is done to the page is in its account.** -/
theorem Kept.self (h : c.Kept p g) (hs : c.Sound) {op : Op P D} (hop : op.subject = some p) (hallow : g.Allows op) :
    (c.step op).2.Kept p (g.after op (c.step op).1) := by
  cases op with
  | create q =>
    obtain rfl := Option.some.inj hop
    rw [step]
    split
    · exact h
    · exact h.load_self 0 0 false (Function.update_self ..) rfl
  | fetch q =>
    obtain rfl := Option.some.inj hop
    rw [step]
    split
    · next hres =>
      have hpins : Function.update c.pins q (c.pins q + 1) q = g.pins + 1 := by rw [Function.update_self, h.pins]
      have hthere : (c.hold q).Resident q := .inr (by
        show 0 < Function.update c.pins q (c.pins q + 1) q
        rw [hpins]
        omega)
      exact ⟨hpins, fun _ => h.shown hres, fun hclean => h.stored fun _ => hclean hthere, fun h0 => by cases h0⟩
    · next hres =>
      split
      · exact h
      · have hspilled : c.spilled q = g.contents := h.spilled hs fun hp => absurd (resident_makeRoom hp) hres
        exact h.load_self _ _ _ hspilled hspilled
  | release q dirty =>
    obtain rfl := Option.some.inj hop
    have hdirty : Function.update c.dirty q (dirty || c.dirty q) q = (dirty || c.dirty q) := Function.update_self ..
    have hpins := h.pins
    -- the page is clean only if it was, and nobody has said otherwise
    have hstored : (c.Resident q → (dirty || c.dirty q) = false ∧ (g.touched && !dirty) = false) →
        c.stored q = g.contents := by
      refine fun hclean => h.stored fun hp => ?_
      obtain ⟨hd, ht⟩ := hclean hp
      rw [Bool.or_eq_false_iff] at hd
      rw [hd.1] at ht
      exact ⟨hd.2, by simpa using ht⟩
    rw [step]
    split
    · next hpos =>
      have hthere : (c.toLine.release q).Resident q := by
        unfold Line.Resident Line.release
        simp only [Function.update_self]
        by_cases h1 : c.pins q = 1
        · rw [if_pos h1]
          exact .inl List.mem_cons_self
        · exact .inr (by omega)
      refine ⟨?_, fun _ => h.shown (.inr hpos), fun hclean => hstored fun _ => ?_, fun h0 => ?_⟩
      · show Function.update c.pins q _ q = g.pins - 1
        rw [Function.update_self, hpins]
      · rw [← hdirty]
        exact hclean hthere
      · replace h0 : g.pins - 1 = 0 := h0
        have h1 : g.pins = 1 := by omega
        show (g.touched && !dirty) = false
        cases ht : g.touched with
        | false => rfl
        | true => rw [hallow h1 ht]; rfl
    · next hpos =>
      have h0 : g.pins = 0 := by omega
      have ht : (g.touched && !dirty) = false := by rw [h.said h0]; rfl
      have hzero : c.pins q = g.pins - 1 := by omega
      show Kept (if q ∈ c.idle then _ else c) q { g with pins := g.pins - 1, touched := g.touched && !dirty }
      split
      · refine ⟨hzero, h.shown, fun hclean => hstored fun hp => ?_, fun _ => ht⟩
        rw [← hdirty]
        exact hclean hp
      · next hidle =>
        refine ⟨hzero, h.shown, fun _ => h.stored fun hp => ?_, fun _ => ht⟩
        exact absurd (hp.resolve_left hidle) hpos
  | flush q =>
    obtain rfl := Option.some.inj hop
    rw [step]
    split
    · next hp => exact ⟨h.pins, h.shown, fun _ => (Function.update_self ..).trans (h.shown hp), h.said⟩
    · exact h
  | flushAll => cases hop
  | delete q =>
    obtain rfl := Option.some.inj hop
    rw [step]
    split
    · exact h
    · next hpos =>
      show Kept (if q ∈ c.idle then _ else c) q g
      split
      · next hidle =>
        have hgone : ¬ (c.toLine.delete q).Resident q := by
          rintro (hp | hp)
          · exact (of_decide_eq_true (List.mem_filter.mp hp).2) rfl
          · exact hpos hp
        exact ⟨h.pins, fun hp => absurd hp hgone, fun _ => h.written_back hs hidle, h.said⟩
      · exact h
  | write q x =>
    obtain rfl := Option.some.inj hop
    have hpins := h.pins
    replace hallow : 0 < g.pins := hallow
    have hres : c.Resident q := .inr (by omega)
    refine ⟨h.pins, fun _ => Function.update_self .., fun hclean => ?_, fun h0 => ?_⟩
    · exact absurd (hclean hres).2 (show ¬ true = false by decide)
    · replace h0 : g.pins = 0 := h0
      omega

/-! ## What a client gets -/

/-- A page that is let in shows its contents. -/
theorem Kept.fetch_shows (h : c.Kept p g) (hs : c.Sound) {x : D} (hx : (c.step (.fetch p)).1 = .page (some x)) :
    x = g.contents := by
  rw [step] at hx
  split at hx
  · next hres =>
    cases hx
    exact h.shown hres
  · next hres =>
    split at hx
    · cases hx
    · cases hx
      exact h.spilled hs fun hp => absurd (resident_makeRoom hp) hres

/-- A flush succeeds for a page of the cache only. -/
theorem flush_resident (hflag : (c.step (.flush p)).1 = .flag true) : c.Resident p := by
  rw [step] at hflag
  split at hflag
  · next hres => exact hres
  · cases hflag

/-- A page that is flushed is in the store. -/
theorem Kept.flush_stores (h : c.Kept p g) (hres : c.Resident p) : (c.step (.flush p)).2.stored p = g.contents := by
  rw [step, if_pos hres]
  exact (Function.update_self ..).trans (h.shown hres)

/-! ## Two caches with one account -/

/-- The answer to a request for a page says whether there is one. -/
theorem fetch_answer (c : LruCache P D) (p : P) : ∃ x, (c.step (.fetch p)).1 = .page x := by
  rw [step]
  split
  · exact ⟨_, rfl⟩
  · split <;> exact ⟨_, rfl⟩

/-- A new page has no contents to be lost. -/
theorem create_answer (c : LruCache P D) (p : P) :
    (c.step (.create p)).1 = .page (if c.Full then none else some 0) := by
  rw [step]
  split <;> rfl

/-- Of an answer no more goes into the account than is to be seen of it. -/
theorem Account.after_seen (g : Account D) {c c' : LruCache P D} {op : Op P D}
    (hseen : op.seen (c'.step op).1 = op.seen (c.step op).1) :
    g.after op (c'.step op).1 = g.after op (c.step op).1 := by
  -- only these two are told apart by whether they were answered with a page
  have hpage : ∀ x x' : Option D, x'.isSome = x.isSome →
      (∀ q, g.after (.create q : Op P D) (.page x') = g.after (.create q) (.page x)) ∧
        ∀ q, g.after (.fetch q : Op P D) (.page x') = g.after (.fetch q) (.page x) := by
    intro x x' hsome
    cases x with
    | none =>
      cases x' with
      | none => exact ⟨fun _ => rfl, fun _ => rfl⟩
      | some _ => cases hsome
    | some _ =>
      cases x' with
      | none => cases hsome
      | some _ => exact ⟨fun _ => rfl, fun _ => rfl⟩
  cases op with
  | create q =>
    rw [create_answer, create_answer] at hseen ⊢
    exact (hpage _ _ (Option.some.inj hseen)).1 q
  | fetch q =>
    obtain ⟨x, hx⟩ := c.fetch_answer q
    obtain ⟨x', hx'⟩ := c'.fetch_answer q
    rw [hx, hx'] at hseen ⊢
    exact (hpage _ _ (Option.some.inj hseen)).2 q
  | _ => rfl

/-- **Two caches that keep one account of a page answer alike**, down to the contents: all but whether it was there to
    be flushed. -/
theorem Kept.answers {c' : LruCache P D} (h : c.Kept p g) (hs : c.Sound) (h' : c'.Kept p g) (hs' : c'.Sound)
    {op : Op P D} (hop : op.subject = some p) (hflush : op ≠ .flush p)
    (hseen : op.seen (c'.step op).1 = op.seen (c.step op).1) : (c'.step op).1 = (c.step op).1 := by
  have hpins : c'.pins p = c.pins p := h'.pins.trans h.pins.symm
  cases op with
  | create q =>
    rw [create_answer, create_answer] at hseen ⊢
    by_cases hfull : c.Full
    · by_cases hfull' : c'.Full
      · rw [if_pos hfull, if_pos hfull']
      · rw [if_pos hfull, if_neg hfull'] at hseen
        cases hseen
    · by_cases hfull' : c'.Full
      · rw [if_neg hfull, if_pos hfull'] at hseen
        cases hseen
      · rw [if_neg hfull, if_neg hfull']
  | fetch q =>
    obtain rfl := Option.some.inj hop
    obtain ⟨x, hx⟩ := c.fetch_answer q
    obtain ⟨x', hx'⟩ := c'.fetch_answer q
    rw [hx, hx'] at hseen
    rw [hx, hx']
    cases x with
    | none =>
      cases x' with
      | none => rfl
      | some _ => cases hseen
    | some x =>
      cases x' with
      | none => cases hseen
      | some x' => rw [h.fetch_shows hs hx, h'.fetch_shows hs' hx']
  | release q dirty =>
    obtain rfl := Option.some.inj hop
    rw [step, step, hpins]
    split <;> rfl
  | flush q => exact absurd (by rw [Option.some.inj hop]) hflush
  | flushAll => rfl
  | delete q =>
    obtain rfl := Option.some.inj hop
    rw [step, step, hpins]
    split <;> rfl
  | write q x => rfl

end LruCache
