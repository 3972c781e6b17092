/-
  A cache of pages over a store, which lets that page go that was released first.

  1. **`Line`** is who is resident and who has to go next: there is room for so many more pages, some pages are
     pinned, and the resident pages without a pin stand in line.  No contents are needed to decide it.

  2. **`LruCache.step`** is one operation on a cache with contents, and `reads` whether it reads the store.

  3. **`Line.Included`**: the line of a smaller cache is the recent end of the line of a larger one, and both have
     the same pins.  Every operation that succeeds on the smaller one keeps this (`included_step`), so the
     larger one always has what the smaller one has, and reads no more.
-/
import BusTub.Lib.StepSystem
import Mathlib.Data.List.Nodup
import Mathlib.Logic.Function.Basic

set_option linter.unusedSectionVars false

/-- Who is resident. -/
structure Line (P : Type*) where
  /-- How many more pages fit. -/
  room : ℕ
  pins : P → ℕ
  /-- The resident pages without a pin, the one released last first. -/
  idle : List P

namespace Line

variable {P : Type*} [DecidableEq P]

section

variable (l : Line P) (p : P)

/-- Nobody is resident. -/
def empty (size : ℕ) : Line P := ⟨size, fun _ => 0, []⟩

/-- A page is in the cache when it waits in the line or is held. -/
def Resident : Prop := p ∈ l.idle ∨ 0 < l.pins p

instance : Decidable (l.Resident p) := by
  unfold Resident; infer_instance

/-- Nobody else fits, and nobody can go. -/
def Full : Prop := l.room = 0 ∧ l.idle = []

instance : Decidable l.Full := by
  unfold Full; infer_instance

/-- Who goes if one more page is to fit. -/
def victim : Option P := if l.room = 0 then l.idle.getLast? else none

/-- One more page comes in: it takes a free place, and without one the last of the line leaves. -/
def makeRoom : Line P :=
  if l.room = 0 then { l with idle := l.idle.dropLast } else { l with room := l.room - 1 }

/-- One more pin. -/
def hold : Line P :=
  { l with pins := Function.update l.pins p (l.pins p + 1), idle := l.idle.filter (· ≠ p) }

/-- One pin less; the last one puts the page in line. -/
def release : Line P :=
  { l with
    pins := Function.update l.pins p (l.pins p - 1)
    idle := if l.pins p = 1 then p :: l.idle else l.idle }

/-- A page is thrown out, and its place is free. -/
def delete : Line P := { l with room := l.room + 1, idle := l.idle.filter (· ≠ p) }

end

/-- The pages in line have no pins, and each is there once. -/
structure Sound (l : Line P) : Prop where
  nodup : l.idle.Nodup
  unpinned : ∀ p ∈ l.idle, l.pins p = 0

variable {l l' : Line P} {p : P}

/-- Making room keeps the line sound: it only ever shortens it at the end. -/
theorem Sound.makeRoom (h : l.Sound) : l.makeRoom.Sound := by
  unfold Line.makeRoom
  split
  · exact ⟨h.nodup.sublist (List.dropLast_sublist _), fun p hp => h.unpinned p (List.dropLast_subset _ hp)⟩
  · exact ⟨h.nodup, h.unpinned⟩

/-- Holding a page keeps the line sound: it leaves the line as its pin comes. -/
theorem Sound.hold (h : l.Sound) (p : P) : (l.hold p).Sound := by
  refine ⟨h.nodup.filter _, fun q hq => ?_⟩
  obtain ⟨hmem, hne⟩ := List.mem_filter.mp hq
  show Function.update l.pins p _ q = 0
  rw [Function.update_of_ne (of_decide_eq_true hne)]
  exact h.unpinned q hmem

/-! ## How many there are -/

/-- A page waits at most once, so taking it out shortens the line by one. -/
theorem Sound.length_filter (h : l.Sound) (hp : p ∈ l.idle) :
    (l.idle.filter (· ≠ p)).length + 1 = l.idle.length := by
  have hfilter : l.idle.filter (· ≠ p) = l.idle.erase p := by
    rw [h.nodup.erase_eq_filter]
    exact List.filter_congr fun q _ => by simp [bne, beq_eq_decide]
  have hpos := List.length_pos_of_mem hp
  rw [hfilter, List.length_erase_of_mem hp]
  omega

/-- Taking out a page that does not wait changes nothing. -/
theorem filter_absent (hp : p ∉ l.idle) : l.idle.filter (· ≠ p) = l.idle := by
  refine List.filter_eq_self.mpr fun q hq => decide_eq_true ?_
  rintro rfl
  exact hp hq

/-- A cache that is not full has one place to give. -/
theorem makeRoom_count (h : ¬ l.Full) :
    l.makeRoom.idle.length + l.makeRoom.room + 1 = l.idle.length + l.room := by
  unfold makeRoom
  split
  · next h0 =>
    have hne : l.idle ≠ [] := fun hnil => h ⟨h0, hnil⟩
    have hpos := List.length_pos_iff.mpr hne
    show l.idle.dropLast.length + l.room + 1 = _
    rw [List.length_dropLast]
    omega
  · next hne =>
    show l.idle.length + (l.room - 1) + 1 = _
    omega

/-- Making room lets go of no pin. -/
theorem makeRoom_pins (l : Line P) : l.makeRoom.pins = l.pins := by
  unfold makeRoom
  split <;> rfl

/-- Making room shortens the line from its old end. -/
theorem makeRoom_idle (l : Line P) : l.makeRoom.idle <+: l.idle := by
  unfold makeRoom
  split
  · exact List.dropLast_prefix _
  · exact List.prefix_refl _

/-! ## A smaller line and a larger one -/

/-- `l` has the recent end of the line of `l'`, and the same pins. -/
structure Included (l l' : Line P) : Prop where
  idle : l.idle <+: l'.idle
  pins : l.pins = l'.pins
  count : l.idle.length + l.room ≤ l'.idle.length + l'.room

/-- Two empty caches, the larger one beside the smaller. -/
theorem included_empty {size size' : ℕ} (hle : size ≤ size') : (empty size : Line P).Included (empty size') :=
  ⟨List.prefix_refl _, rfl, by simpa [empty] using hle⟩

namespace Included

/-- What the smaller cache has, the larger one has. -/
theorem resident (h : l.Included l') (hp : l.Resident p) : l'.Resident p := by
  unfold Resident at hp ⊢
  rw [← h.pins]
  exact hp.imp_left (h.idle.subset ·)

/-- Where the smaller cache can take a page, the larger one can. -/
theorem not_full (h : l.Included l') (hroom : ¬ l.Full) : ¬ l'.Full := by
  rintro ⟨h0, hnil⟩
  have hprefix := h.idle
  have hcount := h.count
  rw [hnil, List.prefix_nil] at hprefix
  rw [hnil, hprefix, h0] at hcount
  exact hroom ⟨by simpa using hcount, hprefix⟩

/-- Room is made in both. -/
theorem makeRoom (h : l.Included l') (hroom : ¬ l.Full) : l.makeRoom.Included l'.makeRoom := by
  have hcount := h.count
  have hmade := makeRoom_count hroom
  have hmade' := makeRoom_count (h.not_full hroom)
  refine ⟨?_, by rw [makeRoom_pins, makeRoom_pins, h.pins], by omega⟩
  -- a prefix of the longer line no longer than what is left of it
  refine List.prefix_of_prefix_length_le (l.makeRoom_idle.trans h.idle) l'.makeRoom_idle ?_
  have hle := h.idle.length_le
  by_cases h0 : l'.room = 0
  · have hlen : l'.makeRoom.room = 0 := by rw [Line.makeRoom, if_pos h0]; exact h0
    omega
  · have hlen : l'.makeRoom.idle = l'.idle := by rw [Line.makeRoom, if_neg h0]
    have hle' := l.makeRoom_idle.length_le
    rw [hlen]
    omega

/-- A page that is in both lines or in neither is held in both. -/
theorem hold (h : l.Included l') (hs : l.Sound) (hs' : l'.Sound) (hp : p ∈ l.idle ↔ p ∈ l'.idle) :
    (l.hold p).Included (l'.hold p) := by
  refine ⟨h.idle.filter _, by rw [Line.hold, Line.hold, h.pins], ?_⟩
  have hcount := h.count
  show (l.idle.filter (· ≠ p)).length + l.room ≤ (l'.idle.filter (· ≠ p)).length + l'.room
  by_cases hmem : p ∈ l.idle
  · have := hs.length_filter hmem
    have := hs'.length_filter (hp.mp hmem)
    omega
  · rw [filter_absent hmem, filter_absent fun hmem' => hmem (hp.mpr hmem')]
    exact hcount

/-- The smaller one has to make room for a page that the larger one has in its line. -/
theorem letIn (h : l.Included l') (hs' : l'.Sound) (hroom : ¬ l.Full) (hp : p ∉ l.idle) (hp' : p ∈ l'.idle) :
    (l.makeRoom.hold p).Included (l'.hold p) := by
  have hmade := makeRoom_count hroom
  have hlen := hs'.length_filter hp'
  have hcount := h.count
  have habsent : p ∉ l.makeRoom.idle := fun hmem => hp (l.makeRoom_idle.subset hmem)
  refine ⟨(l.makeRoom_idle.trans h.idle).filter _, ?_, ?_⟩
  · show Function.update l.makeRoom.pins p _ = Function.update l'.pins p _
    rw [makeRoom_pins, h.pins]
  · show (l.makeRoom.idle.filter (· ≠ p)).length + l.makeRoom.room ≤ (l'.idle.filter (· ≠ p)).length + l'.room
    rw [filter_absent habsent]
    omega

/-- A pin let go of in both caches keeps the inclusion: the page moves to the front of both lines or of none. -/
theorem release (h : l.Included l') (p : P) : (l.release p).Included (l'.release p) := by
  have hidle := h.idle
  have hcount := h.count
  unfold Line.release
  rw [← h.pins]
  by_cases h1 : l.pins p = 1
  · rw [if_pos h1, if_pos h1]
    refine ⟨(List.prefix_cons_inj p).mpr hidle, rfl, ?_⟩
    show (p :: l.idle).length + l.room ≤ (p :: l'.idle).length + l'.room
    rw [List.length_cons, List.length_cons]
    omega
  · rw [if_neg h1, if_neg h1]
    exact ⟨hidle, rfl, hcount⟩

/-- A page is deleted from both lines, or from the larger one alone. -/
theorem delete (h : l.Included l') (hs : l.Sound) (hs' : l'.Sound) (hp' : p ∈ l'.idle) :
    (if p ∈ l.idle then l.delete p else l).Included (l'.delete p) := by
  have hcount := h.count
  have hlen' := hs'.length_filter hp'
  have hfilter := h.idle.filter fun q => decide (q ≠ p)
  split
  · next hp =>
    have hlen := hs.length_filter hp
    refine ⟨hfilter, h.pins, ?_⟩
    show (l.idle.filter (· ≠ p)).length + (l.room + 1) ≤ (l'.idle.filter (· ≠ p)).length + (l'.room + 1)
    omega
  · next hp =>
    rw [filter_absent hp] at hfilter
    refine ⟨hfilter, h.pins, ?_⟩
    show l.idle.length + l.room ≤ (l'.idle.filter (· ≠ p)).length + (l'.room + 1)
    omega

end Included

end Line

/-! ## The cache -/

/-- A cache of pages `P` with contents `D`, over a store. -/
structure LruCache (P D : Type*) extends Line P where
  data : P → D
  dirty : P → Bool
  stored : P → D

namespace LruCache

/-- What can be done with a cache. -/
inductive Op (P D : Type*) where
  | create (p : P)
  | fetch (p : P)
  | release (p : P) (dirty : Bool)
  | flush (p : P)
  | flushAll
  | delete (p : P)
  | write (p : P) (x : D)
  deriving DecidableEq

/-- What is to be seen of it: a page's contents or that there is no room for it, a flag, or nothing. -/
inductive Answer (D : Type*) where
  | page (x : Option D)
  | flag (res : Bool)
  | done
  deriving DecidableEq

variable {P D : Type*} [DecidableEq P] [Zero D]

section

variable (c : LruCache P D)

/-- A cache of `size` places that has read nothing yet. -/
def empty (size : ℕ) (stored : P → D) : LruCache P D :=
  { Line.empty size with data := fun _ => 0, dirty := fun _ => false, stored := stored }

/-- The store after page `p` is written back if it is dirty. -/
def writtenBack (p : P) : P → D :=
  if c.dirty p then Function.update c.stored p (c.data p) else c.stored

/-- The store after room is made. -/
def spilled : P → D :=
  match c.victim with
  | some q => c.writtenBack q
  | none => c.stored

/-- Make room for page `p` with contents `x`, and pin it. -/
def load (p : P) (x : D) : LruCache P D :=
  { c.makeRoom.hold p with
    data := Function.update c.data p x
    dirty := Function.update c.dirty p false
    stored := c.spilled }

/-- **One operation.** -/
def step : Op P D → Answer D × LruCache P D
  | .create p =>
    if c.Full then (.page none, c)
    else (.page (some 0), { c.load p 0 with stored := Function.update c.spilled p 0 })
  | .fetch p =>
    if c.Resident p then (.page (some (c.data p)), { c with toLine := c.hold p })
    else if c.Full then (.page none, c)
    else (.page (some (c.spilled p)), c.load p (c.spilled p))
  | .release p dirty =>
    let marked := Function.update c.dirty p (dirty || c.dirty p)
    if 0 < c.pins p then (.flag true, { c with toLine := c.toLine.release p, dirty := marked })
    else (.flag false, if p ∈ c.idle then { c with dirty := marked } else c)
  | .flush p =>
    if c.Resident p then (.flag true, { c with stored := Function.update c.stored p (c.data p) })
    else (.flag false, c)
  | .flushAll => (.done, { c with stored := fun p => if c.Resident p then c.data p else c.stored p })
  | .delete p =>
    if 0 < c.pins p then (.flag false, c)
    else (.flag true, if p ∈ c.idle then { c with toLine := c.toLine.delete p, stored := c.writtenBack p } else c)
  | .write p x => (.done, { c with data := Function.update c.data p x })

/-- How many pages the operation reads from the store. -/
def reads : Op P D → ℕ
  | .fetch p => if c.Resident p ∨ c.Full then 0 else 1
  | _ => 0

end

/-- The runs of a cache, with the answers given. -/
def system (size : ℕ) (stored : P → D) : StepSystem (LruCache P D) (Op P D × Answer D) where
  init c := c = empty size stored
  step c e c' := c.step e.1 = (e.2, c')

variable {c c' : LruCache P D}

/-- What is to be seen of an answer whatever the cache's size is: not the contents, and not whether a page was there
    to be flushed. -/
def Op.seen : Op P D → Answer D → Option Bool
  | .flush _, _ => none
  | _, .page x => some x.isSome
  | _, .flag res => some res
  | _, .done => none

/-- **An operation that succeeds on the smaller cache does the same on the larger one, and the larger one reads the
    store only if the smaller one does.** -/
theorem included_step (h : c.Included c'.toLine) (hs : c.Sound) (hs' : c'.Sound) (op : Op P D)
    (hfresh : ∀ p, op = .create p → ¬ c'.Resident p) (hok : (c.step op).1 ≠ .page none) :
    (c.step op).2.Included (c'.step op).2.toLine ∧ op.seen (c.step op).1 = op.seen (c'.step op).1 ∧
      c'.reads op ≤ c.reads op := by
  -- the pins are the same, so the cases of a release and of a delete fall together
  have hpins : ∀ p, c'.pins p = c.pins p := fun p => congrFun h.pins.symm p
  cases op with
  | create p =>
    have hroom : ¬ c.Full := fun hfull => hok (by rw [step, if_pos hfull])
    -- a page that neither cache has yet, and both have room
    have hroom' := h.not_full hroom
    have habsent' : p ∉ c'.idle := fun hmem => hfresh p rfl (.inl hmem)
    have habsent : p ∉ c.idle := fun hmem => habsent' (h.idle.subset hmem)
    rw [step, if_neg hroom, step, if_neg hroom']
    refine ⟨(h.makeRoom hroom).hold hs.makeRoom hs'.makeRoom ?_, rfl, Nat.le_refl 0⟩
    exact iff_of_false (fun hmem => habsent (c.makeRoom_idle.subset hmem))
      fun hmem => habsent' (c'.makeRoom_idle.subset hmem)
  | fetch p =>
    by_cases hres : c.Resident p
    · have hres' := h.resident hres
      rw [step, if_pos hres, step, if_pos hres', reads, reads, if_pos (.inl hres'), if_pos (.inl hres)]
      -- hit in both: it waits in both lines or, pinned, in neither
      refine ⟨h.hold hs hs' ⟨(h.idle.subset ·), fun hmem => hres.resolve_right fun hpos => ?_⟩, rfl, Nat.le_refl 0⟩
      have := hs'.unpinned p hmem
      rw [hpins] at this
      omega
    · have hroom : ¬ c.Full := fun hfull => hok (by rw [step, if_neg hres, if_pos hfull])
      have hidle : p ∉ c.idle := fun hmem => hres (.inl hmem)
      have hpos : ¬ 0 < c.pins p := fun hpos => hres (.inr hpos)
      rw [step, if_neg hres, if_neg hroom]
      have hread : c.reads (.fetch p) = 1 := if_neg fun hor => hor.elim hres hroom
      by_cases hres' : c'.Resident p
      · -- the larger one has it in the older part of its line
        have hidle' : p ∈ c'.idle := hres'.resolve_right fun hpos' => hpos (hpins p ▸ hpos')
        rw [step, if_pos hres', reads, if_pos (.inl hres')]
        exact ⟨h.letIn hs' hroom hidle hidle', rfl, Nat.zero_le _⟩
      · have hidle' : p ∉ c'.idle := fun hmem => hres' (.inl hmem)
        have hroom' := h.not_full hroom
        rw [step, if_neg hres', if_neg hroom', hread]
        refine ⟨(h.makeRoom hroom).hold hs.makeRoom hs'.makeRoom ?_, rfl, ?_⟩
        · exact iff_of_false (fun hmem => hidle (c.makeRoom_idle.subset hmem))
            fun hmem => hidle' (c'.makeRoom_idle.subset hmem)
        · rw [reads]
          split <;> omega
  | release p dirty =>
    by_cases hpos : 0 < c.pins p
    · have hpos' : 0 < c'.pins p := by rwa [hpins]
      rw [step, if_pos hpos, step, if_pos hpos']
      exact ⟨h.release p, rfl, Nat.le_refl 0⟩
    · -- nothing is released; a page in line may be marked dirty
      have hpos' : ¬ 0 < c'.pins p := by rwa [hpins]
      have hkeep : ∀ (d : LruCache P D) (f : P → Bool),
          (if p ∈ d.idle then { d with dirty := f } else d).toLine = d.toLine := by
        intro d f
        split <;> rfl
      rw [step, if_neg hpos, step, if_neg hpos']
      refine ⟨?_, rfl, Nat.le_refl 0⟩
      show (if p ∈ c.idle then _ else c : LruCache P D).toLine.Included (if p ∈ c'.idle then _ else c').toLine
      rw [hkeep, hkeep]
      exact h
  | flush p =>
    -- a flush moves neither line
    have hkeep : ∀ d : LruCache P D, (d.step (.flush p)).2.toLine = d.toLine := by
      intro d
      rw [step]
      split <;> rfl
    rw [hkeep, hkeep]
    exact ⟨h, rfl, Nat.le_refl 0⟩
  | flushAll => exact ⟨h, rfl, Nat.le_refl 0⟩
  | delete p =>
    by_cases hpos : 0 < c.pins p
    · have hpos' : 0 < c'.pins p := by rwa [hpins]
      rw [step, if_pos hpos, step, if_pos hpos']
      exact ⟨h, rfl, Nat.le_refl 0⟩
    · have hpos' : ¬ 0 < c'.pins p := by rwa [hpins]
      have hline : ∀ d : LruCache P D, (if p ∈ d.idle then { d with
          toLine := d.toLine.delete p, stored := d.writtenBack p } else d).toLine =
            if p ∈ d.idle then d.toLine.delete p else d.toLine := by
        intro d
        split <;> rfl
      rw [step, if_neg hpos, step, if_neg hpos']
      refine ⟨?_, rfl, Nat.le_refl 0⟩
      show (if p ∈ c.idle then _ else c : LruCache P D).toLine.Included (if p ∈ c'.idle then _ else c').toLine
      rw [hline, hline]
      -- only the larger one may have it
      by_cases hidle' : p ∈ c'.idle
      · rw [if_pos hidle']
        exact h.delete hs hs' hidle'
      · rw [if_neg hidle', if_neg fun hidle => hidle' (h.idle.subset hidle)]
        exact h
  | write p x => exact ⟨h, rfl, Nat.le_refl 0⟩

end LruCache
