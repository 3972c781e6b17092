/-
  How well a line does that lets the page go that was used first.

  Here a page is used and given back before the next one is used, so nobody stays pinned.

  1. **The line is the recent pages** (`touch_recent`): in whatever order pages are used, those in line are the ones
     used last, as many as there are places.

  2. **No rival does much better** (`touch_paid`).  A rival holds up to `h` pages at a time, any it likes, and may know
     which pages will be used; but a page has to be there when it is used.  Every page of the line that the rival
     does not hold is owed for, the more the longer it may stay; what a miss costs is paid out of that debt, and
     only the rival's own moves can add to it.
-/
import BusTub.Lib.LruCache
import Mathlib.Algebra.Order.Ring.Nat
import Mathlib.Data.Finset.Card
import Mathlib.Tactic.Ring

set_option linter.unusedSectionVars false

namespace Line

variable {P : Type*} [DecidableEq P] {l : Line P} {p : P} {k h : ℕ} {C E : Finset P} {L ps : List P}

/-- Page `p` is used. -/
def touch (l : Line P) (p : P) : Line P :=
  if p ∈ l.idle then { l with idle := p :: l.idle.filter (· ≠ p) }
  else { l.makeRoom with idle := p :: l.makeRoom.idle }

/-- How many pages have to be read for it. -/
def misses (l : Line P) (p : P) : ℕ := if p ∈ l.idle then 0 else 1

/-- A page of the line comes to its front. -/
theorem touch_hit (hp : p ∈ l.idle) : l.touch p = { l with idle := p :: l.idle.filter (· ≠ p) } := if_pos hp

/-- A page that is not there comes in at the front, and the last one leaves when no place is free. -/
theorem touch_miss (hp : p ∉ l.idle) : l.touch p = { l.makeRoom with idle := p :: l.makeRoom.idle } := if_neg hp

/-- There are as many places as before. -/
theorem touch_count (hs : l.Sound) (hk : l.idle.length + l.room = k) (hpos : 0 < k) :
    (l.touch p).idle.length + (l.touch p).room = k := by
  by_cases hp : p ∈ l.idle
  · have hlen := hs.length_filter hp
    rw [touch_hit hp]
    show (l.idle.filter (· ≠ p)).length + 1 + l.room = k
    omega
  · have hroom : ¬ l.Full := by
      rintro ⟨h0, hnil⟩
      rw [hnil, h0] at hk
      exact absurd hk (Nat.ne_of_lt hpos)
    have hmade := makeRoom_count hroom
    rw [touch_miss hp]
    show l.makeRoom.idle.length + 1 + l.makeRoom.room = k
    omega

/-! ## The recent pages -/

/-- The pages used so far, the last one first. -/
def recent (L : List P) (ps : List P) : List P := ps.foldl (fun L p => p :: L.filter (· ≠ p)) L

/-- Of a list without `p` the first pages are those of the longer beginning without `p`. -/
theorem take_filter (hL : L.Nodup) (p : P) (n : ℕ) :
    (L.filter (· ≠ p)).take n = ((L.take (n + 1)).filter (· ≠ p)).take n := by
  induction L generalizing n with
  | nil => rfl
  | cons x xs ih =>
    obtain ⟨hx, hxs⟩ := List.nodup_cons.mp hL
    rw [List.take_succ_cons]
    by_cases hxp : x = p
    · subst hxp
      have hself : ∀ ys : List P, ys ⊆ xs → ys.filter (· ≠ x) = ys := fun ys hys =>
        List.filter_eq_self.mpr fun y hy => decide_eq_true fun he => hx (he ▸ hys hy)
      rw [List.filter_cons_of_neg (by simp), List.filter_cons_of_neg (by simp), hself xs (List.Subset.refl xs),
        hself _ (List.take_subset n xs), List.take_take, Nat.min_self]
    · rw [List.filter_cons_of_pos (by simpa using hxp), List.filter_cons_of_pos (by simpa using hxp)]
      cases n with
      | zero => rfl
      | succ n => rw [List.take_succ_cons, List.take_succ_cons, ih hxs]

/-- **The line is the recent pages**, as many as there are places. -/
theorem touch_recent (hs : l.Sound) (hk : l.idle.length + l.room = k) (hpos : 0 < k) (hL : L.Nodup)
    (hrecent : l.idle = L.take k) (p : P) : (l.touch p).idle = (p :: L.filter (· ≠ p)).take k := by
  obtain ⟨n, rfl⟩ := Nat.exists_eq_succ_of_ne_zero (Nat.ne_of_gt hpos)
  rw [List.take_succ_cons, take_filter hL, ← hrecent]
  by_cases hp : p ∈ l.idle
  · have hlen := hs.length_filter hp
    rw [touch_hit hp, List.take_of_length_le (by omega)]
  · rw [touch_miss hp, filter_absent hp]
    show p :: l.makeRoom.idle = _
    congr 1
    unfold makeRoom
    split
    · next h0 =>
      show l.idle.dropLast = _
      rw [List.dropLast_eq_take, show l.idle.length - 1 = n from by omega]
    · next hne =>
      show l.idle = _
      rw [List.take_of_length_le (by omega)]

/-- After page `p` is used, before it stand the pages used since. -/
theorem recent_front (p : P) (L ps : List P) (hps : p ∉ ps) :
    ∃ front rest, recent (p :: L) ps = front ++ p :: rest ∧ front.Nodup ∧ front.toFinset = ps.toFinset := by
  induction ps using List.reverseRecOn with
  | nil => exact ⟨[], L, rfl, List.nodup_nil, rfl⟩
  | append_singleton ps q ih =>
    obtain ⟨front, rest, hfront, hnodup, hset⟩ := ih fun hmem => hps (List.mem_append_left _ hmem)
    have hne : p ≠ q := by
      rintro rfl
      exact hps (List.mem_append_right _ (List.mem_singleton_self p))
    refine ⟨q :: front.filter (· ≠ q), rest.filter (· ≠ q), ?_, ?_, ?_⟩
    · show ((ps ++ [q]).foldl (fun L x => x :: L.filter (· ≠ x)) (p :: L)) = _
      rw [List.foldl_append]
      show q :: (recent (p :: L) ps).filter (· ≠ q) = _
      rw [hfront, List.filter_append, List.filter_cons_of_pos (by simpa using hne), List.cons_append]
    · refine List.nodup_cons.mpr ⟨fun hmem => ?_, hnodup.filter _⟩
      exact absurd rfl (of_decide_eq_true (List.mem_filter.mp hmem).2)
    · ext x
      have hx : x ∈ front ↔ x ∈ ps := by rw [← List.mem_toFinset, hset, List.mem_toFinset]
      simp only [List.mem_toFinset, List.mem_cons, List.mem_filter, List.mem_append, List.not_mem_nil, or_false, hx]
      by_cases hxq : x = q <;> simp [hxq]

/-- Pages are used one after the other. -/
def touches (l : Line P) (ps : List P) : Line P := ps.foldl touch l

/-- The misses of a list of uses. -/
def missesAlong : Line P → List P → ℕ
  | _, [] => 0
  | l, p :: ps => l.misses p + missesAlong (l.touch p) ps

/-- A use keeps the line sound. -/
theorem Sound.touch (hs : l.Sound) (hp : l.pins p = 0) : (l.touch p).Sound := by
  by_cases hmem : p ∈ l.idle
  · have hheld := hs.hold p
    rw [touch_hit hmem]
    refine ⟨List.nodup_cons.mpr ⟨fun hin => ?_, hheld.nodup⟩, fun q hq => ?_⟩
    · exact absurd rfl (of_decide_eq_true (List.mem_filter.mp hin).2)
    · rcases List.mem_cons.mp hq with rfl | hq
      · exact hp
      · exact hs.unpinned q (List.mem_of_mem_filter hq)
  · have hmade := hs.makeRoom
    rw [touch_miss hmem]
    refine ⟨List.nodup_cons.mpr ⟨fun hin => hmem (l.makeRoom_idle.subset hin), hmade.nodup⟩, fun q hq => ?_⟩
    rcases List.mem_cons.mp hq with rfl | hq
    · show l.makeRoom.pins q = 0
      rw [makeRoom_pins]
      exact hp
    · exact hmade.unpinned q hq

/-- A use pins nothing for good. -/
theorem touch_pins (l : Line P) (p : P) : (l.touch p).pins = l.pins := by
  unfold touch
  split
  · rfl
  · exact makeRoom_pins l

/-- What holds of a line that nobody has pinned, with `k` places. -/
structure Free (l : Line P) (k : ℕ) : Prop where
  sound : l.Sound
  pins : ∀ p, l.pins p = 0
  count : l.idle.length + l.room = k
  pos : 0 < k

/-- A line of `k` places without pins stays one. -/
theorem Free.touch (hl : l.Free k) (p : P) : (l.touch p).Free k :=
  ⟨hl.sound.touch (hl.pins p), fun q => by rw [touch_pins, hl.pins], touch_count hl.sound hl.count hl.pos, hl.pos⟩

/-- So it does over a list of uses. -/
theorem Free.touches (hl : l.Free k) (ps : List P) : (l.touches ps).Free k := by
  induction ps generalizing l with
  | nil => exact hl
  | cons p ps ih => exact ih (hl.touch p)

/-- **After any uses the line is the recent pages.** -/
theorem Free.touches_recent (hl : l.Free k) (ps : List P) (hL : L.Nodup) (hrecent : l.idle = L.take k) :
    (l.touches ps).idle = (recent L ps).take k := by
  induction ps generalizing l L with
  | nil => exact hrecent
  | cons p ps ih =>
    have hnext := touch_recent hl.sound hl.count hl.pos hL hrecent p
    refine ih (hl.touch p) (List.nodup_cons.mpr ⟨fun hmem => ?_, hL.filter _⟩) hnext
    exact absurd rfl (of_decide_eq_true (List.mem_filter.mp hmem).2)

/-- **A used page stays in line while fewer than `k` others are used.** -/
theorem Free.stays (hl : l.Free k) (hp : p ∉ ps) :
    p ∈ (l.touches (p :: ps)).idle ↔ ps.toFinset.card < k := by
  have htake : l.idle = l.idle.take k := (List.take_of_length_le (by have := hl.count; omega)).symm
  have hline := hl.touches_recent (p :: ps) hl.sound.nodup htake
  obtain ⟨front, rest, hfront, hnodup, hset⟩ := recent_front p (l.idle.filter (· ≠ p)) ps hp
  rw [hline, show recent l.idle (p :: ps) = recent (p :: l.idle.filter (· ≠ p)) ps from rfl, hfront, ← hset,
    List.toFinset_card_of_nodup hnodup]
  have hnot : p ∉ front := by
    rw [← List.mem_toFinset, hset, List.mem_toFinset]
    exact hp
  rw [List.take_append, List.mem_append]
  constructor
  · rintro (hmem | hmem)
    · exact absurd (List.mem_of_mem_take hmem) hnot
    · by_contra hle
      rw [show k - front.length = 0 by omega, List.take_zero] at hmem
      cases hmem
  · intro hlt
    obtain ⟨m, hm⟩ : ∃ m, k - front.length = m + 1 := ⟨k - front.length - 1, by omega⟩
    rw [hm, List.take_succ_cons]
    exact .inr (List.mem_cons_self ..)

/-! ## What is owed -/

/-- What is owed for the pages that the rival does not hold: `w` for the first one in line, less for each that is
    further back. -/
def owed (C : Finset P) : ℕ → List P → ℕ
  | _, [] => 0
  | w, x :: xs => (if x ∈ C then 0 else w) + owed C (w - 1) xs

/-- A heavier weight owes no less. -/
theorem owed_mono {w w' : ℕ} (hw : w ≤ w') (xs : List P) : owed C w xs ≤ owed C w' xs := by
  induction xs generalizing w w' with
  | nil => exact Nat.le_refl 0
  | cons x xs ih =>
    have hrest := ih (show w - 1 ≤ w' - 1 by omega)
    unfold owed
    split <;> omega

/-- At most the weight is owed for each page of the line. -/
theorem owed_le (C : Finset P) (w : ℕ) (xs : List P) : owed C w xs ≤ w * xs.length := by
  induction xs generalizing w with
  | nil => exact Nat.le_refl 0
  | cons x xs ih =>
    have hrest := ih (w - 1)
    have hle : (w - 1) * xs.length ≤ w * xs.length := Nat.mul_le_mul_right _ (Nat.sub_le w 1)
    have hmul : w * (xs.length + 1) = w * xs.length + w := Nat.mul_succ w _
    unfold owed
    rw [List.length_cons, hmul]
    split <;> omega

/-- Every page moves one place back: that pays one for each that the rival does not hold. -/
theorem owed_back {w : ℕ} {xs : List P} (hlen : xs.length ≤ w + 1) :
    owed C (w + 1) xs = owed C w xs + (xs.filter (· ∉ C)).length := by
  induction xs generalizing w with
  | nil => rfl
  | cons x xs ih =>
    rw [List.length_cons] at hlen
    cases w with
    | zero =>
      obtain rfl : xs = [] := List.length_eq_zero_iff.mp (by omega)
      by_cases hx : x ∈ C <;> simp [owed, hx]
    | succ w =>
      have hrest := ih (w := w) (by omega)
      by_cases hx : x ∈ C
      · rw [List.filter_cons_of_neg (by simpa using hx)]
        unfold owed
        rw [if_pos hx, if_pos hx]
        show 0 + owed C (w + 1) xs = 0 + owed C w xs + _
        omega
      · rw [List.filter_cons_of_pos (by simpa using hx), List.length_cons]
        unfold owed
        rw [if_neg hx, if_neg hx]
        show w + 1 + 1 + owed C (w + 1) xs = w + 1 + owed C w xs + _
        omega

/-- A line that loses its last page owes no more. -/
theorem owed_dropLast (w : ℕ) (xs : List P) : owed C w xs.dropLast ≤ owed C w xs := by
  induction xs generalizing w with
  | nil => exact Nat.le_refl 0
  | cons x xs ih =>
    cases xs with
    | nil => exact Nat.zero_le _
    | cons y ys =>
      have hrest := ih (w - 1)
      show (if x ∈ C then 0 else w) + owed C (w - 1) (y :: ys).dropLast ≤
        (if x ∈ C then 0 else w) + owed C (w - 1) (y :: ys)
      omega

/-- A page goes to the front: nobody behind it moves, and those before it move back. -/
theorem owed_filter {w : ℕ} {xs : List P} (hxs : xs.Nodup) (hp : p ∈ xs) :
    owed C w (xs.filter (· ≠ p)) ≤ owed C (w + 1) xs := by
  induction xs generalizing w with
  | nil => cases hp
  | cons x xs ih =>
    obtain ⟨hx, hxs⟩ := List.nodup_cons.mp hxs
    by_cases hxp : x = p
    · subst hxp
      have hself : xs.filter (· ≠ x) = xs :=
        List.filter_eq_self.mpr fun y hy => decide_eq_true fun he => hx (he ▸ hy)
      rw [List.filter_cons_of_neg (by simp), hself]
      show owed C w xs ≤ _ + owed C w xs
      omega
    · have hmem : p ∈ xs := (List.mem_cons.mp hp).resolve_left fun he => hxp he.symm
      have hrest := ih (w := w - 1) hxs hmem
      have hmono := owed_mono (C := C) (show w - 1 + 1 ≤ w + 1 by omega) xs
      rw [List.filter_cons_of_pos (by simpa using hxp)]
      show (if x ∈ C then 0 else w) + owed C (w - 1) (xs.filter (· ≠ p)) ≤
        (if x ∈ C then 0 else w + 1) + owed C w xs
      cases w with
      | zero =>
        have hzero := owed_le C 0 (xs.filter (· ≠ p))
        rw [Nat.zero_mul] at hzero
        show (if x ∈ C then 0 else 0) + owed C 0 (xs.filter (· ≠ p)) ≤ _
        rw [ite_self]
        omega
      | succ w =>
        have hsame : owed C (w + 1 - 1 + 1) xs = owed C (w + 1) xs := rfl
        split <;> omega

/-- The rival moves: it owes for what it lets go. -/
theorem owed_moved (w : ℕ) {xs : List P} (hxs : xs.Nodup) :
    owed E w xs ≤ owed C w xs + w * (C \ E).card := by
  have hlist : owed E w xs ≤ owed C w xs + w * (xs.filter (· ∈ C \ E)).length := by
    induction xs generalizing w with
    | nil => exact Nat.zero_le _
    | cons x xs ih =>
      obtain ⟨-, hxs⟩ := List.nodup_cons.mp hxs
      have hrest := ih (w - 1) hxs
      have hle : (w - 1) * (xs.filter (· ∈ C \ E)).length ≤ w * (xs.filter (· ∈ C \ E)).length :=
        Nat.mul_le_mul_right _ (Nat.sub_le w 1)
      unfold owed
      by_cases hgone : x ∈ C \ E
      · obtain ⟨hx, hx'⟩ := Finset.mem_sdiff.mp hgone
        rw [List.filter_cons_of_pos (by simpa using hgone), List.length_cons, Nat.mul_succ, if_neg hx', if_pos hx]
        omega
      · rw [List.filter_cons_of_neg (by simpa using hgone)]
        have hheld : (if x ∈ E then 0 else w) ≤ if x ∈ C then 0 else w := by
          by_cases hx : x ∈ C
          · have hx' : x ∈ E := by
              by_contra hno
              exact hgone (Finset.mem_sdiff.mpr ⟨hx, hno⟩)
            rw [if_pos hx', if_pos hx]
          · rw [if_neg hx]
            split <;> omega
        omega
  refine hlist.trans (Nat.add_le_add_left (Nat.mul_le_mul_left w ?_) _)
  rw [← List.toFinset_card_of_nodup (hxs.filter _)]
  refine Finset.card_le_card fun x hx => ?_
  exact of_decide_eq_true (List.mem_filter.mp (List.mem_toFinset.mp hx)).2

/-- A full line has pages that the rival does not hold, if the rival holds one that is not in line. -/
theorem unheld (hs : l.Sound) (hp : p ∉ l.idle) (hp' : p ∈ E) (hE : E.card ≤ h) :
    l.idle.length + 1 ≤ (l.idle.filter (· ∉ E)).length + h := by
  have hsplit : l.idle.length = (l.idle.filter (· ∈ E)).length + (l.idle.filter (· ∉ E)).length := by
    rw [← List.countP_eq_length_filter, ← List.countP_eq_length_filter]
    exact (List.length_eq_countP_add_countP (fun x => decide (x ∈ E))).trans (by simp)
  have hheld : (l.idle.filter (· ∈ E)).length + 1 ≤ E.card := by
    rw [← List.toFinset_card_of_nodup (hs.nodup.filter _)]
    refine Nat.succ_le_of_lt (Finset.card_lt_card (Finset.ssubset_iff.mpr ⟨p, ?_, ?_⟩))
    · rw [List.mem_toFinset, List.mem_filter]
      exact fun hmem => hp hmem.1
    · intro x hx
      rcases Finset.mem_insert.mp hx with rfl | hx
      · exact hp'
      · exact of_decide_eq_true (List.mem_filter.mp (List.mem_toFinset.mp hx)).2
  omega

/-- **What a miss costs is paid out of what is owed**, and only what the rival loads adds to it. -/
theorem touch_paid (hs : l.Sound) (hk : l.idle.length + l.room = k) (hpos : 0 < k) (hp' : p ∈ E)
    (hE : E.card ≤ h) :
    (k + 1 - h) * l.misses p + (owed E k (l.touch p).idle + (k + 1 - h) * (l.touch p).room + k * E.card) ≤
      owed C k l.idle + (k + 1 - h) * l.room + k * C.card + k * (E \ C).card := by
  have hcard : k * E.card + k * (C \ E).card = k * C.card + k * (E \ C).card := by
    rw [← Nat.mul_add, ← Nat.mul_add, Nat.add_comm E.card, Finset.card_sdiff_add_card, Nat.add_comm C.card,
      Finset.card_sdiff_add_card, Finset.union_comm]
  have hmoved := owed_moved (C := C) (E := E) k hs.nodup
  obtain ⟨n, rfl⟩ : ∃ n, k = n + 1 := ⟨k - 1, by omega⟩
  have hfront : ∀ xs, owed E (n + 1) (p :: xs) = owed E n xs := by
    intro xs
    show (if p ∈ E then 0 else n + 1) + owed E n xs = _
    rw [if_pos hp', Nat.zero_add]
  have hpay : (n + 1 + 1 - h) * l.misses p + (owed E (n + 1) (l.touch p).idle + (n + 1 + 1 - h) * (l.touch p).room) ≤
      owed E (n + 1) l.idle + (n + 1 + 1 - h) * l.room := by
    by_cases hp : p ∈ l.idle
    · have hback := owed_filter (C := E) (w := n) hs.nodup hp
      rw [touch_hit hp, misses, if_pos hp, hfront]
      show _ + (_ + (n + 1 + 1 - h) * l.room) ≤ _
      omega
    · rw [touch_miss hp, misses, if_neg hp, hfront]
      show _ + (owed E n l.makeRoom.idle + (n + 1 + 1 - h) * l.makeRoom.room) ≤ _
      by_cases h0 : l.room = 0
      · -- one place back for everybody, and the last one goes
        have hback : owed E (n + 1) l.idle = owed E n l.idle + _ := owed_back (by omega)
        have hdrop := owed_dropLast (C := E) n l.idle
        have hunheld := unheld hs hp hp' hE
        rw [makeRoom, if_pos h0, h0, Nat.mul_one, Nat.mul_zero]
        show _ + (owed E n l.idle.dropLast + _) ≤ _
        omega
      · -- a place is taken
        have hmono := owed_mono (C := E) (Nat.le_add_right n 1) l.idle
        obtain ⟨m, hm⟩ : ∃ m, l.room = m + 1 := ⟨l.room - 1, by omega⟩
        rw [makeRoom, if_neg h0, hm, Nat.mul_succ (n + 1 + 1 - h) m]
        show _ + (owed E n l.idle + (n + 1 + 1 - h) * m) ≤ _
        omega
  show (n + 1 + 1 - h) * l.misses p + (owed E (n + 1) (l.touch p).idle + (n + 1 + 1 - h) * (l.touch p).room + _) ≤
    owed C (n + 1) l.idle + (n + 1 + 1 - h) * l.room + _ + _
  omega

/-- What a rival loads that holds one set of pages after the other. -/
def loads : Finset P → List (Finset P) → ℕ
  | _, [] => 0
  | C, E :: Cs => (E \ C).card + loads E Cs

/-- **No rival does much better**: it holds at most `h` pages at a time, and the page that is used. -/
theorem Free.competes (hl : l.Free k) {Cs : List (Finset P)}
    (hrival : List.Forall₂ (fun p E => p ∈ E ∧ E.card ≤ h) ps Cs) :
    (k + 1 - h) * l.missesAlong ps ≤
      owed C k l.idle + (k + 1 - h) * l.room + k * C.card + k * loads C Cs := by
  induction hrival generalizing l C with
  | nil => exact Nat.zero_le _
  | @cons p E ps Cs hone _ ih =>
    have hpaid := touch_paid (C := C) hl.sound hl.count hl.pos hone.1 hone.2
    have hrest := ih (C := E) (hl.touch p)
    show (k + 1 - h) * (l.misses p + missesAlong (l.touch p) ps) ≤ _ + k * ((E \ C).card + loads E Cs)
    rw [Nat.mul_add, Nat.mul_add]
    omega

end Line

/-! ## Uses of a cache -/

namespace LruCache

variable {P D : Type*} [DecidableEq P] [Zero D] {c : LruCache P D} {k : ℕ}

/-- A page is fetched, written and released. -/
structure Use (P D : Type*) where
  page : P
  writes : List D
  dirty : Bool

/-- A use as cache operations: the page is fetched, written, and released. -/
def Use.ops (u : Use P D) : List (Op P D) := .fetch u.page :: (u.writes.map (.write u.page) ++ [.release u.page u.dirty])

/-- The cache after some operations. -/
def after (c : LruCache P D) (ops : List (Op P D)) : LruCache P D := ops.foldl (fun c op => (c.step op).2) c

/-- The reads of the store along a list of operations. -/
def readsAlong : LruCache P D → List (Op P D) → ℕ
  | _, [] => 0
  | c, op :: ops => c.reads op + readsAlong (c.step op).2 ops

/-- The state after two lists is that after the one from the state after the other. -/
theorem after_append (c : LruCache P D) (ops ops' : List (Op P D)) :
    c.after (ops ++ ops') = (c.after ops).after ops' := List.foldl_append ..

/-- The reads along two lists add up. -/
theorem readsAlong_append (c : LruCache P D) (ops ops' : List (Op P D)) :
    c.readsAlong (ops ++ ops') = c.readsAlong ops + (c.after ops).readsAlong ops' := by
  induction ops generalizing c with
  | nil => exact (Nat.zero_add _).symm
  | cons op ops ih =>
    show c.reads op + readsAlong (c.step op).2 (ops ++ ops') = c.reads op + _ + _
    rw [ih, Nat.add_assoc]
    rfl

/-- Writing moves nobody, and reads nothing. -/
theorem after_writes (c : LruCache P D) (p : P) (xs : List D) :
    (c.after (xs.map (.write p))).toLine = c.toLine ∧ c.readsAlong (xs.map (.write p)) = 0 := by
  induction xs generalizing c with
  | nil => exact ⟨rfl, rfl⟩
  | cons x xs ih =>
    obtain ⟨hline, hreads⟩ := ih (c.step (.write p x)).2
    exact ⟨hline, (Nat.zero_add _).trans hreads⟩

/-- Releasing a held page moves the line, and the contents stay out of it. -/
theorem release_line {p : P} {d : Bool} (hpos : 0 < c.pins p) :
    (c.step (.release p d)).2.toLine = c.toLine.release p := by
  rw [step, if_pos hpos]

/-- A page that is held and released goes to the front. -/
theorem release_hold (l : Line P) {p : P} (hp : l.pins p = 0) :
    (l.hold p).release p = { l with idle := p :: l.idle.filter (· ≠ p) } := by
  have hone : (l.hold p).pins p = 1 := by
    show Function.update l.pins p (l.pins p + 1) p = 1
    rw [Function.update_self, hp]
  have hpins : Function.update (l.hold p).pins p ((l.hold p).pins p - 1) = l.pins := by
    rw [hone]
    show Function.update (Function.update l.pins p (l.pins p + 1)) p 0 = l.pins
    rw [Function.update_idem, ← hp, Function.update_eq_self]
  unfold Line.release
  rw [if_pos hone, hpins]
  rfl

/-- **A use of a page is a touch.** -/
theorem after_use (hl : c.Free k) (u : Use P D) :
    (c.after u.ops).toLine = c.toLine.touch u.page ∧ c.readsAlong u.ops = c.misses u.page := by
  have hfull : ¬ c.Full := by
    rintro ⟨h0, hnil⟩
    have hcount := hl.count
    have hpos := hl.pos
    rw [hnil, h0] at hcount
    exact absurd hcount (Nat.ne_of_lt hpos)
  have hres : c.Resident u.page ↔ u.page ∈ c.idle := or_iff_left (by rw [hl.pins]; exact Nat.lt_irrefl 0)
  -- who stands in line while the page is held
  obtain ⟨l, hfetch, hpins, htouch⟩ : ∃ l : Line P, (c.step (.fetch u.page)).2.toLine = l.hold u.page ∧
      l.pins = c.pins ∧ { l with idle := u.page :: l.idle.filter (· ≠ u.page) } = c.toLine.touch u.page := by
    by_cases hp : u.page ∈ c.idle
    · exact ⟨c.toLine, by rw [step, if_pos (hres.mpr hp)], rfl, (Line.touch_hit hp).symm⟩
    · refine ⟨c.makeRoom, by rw [step, if_neg (mt hres.mp hp), if_neg hfull]; rfl, Line.makeRoom_pins _, ?_⟩
      have habsent : u.page ∉ c.makeRoom.idle := fun hmem => hp (c.makeRoom_idle.subset hmem)
      rw [Line.touch_miss hp, Line.filter_absent habsent]
  obtain ⟨hwrites, hnone⟩ := after_writes (c.step (.fetch u.page)).2 u.page u.writes
  constructor
  · show (((c.step (.fetch u.page)).2.after (u.writes.map (.write u.page) ++ [.release u.page u.dirty]))).toLine = _
    rw [after_append]
    show (((c.step (.fetch u.page)).2.after (u.writes.map (.write u.page))).step (.release u.page u.dirty)).2.toLine = _
    have hpos : 0 < ((c.step (.fetch u.page)).2.after (u.writes.map (.write u.page))).pins u.page := by
      rw [hwrites, hfetch]
      show 0 < Function.update l.pins u.page _ u.page
      rw [Function.update_self]
      omega
    rw [release_line hpos, hwrites, hfetch, release_hold l (by rw [hpins, hl.pins]), htouch]
  · show c.reads (.fetch u.page) + readsAlong _ (u.writes.map (.write u.page) ++ [.release u.page u.dirty]) = _
    rw [readsAlong_append, hnone]
    exact if_congr ((or_iff_left hfull).trans hres) rfl rfl

/-- Uses one after the other. -/
theorem after_uses (hl : c.Free k) (us : List (Use P D)) :
    (c.after (us.flatMap Use.ops)).toLine = c.toLine.touches (us.map Use.page) ∧
      c.readsAlong (us.flatMap Use.ops) = c.missesAlong (us.map Use.page) := by
  induction us generalizing c with
  | nil => exact ⟨rfl, rfl⟩
  | cons u us ih =>
    obtain ⟨hline, hreads⟩ := after_use hl u
    obtain ⟨hlines, hall⟩ := ih (c := c.after u.ops) (by rw [hline]; exact hl.touch u.page)
    rw [List.flatMap_cons, after_append, readsAlong_append, hlines, hall, hreads, hline]
    exact ⟨rfl, rfl⟩

end LruCache
