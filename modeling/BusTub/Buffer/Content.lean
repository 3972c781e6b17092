/-
  No lost update through the buffer pool.

  1. **The ledger** records what the clients of a pool did, independently of where the pool keeps
     the bytes: the ids created, for each page the bytes last written to it (zero since its
     `NewPgImp`), and the outstanding pins.  A pin remembers the pointer it came with and whether
     its holder changed bytes through it; a holder that did passes `is_dirty = true` to the
     `UnpinPgImp` that ends the pin.  Which of several pins on one page an `UnpinPgImp` ends is not
     determined by the call, so a step may choose any that fits (`Ledger.Next`).

  2. **The link** between ledger and pool (`Linked`): a resident page's frame shows the ledger's
     bytes; a CLEAN resident page without a pending writer, and every absent page, has them on
     disk.  The dirty flag is thus right at every eviction.

  3. `fetch_shows_last_write` — **the main result**: every successful `FetchPgImp` shows exactly
     the bytes of the last client write.
-/
import BusTub.Buffer.Pins

set_option linter.unusedSectionVars false

namespace BusTub

open BufferPoolManagerInstance

/-- An outstanding pin: the page, the pointer the client got, and whether it wrote through it. -/
structure Pin where
  page : PageId
  frame : FrameId
  wrote : Bool
  deriving DecidableEq, Repr

/-- What the clients of a pool did. -/
structure Ledger (Data : Type) where
  created : List PageId
  /-- The bytes last written to a page, zero since it was created. -/
  written : PageId → Data
  pins : List Pin

namespace Ledger

variable {Data : Type} [Zero Data]

/-- Before any operation nothing is created, written or pinned. -/
def empty : Ledger Data := { created := [], written := fun _ => 0, pins := [] }

/-- `NewPgImp` returned page `p` in frame `f`. -/
def create (g : Ledger Data) (p : PageId) (f : FrameId) : Ledger Data :=
  { created := g.created ++ [p]
    written := Function.update g.written p 0
    pins := ⟨p, f, false⟩ :: g.pins }

/-- `FetchPgImp` returned frame `f` for page `p`. -/
def pin (g : Ledger Data) (p : PageId) (f : FrameId) : Ledger Data :=
  { g with pins := ⟨p, f, false⟩ :: g.pins }

/-- The holder of pin `k` gave it up. -/
def unpin (g : Ledger Data) (k : Pin) : Ledger Data := { g with pins := g.pins.erase k }

/-- The holder of pin `k` changed the page's bytes to `x`. -/
def write (g : Ledger Data) (k : Pin) (x : Data) : Ledger Data :=
  { g with
    written := Function.update g.written k.page x
    pins := { k with wrote := true } :: g.pins.erase k }

/-- What a call with its result means for the ledger, and the discipline: only created pages are
    fetched, and a pin is given up with `is_dirty = true` if bytes were changed through it. -/
def Next (g : Ledger Data) : Call → Return → Ledger Data → Prop
  | .newPg, .page (some f) p, g' => g' = g.create p f
  | .fetchPg p, .page (some f) _, g' => p ∈ g.created ∧ g' = g.pin p f
  | .fetchPg p, _, g' => p ∈ g.created ∧ g' = g
  | .unpinPg p d, .flag true, g' =>
    ∃ k ∈ g.pins, k.page = p ∧ (k.wrote = true → d = true) ∧ g' = g.unpin k
  | _, _, g' => g' = g

/-- The bytes of each page after a call, if they were `m`: `NewPgImp` zeroes the page it creates. -/
def record (m : PageId → Data) : Call → Return → PageId → Data
  | .newPg, .page (some _) p => Function.update m p 0
  | _, _ => m

/-- How many pins are held on page `p`. -/
def held (g : Ledger Data) (p : PageId) : Nat := g.pins.countP (fun k => k.page = p)

/-! ## What a call does to the ledger -/

variable {g g' : Ledger Data}

/-- Giving a pin back takes one from the count of its page. -/
theorem held_unpin {k : Pin} (hk : k ∈ g.pins) (p : PageId) :
    ((g.unpin k).held p : Int) = g.held p - if k.page = p then 1 else 0 := by
  have hperm : g.held p = ((k :: g.pins.erase k)).countP (fun k => k.page = p) :=
    (List.perm_cons_erase hk).countP_eq _
  rw [hperm, List.countP_cons]
  unfold held unpin
  by_cases he : k.page = p <;> simp [he]

/-- Writing through a pin keeps it. -/
theorem held_write {k : Pin} (hk : k ∈ g.pins) (x : Data) (p : PageId) :
    (g.write k x).held p = g.held p := by
  have hperm : g.held p = ((k :: g.pins.erase k)).countP (fun k => k.page = p) :=
    (List.perm_cons_erase hk).countP_eq _
  rw [hperm, List.countP_cons]
  unfold held write
  rw [List.countP_cons]

/-- A pin that comes adds one to the count of its page. -/
theorem held_pin (p q : PageId) (f : FrameId) :
    ((g.pin q f).held p : Int) = g.held p + if q = p then 1 else 0 := by
  unfold held pin
  rw [List.countP_cons]
  by_cases he : q = p <;> simp [he]

/-- A page that is created comes with its pin. -/
theorem held_create (p q : PageId) (f : FrameId) :
    ((g.create q f).held p : Int) = g.held p + if q = p then 1 else 0 := by
  unfold held create
  rw [List.countP_cons]
  by_cases he : q = p <;> simp [he]

section Next
variable {Disk : Type} [DiskManager Disk Data]
variable {s s' : BufferPoolManagerInstance Disk Data} {c : Call} {ret : Return}

/-- The ledger's count of pins moves as the pool's pin counts do. -/
theorem Next.held (hn : g.Next c ret g') (he : s.Effect c ret s') (p : PageId) :
    (g'.held p : Int) = g.held p + pinDelta p c ret := by
  cases he with
  | newFull => obtain rfl := hn; simp [pinDelta]
  | new => obtain rfl := hn; exact held_create p _ _
  | fetchHit => obtain ⟨-, rfl⟩ := hn; exact held_pin p _ _
  | fetchFull => obtain ⟨-, rfl⟩ := hn; simp [pinDelta]
  | fetchMiss => obtain ⟨-, rfl⟩ := hn; exact held_pin p _ _
  | unpin =>
    obtain ⟨k, hk, rfl, -, rfl⟩ := hn
    rw [held_unpin hk, pinDelta]
    split <;> omega
  | unpinLast =>
    obtain ⟨k, hk, rfl, -, rfl⟩ := hn
    rw [held_unpin hk, pinDelta]
    split <;> omega
  | _ => obtain rfl := hn; simp [pinDelta]

/-- Every pin of the new ledger is an old one or was handed out by this call. -/
theorem Next.pins (hn : g.Next c ret g') (he : s.Effect c ret s') {k : Pin} (hk : k ∈ g'.pins) :
    k ∈ g.pins ∨ (s'.pageTable k.page = some k.frame ∧ k.wrote = false) := by
  cases he with
  | newFull => obtain rfl := hn; exact .inl hk
  | new =>
    obtain rfl := hn
    exact (List.mem_cons.mp hk).elim (fun h => .inr (by simp [h])) .inl
  | fetchHit hp =>
    obtain ⟨-, rfl⟩ := hn
    exact (List.mem_cons.mp hk).elim (fun h => .inr (by simp [h, hp])) .inl
  | fetchFull => obtain ⟨-, rfl⟩ := hn; exact .inl hk
  | fetchMiss =>
    obtain ⟨-, rfl⟩ := hn
    exact (List.mem_cons.mp hk).elim (fun h => .inr (by simp [h])) .inl
  | unpin => obtain ⟨k', -, -, -, rfl⟩ := hn; exact .inl (List.mem_of_mem_erase hk)
  | unpinLast => obtain ⟨k', -, -, -, rfl⟩ := hn; exact .inl (List.mem_of_mem_erase hk)
  | _ => obtain rfl := hn; exact .inl hk

/-- Only pages that were created are fetched. -/
theorem Next.fetched (hn : g.Next c ret g') {p : PageId} (hc : c = .fetchPg p) :
    p ∈ g.created := by
  subst hc
  cases ret with
  | page f q => cases f <;> exact hn.1
  | flag res => exact hn.1
  | void => exact hn.1

/-- The created ids grow by the ids a call returns for the first time. -/
theorem Next.created (hn : g.Next c ret g') (he : s.Effect c ret s') :
    g'.created = g.created ++ newIds c ret := by
  cases he with
  | newFull => obtain rfl := hn; simp [newIds]
  | new => obtain rfl := hn; rfl
  | fetchHit => obtain ⟨-, rfl⟩ := hn; simp [newIds, pin]
  | fetchFull => obtain ⟨-, rfl⟩ := hn; simp [newIds]
  | fetchMiss => obtain ⟨-, rfl⟩ := hn; simp [newIds, pin]
  | unpin => obtain ⟨k, -, -, -, rfl⟩ := hn; simp [newIds, unpin]
  | unpinLast => obtain ⟨k, -, -, -, rfl⟩ := hn; simp [newIds, unpin]
  | _ => obtain rfl := hn; simp [newIds]

/-- A call changes the bytes on record only if it creates a page. -/
theorem Next.written (hn : g.Next c ret g') (he : s.Effect c ret s') :
    g'.written = record g.written c ret := by
  cases he with
  | new => obtain rfl := hn; rfl
  | fetchHit => obtain ⟨-, rfl⟩ := hn; rfl
  | fetchFull => obtain ⟨-, rfl⟩ := hn; rfl
  | fetchMiss => obtain ⟨-, rfl⟩ := hn; rfl
  | unpin => obtain ⟨k, -, -, -, rfl⟩ := hn; rfl
  | unpinLast => obtain ⟨k, -, -, -, rfl⟩ := hn; rfl
  | _ => obtain rfl := hn; rfl

end Next

end Ledger

namespace BufferPoolManagerInstance

variable {Disk Data : Type} [DiskManager Disk Data] [Zero Data]
variable {s s' s₁ : BufferPoolManagerInstance Disk Data} {c : Call} {ret : Return} {g g' : Ledger Data}

/-- The ledger and the pool agree. -/
structure Linked (s : BufferPoolManagerInstance Disk Data) (g : Ledger Data) : Prop where
  inv : s.Inv
  next_nonneg : 0 ≤ s.nextPageId
  created_past : ∀ p ∈ g.created, s.Past p
  created_valid : ∀ p ∈ g.created, p ≠ invalidPageId
  resident : ∀ p f, s.pageTable p = some f → p ∈ g.created
  pin_count : ∀ p, s.pinCountOf p = g.held p
  pin_frame : ∀ k ∈ g.pins, s.pageTable k.page = some k.frame
  data : ∀ p f, s.pageTable p = some f → (s.pages f).data = g.written p
  clean : ∀ p f, s.pageTable p = some f → (s.pages f).isDirty = false →
    (∀ k ∈ g.pins, k.page = p → k.wrote = false) → DiskManager.readPage s.disk p = g.written p
  absent : ∀ p ∈ g.created, s.pageTable p = none → DiskManager.readPage s.disk p = g.written p

/-! ## Pins in the ledger and pin counts in the pool -/

/-- Nobody holds a page whose pin count is 0. -/
theorem Linked.no_pins (h : s.Linked g) {p : PageId} (h0 : s.pinCountOf p = 0) :
    ∀ k ∈ g.pins, k.page ≠ p := by
  have hheld : g.held p = 0 := by
    have := h.pin_count p
    omega
  intro k hk he
  have := List.countP_eq_zero.mp hheld k hk
  simp [he] at this

/-- A page that somebody holds has a pin count above 0. -/
theorem Linked.pinned (h : s.Linked g) {k : Pin} (hk : k ∈ g.pins) : 0 < s.pinCountOf k.page := by
  rw [h.pin_count]
  exact_mod_cast List.countP_pos_iff.mpr ⟨k, hk, by simp⟩

/-- The order of the pins does not matter. -/
theorem Linked.perm (h : s.Linked g) {pins : List Pin} (hp : g.pins.Perm pins) :
    s.Linked { g with pins := pins } where
  inv := h.inv
  next_nonneg := h.next_nonneg
  created_past := h.created_past
  created_valid := h.created_valid
  resident := h.resident
  pin_count p := by
    rw [h.pin_count p]
    exact congrArg Nat.cast (hp.countP_eq _)
  pin_frame k hk := h.pin_frame k (hp.mem_iff.mpr hk)
  data := h.data
  clean p f hp' hd hno := h.clean p f hp' hd fun k hk => hno k (hp.mem_iff.mp hk)
  absent := h.absent

/-- Only what is written to created pages matters. -/
theorem Linked.congr (h : s.Linked g) {x : PageId → Data} (hx : ∀ p ∈ g.created, x p = g.written p) :
    s.Linked { g with written := x } where
  inv := h.inv
  next_nonneg := h.next_nonneg
  created_past := h.created_past
  created_valid := h.created_valid
  resident := h.resident
  pin_count := h.pin_count
  pin_frame := h.pin_frame
  data p f hp := (h.data p f hp).trans (hx p (h.resident p f hp)).symm
  clean p f hp hd hno := (h.clean p f hp hd hno).trans (hx p (h.resident p f hp)).symm
  absent p hpc hp := (h.absent p hpc hp).trans (hx p hpc).symm

/-- The frames with a pin. -/
def pinnedFrames (s : BufferPoolManagerInstance Disk Data) : Finset ℕ :=
  (Finset.range s.cfg.poolSize).filter fun i => (s.pages i).pinCount ≠ 0

/-- **There are as many pinned frames as pinned pages.** -/
theorem Linked.pinned_card (h : s.Linked g) : s.pinnedFrames.card = (g.pins.map Pin.page).toFinset.card := by
  -- a pinned frame is the one that its page's entry names
  have hback : ∀ i ∈ s.pinnedFrames, s.pageTable (s.pages i).pageId = some (i : FrameId) := fun i hi => by
    obtain ⟨hin, h0⟩ := Finset.mem_filter.mp hi
    exact h.inv.backed i ⟨Int.natCast_nonneg i, Int.ofNat_lt.mpr (Finset.mem_range.mp hin)⟩
      fun hm => h0 (h.inv.free_meta i hm).1
  refine Finset.card_bij (fun i _ => (s.pages i).pageId) (fun i hi => ?_) (fun i hi i' hi' he => ?_) fun p hp => ?_
  · have hpos : 0 < g.held (s.pages i).pageId := by
      have hcount := h.pin_count (s.pages i).pageId
      rw [pinCountOf_some (hback i hi)] at hcount
      have h0 := (Finset.mem_filter.mp hi).2
      omega
    obtain ⟨k, hk, hkp⟩ := List.countP_pos_iff.mp hpos
    exact List.mem_toFinset.mpr (List.mem_map.mpr ⟨k, hk, of_decide_eq_true hkp⟩)
  · exact Int.ofNat.inj (Option.some.inj ((hback i hi).symm.trans (he ▸ hback i' hi')))
  · obtain ⟨k, hk, rfl⟩ := List.mem_map.mp (List.mem_toFinset.mp hp)
    have hframe := h.pin_frame k hk
    have hpos := h.pinned hk
    rw [pinCountOf_some hframe] at hpos
    obtain ⟨hnn, hin⟩ := h.inv.mapped_inPool _ _ hframe
    have hid := h.inv.mapped_pageId _ _ hframe
    obtain ⟨i, hi⟩ := Int.eq_ofNat_of_zero_le hnn
    rw [hi] at hin hpos hid
    exact ⟨i, Finset.mem_filter.mpr ⟨Finset.mem_range.mpr (Int.ofNat_lt.mp hin), Int.ne_of_gt hpos⟩, hid⟩

/-- **Only fewer pinned pages than frames leave a frame without a pin.** -/
theorem Linked.room_iff (h : s.Linked g) : (g.pins.map Pin.page).toFinset.card < s.cfg.poolSize ↔
    ∃ f, s.inPool f ∧ (s.pages f).pinCount = 0 := by
  rw [← h.pinned_card]
  constructor
  · intro hlt
    by_contra hno
    have hall : s.pinnedFrames = Finset.range s.cfg.poolSize := Finset.filter_true_of_mem fun i hi h0 =>
      hno ⟨i, ⟨Int.natCast_nonneg i, Int.ofNat_lt.mpr (Finset.mem_range.mp hi)⟩, h0⟩
    rw [hall, Finset.card_range] at hlt
    exact Nat.lt_irrefl _ hlt
  · rintro ⟨f, ⟨hnn, hlt⟩, h0⟩
    obtain ⟨i, rfl⟩ := Int.eq_ofNat_of_zero_le hnn
    have hsub : s.pinnedFrames ⊂ Finset.range s.cfg.poolSize :=
      Finset.filter_ssubset.mpr ⟨i, Finset.mem_range.mpr (Int.ofNat_lt.mp hlt), fun hne => hne h0⟩
    exact Finset.card_range s.cfg.poolSize ▸ Finset.card_lt_card hsub

/-- With fewer pages held than frames, one frame of the pool is not pinned. -/
theorem Linked.room (h : s.Linked g) (hlt : (g.pins.map Pin.page).toFinset.card < s.cfg.poolSize) :
    ∃ f, s.inPool f ∧ (s.pages f).pinCount = 0 :=
  h.room_iff.mp hlt

/-! ## What the disk holds -/

variable [LawfulDiskManager Disk]

/-- Writing a frame back changes the disk image of its own page only, to the frame's bytes. -/
theorem read_writeBack (s : BufferPoolManagerInstance Disk Data) (f : FrameId) (p : PageId) :
    DiskManager.readPage (s.writeBack f) p =
      if (s.pages f).isDirty ∧ p = (s.pages f).pageId then (s.pages f).data
      else DiskManager.readPage s.disk p := by
  unfold writeBack
  by_cases hd : (s.pages f).isDirty
  · by_cases hp : p = (s.pages f).pageId
    · simp [hd, hp, LawfulDiskManager.read_write_self]
    · simp [hd, hp, LawfulDiskManager.read_write_of_ne]
  · simp [hd]

/-- After an unpinned frame is written back the disk has the ledger's bytes of its page, and the
    disk image of every other page is as before. -/
theorem Linked.read_writeBack_mapped (h : s.Linked g) {q : PageId} {f : FrameId}
    (hq : s.pageTable q = some f) (h0 : (s.pages f).pinCount = 0) (p : PageId) :
    DiskManager.readPage (s.writeBack f) p =
      if p = q then g.written q else DiskManager.readPage s.disk p := by
  rw [read_writeBack, h.inv.mapped_pageId q f hq]
  by_cases hpq : p = q
  · subst hpq
    by_cases hd : (s.pages f).isDirty
    · simp [hd, h.data p f hq]
    · have hno := h.no_pins ((pinCountOf_some hq).trans h0)
      have hclean := h.clean p f hq (by simpa using hd) fun k hk he => absurd he (hno k hk)
      simp [hd, hclean]
  · simp [hpq]

/-- The same for `pickFrame`: if it evicts a page, the page's bytes are on disk. -/
theorem Linked.read_picked (h : s.Linked g) {f : FrameId} (hpick : s.Picked f s₁) (p : PageId) :
    DiskManager.readPage s₁.disk p =
      if s.pageTable p = some f then g.written p else DiskManager.readPage s.disk p := by
  have hf := (hpick.spec h.inv.toConsistent).2.inPool
  have h0 := hpick.unpinned h.inv.toConsistent
  cases hpick with
  | @free l f hl =>
    have hfree : f ∈ s.freeList := by simp [hl]
    rw [if_neg (h.inv.free_unmapped f hfree p)]
  | @victim l f r hfree hl hr =>
    have hback := h.inv.backed f hf (by simp [hfree])
    rw [h.read_writeBack_mapped hback h0 p]
    by_cases hp : s.pageTable p = some f
    · rw [if_pos hp, if_pos (h.inv.mapped_inj hp hback), h.inv.mapped_inj hp hback]
    · have hne : p ≠ (s.pages f).pageId := fun he => hp (by rw [he]; exact hback)
      rw [if_neg hp, if_neg hne]

/-- `FlushAllPgsImp`'s loop leaves the disk image of `p` at `x` if every frame that it writes under
    `p` holds `x` and either some frame does or the image was `x` before. -/
theorem read_flushFrames (pages : FrameId → Page Data) (p : PageId) (x : Data) :
    ∀ (n tmp : Nat) (d : Disk),
      (∀ i : Nat, tmp ≤ i → i < tmp + n → (pages i).pageId = p → (pages i).data = x) →
      (DiskManager.readPage d p = x ∨ ∃ i : Nat, tmp ≤ i ∧ i < tmp + n ∧ (pages i).pageId = p) →
      DiskManager.readPage (flushFrames pages n tmp d) p = x := by
  intro n
  induction n with
  | zero =>
    intro tmp d _ h
    rcases h with h | ⟨i, h1, h2, -⟩
    · exact h
    · omega
  | succ n ih =>
    intro tmp d hall h
    unfold flushFrames
    refine ih (tmp + 1) _ (fun i h1 h2 => hall i (by omega) (by omega)) ?_
    by_cases htmp : (pages tmp).pageId = p
    · refine .inl ?_
      rw [htmp, LawfulDiskManager.read_write_self]
      exact hall tmp (Nat.le_refl _) (by omega) htmp
    · rcases h with h | ⟨i, h1, h2, h3⟩
      · refine .inl ?_
        rw [LawfulDiskManager.read_write_of_ne]
        · exact h
        · exact fun he => htmp he.symm
      · have hne : i ≠ tmp := fun he => htmp (he ▸ h3)
        exact .inr ⟨i, by omega, by omega, h3⟩

/-! ## The link survives every call -/

/-- The id counter plays no part in the choice of a frame. -/
theorem Picked.of_bumped {f : FrameId} (h : s.bumped.Picked f s₁) :
    ∃ s₀, s.Picked f s₀ ∧ s₁ = s₀.bumped := by
  cases h with
  | free hl => exact ⟨_, .free hl, rfl⟩
  | victim hfree hl hr => exact ⟨_, .victim hfree hl ⟨hr.lru, hr.tracked, hr.capacity⟩, rfl⟩

/-- What frames and disk hold of each page, as `Linked` has it. -/
structure Holds (s : BufferPoolManagerInstance Disk Data) (g : Ledger Data) : Prop where
  data : ∀ p f, s.pageTable p = some f → (s.pages f).data = g.written p
  clean : ∀ p f, s.pageTable p = some f → (s.pages f).isDirty = false →
    (∀ k ∈ g.pins, k.page = p → k.wrote = false) → DiskManager.readPage s.disk p = g.written p
  absent : ∀ p ∈ g.created, s.pageTable p = none → DiskManager.readPage s.disk p = g.written p

/-- The three clauses about contents, out of the invariant. -/
theorem Linked.holds (h : s.Linked g) : s.Holds g := ⟨h.data, h.clean, h.absent⟩

/-- Installing page `q` with bytes `x` that the disk has too: what was evicted is on disk, `q` is
    clean, and nothing else changes. -/
theorem Linked.holds_install (h : s.Linked g) {f : FrameId} (hpick : s.Picked f s₁) (g' : Ledger Data)
    {q : PageId} {x : Data} {r : LRUReplacer} {d : Disk}
    (hd : ∀ p, DiskManager.readPage d p = if p = q then x else DiskManager.readPage s₁.disk p)
    (hw : ∀ p, g'.written p = if p = q then x else g.written p)
    (hpins : ∀ k ∈ g.pins, k ∈ g'.pins) (hcreated : ∀ p ∈ g'.created, p = q ∨ p ∈ g.created) :
    (s₁.install f q x r d).Holds g' := by
  have hpages := hpick.frame.2.1
  have hmap : ∀ p u, p ≠ q → (s₁.install f q x r d).pageTable p = some u →
      s.pageTable p = some u ∧ u ≠ f := by
    intro p u hpq hp
    have hp₁ : s₁.pageTable p = some u := by simpa [hpq] using hp
    refine ⟨hpick.mapped hp₁, fun he => ?_⟩
    exact (hpick.spec h.inv.toConsistent).2.unmapped p (he ▸ hp₁)
  refine ⟨fun p u hp => ?_, fun p u hp hdirty hno => ?_, fun p hpc hp => ?_⟩
  · by_cases hpq : p = q
    · have hu : u = f := by simpa [hpq] using hp.symm
      simp [hu, hw, hpq]
    · obtain ⟨hp', hu⟩ := hmap p u hpq hp
      simp [hu, hw, hpq, hpages, h.data p u hp']
  · -- a clean page that stays: neither the write-back nor the new page touches its image
    rw [install_disk, hd, hw]
    by_cases hpq : p = q
    · simp [hpq]
    · obtain ⟨hp', hu⟩ := hmap p u hpq hp
      have hne : s.pageTable p ≠ some f := fun he => hu (Option.some.inj (hp'.symm.trans he))
      rw [if_neg hpq, if_neg hpq, h.read_picked hpick, if_neg hne]
      exact h.clean p u hp' (by simpa [hu, hpages] using hdirty) fun k hk => hno k (hpins k hk)
  · have hpq : p ≠ q := fun he => by simp [he] at hp
    rw [install_disk, hd, hw, if_neg hpq, if_neg hpq, h.read_picked hpick]
    split
    · rfl
    · next hne =>
      have hold := (hcreated p hpc).resolve_left hpq
      cases hpt : s.pageTable p with
      | none => exact h.absent p hold hpt
      | some u =>
        -- an entry other than the taken frame's is still there
        have hu : u ≠ f := fun he => hne (he ▸ hpt)
        have hf := (hpick.spec h.inv.toConsistent).2.inPool
        have hback := h.inv.backed f (by simpa [inPool, hpick.frame.1] using hf)
        have hkeep := hpick.keeps hpt hu hback
        simp [hpq, hkeep] at hp

/-- Changing pin count and dirty flag of a page's frame, where a clear flag was clear before. -/
theorem Linked.holds_setPage (h : s.Linked g) {q : PageId} {f : FrameId} (hq : s.pageTable q = some f)
    (pg : Page Data) (g' : Ledger Data) (hdata : pg.data = (s.pages f).data)
    (hdirty : pg.isDirty = false → (s.pages f).isDirty = false) {r : LRUReplacer}
    (hw : g'.written = g.written) (hcreated : g'.created = g.created)
    (hpins : ∀ p, (p = q → pg.isDirty = false) → (∀ k ∈ g'.pins, k.page = p → k.wrote = false) →
      ∀ k ∈ g.pins, k.page = p → k.wrote = false) :
    Holds { s.setPage f pg with replacer := r } g' := by
  refine ⟨fun p u hp => ?_, fun p u hp hd hno => ?_, fun p hpc hp => ?_⟩
  · have hdu : ((s.setPage f pg).pages u).data = (s.pages u).data := by
      by_cases hu : u = f <;> simp [hu, hdata]
    rw [hw]
    exact hdu.trans (h.data p u hp)
  · rw [hw]
    by_cases hu : u = f
    · subst hu
      have hd' : pg.isDirty = false := by simpa using hd
      exact h.clean p u hp (hdirty hd') (hpins p (fun _ => hd') hno)
    · have hpq : p ≠ q := fun he => hu (Option.some.inj (hp.symm.trans (he ▸ hq)))
      exact h.clean p u hp (by simpa [hu] using hd) (hpins p (fun he => absurd he hpq) hno)
  · rw [hw]
    exact h.absent p (hcreated ▸ hpc) hp

/-- Ending pin `k` with a flag that covers its writes leaves no unrecorded writer behind. -/
theorem no_writer_of_unpin {k : Pin} {d : Bool} {q : PageId} (hkq : k.page = q)
    (hkd : k.wrote = true → d = true) (p : PageId) (hd : p = q → d = false)
    (hno : ∀ k' ∈ (g.unpin k).pins, k'.page = p → k'.wrote = false) :
    ∀ k' ∈ g.pins, k'.page = p → k'.wrote = false := by
  intro k' hk' hp
  by_cases he : k' = k
  · subst he
    have hdf := hd (hp.symm.trans hkq)
    cases hwrote : k'.wrote with
    | false => rfl
    | true => rw [hkd hwrote] at hdf; cases hdf
  · exact hno k' ((List.mem_erase_of_ne he).mpr hk') hp

/-- `FlushAllPgsImp` writes every page that is in a frame. -/
theorem Linked.holds_flushAll (h : s.Linked g) : s.flushAllPgsImp.Holds g := by
  have hin : ∀ i : Nat, i < 0 + s.cfg.poolSize → s.inPool i :=
    fun i hi => ⟨Int.natCast_nonneg i, Int.ofNat_lt.mpr (by omega)⟩
  -- a frame that carries the id of a created page is that page's frame
  have hframe : ∀ p ∈ g.created, ∀ i : Nat, i < 0 + s.cfg.poolSize → (s.pages i).pageId = p →
      s.pageTable p = some (i : Int) := by
    intro p hpc i hi hid
    have hfree : (i : Int) ∉ s.freeList := fun hm =>
      h.created_valid p hpc (hid.symm.trans (h.inv.free_meta _ hm).2.2)
    exact hid ▸ h.inv.backed i (hin i hi) hfree
  refine ⟨h.data, fun p f hp _ _ => ?_, fun p hpc hp => ?_⟩
  · have hpc := h.resident p f hp
    refine read_flushFrames s.pages p _ _ _ _ (fun i _ hi hid => ?_) (.inr ?_)
    · exact h.data p i (hframe p hpc i hi hid)
    · obtain ⟨h0, h1⟩ := h.inv.mapped_inPool p f hp
      obtain ⟨i, rfl⟩ := Int.eq_ofNat_of_zero_le h0
      exact ⟨i, Nat.zero_le _, by simpa using h1, h.inv.mapped_pageId p i hp⟩
  · refine read_flushFrames s.pages p _ _ _ _ (fun i _ hi hid => ?_) (.inl (h.absent p hpc hp))
    have hi' := hframe p hpc i hi hid
    exact absurd (hp.symm.trans hi') (by simp)

/-- A page that is deleted has its bytes written back first. -/
theorem Linked.holds_delete (h : s.Linked g) {q : PageId} {f : FrameId} (hq : s.pageTable q = some f)
    (h0 : (s.pages f).pinCount = 0) (r : LRUReplacer) :
    { s with
      pages := Function.update s.pages f blankPage
      disk := s.writeBack f
      replacer := r
      freeList := s.freeList ++ [f]
      pageTable := Function.update s.pageTable q none }.Holds g := by
  have hread := h.read_writeBack_mapped hq h0
  -- every other page is in a frame of its own
  have hother : ∀ {p u}, Function.update s.pageTable q none p = some u → p ≠ q ∧ s.pageTable p = some u ∧ u ≠ f := by
    intro p u hp
    have hpq : p ≠ q := fun he => by simp [he] at hp
    have hp' : s.pageTable p = some u := by simpa [hpq] using hp
    exact ⟨hpq, hp', fun he => hpq (h.inv.mapped_inj (he ▸ hp') hq)⟩
  refine ⟨fun p u hp => ?_, fun p u hp hd hno => ?_, fun p hpc hp => ?_⟩
  · obtain ⟨-, hp', hu⟩ := hother hp
    simpa [hu] using h.data p u hp'
  · obtain ⟨hpq, hp', hu⟩ := hother hp
    show DiskManager.readPage (s.writeBack f) p = _
    rw [hread p, if_neg hpq]
    exact h.clean p u hp' (by simpa [hu] using hd) hno
  · show DiskManager.readPage (s.writeBack f) p = _
    rw [hread p]
    by_cases hpq : p = q
    · simp [hpq]
    · rw [if_neg hpq]
      exact h.absent p hpc (by simpa [hpq] using hp)

/-- An operation keeps them, whichever of its outcomes it has. -/
theorem Linked.holds_step (h : s.Linked g) (he : s.Effect c ret s') (hn : g.Next c ret g') :
    s'.Holds g' := by
  cases he with
  | newFull => obtain rfl := hn; exact h.holds
  | @new f s₁ r hpick hr =>
    obtain rfl := hn
    obtain ⟨s₀, hpick₀, rfl⟩ := hpick.of_bumped
    suffices hold : (s₀.install f s.nextPageId 0 r
        (DiskManager.writePage s₀.disk s.nextPageId 0)).Holds (g.create s.nextPageId f) from
      ⟨hold.data, hold.clean, hold.absent⟩
    refine h.holds_install hpick₀ (g.create s.nextPageId f) (fun p => ?_) (fun p => ?_)
      (fun k hk => List.mem_cons_of_mem _ hk) (fun p hp => ?_)
    · by_cases hp : p = s.nextPageId
      · rw [hp, LawfulDiskManager.read_write_self]
        simp
      · rw [LawfulDiskManager.read_write_of_ne _ _ hp, if_neg hp]
    · simp [Ledger.create, Function.update_apply]
    · simpa [Ledger.create, or_comm] using hp
  | @fetchHit p f r hp hr =>
    obtain ⟨-, rfl⟩ := hn
    exact h.holds_setPage hp { s.pages f with pinCount := (s.pages f).pinCount + 1 } (g.pin p f) rfl id
      rfl rfl fun p _ hno k hk => hno k (List.mem_cons_of_mem _ hk)
  | fetchFull => obtain ⟨-, rfl⟩ := hn; exact h.holds
  | @fetchMiss p f s₁ r hp hpick hr =>
    -- the page was not resident, so the disk had its bytes, also after the write-back
    obtain ⟨hpc, rfl⟩ := hn
    have hread : DiskManager.readPage s₁.disk p = g.written p := by
      rw [h.read_picked hpick, if_neg (by simp [hp])]
      exact h.absent p hpc hp
    refine h.holds_install hpick (g.pin p f) (fun q => ?_) (fun q => ?_)
      (fun k hk => List.mem_cons_of_mem _ hk) (fun q hq => .inr hq)
    · by_cases hq : q = p <;> simp [hq]
    · by_cases hq : q = p <;> simp [hq, hread, Ledger.pin]
  | unpinAbsent => obtain rfl := hn; exact h.holds
  | @unpinZero p d f hp h0 =>
    obtain rfl := hn
    exact h.holds_setPage hp { s.pages f with isDirty := d || (s.pages f).isDirty } g' rfl
      (fun hd => (Bool.or_eq_false_iff.mp hd).2) rfl rfl fun p _ hno => hno
  | @unpin p d f hp h0 h1 =>
    obtain ⟨k, hk, hkp, hkd, rfl⟩ := hn
    exact h.holds_setPage hp { s.pages f with
        isDirty := d || (s.pages f).isDirty, pinCount := (s.pages f).pinCount - 1 } (g.unpin k) rfl
      (fun hd => (Bool.or_eq_false_iff.mp hd).2) rfl rfl fun q hd hno => no_writer_of_unpin hkp hkd q
        (fun he => (Bool.or_eq_false_iff.mp (hd he)).1) hno
  | @unpinLast p d f r hp h1 hr =>
    obtain ⟨k, hk, hkp, hkd, rfl⟩ := hn
    exact h.holds_setPage hp { s.pages f with isDirty := d || (s.pages f).isDirty, pinCount := 0 }
      (g.unpin k) rfl (fun hd => (Bool.or_eq_false_iff.mp hd).2) rfl rfl fun q hd hno => no_writer_of_unpin hkp hkd q
        (fun he => (Bool.or_eq_false_iff.mp (hd he)).1) hno
  | flushAbsent => obtain rfl := hn; exact h.holds
  | @flush p f hp =>
    obtain rfl := hn
    have hread : ∀ q, DiskManager.readPage s.disk q = g'.written q →
        DiskManager.readPage (DiskManager.writePage s.disk p (s.pages f).data) q = g'.written q := by
      intro q hq
      by_cases hqp : q = p
      · rw [hqp, LawfulDiskManager.read_write_self, h.data p f hp]
      · rw [LawfulDiskManager.read_write_of_ne _ _ hqp, hq]
    exact ⟨h.data, fun q u hq hd hno => hread q (h.clean q u hq hd hno),
      fun q hqc hq => hread q (h.absent q hqc hq)⟩
  | flushAll =>
    obtain rfl := hn
    exact h.holds_flushAll
  | deleteAbsent => obtain rfl := hn; exact h.holds
  | deletePinned => obtain rfl := hn; exact h.holds
  | delete hq h0 hr =>
    obtain rfl := hn
    exact h.holds_delete hq h0 _

/-- **The link survives every call of disciplined clients.** -/
theorem Linked.step (h : s.Linked g) (he : s.Effect c ret s') (hn : g.Next c ret g')
    (hcount : s.CountsOn c ret s') : s'.Linked g' := by
  have hcreated := hn.created he
  have hold : ∀ p ∈ g'.created, p ∈ g.created ∨ (newIds c ret = [s.nextPageId] ∧ p = s.nextPageId) := by
    intro p hp
    rw [hcreated, List.mem_append] at hp
    refine hp.imp id fun hp => ?_
    rcases Session.newIds_eq he with hnil | hone
    · simp [hnil] at hp
    · exact ⟨hone, by simpa [hone] using hp⟩
  obtain ⟨hdata, hclean, habsent⟩ := h.holds_step he hn
  refine
    { inv := h.inv.step he (fun p hp => h.created_past p (hn.fetched hp)) hcount
      next_nonneg := ?_
      created_past := fun p hp => ?_
      created_valid := fun p hp => ?_
      resident := fun p f hp => ?_
      pin_count := fun p => by rw [h.inv.pin_step he, h.pin_count, hn.held he]
      pin_frame := fun k hk => ?_
      data := hdata
      clean := hclean
      absent := habsent }
  · unfold CountsOn at hcount
    rw [hcount]
    exact Int.add_nonneg h.next_nonneg (Int.mul_nonneg (Int.natCast_nonneg _) (Int.natCast_nonneg _))
  · exact hcount.past (Session.effect_cfg he) ((hold p hp).imp (h.created_past p) id)
  · rcases hold p hp with hp | ⟨-, rfl⟩
    · exact h.created_valid p hp
    · have := h.next_nonneg
      unfold invalidPageId
      exact fun he => by rw [he] at this; exact absurd this (by decide)
  · rw [hcreated, List.mem_append]
    rcases Session.effect_resident he hp with ⟨u, hu⟩ | hnew | hf
    · exact .inl (h.resident p u hu)
    · exact .inr hnew
    · exact .inl (hn.fetched hf)
  · rcases hn.pins he hk with hk | ⟨hk, -⟩
    · have hp := h.pin_frame k hk
      have hpos := h.pinned hk
      rw [pinCountOf_some hp] at hpos
      exact (h.inv.pinned_step he hp hpos).1
    · exact hk

/-- **The link survives a store through an outstanding pin.** -/
theorem Linked.write (h : s.Linked g) {k : Pin} (hk : k ∈ g.pins) (x : Data) :
    Linked (s.setPage k.frame { s.pages k.frame with data := x }) (g.write k x) := by
  have hkf := h.pin_frame k hk
  have hother : ∀ p f, s.pageTable p = some f → p ≠ k.page → f ≠ k.frame :=
    fun p f hp hne he => hne (h.inv.mapped_inj (he ▸ hp) hkf)
  refine
    { inv := h.inv.store k.frame x
      next_nonneg := h.next_nonneg
      created_past := h.created_past
      created_valid := h.created_valid
      resident := h.resident
      pin_count := fun p => ?_
      pin_frame := fun k' hk' => ?_
      data := fun p f hp => ?_
      clean := fun p f hp hd hno => ?_
      absent := fun p hpc hp => ?_ }
  · rw [h.inv.pinCountOf_setPage hkf, Ledger.held_write hk, ← h.pin_count]
    split
    · next he => rw [← he, pinCountOf_some hkf]
    · rfl
  · rcases List.mem_cons.mp hk' with rfl | hk'
    · exact hkf
    · exact h.pin_frame k' (List.mem_of_mem_erase hk')
  · by_cases hpk : p = k.page
    · have hf : f = k.frame := Option.some.inj (hp.symm.trans (hpk ▸ hkf))
      simp [hf, hpk, Ledger.write]
    · simpa [hother p f hp hpk, Ledger.write, hpk] using h.data p f hp
  · have hpk : p ≠ k.page := fun he => by
      have := hno { k with wrote := true } (List.mem_cons_self ..) he.symm
      cases this
    have hold := h.clean p f hp (by simpa [hother p f hp hpk] using hd) fun k' hk' hp' => by
      have hne : k' ≠ k := fun he => hpk (hp'.symm.trans (he ▸ rfl))
      exact hno k' (List.mem_cons_of_mem _ ((List.mem_erase_of_ne hne).mpr hk')) hp'
    simpa [Ledger.write, hpk] using hold
  · have hpk : p ≠ k.page := fun he => by
      have hp' : s.pageTable p = none := hp
      rw [he, hkf] at hp'
      cases hp'
    simpa [Ledger.write, hpk] using h.absent p hpc hp

/-- A fetch that succeeds leaves the page in the frame it returned. -/
theorem Effect.fetched_mapped {p q : PageId} {f : FrameId}
    (he : s.Effect (.fetchPg p) (.page (some f) q) s') : s'.pageTable p = some f := by
  cases he with
  | fetchHit hp => exact hp
  | fetchMiss => simp

/-- A fresh pool stands for the empty account. -/
theorem linked_create (cfg : PoolConfig) (disk : Disk) (h0 : 0 ≤ int32 cfg.instanceIndex) :
    (create cfg disk : BufferPoolManagerInstance Disk Data).Linked Ledger.empty where
  inv := create_inv cfg disk
  next_nonneg := by simpa [create] using h0
  created_past p hp := by simp [Ledger.empty] at hp
  created_valid p hp := by simp [Ledger.empty] at hp
  resident p f hp := by simp [create] at hp
  pin_count p := pinCountOf_none rfl
  pin_frame k hk := by simp [Ledger.empty] at hk
  data p f hp := by simp [create] at hp
  clean p f hp := by simp [create] at hp
  absent p hp := by simp [Ledger.empty] at hp

end BufferPoolManagerInstance

/-! ## Runs of a pool with its clients -/

/-- A pool and what its clients did with it. -/
structure Traffic (Disk Data : Type) where
  pool : BufferPoolManagerInstance Disk Data
  ledger : Ledger Data

/-- A call with what it returned, or a client's change of the bytes of a page it has pinned. -/
inductive ClientEvent (Data : Type) where
  | call (c : Call) (ret : Return)
  | write (k : Pin) (x : Data)

namespace Traffic

variable {Disk Data : Type} [DiskManager Disk Data] [Zero Data]

/-- The id counter has the value that exact arithmetic gives it. -/
def Unwrapped (a : Traffic Disk Data) : Prop :=
  a.pool.nextPageId = a.pool.cfg.instanceIndex + a.pool.cfg.numInstances * a.ledger.created.length

instance (a : Traffic Disk Data) : Decidable a.Unwrapped := by
  unfold Unwrapped; infer_instance

/-- The runs of a fresh pool under disciplined clients, as long as the id counter has not
    wrapped. -/
def system (b : Build) (cfg : PoolConfig) (disk : Disk) :
    StepSystem (Traffic Disk Data) (ClientEvent Data) where
  init a := a = ⟨create cfg disk, Ledger.empty⟩ ∧ a.Unwrapped
  step a e a' :=
    match e with
    | .call c ret =>
      a.pool.exec b c = .ok (ret, a'.pool) ∧ a.ledger.Next c ret a'.ledger ∧ a'.Unwrapped
    | .write k x => k ∈ a.ledger.pins ∧ a' =
      ⟨a.pool.setPage k.frame { a.pool.pages k.frame with data := x }, a.ledger.write k x⟩

/-- The bytes clients left in each page, after one more event. -/
def leave (m : PageId → Data) : ClientEvent Data → PageId → Data
  | .call c ret => Ledger.record m c ret
  | .write k x => Function.update m k.page x

/-- The bytes of the last client write to each page in a run with events `es`, zero if there was
    none since `NewPgImp` created the page. -/
def lastWritten (es : List (ClientEvent Data)) : PageId → Data := es.foldl leave fun _ => 0

variable [LawfulDiskManager Disk] {b : Build} {cfg : PoolConfig} {disk : Disk}
variable {a₀ a a' : Traffic Disk Data} {es : List (ClientEvent Data)}

/-- **Every step of a run keeps ledger and pool linked.** -/
theorem linked_step {e : ClientEvent Data} (h : a.pool.Linked a.ledger) (hu : a.Unwrapped)
    (hstep : (system b cfg disk).step a e a') :
    a'.pool.Linked a'.ledger ∧ a'.Unwrapped ∧
      a'.ledger.written = leave a.ledger.written e := by
  cases e with
  | write k x =>
    obtain ⟨hk, rfl⟩ := hstep
    exact ⟨h.write hk x, hu, rfl⟩
  | call c ret =>
    obtain ⟨hexec, hn, hu'⟩ := hstep
    have he := exec_effect h.inv.toConsistent hexec
    have hcount : a.pool.CountsOn c ret a'.pool := by
      unfold Unwrapped at hu hu'
      unfold CountsOn
      rw [hu, hu', hn.created he, Session.effect_cfg he, List.length_append]
      push_cast
      ring
    exact ⟨h.step he hn hcount, hu', hn.written he⟩

/-- The invariant along a run, with what the account says was written last. -/
theorem linked_run (h₀ : (system b cfg disk).init a₀) (hrun : (system b cfg disk).Run a₀ es a) :
    a.pool.Linked a.ledger ∧ a.Unwrapped ∧ a.ledger.written = lastWritten es := by
  induction hrun with
  | nil =>
    obtain ⟨rfl, hu⟩ := h₀
    have hnext : int32 cfg.instanceIndex = cfg.instanceIndex := by
      simpa [Unwrapped, Ledger.empty, create] using hu
    have h0 : 0 ≤ int32 cfg.instanceIndex := by
      rw [hnext]
      exact Int.natCast_nonneg _
    exact ⟨linked_create cfg disk h0, hu, rfl⟩
  | snoc hrun hstep ih =>
    obtain ⟨hlink, hu, hw⟩ := ih
    obtain ⟨hlink', hu', hw'⟩ := linked_step hlink hu hstep
    refine ⟨hlink', hu', ?_⟩
    rw [hw', hw, lastWritten, lastWritten, List.foldl_append]
    rfl

/-- **No update is lost**: at the end of any run of disciplined clients, a `FetchPgImp` of page `p`
    that succeeds shows the bytes of the last client write to `p`. -/
theorem fetch_shows_last_write (h₀ : (system b cfg disk).init a₀)
    (hrun : (system b cfg disk).Run a₀ es a) {p q : PageId} {f : FrameId}
    (hfetch : (system b cfg disk).step a (.call (.fetchPg p) (.page (some f) q)) a') :
    (a'.pool.pages f).data = lastWritten es p := by
  obtain ⟨hlink, hu, hw⟩ := linked_run h₀ hrun
  obtain ⟨hlink', -, hw'⟩ := linked_step hlink hu hfetch
  obtain ⟨hexec, hn, -⟩ := hfetch
  have he := exec_effect hlink.inv.toConsistent hexec
  rw [hlink'.data p f he.fetched_mapped, hw', hw]
  rfl

/-- A fresh single-instance pool with one frame over a zeroed disk of numbers. -/
def tiny : Traffic (PageId → Nat) Nat := ⟨(Session.fresh 1).pool, Ledger.empty⟩

/-- The state after a call that returns, with the ledger `g`. -/
def after (a : Traffic Disk Data) (c : Call) (g : Ledger Data) : Traffic Disk Data :=
  match a.pool.exec .debug c with
  | .ok (_, s) => ⟨s, g⟩
  | .error _ => a

/-- Page 0 is created, filled with 7 and unpinned dirty; page 1 is created in the same frame and
    unpinned clean. -/
def tiny₁ : Traffic (PageId → Nat) Nat := tiny.after .newPg (tiny.ledger.create 0 0)
def tiny₂ : Traffic (PageId → Nat) Nat :=
  ⟨tiny₁.pool.setPage 0 { tiny₁.pool.pages 0 with data := 7 }, tiny₁.ledger.write ⟨0, 0, false⟩ 7⟩
def tiny₃ : Traffic (PageId → Nat) Nat := tiny₂.after (.unpinPg 0 true) (tiny₂.ledger.unpin ⟨0, 0, true⟩)
def tiny₄ : Traffic (PageId → Nat) Nat := tiny₃.after .newPg (tiny₃.ledger.create 1 0)
def tiny₅ : Traffic (PageId → Nat) Nat := tiny₄.after (.unpinPg 1 false) (tiny₄.ledger.unpin ⟨1, 0, false⟩)

/-- Page 0 comes back from disk with its 7. -/
theorem fetch_shows_last_write_reused :
    ((tiny₅.after (.fetchPg 0) (tiny₅.ledger.pin 0 0)).pool.pages 0).data = 7 := by
  let M : StepSystem (Traffic (PageId → Nat) Nat) (ClientEvent Nat) :=
    system .debug ⟨1, 1, 0, by decide, by decide⟩ fun _ => 0
  have h₁ : M.step tiny (.call .newPg (.page (some 0) 0)) tiny₁ := ⟨rfl, rfl, by decide⟩
  have h₂ : M.step tiny₁ (.write ⟨0, 0, false⟩ 7) tiny₂ := ⟨by decide, rfl⟩
  have h₃ : M.step tiny₂ (.call (.unpinPg 0 true) (.flag true)) tiny₃ :=
    ⟨rfl, ⟨⟨0, 0, true⟩, by decide, rfl, by decide, rfl⟩, by decide⟩
  have h₄ : M.step tiny₃ (.call .newPg (.page (some 0) 1)) tiny₄ := ⟨rfl, rfl, by decide⟩
  have h₅ : M.step tiny₄ (.call (.unpinPg 1 false) (.flag true)) tiny₅ :=
    ⟨rfl, ⟨⟨1, 0, false⟩, by decide, rfl, by decide, rfl⟩, by decide⟩
  have hfetch : M.step tiny₅ (.call (.fetchPg 0) (.page (some 0) 0))
      (tiny₅.after (.fetchPg 0) (tiny₅.ledger.pin 0 0)) := ⟨rfl, ⟨by decide, rfl⟩, by decide⟩
  have hrun := ((((StepSystem.Run.single h₁).snoc h₂).snoc h₃).snoc h₄).snoc h₅
  exact fetch_shows_last_write ⟨rfl, by decide⟩ hrun hfetch

end Traffic

end BusTub
