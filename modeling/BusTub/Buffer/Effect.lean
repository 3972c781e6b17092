/-
  What each method of the buffer pool can do, said once.

  `Consistent` is the part of the pool's invariant that survives ANY sequence of calls with any
  arguments: the replacer's list and map agree; the free list, the page table and the replacer
  talk about disjoint or matching frames; a frame without a pin is known to be evictable.  Under
  it no method can index outside `pages_` or deadlock, and every method has one of the finitely
  many outcomes of `Effect`, each with its guard and its exact result state (`exec_effect`).  The
  invariants of the later modules are case analyses over `Effect` and never unfold a method.

  The one failure left is the assertion of `ValidatePageId` when the id counter has wrapped.
-/
import BusTub.Buffer.Instance
import Mathlib.Order.Interval.Finset.Basic
import Mathlib.Data.Int.Interval

set_option linter.unusedSectionVars false

namespace BusTub

namespace BufferPoolManagerInstance

variable {Disk Data : Type} [DiskManager Disk Data] [Zero Data]

/-! ## The invariant that needs no discipline from the caller -/

/-- The four structures of the pool agree. -/
structure Consistent (s : BufferPoolManagerInstance Disk Data) : Prop where
  lru : s.replacer.Inv
  capacity : s.replacer.numPages = s.cfg.poolSize
  free_nodup : s.freeList.Nodup
  free_inPool : ∀ f ∈ s.freeList, s.inPool f
  free_meta : ∀ f ∈ s.freeList, (s.pages f).pinCount = 0 ∧ (s.pages f).isDirty = false ∧
    (s.pages f).pageId = invalidPageId
  free_unmapped : ∀ f ∈ s.freeList, ∀ p, s.pageTable p ≠ some f
  free_untracked : ∀ f ∈ s.freeList, f ∉ s.replacer.tracked
  mapped_inPool : ∀ p f, s.pageTable p = some f → s.inPool f
  mapped_pageId : ∀ p f, s.pageTable p = some f → (s.pages f).pageId = p
  mapped_tracked : ∀ p f, s.pageTable p = some f → (s.pages f).pinCount = 0 → f ∈ s.replacer.tracked
  tracked_inPool : ∀ f ∈ s.replacer.tracked, s.inPool f
  tracked_unpinned : ∀ f ∈ s.replacer.tracked, (s.pages f).pinCount = 0
  pin_nonneg : ∀ f, s.inPool f → 0 ≤ (s.pages f).pinCount

/-- A frame that no structure mentions: taken by `pickFrame` and not yet given a page. -/
structure Detached (s : BufferPoolManagerInstance Disk Data) (f : FrameId) : Prop where
  inPool : s.inPool f
  unpinned : (s.pages f).pinCount = 0
  not_free : f ∉ s.freeList
  untracked : f ∉ s.replacer.tracked
  unmapped : ∀ p, s.pageTable p ≠ some f

/-- `r` is a sound replacer of the same capacity as the pool's that tracks exactly `l`. -/
structure Replaced (s : BufferPoolManagerInstance Disk Data) (l : List FrameId) (r : LRUReplacer) :
    Prop where
  lru : r.Inv
  tracked : r.tracked = l
  capacity : r.numPages = s.replacer.numPages

/-- A fresh pool: all frames are free, and none is tracked. -/
theorem create_consistent (cfg : PoolConfig) (disk : Disk) :
    (create cfg disk : BufferPoolManagerInstance Disk Data).Consistent where
  lru := LRUReplacer.create_inv _
  capacity := rfl
  free_nodup := List.nodup_range.map (fun _ _ h => Int.ofNat.inj h)
  free_inPool f hf := by
    obtain ⟨i, hi, rfl⟩ := List.mem_map.mp hf
    exact ⟨Int.natCast_nonneg i, by simpa [create] using List.mem_range.mp hi⟩
  free_meta f hf := ⟨rfl, rfl, rfl⟩
  free_unmapped f hf p := by simp [create]
  free_untracked f hf := by simp [create]
  mapped_inPool p f h := by simp [create] at h
  mapped_pageId p f h := by simp [create] at h
  mapped_tracked p f h := by simp [create] at h
  tracked_inPool f hf := by simp [create] at hf
  tracked_unpinned f hf := by simp [create] at hf
  pin_nonneg f hf := Int.le_refl 0

/-- Two pages never share a frame. -/
theorem Consistent.mapped_inj {s : BufferPoolManagerInstance Disk Data} (h : s.Consistent)
    {p q : PageId} {f : FrameId} (hp : s.pageTable p = some f) (hq : s.pageTable q = some f) :
    p = q := by
  rw [← h.mapped_pageId p f hp, h.mapped_pageId q f hq]

/-- A pinned frame that is not in the replacer leaves room for it there: the pigeonhole behind the
    `Unpin` of `UnpinPgImp`. -/
theorem Consistent.tracked_room {s : BufferPoolManagerInstance Disk Data} (h : s.Consistent)
    {f : FrameId} (hf : s.inPool f) (hnot : f ∉ s.replacer.tracked) :
    s.replacer.tracked.length < s.replacer.numPages := by
  have hsub : (f :: s.replacer.tracked).toFinset ⊆ Finset.Ico (0 : Int) s.cfg.poolSize := by
    intro g hg
    rw [Finset.mem_Ico]
    rcases List.mem_cons.mp (List.mem_toFinset.mp hg) with rfl | hg
    · exact hf
    · exact h.tracked_inPool g hg
  have hcard := Finset.card_le_card hsub
  rw [List.toFinset_card_of_nodup (List.nodup_cons.mpr ⟨hnot, h.lru.frame_nodup⟩)] at hcard
  rw [h.capacity]
  simp at hcard
  omega

/-! ## Taking a frame -/

/-- The two ways `pickFrame` finds a frame. -/
inductive Picked (s : BufferPoolManagerInstance Disk Data) :
    FrameId → BufferPoolManagerInstance Disk Data → Prop where
  | free {l : List FrameId} {f : FrameId} (hl : s.freeList = l ++ [f]) :
      Picked s f { s with freeList := l }
  | victim {l : List FrameId} {f : FrameId} {r : LRUReplacer} (hfree : s.freeList = [])
      (hl : s.replacer.tracked = l ++ [f]) (hr : s.Replaced l r) :
      Picked s f { s with
        replacer := r
        disk := s.writeBack f
        pageTable := Function.update s.pageTable (s.pages f).pageId none }

/-- With a free or a tracked frame, `pickFrame` finds one. -/
theorem pickFrame_spec {s : BufferPoolManagerInstance Disk Data} (h : s.Consistent)
    (hsome : ¬ (s.replacer.size = 0 ∧ s.freeList = [])) :
    ∃ f s₁, s.pickFrame = .ok (f, s₁) ∧ s.Picked f s₁ := by
  rcases List.eq_nil_or_concat' s.freeList with hnil | ⟨l, f, hl⟩
  · -- nothing is free, so the code looked at the replacer's size before it came here
    have hne : s.replacer.tracked ≠ [] := fun ht => hsome ⟨by simp [ht], hnil⟩
    obtain ⟨l, f, hl⟩ := (List.eq_nil_or_concat' s.replacer.tracked).resolve_left hne
    obtain ⟨r, hv, hinv, ht, hc⟩ := LRUReplacer.victim_spec h.lru hl (-1)
    have hf : s.inPool f := h.tracked_inPool f (by simp [hl])
    refine ⟨f, _, ?_, .victim hnil hl ⟨hinv, ht, hc⟩⟩
    simp [pickFrame, hnil, hv, hf, bind, Except.bind]
  · have hf : s.inPool f := h.free_inPool f (by simp [hl])
    refine ⟨f, _, ?_, .free hl⟩
    simp [pickFrame, hl, hf]

/-- After `pickFrame` the pool is still consistent and the frame belongs to nobody. -/
theorem Picked.spec {s s₁ : BufferPoolManagerInstance Disk Data} {f : FrameId} (h : s.Consistent)
    (hp : s.Picked f s₁) : s₁.Consistent ∧ s₁.Detached f := by
  cases hp with
  | @free l f hl =>
    have hnd : (l ++ [f]).Nodup := hl ▸ h.free_nodup
    have hsub : ∀ g ∈ l, g ∈ s.freeList := fun g hg => by simp [hl, hg]
    have hf : f ∈ s.freeList := by simp [hl]
    have hfl : f ∉ l := by
      rw [List.nodup_append] at hnd
      exact fun hm => hnd.2.2 f hm f (by simp) rfl
    refine ⟨?_, ⟨h.free_inPool f hf, (h.free_meta f hf).1, hfl, h.free_untracked f hf,
      h.free_unmapped f hf⟩⟩
    exact { h with
      free_nodup := (List.nodup_append.mp hnd).1
      free_inPool := fun g hg => h.free_inPool g (hsub g hg)
      free_meta := fun g hg => h.free_meta g (hsub g hg)
      free_unmapped := fun g hg => h.free_unmapped g (hsub g hg)
      free_untracked := fun g hg => h.free_untracked g (hsub g hg) }
  | @victim l f r hfree hl hr =>
    have hnd : (l ++ [f]).Nodup := hl ▸ h.lru.frame_nodup
    have hsub : ∀ g ∈ l, g ∈ s.replacer.tracked := fun g hg => by simp [hl, hg]
    have hf : f ∈ s.replacer.tracked := by simp [hl]
    have hfl : f ∉ l := by
      rw [List.nodup_append] at hnd
      exact fun hm => hnd.2.2 f hm f (by simp) rfl
    -- the entries that are left belong to other frames
    have hold : ∀ p g, Function.update s.pageTable (s.pages f).pageId none p = some g →
        s.pageTable p = some g ∧ g ≠ f := by
      intro p g hpg
      by_cases hpf : p = (s.pages f).pageId
      · simp [hpf] at hpg
      · rw [Function.update_of_ne hpf] at hpg
        exact ⟨hpg, fun he => hpf (h.mapped_pageId p f (he ▸ hpg)).symm⟩
    refine ⟨?_, ⟨h.tracked_inPool f hf, h.tracked_unpinned f hf, by simp [hfree], ?_,
      fun p hpf => (hold p f hpf).2 rfl⟩⟩
    · exact
      { lru := hr.lru
        capacity := hr.capacity.trans h.capacity
        free_nodup := h.free_nodup
        free_inPool := h.free_inPool
        free_meta := h.free_meta
        free_unmapped := by simp [hfree]
        free_untracked := by simp [hfree]
        mapped_inPool := fun p g hpg => h.mapped_inPool p g (hold p g hpg).1
        mapped_pageId := fun p g hpg => h.mapped_pageId p g (hold p g hpg).1
        mapped_tracked := fun p g hpg h0 => by
          have hg := h.mapped_tracked p g (hold p g hpg).1 h0
          rw [hl, List.mem_append, List.mem_singleton] at hg
          rw [hr.tracked]
          exact hg.resolve_right (hold p g hpg).2
        tracked_inPool := fun g hg => h.tracked_inPool g (hsub g (hr.tracked ▸ hg))
        tracked_unpinned := fun g hg => h.tracked_unpinned g (hsub g (hr.tracked ▸ hg))
        pin_nonneg := h.pin_nonneg }
    · rw [hr.tracked]
      exact hfl

/-- Give the detached frame `f` to page `p`, pinned once and clean. -/
def install (s : BufferPoolManagerInstance Disk Data) (f : FrameId) (p : PageId) (x : Data)
    (r : LRUReplacer) (d : Disk) : BufferPoolManagerInstance Disk Data :=
  { s with
    pages := Function.update s.pages f { data := x, pageId := p, pinCount := 1, isDirty := false }
    pageTable := Function.update s.pageTable p (some f)
    replacer := r
    disk := d }

section install
omit [DiskManager Disk Data] [Zero Data]
variable (s : BufferPoolManagerInstance Disk Data) (f : FrameId) (p : PageId) (x : Data)
  (r : LRUReplacer) (d : Disk)

@[simp] theorem install_pages : (s.install f p x r d).pages = Function.update s.pages f
    { data := x, pageId := p, pinCount := 1, isDirty := false } := rfl
@[simp] theorem install_pageTable :
    (s.install f p x r d).pageTable = Function.update s.pageTable p (some f) := rfl
@[simp] theorem install_cfg : (s.install f p x r d).cfg = s.cfg := rfl
@[simp] theorem install_nextPageId : (s.install f p x r d).nextPageId = s.nextPageId := rfl
@[simp] theorem install_replacer : (s.install f p x r d).replacer = r := rfl
@[simp] theorem install_freeList : (s.install f p x r d).freeList = s.freeList := rfl
@[simp] theorem install_disk : (s.install f p x r d).disk = d := rfl

end install

/-- A detached frame may take any page. -/
theorem Consistent.install {s : BufferPoolManagerInstance Disk Data} (h : s.Consistent)
    {f : FrameId} (hf : s.Detached f) {r : LRUReplacer} (hr : s.Replaced s.replacer.tracked r)
    (p : PageId) (x : Data) (d : Disk) : (s.install f p x r d).Consistent := by
  -- the frame stands apart from the free list, from the replacer and from every page
  have hfree : ∀ g ∈ s.freeList, g ≠ f := fun g hg he => hf.not_free (he ▸ hg)
  have htracked : ∀ g ∈ s.replacer.tracked, g ≠ f := fun g hg he => hf.untracked (he ▸ hg)
  have hmap : ∀ q g, Function.update s.pageTable p (some f) q = some g →
      (q = p ∧ g = f) ∨ (g ≠ f ∧ s.pageTable q = some g) := by
    intro q g hq
    by_cases hqp : q = p
    · subst hqp
      rw [Function.update_self, Option.some.injEq] at hq
      exact .inl ⟨rfl, hq.symm⟩
    · rw [Function.update_of_ne hqp] at hq
      exact .inr ⟨fun he => hf.unmapped q (he ▸ hq), hq⟩
  refine
    { lru := hr.lru
      capacity := hr.capacity.trans h.capacity
      free_nodup := h.free_nodup
      free_inPool := h.free_inPool
      free_meta := fun g hg => ?_
      free_unmapped := fun g hg q hq => ?_
      free_untracked := fun g hg => ?_
      mapped_inPool := fun q g hq => ?_
      mapped_pageId := fun q g hq => ?_
      mapped_tracked := fun q g hq h0 => ?_
      tracked_inPool := fun g hg => h.tracked_inPool g (hr.tracked ▸ hg)
      tracked_unpinned := fun g hg => ?_
      pin_nonneg := fun g hg => ?_ }
  · -- the free frames are other frames
    simpa [hfree g hg] using h.free_meta g hg
  · rcases hmap q g hq with ⟨-, he⟩ | ⟨-, hq⟩
    · exact hfree g hg he
    · exact h.free_unmapped g hg q hq
  · exact fun ht => h.free_untracked g hg (hr.tracked ▸ ht)
  · rcases hmap q g hq with ⟨-, rfl⟩ | ⟨-, hq⟩
    · exact hf.inPool
    · exact h.mapped_inPool q g hq
  · rcases hmap q g hq with ⟨rfl, rfl⟩ | ⟨hne, hq⟩
    · simp
    · simpa [hne] using h.mapped_pageId q g hq
  · rcases hmap q g hq with ⟨rfl, rfl⟩ | ⟨hne, hq⟩
    · simp at h0
    · simp only [install_pages, Function.update_of_ne hne] at h0
      show g ∈ r.tracked
      rw [hr.tracked]
      exact h.mapped_tracked q g hq h0
  · -- the new page comes with a pin, so the replacer has no say over its frame
    have hg' : g ∈ s.replacer.tracked := hr.tracked ▸ hg
    simpa [htracked g hg'] using h.tracked_unpinned g hg'
  · by_cases he : g = f
    · simp [he]
    · simpa [he] using h.pin_nonneg g hg

/-! ## The outcomes of every method -/

/-- The pool with its id counter advanced, as `AllocatePage` leaves it. -/
def bumped (s : BufferPoolManagerInstance Disk Data) : BufferPoolManagerInstance Disk Data :=
  { s with nextPageId := int32 (s.nextPageId + s.cfg.numInstances) }

/-- Every outcome of a call in a consistent state. -/
inductive Effect (s : BufferPoolManagerInstance Disk Data) :
    Call → Return → BufferPoolManagerInstance Disk Data → Prop where
  /-- `NewPgImp` finds every frame pinned, or nothing to evict and nothing free. -/
  | newFull (h : (∀ f, s.inPool f → (s.pages f).pinCount ≠ 0) ∨
        (s.replacer.tracked = [] ∧ s.freeList = [])) :
      Effect s .newPg (.page none invalidPageId) s
  | new {f : FrameId} {s₁ : BufferPoolManagerInstance Disk Data} {r : LRUReplacer}
      (hpick : s.bumped.Picked f s₁) (hr : s₁.Replaced s₁.replacer.tracked r) :
      Effect s .newPg (.page (some f) s.nextPageId)
        (s₁.install f s.nextPageId 0 r (DiskManager.writePage s₁.disk s.nextPageId 0))
  | fetchHit {p : PageId} {f : FrameId} {r : LRUReplacer} (hp : s.pageTable p = some f)
      (hr : s.Replaced (s.replacer.tracked.filter (· ≠ f)) r) :
      Effect s (.fetchPg p) (.page (some f) p)
        { s.setPage f { s.pages f with pinCount := (s.pages f).pinCount + 1 } with replacer := r }
  | fetchFull {p : PageId} (hp : s.pageTable p = none) (ht : s.replacer.tracked = [])
      (hfree : s.freeList = []) : Effect s (.fetchPg p) (.page none p) s
  | fetchMiss {p : PageId} {f : FrameId} {s₁ : BufferPoolManagerInstance Disk Data} {r : LRUReplacer}
      (hp : s.pageTable p = none) (hpick : s.Picked f s₁)
      (hr : s₁.Replaced s₁.replacer.tracked r) :
      Effect s (.fetchPg p) (.page (some f) p)
        (s₁.install f p (DiskManager.readPage s₁.disk p) r s₁.disk)
  | unpinAbsent {p : PageId} {d : Bool} (hp : p = invalidPageId ∨ s.pageTable p = none) :
      Effect s (.unpinPg p d) (.flag false) s
  /-- An unpinned page is still marked dirty. -/
  | unpinZero {p : PageId} {d : Bool} {f : FrameId} (hp : s.pageTable p = some f)
      (h0 : (s.pages f).pinCount = 0) :
      Effect s (.unpinPg p d) (.flag false)
        (s.setPage f { s.pages f with isDirty := d || (s.pages f).isDirty })
  | unpin {p : PageId} {d : Bool} {f : FrameId} (hp : s.pageTable p = some f)
      (h0 : (s.pages f).pinCount ≠ 0) (h1 : (s.pages f).pinCount ≠ 1) :
      Effect s (.unpinPg p d) (.flag true)
        (s.setPage f { s.pages f with
          isDirty := d || (s.pages f).isDirty, pinCount := (s.pages f).pinCount - 1 })
  | unpinLast {p : PageId} {d : Bool} {f : FrameId} {r : LRUReplacer} (hp : s.pageTable p = some f)
      (h1 : (s.pages f).pinCount = 1) (hr : s.Replaced (f :: s.replacer.tracked) r) :
      Effect s (.unpinPg p d) (.flag true)
        { s.setPage f { s.pages f with isDirty := d || (s.pages f).isDirty, pinCount := 0 } with
          replacer := r }
  | flushAbsent {p : PageId} (hp : p = invalidPageId ∨ s.pageTable p = none) :
      Effect s (.flushPg p) (.flag false) s
  | flush {p : PageId} {f : FrameId} (hp : s.pageTable p = some f) :
      Effect s (.flushPg p) (.flag true)
        { s with disk := DiskManager.writePage s.disk p (s.pages f).data }
  | flushAll : Effect s .flushAllPgs .void s.flushAllPgsImp
  | deleteAbsent {p : PageId} (hp : s.pageTable p = none) : Effect s (.deletePg p) (.flag true) s
  | deletePinned {p : PageId} {f : FrameId} (hp : s.pageTable p = some f)
      (hpin : 0 < (s.pages f).pinCount) : Effect s (.deletePg p) (.flag false) s
  | delete {p : PageId} {f : FrameId} {r : LRUReplacer} (hp : s.pageTable p = some f)
      (h0 : (s.pages f).pinCount = 0) (hr : s.Replaced (s.replacer.tracked.filter (· ≠ f)) r) :
      Effect s (.deletePg p) (.flag true)
        { s with
          pages := Function.update s.pages f blankPage
          disk := s.writeBack f
          replacer := r
          freeList := s.freeList ++ [f]
          pageTable := Function.update s.pageTable p none }

/-- The scan of `NewPgImp` stops below `pool_size_` exactly when some frame has pin count 0. -/
theorem firstUnpinned_lt_iff (pages : FrameId → Page Data) : ∀ n tmp : Nat,
    firstUnpinned pages n tmp < tmp + n ↔ ∃ i : Nat, tmp ≤ i ∧ i < tmp + n ∧ (pages i).pinCount = 0
  | 0, tmp => by
    simp only [firstUnpinned, Nat.add_zero, Nat.lt_irrefl, false_iff]
    rintro ⟨i, h1, h2, -⟩
    omega
  | n + 1, tmp => by
    unfold firstUnpinned
    split
    · next h0 => exact ⟨fun _ => ⟨tmp, Nat.le_refl _, by omega, h0⟩, fun _ => by omega⟩
    · next h0 =>
      rw [show tmp + (n + 1) = tmp + 1 + n from by omega, firstUnpinned_lt_iff pages n (tmp + 1)]
      constructor
      · rintro ⟨i, h1, h2, h3⟩
        exact ⟨i, by omega, h2, h3⟩
      · rintro ⟨i, h1, h2, h3⟩
        have hne : i ≠ tmp := fun he => h0 (he ▸ h3)
        exact ⟨i, by omega, h2, h3⟩

/-- `NewPgImp`'s first test, read back on frames. -/
theorem scan_full_iff (s : BufferPoolManagerInstance Disk Data) :
    s.cfg.poolSize ≤ firstUnpinned s.pages s.cfg.poolSize 0 ↔
      ∀ f, s.inPool f → (s.pages f).pinCount ≠ 0 := by
  have h := firstUnpinned_lt_iff s.pages s.cfg.poolSize 0
  rw [Nat.zero_add] at h
  rw [← Nat.not_lt, h]
  constructor
  · rintro hno f ⟨h0, h1⟩ hpin
    obtain ⟨i, rfl⟩ := Int.eq_ofNat_of_zero_le h0
    exact hno ⟨i, Nat.zero_le _, Int.ofNat_lt.mp h1, hpin⟩
  · rintro hall ⟨i, -, hi, hpin⟩
    exact hall i ⟨Int.natCast_nonneg i, Int.ofNat_lt.mpr hi⟩ hpin

/-- `AllocatePage` hands out the counter, or fails its assertion. -/
theorem allocatePage_eq (b : Build) (s : BufferPoolManagerInstance Disk Data) :
    s.allocatePage b = .ok (s.nextPageId, s.bumped) ∨ s.allocatePage b = .error .assertion := by
  unfold allocatePage validatePageId bumped
  cases b
  · simp only [assertThat, bind, Except.bind]
    by_cases hc : uint32 s.nextPageId % s.cfg.numInstances = s.cfg.instanceIndex
    · exact .inl (by simp [hc])
    · exact .inr (by simp [hc])
  · exact .inl rfl

/-- A call that the debug build completes does the same without asserts. -/
theorem exec_ndebug {s : BufferPoolManagerInstance Disk Data} {c : Call}
    {x : Return × BufferPoolManagerInstance Disk Data} (h : s.exec .debug c = .ok x) :
    s.exec .ndebug c = .ok x := by
  cases c with
  | newPg =>
    have hskip : s.allocatePage .ndebug = .ok (s.nextPageId, s.bumped) := rfl
    rcases allocatePage_eq .debug s with halloc | halloc
    · rw [← h]
      simp only [exec, newPgImp, halloc, hskip]
    · -- with the id refused the call returned before it needed one
      simp only [exec, newPgImp, halloc] at h ⊢
      split at h
      · next hscan =>
        rw [if_pos hscan]
        exact h
      · next hscan =>
        rw [if_neg hscan]
        split at h
        · next hempty =>
          rw [if_pos hempty]
          exact h
        · cases h
  | _ => exact h

/-- `Pin` takes a frame out of the replacer and leaves the others in order. -/
theorem pin_replaced {s : BufferPoolManagerInstance Disk Data} (h : s.replacer.Inv) (f : FrameId) :
    ∃ r, s.replacer.pin f = .ok r ∧ s.Replaced (s.replacer.tracked.filter (· ≠ f)) r := by
  obtain ⟨r, hpin, hinv, ht, hc⟩ := LRUReplacer.pin_spec h f
  exact ⟨r, hpin, hinv, ht, hc⟩

/-- Pinning a frame that is not tracked leaves the tracked frames alone. -/
theorem pin_detached {s : BufferPoolManagerInstance Disk Data} (h : s.replacer.Inv) {f : FrameId}
    (hf : f ∉ s.replacer.tracked) :
    ∃ r, s.replacer.pin f = .ok r ∧ s.Replaced s.replacer.tracked r := by
  obtain ⟨r, hpin, hr⟩ := pin_replaced h f
  have hfilter : s.replacer.tracked.filter (· ≠ f) = s.replacer.tracked :=
    List.filter_eq_self.mpr fun g hg => by simpa using fun he : g = f => hf (he ▸ hg)
  exact ⟨r, hpin, hfilter ▸ hr⟩

/-- `NewPgImp` has an outcome of `Effect`, or needs an id and fails the assertion on it. -/
theorem newPgImp_effect {s : BufferPoolManagerInstance Disk Data} (h : s.Consistent) (b : Build) :
    (∃ f p s', s.newPgImp b invalidPageId = .ok ((f, p), s') ∧ s.Effect .newPg (.page f p) s') ∨
      (s.newPgImp b invalidPageId = .error .assertion ∧ s.allocatePage b = .error .assertion) := by
  unfold newPgImp
  by_cases hscan : s.cfg.poolSize ≤ firstUnpinned s.pages s.cfg.poolSize 0
  · rw [if_pos hscan]
    exact .inl ⟨_, _, _, rfl, .newFull (.inl ((scan_full_iff s).mp hscan))⟩
  · rw [if_neg hscan]
    by_cases hempty : s.replacer.size = 0 ∧ s.freeList = []
    · rw [if_pos hempty]
      exact .inl ⟨_, _, _, rfl, .newFull (.inr ⟨by simpa using hempty.1, hempty.2⟩)⟩
    · rw [if_neg hempty]
      rcases allocatePage_eq b s with halloc | halloc
      · have hb : s.bumped.Consistent := { h with }
        obtain ⟨f, s₁, hpick, hp⟩ := pickFrame_spec hb hempty
        obtain ⟨hs₁, hf⟩ := hp.spec hb
        obtain ⟨r, hpin, hr⟩ := pin_detached hs₁.lru hf.untracked
        refine .inl ⟨_, _, _, ?_, .new hp hr⟩
        simp [halloc, hpick, bind, Except.bind, setPage, install, hpin]
      · exact .inr ⟨by simp [halloc, bind, Except.bind], halloc⟩

/-- `FetchPgImp` finds the page, or has no frame for it, or reads it into one. -/
theorem fetchPgImp_effect {s : BufferPoolManagerInstance Disk Data} (h : s.Consistent) (p : PageId) :
    ∃ f s', s.fetchPgImp p = .ok (f, s') ∧ s.Effect (.fetchPg p) (.page f p) s' := by
  unfold fetchPgImp
  cases hp : s.pageTable p with
  | some f =>
    obtain ⟨r, hpin, hr⟩ := pin_replaced h.lru f
    refine ⟨_, _, ?_, .fetchHit hp hr⟩
    simp [setPage, hpin, bind, Except.bind]
  | none =>
    by_cases hempty : s.replacer.size = 0 ∧ s.freeList = []
    · rw [if_pos hempty]
      exact ⟨_, _, rfl, .fetchFull hp (by simpa using hempty.1) hempty.2⟩
    · rw [if_neg hempty]
      obtain ⟨f, s₁, hpick, hp'⟩ := pickFrame_spec h hempty
      obtain ⟨hs₁, hf⟩ := hp'.spec h
      obtain ⟨r, hpin, hr⟩ := pin_detached hs₁.lru hf.untracked
      refine ⟨_, _, ?_, .fetchMiss hp hp' hr⟩
      simp [hpick, bind, Except.bind, setPage, install, hpin]

/-- `DeletePgImp` finds no page, or a pinned one, or deletes it. -/
theorem deletePgImp_effect {s : BufferPoolManagerInstance Disk Data} (h : s.Consistent) (p : PageId) :
    ∃ res s', s.deletePgImp p = .ok (res, s') ∧ s.Effect (.deletePg p) (.flag res) s' := by
  unfold deletePgImp
  cases hp : s.pageTable p with
  | none => exact ⟨_, _, rfl, .deleteAbsent hp⟩
  | some f =>
    by_cases hpin : (s.pages f).pinCount > 0
    · exact ⟨_, _, if_pos hpin, .deletePinned hp hpin⟩
    · have h0 : (s.pages f).pinCount = 0 := by
        have := h.pin_nonneg f (h.mapped_inPool p f hp)
        omega
      obtain ⟨r, hr, hr'⟩ := pin_replaced h.lru f
      refine ⟨_, _, ?_, .delete hp h0 hr'⟩
      simp [h0, setPage, hr, bind, Except.bind]

/-- `UnpinPgImp` finds no page, or one without pins, or takes a pin from it, which may be the last. -/
theorem unpinPgImp_effect {s : BufferPoolManagerInstance Disk Data} (h : s.Consistent) (p : PageId)
    (d : Bool) :
    ∃ res s', s.unpinPgImp p d = .ok (res, s') ∧ s.Effect (.unpinPg p d) (.flag res) s' := by
  unfold unpinPgImp
  by_cases hinv : p = invalidPageId
  · exact ⟨_, _, if_pos hinv, .unpinAbsent (.inl hinv)⟩
  · rw [if_neg hinv]
    cases hp : s.pageTable p with
    | none => exact ⟨_, _, rfl, .unpinAbsent (.inr hp)⟩
    | some f =>
      -- Marking the frame dirty first is the same as or-ing the flag in.
      have hmark : (if d then s.setPage f { s.pages f with isDirty := d } else s)
          = s.setPage f { s.pages f with isDirty := d || (s.pages f).isDirty } := by
        cases d <;> simp [setPage]
      simp only [hmark]
      by_cases h0 : (s.pages f).pinCount = 0
      · exact ⟨_, _, by simp [setPage, h0], .unpinZero hp h0⟩
      · by_cases h1 : (s.pages f).pinCount = 1
        · have hnot : f ∉ s.replacer.tracked := fun hf => h0 (h.tracked_unpinned f hf)
          have hroom := h.tracked_room (h.mapped_inPool p f hp) hnot
          obtain ⟨r, hr, hinv, ht, hc⟩ := LRUReplacer.unpin_spec h.lru hnot hroom
          refine ⟨_, _, ?_, .unpinLast hp h1 ⟨hinv, ht, hc⟩⟩
          simp [setPage, h1, hr, bind, Except.bind]
        · have h1' : (s.pages f).pinCount - 1 ≠ 0 := by omega
          exact ⟨_, _, by simp [setPage, h0, h1'], .unpin hp h0 h1⟩

/-- `FlushPgImp` writes a page that is there, and nothing else. -/
theorem flushPgImp_effect (s : BufferPoolManagerInstance Disk Data) (p : PageId) :
    ∃ res s', s.flushPgImp p = .ok (res, s') ∧ s.Effect (.flushPg p) (.flag res) s' := by
  unfold flushPgImp
  by_cases hinv : p = invalidPageId
  · exact ⟨_, _, if_pos hinv, .flushAbsent (.inl hinv)⟩
  · rw [if_neg hinv]
    cases hp : s.pageTable p with
    | none => exact ⟨_, _, rfl, .flushAbsent (.inr hp)⟩
    | some f => exact ⟨_, _, rfl, .flush hp⟩

/-- **Every call of a consistent pool returns with one of the outcomes of `Effect`**, but for the
    assertion of `ValidatePageId` on a wrapped id counter. -/
theorem exec_total {b : Build} {s : BufferPoolManagerInstance Disk Data} (h : s.Consistent)
    (c : Call) : (∃ ret s', s.exec b c = .ok (ret, s') ∧ s.Effect c ret s') ∨
      (c = .newPg ∧ s.exec b c = .error .assertion ∧ s.allocatePage b = .error .assertion) := by
  cases c with
  | newPg =>
    rcases newPgImp_effect h b with ⟨f, p, s', hn, he⟩ | ⟨hn, ha⟩
    · exact .inl ⟨_, _, by simp [exec, hn, bind, Except.bind], he⟩
    · exact .inr ⟨rfl, by simp [exec, hn, bind, Except.bind], ha⟩
  | fetchPg p =>
    obtain ⟨f, s', hf, he⟩ := fetchPgImp_effect h p
    exact .inl ⟨_, _, by simp [exec, hf, bind, Except.bind], he⟩
  | unpinPg p d =>
    obtain ⟨res, s', hf, he⟩ := unpinPgImp_effect h p d
    exact .inl ⟨_, _, by simp [exec, hf, bind, Except.bind], he⟩
  | flushPg p =>
    obtain ⟨res, s', hf, he⟩ := flushPgImp_effect s p
    exact .inl ⟨_, _, by simp [exec, hf, bind, Except.bind], he⟩
  | flushAllPgs => exact .inl ⟨_, _, rfl, .flushAll⟩
  | deletePg p =>
    obtain ⟨res, s', hf, he⟩ := deletePgImp_effect h p
    exact .inl ⟨_, _, by simp [exec, hf, bind, Except.bind], he⟩

/-- **Inversion**: whatever a call of a consistent pool returned, it is an outcome of `Effect`. -/
theorem exec_effect {b : Build} {s s' : BufferPoolManagerInstance Disk Data} {c : Call} {ret : Return}
    (h : s.Consistent) (hexec : s.exec b c = .ok (ret, s')) : s.Effect c ret s' := by
  rcases exec_total (b := b) h c with ⟨ret', s'', hok, he⟩ | ⟨-, herr, -⟩
  · rw [hok] at hexec
    cases hexec
    exact he
  · rw [herr] at hexec
    cases hexec

end BufferPoolManagerInstance

end BusTub
