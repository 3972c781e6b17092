/-
  What the buffer pool is for: an LRU cache of pages.

  Frames, page table, free list, replacer and latch are how the pool does it.  None of them is to be seen by its
  client, who sees page ids, bytes and flags.

  1. **`Shows s c`**: the pool `s` shows the cache `c`.  The line of `c` is the replacer's list, read as page ids,
     and its room is the length of the free list.

  2. **`Sound.cache_step`**: whatever a method does to the pool, it does to the cache it shows.

  3. **`pool_is_lru_cache`**: to its client every run of the pool is a run of the cache, and no operation that a
     client may ask for is refused.
-/
import BusTub.Lib.LruCache
import BusTub.Buffer.Victims
import BusTub.Buffer.Writes

set_option linter.unusedSectionVars false

namespace BusTub

open LruCache

namespace BufferPoolManagerInstance

variable {Disk Data : Type} [DiskManager Disk Data] [Zero Data]

/-- The cache that a pool shows.  What lies on disk under `INVALID_PAGE_ID` is nobody's page. -/
structure Shows (s : BufferPoolManagerInstance Disk Data) (c : LruCache PageId Data) : Prop where
  room : c.room = s.freeList.length
  pins : ∀ p, (c.pins p : Int) = s.pinCountOf p
  idle : c.idle = s.replacer.tracked.map fun f => (s.pages f).pageId
  data : ∀ p f, s.pageTable p = some f → c.data p = (s.pages f).data
  dirty : ∀ p f, s.pageTable p = some f → c.dirty p = (s.pages f).isDirty
  stored : ∀ p ≠ invalidPageId, c.stored p = DiskManager.readPage s.disk p

/-- What a client sees of a result: the bytes behind the pointer. -/
def answerOf (s : BufferPoolManagerInstance Disk Data) : Return → Answer Data
  | .page f _ => .page (f.map fun f => (s.pages f).data)
  | .flag res => .flag res
  | .void => .done

/-- A call as an operation on the cache. -/
def opOf (s : BufferPoolManagerInstance Disk Data) : Call → Op PageId Data
  | .newPg => .create s.nextPageId
  | .fetchPg p => .fetch p
  | .unpinPg p d => .release p d
  | .flushPg p => .flush p
  | .flushAllPgs => .flushAll
  | .deletePg p => .delete p

variable {s s' s₁ : BufferPoolManagerInstance Disk Data} {c : LruCache PageId Data} {p : PageId} {f : FrameId}

/-! ## Who is resident -/

section

variable (h : s.Inv) (hs : s.Shows c)
include h hs

theorem Shows.mem_idle : p ∈ c.idle ↔ s.Idle p := by
  rw [hs.idle, List.mem_map, h.idle_iff]
  refine exists_congr fun g => and_congr_right fun hg => ?_
  constructor
  · rintro rfl
    exact h.backed g (h.tracked_inPool g hg) fun hfree => h.free_untracked g hfree hg
  · exact h.mapped_pageId p g

theorem Shows.resident : c.Resident p ↔ s.pageTable p ≠ none := by
  unfold Line.Resident
  rw [hs.mem_idle h]
  have hpins := hs.pins p
  constructor
  · rintro (hidle | hpos) hnone
    · exact hidle.1 hnone
    · rw [pinCountOf_none hnone] at hpins
      omega
  · intro hres
    have hnn := h.pinCountOf_nonneg p
    by_cases h0 : s.pinCountOf p = 0
    · exact .inl ⟨hres, h0⟩
    · exact .inr (by omega)

theorem Shows.full : c.Full ↔ s.replacer.tracked = [] ∧ s.freeList = [] := by
  unfold Line.Full
  rw [hs.room, hs.idle, List.map_eq_nil_iff, List.length_eq_zero_iff, and_comm]

theorem Shows.sound : c.Sound := by
  constructor
  · rw [hs.idle]
    refine (List.nodup_map_iff_inj_on h.lru.frame_nodup).mpr fun f hf g hg he => ?_
    have hback : ∀ k ∈ s.replacer.tracked, s.pageTable (s.pages k).pageId = some k := fun k hk =>
      h.backed k (h.tracked_inPool k hk) fun hfree => h.free_untracked k hfree hk
    have hf' := hback f hf
    rw [he, hback g hg] at hf'
    exact (Option.some.inj hf').symm
  · intro p hp
    have h0 := ((hs.mem_idle h).mp hp).2
    have hpins := hs.pins p
    omega

/-- Taking one page out of the line. -/
theorem Shows.idle_filter (hp : s.pageTable p = some f) :
    c.idle.filter (· ≠ p) = (s.replacer.tracked.filter (· ≠ f)).map fun g => (s.pages g).pageId := by
  rw [hs.idle, List.filter_map]
  congr 1
  refine List.filter_congr fun g hg => decide_eq_decide.mpr (not_congr ?_)
  have hback := h.backed g (h.tracked_inPool g hg) fun hfree => h.free_untracked g hfree hg
  constructor
  · rintro rfl
    rw [hback] at hp
    exact Option.some.inj hp
  · rintro rfl
    exact h.mapped_pageId p g hp

end

/-! ## Giving a frame to a page -/

section

variable [LawfulDiskManager Disk] (h : s.Consistent) (hb : s.Backed) (hs : s.Shows c)
include h hb hs

/-- Making room is what `pickFrame` does. -/
theorem Shows.picked (hpick : s.Picked f s₁) : c.makeRoom.room = s₁.freeList.length ∧
    c.makeRoom.idle = s₁.replacer.tracked.map (fun g => (s.pages g).pageId) ∧
    ∀ p ≠ invalidPageId, c.spilled p = DiskManager.readPage s₁.disk p := by
  have hroom := hs.room
  have hidle := hs.idle
  unfold Line.makeRoom spilled Line.victim
  cases hpick with
  | @free l f hl =>
    rw [hl, List.length_append, List.length_singleton] at hroom
    have hne : c.room ≠ 0 := by omega
    rw [if_neg hne, if_neg hne]
    refine ⟨?_, hidle, hs.stored⟩
    show c.room - 1 = l.length
    omega
  | @victim l f r hfree hl hr =>
    have h0 : c.room = 0 := by rw [hroom, hfree, List.length_nil]
    have hf : f ∈ s.replacer.tracked := by rw [hl]; simp
    have hback := hb f (h.tracked_inPool f hf) (by rw [hfree]; exact List.not_mem_nil)
    rw [hl, List.map_append, List.map_singleton] at hidle
    rw [if_pos h0, if_pos h0, hidle, List.getLast?_concat, List.dropLast_concat]
    refine ⟨by rw [h0, hfree, List.length_nil], by rw [hr.tracked], fun p hp => ?_⟩
    show c.writtenBack (s.pages f).pageId p = DiskManager.readPage (s.writeBack f) p
    rw [read_writeBack]
    unfold writtenBack
    rw [hs.dirty _ f hback, hs.data _ f hback]
    by_cases hd : (s.pages f).isDirty
    · by_cases hpf : p = (s.pages f).pageId
      · rw [if_pos hd, if_pos ⟨hd, hpf⟩, hpf, Function.update_self]
      · rw [if_pos hd, if_neg fun hc => hpf hc.2, Function.update_of_ne hpf, hs.stored p hp]
    · rw [if_neg hd, if_neg fun hc => hd hc.1, hs.stored p hp]

/-- The page that gets the frame. -/
theorem Shows.install (hpick : s.Picked f s₁) (hp : s.pageTable p = none) (hidle : p ∉ c.idle) {r : LRUReplacer}
    (hr : s₁.Replaced s₁.replacer.tracked r) (x : Data) (d : Disk) {m : PageId → Data}
    (hm : ∀ q ≠ invalidPageId, m q = DiskManager.readPage d q) :
    (s₁.install f p x r d).Shows { c.load p x with stored := m } := by
  obtain ⟨hroom, hline, -⟩ := hs.picked h hb hpick
  obtain ⟨hs₁, hf⟩ := hpick.spec h
  -- the page has the frame to itself, and the others are where they were
  have hold : ∀ q g, Function.update s₁.pageTable p (some f) q = some g →
      q = p ∧ g = f ∨ q ≠ p ∧ g ≠ f ∧ s.pageTable q = some g := by
    intro q g hq
    by_cases hqp : q = p
    · subst hqp
      rw [Function.update_self] at hq
      exact .inl ⟨rfl, (Option.some.inj hq).symm⟩
    · rw [Function.update_of_ne hqp] at hq
      refine .inr ⟨hqp, ?_, hpick.mapped hq⟩
      rintro rfl
      exact hf.unmapped q hq
  constructor
  · exact hroom
  · intro q
    rw [h.pinCountOf_install hb hpick hp, ← hs.pins q]
    show ((Function.update c.makeRoom.pins p (c.makeRoom.pins p + 1) q : ℕ) : Int) = _
    rw [Line.makeRoom_pins]
    by_cases hqp : q = p
    · subst hqp
      rw [Function.update_self, if_pos rfl]
      rfl
    · rw [Function.update_of_ne hqp, if_neg fun he => hqp he.symm, Int.add_zero]
  · -- pinned from the start, it is in no line
    show c.makeRoom.idle.filter (· ≠ p) = _
    rw [Line.filter_absent fun hmem => hidle (c.makeRoom_idle.subset hmem), hline, install_replacer, hr.tracked]
    refine List.map_congr_left fun g hg => ?_
    have hne : g ≠ f := by
      rintro rfl
      exact hf.untracked hg
    rw [install_pages, Function.update_of_ne hne, hpick.frame.2.1]
  · -- the contents of the frames in use
    intro q g hq
    show Function.update c.data p x q = (Function.update s₁.pages f _ g).data
    rcases hold q g hq with ⟨rfl, rfl⟩ | ⟨hqp, hgf, hq⟩
    · rw [Function.update_self, Function.update_self]
    · rw [Function.update_of_ne hqp, Function.update_of_ne hgf, hpick.frame.2.1, hs.data q g hq]
  · intro q g hq
    show Function.update c.dirty p false q = (Function.update s₁.pages f _ g).isDirty
    rcases hold q g hq with ⟨rfl, rfl⟩ | ⟨hqp, hgf, hq⟩
    · rw [Function.update_self, Function.update_self]
    · rw [Function.update_of_ne hqp, Function.update_of_ne hgf, hpick.frame.2.1, hs.dirty q g hq]
  · exact hm

end

/-- A frame that is taken was there to be taken. -/
theorem Picked.not_full (hpick : s.Picked f s₁) : ¬ (s.replacer.tracked = [] ∧ s.freeList = []) := by
  rintro ⟨ht, hfree⟩
  cases hpick with
  | free hl =>
    rw [hfree] at hl
    exact absurd hl.symm (by simp)
  | victim _ hl _ =>
    rw [ht] at hl
    exact absurd hl.symm (by simp)

/-- Assigning the frame of a resident page. -/
theorem Shows.touch (h : s.Consistent) (hs : s.Shows c) (hp : s.pageTable p = some f) {pg : Page Data}
    {r : LRUReplacer} {c' : LruCache PageId Data} (hid : pg.pageId = (s.pages f).pageId) (hroom : c'.room = c.room)
    (hpin : (c'.pins p : Int) = pg.pinCount) (hpins : ∀ q ≠ p, c'.pins q = c.pins q)
    (hidle : c'.idle = r.tracked.map fun g => (s.pages g).pageId) (hdata : c'.data p = pg.data)
    (hdatas : ∀ q ≠ p, c'.data q = c.data q) (hdirty : c'.dirty p = pg.isDirty)
    (hdirtys : ∀ q ≠ p, c'.dirty q = c.dirty q) (hstored : c'.stored = c.stored) :
    Shows { s.setPage f pg with replacer := r } c' := by
  have hother : ∀ q g, s.pageTable q = some g → q ≠ p → Function.update s.pages f pg g = s.pages g := by
    intro q g hq hqp
    refine Function.update_of_ne ?_ _ _
    rintro rfl
    exact hqp (h.mapped_inj hq hp)
  have hown : ∀ g, s.pageTable p = some g → Function.update s.pages f pg g = pg := by
    intro g hg
    rw [hp] at hg
    rw [← Option.some.inj hg, Function.update_self]
  constructor
  · exact hroom.trans hs.room
  · intro q
    show _ = (s.setPage f pg).pinCountOf q
    rw [h.pinCountOf_setPage hp]
    by_cases hqp : q = p
    · rw [if_pos hqp.symm, hqp, hpin]
    · rw [if_neg fun he => hqp he.symm, hpins q hqp, hs.pins]
  · refine hidle.trans (List.map_congr_left fun g _ => ?_)
    show (s.pages g).pageId = (Function.update s.pages f pg g).pageId
    by_cases hg : g = f
    · rw [hg, Function.update_self, hid]
    · rw [Function.update_of_ne hg]
  · intro q g hq
    show c'.data q = (Function.update s.pages f pg g).data
    by_cases hqp : q = p
    · rw [hqp, hown g (hqp ▸ hq), hdata]
    · rw [hother q g hq hqp, hdatas q hqp, hs.data q g hq]
  · intro q g hq
    show c'.dirty q = (Function.update s.pages f pg g).isDirty
    by_cases hqp : q = p
    · rw [hqp, hown g (hqp ▸ hq), hdirty]
    · rw [hother q g hq hqp, hdirtys q hqp, hs.dirty q g hq]
  · rw [hstored]
    exact hs.stored

/-- A page is deleted. -/
theorem Shows.delete [LawfulDiskManager Disk] (h : s.Inv) (hs : s.Shows c) (hp : s.pageTable p = some f)
    (h0 : (s.pages f).pinCount = 0) {r : LRUReplacer} (hr : s.Replaced (s.replacer.tracked.filter (· ≠ f)) r) :
    Shows { s with
      pages := Function.update s.pages f blankPage
      disk := s.writeBack f
      replacer := r
      freeList := s.freeList ++ [f]
      pageTable := Function.update s.pageTable p none }
    { c with toLine := c.toLine.delete p, stored := c.writtenBack p } := by
  -- the other pages are in other frames
  have hother : ∀ q g, Function.update s.pageTable p none q = some g →
      s.pageTable q = some g ∧ Function.update s.pages f blankPage g = s.pages g := by
    intro q g hq
    by_cases hqp : q = p
    · rw [hqp, Function.update_self] at hq
      cases hq
    · rw [Function.update_of_ne hqp] at hq
      refine ⟨hq, Function.update_of_ne ?_ _ _⟩
      rintro rfl
      exact hqp (h.mapped_inj hq hp)
  constructor
  · -- the frame goes back to the free list
    show c.room + 1 = (s.freeList ++ [f]).length
    rw [List.length_append, List.length_singleton, hs.room]
  · intro q
    have hstep := h.pin_step (.delete hp h0 hr) q
    rw [show pinDelta q (.deletePg p) (.flag true) = 0 from rfl, Int.add_zero] at hstep
    exact (hs.pins q).trans hstep.symm
  · -- the page was in line, since nobody had it pinned
    show c.idle.filter (· ≠ p) = _
    rw [hs.idle_filter h hp]
    show _ = r.tracked.map _
    rw [hr.tracked]
    refine List.map_congr_left fun g hg => ?_
    have hne : g ≠ f := of_decide_eq_true (List.mem_filter.mp hg).2
    show _ = (Function.update s.pages f blankPage g).pageId
    rw [Function.update_of_ne hne]
  · intro q g hq
    obtain ⟨hq, hpg⟩ := hother q g hq
    exact (hs.data q g hq).trans (congrArg Page.data hpg.symm)
  · intro q g hq
    obtain ⟨hq, hpg⟩ := hother q g hq
    exact (hs.dirty q g hq).trans (congrArg Page.isDirty hpg.symm)
  · intro q hq
    -- what it held is kept on the disk if it was dirty
    show c.writtenBack p q = DiskManager.readPage (s.writeBack f) q
    rw [read_writeBack, h.mapped_pageId p f hp]
    unfold writtenBack
    rw [hs.dirty p f hp, hs.data p f hp]
    by_cases hd : (s.pages f).isDirty
    · by_cases hqp : q = p
      · rw [if_pos hd, if_pos ⟨hd, hqp⟩, hqp, Function.update_self]
      · rw [if_pos hd, if_neg fun hc => hqp hc.2, Function.update_of_ne hqp, hs.stored q hq]
    · rw [if_neg hd, if_neg fun hc => hd hc.1, hs.stored q hq]

/-- `FlushAllPgsImp` writes every resident page; a free frame goes to `INVALID_PAGE_ID`. -/
theorem Inv.flushAll_read [LawfulDiskManager Disk] (h : s.Inv) (hp : p ≠ invalidPageId) :
    DiskManager.readPage s.flushAllPgsImp.disk p = match s.pageTable p with
      | some f => (s.pages f).data
      | none => DiskManager.readPage s.disk p := by
  have hmap : ∀ i : ℕ, i < 0 + s.cfg.poolSize → (s.pages i).pageId = p → s.pageTable p = some (i : Int) := by
    intro i hi hid
    have hin : s.inPool i := ⟨Int.natCast_nonneg i, Int.ofNat_lt.mpr (by omega)⟩
    have hnot : (i : Int) ∉ s.freeList := fun hfree => hp (hid ▸ (h.free_meta _ hfree).2.2)
    rw [← hid]
    exact h.backed _ hin hnot
  cases hpt : s.pageTable p with
  | none =>
    refine read_flushFrames s.pages p _ _ _ _ (fun i _ hi hid => ?_) (.inl rfl)
    rw [hmap i hi hid] at hpt
    cases hpt
  | some f =>
    refine read_flushFrames s.pages p _ _ _ _ (fun i _ hi hid => ?_) (.inr ?_)
    · have hi' := hmap i hi hid
      rw [hpt] at hi'
      rw [Option.some.inj hi']
    · obtain ⟨h0, h1⟩ := h.mapped_inPool p f hpt
      obtain ⟨i, rfl⟩ := Int.eq_ofNat_of_zero_le h0
      refine ⟨i, Nat.zero_le _, ?_, h.mapped_pageId p i hpt⟩
      have := Int.ofNat_lt.mp h1
      omega

end BufferPoolManagerInstance

open BufferPoolManagerInstance

namespace Session

variable {Disk Data : Type} [DiskManager Disk Data] [Zero Data]

section step

variable [LawfulDiskManager Disk] {a : Session Disk Data} {s' : BufferPoolManagerInstance Disk Data}
  {c : LruCache PageId Data} {call : Call} {ret : Return}

/-- A resident page has a valid id. -/
theorem Sound.resident_ne_invalid (h : a.Sound) {p : PageId} {f : FrameId} (hp : a.pool.pageTable p = some f) :
    p ≠ invalidPageId := h.created_ne_invalid (h.resident p f hp)

theorem Sound.absent_of (h : a.Sound) {p : PageId} (hp : p = invalidPageId ∨ a.pool.pageTable p = none) :
    a.pool.pageTable p = none := by
  rcases hp with rfl | hp
  · rw [Option.eq_none_iff_forall_ne_some]
    exact fun f hf => h.resident_ne_invalid hf rfl
  · exact hp

/-- **A call does to the cache what it does to the pool.** -/
theorem Sound.cache_step (h : a.Sound) (hs : a.pool.Shows c) (he : a.pool.Effect call ret s')
    (hfetch : ∀ p, call = .fetchPg p → p ∈ a.created) :
    (c.step (a.pool.opOf call)).1 = s'.answerOf ret ∧ s'.Shows (c.step (a.pool.opOf call)).2 := by
  have hinv := h.inv
  -- the same facts on both sides: who is resident, how often it is pinned, who waits in line
  have hnot : ∀ {p}, a.pool.pageTable p = none → ¬ c.Resident p := fun hp hres => (hs.resident hinv).mp hres hp
  have hres : ∀ {p f}, a.pool.pageTable p = some f → c.Resident p := fun hp =>
    (hs.resident hinv).mpr (by rw [hp]; exact Option.some_ne_none _)
  have hpin : ∀ {p f}, a.pool.pageTable p = some f → (c.pins p : Int) = (a.pool.pages f).pinCount := fun hp =>
    (hs.pins _).trans (pinCountOf_some hp)
  have hidle : ∀ {p f}, a.pool.pageTable p = some f → (a.pool.pages f).pinCount = 0 → p ∈ c.idle := by
    intro p f hp h0
    rw [hs.mem_idle hinv]
    exact ⟨by rw [hp]; exact Option.some_ne_none _, (pinCountOf_some hp).trans h0⟩
  have hsame : ∀ {p : PageId} {g : PageId → Bool} {d : Bool} {q : PageId}, q ≠ p → Function.update g p d q = g q :=
    fun hqp => Function.update_of_ne hqp _ _
  have hpins : ∀ {p : PageId} {k : ℕ} {q : PageId}, q ≠ p → Function.update c.pins p k q = c.pins q :=
    fun hqp => Function.update_of_ne hqp _ _
  cases he with
  | newFull hfull =>
    -- the two forms of the test agree: no frame without a pin, and nothing to take
    have hnone : c.Full := by
      rw [hs.full hinv]
      rcases hfull with hall | hempty
      · obtain ⟨hsize, hfree⟩ := hinv.none_left_iff.mpr fun g hg => by
          have hnn := hinv.pin_nonneg g hg
          have hne := hall g hg
          omega
        exact ⟨List.length_eq_zero_iff.mp (LRUReplacer.size_eq _ ▸ hsize), hfree⟩
      · exact hempty
    rw [opOf, LruCache.step, if_pos hnone]
    exact ⟨rfl, hs⟩
  | @new f s₁ r hpick hr =>
    -- the counter moves before the frame is chosen; the cache does not see it
    have hb : a.pool.bumped.Consistent := { hinv.toConsistent with }
    have hs' : a.pool.bumped.Shows c := ⟨hs.room, hs.pins, hs.idle, hs.data, hs.dirty, hs.stored⟩
    have hroom : ¬ c.Full := fun hfull => hpick.not_full ((hs.full hinv).mp hfull)
    have habsent : a.pool.nextPageId ∉ c.idle := fun hmem => hnot hinv.next_absent (.inl hmem)
    rw [opOf, LruCache.step, if_neg hroom]
    refine ⟨?_, hs'.install hb hinv.backed hpick hinv.next_absent habsent hr 0 _ fun q hq => ?_⟩
    · show _ = Answer.page (some ((Function.update s₁.pages f _ f).data))
      rw [Function.update_self]
    · -- the new page is written to the disk at once, empty
      have hstored := (hs'.picked hb hinv.backed hpick).2.2 q hq
      by_cases hqp : q = a.pool.nextPageId
      · rw [hqp, Function.update_self, LawfulDiskManager.read_write_self]
      · rw [Function.update_of_ne hqp, LawfulDiskManager.read_write_of_ne _ _ hqp, hstored]
  | @fetchHit p f r hp hr =>
    rw [opOf, LruCache.step, if_pos (hres hp)]
    refine ⟨?_, hs.touch hinv.toConsistent hp rfl rfl ?_ (fun q hq => hpins hq) ?_ (hs.data p f hp)
      (fun _ _ => rfl) (hs.dirty p f hp) (fun _ _ => rfl) rfl⟩
    · show _ = Answer.page (some ((Function.update a.pool.pages f _ f).data))
      rw [Function.update_self, hs.data p f hp]
    · show ((Function.update c.pins p (c.pins p + 1) p : ℕ) : Int) = _
      rw [Function.update_self, Int.natCast_add, hpin hp]
      rfl
    · rw [hr.tracked]
      exact hs.idle_filter hinv hp
  | @fetchFull p hp ht hfree =>
    rw [opOf, LruCache.step, if_neg (hnot hp), if_pos ((hs.full hinv).mpr ⟨ht, hfree⟩)]
    exact ⟨rfl, hs⟩
  | @fetchMiss p f s₁ r hp hpick hr =>
    have hroom : ¬ c.Full := fun hfull => hpick.not_full ((hs.full hinv).mp hfull)
    have hstored := (hs.picked hinv.toConsistent hinv.backed hpick).2.2
    -- the victim is written back first, and then the page is read
    have hread := hstored p (h.created_ne_invalid (hfetch p rfl))
    rw [opOf, LruCache.step, if_neg (hnot hp), if_neg hroom, hread]
    refine ⟨?_, hs.install hinv.toConsistent hinv.backed hpick hp (fun hmem => hnot hp (.inl hmem)) hr _ _ hstored⟩
    show _ = Answer.page (some ((Function.update s₁.pages f _ f).data))
    rw [Function.update_self]
  | @unpinAbsent p d hp =>
    -- neither pinned nor in line: the cache refuses as well
    have hno := hnot (h.absent_of hp)
    rw [opOf, LruCache.step, if_neg fun hpos => hno (.inr hpos), if_neg fun hmem => hno (.inl hmem)]
    exact ⟨rfl, hs⟩
  | @unpinZero p d f hp h0 =>
    -- refused, yet the flag is taken over: the cache marks a page in line
    have hzero := hpin hp
    rw [opOf, LruCache.step, if_neg (by omega), if_pos (hidle hp h0)]
    refine ⟨rfl, hs.touch hinv.toConsistent hp rfl rfl (hpin hp) (fun _ _ => rfl) hs.idle (hs.data p f hp)
      (fun _ _ => rfl) ?_ (fun q hq => hsame hq) rfl⟩
    show Function.update c.dirty p _ p = _
    rw [Function.update_self, hs.dirty p f hp]
  | @unpin p d f hp h0 h1 =>
    have hcount := hpin hp
    have hne : c.pins p ≠ 1 := by omega
    rw [opOf, LruCache.step, if_pos (by omega)]
    refine ⟨rfl, hs.touch hinv.toConsistent hp rfl rfl ?_ (fun q hq => hpins hq) ?_ (hs.data p f hp)
      (fun _ _ => rfl) ?_ (fun q hq => hsame hq) rfl⟩
    · show ((Function.update c.pins p (c.pins p - 1) p : ℕ) : Int) = _
      rw [Function.update_self]
      show _ = (a.pool.pages f).pinCount - 1
      omega
    · show (if c.pins p = 1 then p :: c.idle else c.idle) = _
      rw [if_neg hne]
      exact hs.idle
    · show Function.update c.dirty p _ p = _
      rw [Function.update_self, hs.dirty p f hp]
  | @unpinLast p d f r hp h1 hr =>
    have hone := hpin hp
    rw [opOf, LruCache.step, if_pos (by omega)]
    refine ⟨rfl, hs.touch hinv.toConsistent hp rfl rfl ?_ (fun q hq => hpins hq) ?_ (hs.data p f hp)
      (fun _ _ => rfl) ?_ (fun q hq => hsame hq) rfl⟩
    · show ((Function.update c.pins p (c.pins p - 1) p : ℕ) : Int) = _
      rw [Function.update_self]
      show _ = (0 : Int)
      omega
    · show (if c.pins p = 1 then p :: c.idle else c.idle) = _
      rw [if_pos (by omega), hr.tracked, List.map_cons, hinv.mapped_pageId p f hp, hs.idle]
    · show Function.update c.dirty p _ p = _
      rw [Function.update_self, hs.dirty p f hp]
  | @flushAbsent p hp =>
    rw [opOf, LruCache.step, if_neg (hnot (h.absent_of hp))]
    exact ⟨rfl, hs⟩
  | @flush p f hp =>
    rw [opOf, LruCache.step, if_pos (hres hp)]
    refine ⟨rfl, ⟨hs.room, hs.pins, hs.idle, hs.data, hs.dirty, fun q hq => ?_⟩⟩
    -- one page is written to the disk, from its frame
    show Function.update c.stored p (c.data p) q = DiskManager.readPage (DiskManager.writePage _ _ _) q
    by_cases hqp : q = p
    · rw [hqp, Function.update_self, LawfulDiskManager.read_write_self, hs.data p f hp]
    · rw [Function.update_of_ne hqp, LawfulDiskManager.read_write_of_ne _ _ hqp, hs.stored q hq]
  | flushAll =>
    refine ⟨rfl, ⟨hs.room, hs.pins, hs.idle, hs.data, hs.dirty, fun q hq => ?_⟩⟩
    show (if c.Resident q then c.data q else c.stored q) = _
    rw [hinv.flushAll_read hq]
    cases hp : a.pool.pageTable q with
    | none => rw [if_neg (hnot hp), hs.stored q hq]
    | some f => rw [if_pos (hres hp), hs.data q f hp]
  | @deleteAbsent p hp =>
    rw [opOf, LruCache.step, if_neg fun hpos => hnot hp (.inr hpos), if_neg fun hmem => hnot hp (.inl hmem)]
    exact ⟨rfl, hs⟩
  | @deletePinned p f hp hpos =>
    have hcount := hpin hp
    rw [opOf, LruCache.step, if_pos (by omega)]
    exact ⟨rfl, hs⟩
  | @delete p f r hp h0 hr =>
    have hzero := hpin hp
    rw [opOf, LruCache.step, if_neg (by omega), if_pos (hidle hp h0)]
    exact ⟨rfl, hs.delete hinv hp h0 hr⟩

/-- A client writes through its pointer. -/
theorem Sound.cache_write (h : a.Sound) (hs : a.pool.Shows c) {p : PageId} {f : FrameId}
    (hp : a.pool.pageTable p = some f) (x : Data) :
    (a.pool.setPage f { a.pool.pages f with data := x }).Shows (c.step (.write p x)).2 := by
  have hpin : (c.pins p : Int) = (a.pool.pages f).pinCount := (hs.pins p).trans (pinCountOf_some hp)
  have htouch : Shows { a.pool.setPage f { a.pool.pages f with data := x } with replacer := a.pool.replacer }
      (c.step (.write p x)).2 := hs.touch h.inv.toConsistent hp rfl rfl hpin (fun _ _ => rfl) hs.idle
    (Function.update_self ..) (fun q hq => Function.update_of_ne hq _ _) (hs.dirty p f hp) (fun _ _ => rfl) rfl
  exact htouch

end step

/-! ## Runs -/

section runs

variable {b : Build} {cfg : PoolConfig} {disk : Disk}

/-- The runs of a pool as a client sees them. -/
def clientSystem (b : Build) (cfg : PoolConfig) (disk : Disk) :
    StepSystem (Session Disk Data) (Op PageId Data × Answer Data) where
  init := (system b cfg disk).init
  step a e a' :=
    match e.1 with
    | .write p x => e.2 = .done ∧ ∃ f, a.pool.pageTable p = some f ∧ (system b cfg disk).step a (.store f x) a'
    | op => ∃ call ret, a.pool.opOf call = op ∧ (system b cfg disk).step a (.call call ret) a' ∧
        e.2 = a'.pool.answerOf ret

/-- What a client may ask for: new pages while the id counter has room, pages that it created, and to write to
    pages that are resident. -/
def Allowed (a : Session Disk Data) : Op PageId Data → Prop
  | .create p => p = a.pool.nextPageId ∧ a.pool.nextPageId + (a.pool.cfg.numInstances : Int) < 2 ^ 31
  | .fetch p => p ∈ a.created
  | .write p _ => a.pool.pageTable p ≠ none
  | _ => True

/-- Every step is a call or a store. -/
theorem client_step_cases {a a' : Session Disk Data} {e : Op PageId Data × Answer Data}
    (h : (clientSystem b cfg disk).step a e a') :
    (∃ call ret, e = (a.pool.opOf call, a'.pool.answerOf ret) ∧ (system b cfg disk).step a (.call call ret) a') ∨
    ∃ p x f, e = (.write p x, .done) ∧ a.pool.pageTable p = some f ∧ (system b cfg disk).step a (.store f x) a' := by
  obtain ⟨op, ans⟩ := e
  cases op with
  | write p x =>
    obtain ⟨rfl, f, hp, hstep⟩ := h
    exact .inr ⟨p, x, f, rfl, hp, hstep⟩
  | _ =>
    obtain ⟨call, ret, hop, hstep, rfl⟩ := h
    exact .inl ⟨call, ret, by rw [hop], hstep⟩

theorem client_call {a a' : Session Disk Data} {call : Call} {ret : Return}
    (h : (system b cfg disk).step a (.call call ret) a') :
    (clientSystem b cfg disk).step a (a.pool.opOf call, a'.pool.answerOf ret) a' := by
  cases call with
  | _ => exact ⟨_, ret, rfl, h, rfl⟩

theorem Sound.kept_client {a a' : Session Disk Data} {e : Op PageId Data × Answer Data} (h : a.Sound)
    (hstep : (clientSystem b cfg disk).step a e a') : a'.Sound := by
  rcases client_step_cases hstep with ⟨call, ret, -, hstep⟩ | ⟨p, x, f, -, -, hstep⟩
  · exact h.step hstep
  · exact h.step hstep

theorem client_sound {a a' : Session Disk Data} {es : List (Op PageId Data × Answer Data)}
    (h₀ : (clientSystem b cfg disk).init a) (hrun : (clientSystem b cfg disk).Run a es a') : a'.Sound :=
  hrun.invariant (I := Sound) (fun _ _ _ ha hstep => ha.kept_client hstep) (Sound.init (b := b) h₀)

/-- **Whatever a client does to the pool, it does to the cache.** -/
theorem Sound.client_step [LawfulDiskManager Disk] {a a' : Session Disk Data} {c : LruCache PageId Data}
    {e : Op PageId Data × Answer Data} (h : a.Sound) (hs : a.pool.Shows c)
    (hstep : (clientSystem b cfg disk).step a e a') :
    a'.Sound ∧ (c.step e.1).1 = e.2 ∧ a'.pool.Shows (c.step e.1).2 := by
  rcases client_step_cases hstep with ⟨call, ret, rfl, hcall⟩ | ⟨p, x, f, rfl, hp, hstore⟩
  · exact ⟨h.step hcall, h.cache_step hs (exec_effect h.inv.toConsistent hcall.1) hcall.2.1⟩
  · refine ⟨h.step hstore, rfl, ?_⟩
    obtain rfl := hstore
    exact h.cache_write hs hp x

/-- A call that a client may make returns. -/
theorem Sound.returns {a : Session Disk Data} (h : a.Sound) (b : Build) (cfg : PoolConfig) (disk : Disk) (call : Call)
    (hallowed : a.Allowed (a.pool.opOf call)) :
    ∃ ret a', (system b cfg disk).step a (.call call ret) a' := by
  have hfetch : ∀ p, call = .fetchPg p → p ∈ a.created := by
    rintro p rfl
    exact hallowed
  have hnext : call = .newPg → a.pool.nextPageId + (a.pool.cfg.numInstances : Int) < 2 ^ 31 := by
    rintro rfl
    exact hallowed.2
  rcases exec_total (b := b) h.inv.toConsistent call with ⟨ret, s', hexec, he⟩ | ⟨hcall, -, herr⟩
  · refine ⟨ret, ⟨a.created ++ newIds call ret, s'⟩, hexec, hfetch, rfl, ?_⟩
    have hu := h.unwrapped
    unfold Unwrapped at hu ⊢
    show s'.nextPageId = s'.cfg.instanceIndex + s'.cfg.numInstances * (a.created ++ newIds call ret).length
    rw [effect_cfg he, List.length_append]
    cases hnew : newIds call ret with
    | nil => rw [he.counter_kept hnew, List.length_nil, Nat.add_zero, hu]
    | cons q l =>
      cases he with
      | @new f s₁ r hpick hr =>
        have h0 : (0 : Int) ≤ a.pool.nextPageId := by
          rw [hu]
          positivity
        rw [(Effect.new hpick hr).counter_advanced h0 (hnext rfl), hu]
        cases hnew
        simp only [List.length_singleton]
        push_cast
        ring
      | _ => cases hnew
  · have hlt : a.pool.nextPageId < 2 ^ 31 :=
      lt_of_le_of_lt (le_add_of_nonneg_right (Int.natCast_nonneg _)) (hnext hcall)
    rw [allocatePage_ok h.unwrapped hlt] at herr
    cases herr

/-! A client's run can be computed. -/

instance (a : Session Disk Data) : (op : Op PageId Data) → Decidable (a.Allowed op)
  | .create _ => inferInstanceAs (Decidable (_ ∧ _))
  | .fetch p => inferInstanceAs (Decidable (p ∈ a.created))
  | .write p _ => inferInstanceAs (Decidable (a.pool.pageTable p ≠ none))
  | .release .. | .flush _ | .flushAll | .delete _ => .isTrue trivial

/-- The call that an operation stands for; a write to a resident page is none. -/
def callOf : Op PageId Data → Option Call
  | .create _ => some .newPg
  | .fetch p => some (.fetchPg p)
  | .release p d => some (.unpinPg p d)
  | .flush p => some (.flushPg p)
  | .flushAll => some .flushAllPgs
  | .delete p => some (.deletePg p)
  | .write _ _ => none

theorem opOf_callOf {a : Session Disk Data} {op : Op PageId Data} {call : Call} (h : a.Allowed op)
    (hcall : callOf op = some call) : a.pool.opOf call = op := by
  cases op with
  | create p =>
    cases hcall
    exact congrArg Op.create h.1.symm
  | write p x => cases hcall
  | _ =>
    cases hcall
    rfl

/-- One operation of a client, if it may ask for it. -/
def serve (b : Build) (a : Session Disk Data) (op : Op PageId Data) : Option (Answer Data × Session Disk Data) :=
  if a.Allowed op then
    match op with
    | .write p x => (a.pool.pageTable p).map fun f =>
        (.done, ⟨a.created, a.pool.setPage f { a.pool.pages f with data := x }⟩)
    | op => (callOf op).bind fun call =>
        match a.pool.exec b call with
        | .ok (ret, s) => some (s.answerOf ret, ⟨a.created ++ newIds call ret, s⟩)
        | .error _ => none
  else none

theorem Sound.serve_step {a t : Session Disk Data} {op : Op PageId Data} {ans : Answer Data} (h : a.Sound)
    (hserve : a.serve b op = some (ans, t)) : (clientSystem b cfg disk).step a (op, ans) t := by
  unfold serve at hserve
  by_cases hallowed : a.Allowed op
  swap
  · rw [if_neg hallowed] at hserve
    cases hserve
  rw [if_pos hallowed] at hserve
  have hcalls : ∀ {call : Call}, callOf op = some call → (match a.pool.exec b call with
      | .ok (ret, s) => some (s.answerOf ret, (⟨a.created ++ newIds call ret, s⟩ : Session Disk Data))
      | .error _ => none) = some (ans, t) → (clientSystem b cfg disk).step a (op, ans) t := by
    intro call hcall hrun
    have hop := opOf_callOf hallowed hcall
    obtain ⟨ret, a', hstep⟩ := h.returns b cfg disk call (hop ▸ hallowed)
    have ha' : a' = ⟨a.created ++ newIds call ret, a'.pool⟩ := by rw [← hstep.2.2.1]
    rw [hstep.1] at hrun
    obtain ⟨rfl, ht⟩ := Prod.mk.inj (Option.some.inj hrun)
    rw [← ha'] at ht
    rw [← ht, ← hop]
    exact client_call hstep
  cases op with
  | write p x =>
    obtain ⟨f, hp, hdone⟩ := Option.map_eq_some_iff.mp hserve
    obtain ⟨rfl, rfl⟩ := Prod.mk.inj hdone
    exact ⟨rfl, f, hp, rfl⟩
  | _ => exact hcalls rfl hserve

/-- The operations `ops` of a client one after another, with what it is answered. -/
def play (b : Build) : Session Disk Data → List (Op PageId Data) →
    Option (List (Op PageId Data × Answer Data) × Session Disk Data)
  | a, [] => some ([], a)
  | a, op :: ops => (a.serve b op).bind fun x =>
      (play b x.2 ops).map fun y => ((op, x.1) :: y.1, y.2)

/-- **What is computed is a run.** -/
theorem Sound.play_run [LawfulDiskManager Disk] : ∀ {ops : List (Op PageId Data)} {a t : Session Disk Data}
    {es : List (Op PageId Data × Answer Data)}, a.Sound → a.play b ops = some (es, t) →
    (clientSystem b cfg disk).Run a es t ∧ es.map Prod.fst = ops
  | [], a, t, es, h, hplay => by
    obtain ⟨rfl, rfl⟩ := Prod.mk.inj (Option.some.inj hplay)
    exact ⟨.nil a, rfl⟩
  | op :: ops, a, t, es, h, hplay => by
    obtain ⟨⟨ans, u⟩, hserve, hrest⟩ := Option.bind_eq_some_iff.mp hplay
    obtain ⟨⟨es', t'⟩, hplay', hdone⟩ := Option.map_eq_some_iff.mp hrest
    obtain ⟨rfl, rfl⟩ := Prod.mk.inj hdone
    have hstep : (clientSystem b cfg disk).step a (op, ans) u := h.serve_step hserve
    obtain ⟨hrun, hops⟩ := (h.kept_client hstep).play_run hplay'
    exact ⟨(StepSystem.Run.single hstep).append hrun, congrArg (op :: ·) hops⟩

/-- The session after a client's operations, where it may ask for all of them. -/
def played (b : Build) (a : Session Disk Data) (ops : List (Op PageId Data)) : Session Disk Data :=
  ((a.play b ops).map Prod.snd).getD a

theorem play_played {a : Session Disk Data} {es : List (Op PageId Data × Answer Data)}
    (hanswers : (a.play b (es.map Prod.fst)).map Prod.fst = some es) :
    a.play b (es.map Prod.fst) = some (es, a.played b (es.map Prod.fst)) := by
  obtain ⟨⟨es', t⟩, hplay, hes⟩ := Option.map_eq_some_iff.mp hanswers
  obtain rfl : es' = es := hes
  unfold played
  rw [hplay]
  rfl

/-- A fresh pool shows an empty cache. -/
theorem create_shows (cfg : PoolConfig) (disk : Disk) : (create cfg disk : BufferPoolManagerInstance Disk Data).Shows
    (LruCache.empty cfg.poolSize (DiskManager.readPage disk)) :=
  ⟨by simp [create, LruCache.empty, Line.empty], fun _ => rfl, rfl, fun p f hp => (by cases hp),
    fun p f hp => (by cases hp), fun _ _ => rfl⟩

/-- **The pool is an LRU cache of pages.**  To its client every run of a fresh pool is a run of a fresh cache of the
    same size over the same store: it gets the same answers, which show the same bytes, and the pool always shows
    the cache.  And what the client may ask for next is done. -/
theorem pool_is_lru_cache [LawfulDiskManager Disk] {a₀ a : Session Disk Data}
    {es : List (Op PageId Data × Answer Data)} (h₀ : (clientSystem b cfg disk).init a₀)
    (hrun : (clientSystem b cfg disk).Run a₀ es a) :
    (∃ c, (LruCache.system cfg.poolSize (DiskManager.readPage disk)).Run
      (LruCache.empty cfg.poolSize (DiskManager.readPage disk)) es c ∧ a.pool.Shows c) ∧
    ∀ op, a.Allowed op → ∃ ans a', (clientSystem b cfg disk).step a (op, ans) a' := by
  constructor
  · induction hrun with
    | nil =>
      obtain ⟨rfl, -⟩ := h₀
      exact ⟨_, .nil _, create_shows cfg disk⟩
    | @snoc a₁ a₂ es e hrun hstep ih =>
      obtain ⟨c, hcache, hs⟩ := ih
      obtain ⟨-, hans, hs'⟩ := (client_sound h₀ hrun).client_step hs hstep
      exact ⟨_, hcache.snoc (Prod.ext hans rfl), hs'⟩
  · intro op hallowed
    have hsound := client_sound h₀ hrun
    have hcall : ∀ call, a.pool.opOf call = op → ∃ ans a', (clientSystem b cfg disk).step a (op, ans) a' := by
      rintro call rfl
      obtain ⟨ret, a', hstep⟩ := hsound.returns b cfg disk call hallowed
      exact ⟨_, a', client_call hstep⟩
    cases op with
    | create p => exact hcall .newPg (congrArg Op.create hallowed.1.symm)
    | fetch p => exact hcall (.fetchPg p) rfl
    | release p d => exact hcall (.unpinPg p d) rfl
    | flush p => exact hcall (.flushPg p) rfl
    | flushAll => exact hcall .flushAllPgs rfl
    | delete p => exact hcall (.deletePg p) rfl
    | write p x =>
      obtain ⟨f, hp⟩ := Option.ne_none_iff_exists'.mp hallowed
      exact ⟨.done, _, rfl, f, hp, rfl⟩

/-- **Two pages in one frame**: page 0 is written, gives way to page 1, and comes back from disk. -/
theorem pool_is_lru_cache_one_frame : ∃ c : LruCache PageId ℕ,
    (LruCache.system 1 fun _ => 0).Run (LruCache.empty 1 fun _ => 0)
      [(.create 0, .page (some 0)), (.write 0 7, .done), (.release 0 true, .flag true), (.create 1, .page (some 0)),
        (.fetch 0, .page none), (.release 1 false, .flag true), (.fetch 0, .page (some 7))] c := by
  have hinit : (clientSystem .debug (fresh 1).pool.cfg fun _ : PageId => (0 : ℕ)).init (fresh 1) := ⟨rfl, by decide⟩
  have hrun : (clientSystem .debug (fresh 1).pool.cfg fun _ => 0).Run (fresh 1)
      [(.create 0, .page (some 0)), (.write 0 7, .done), (.release 0 true, .flag true), (.create 1, .page (some 0)),
        (.fetch 0, .page none), (.release 1 false, .flag true), (.fetch 0, .page (some 7))] _ :=
    ((Sound.init (b := .debug) hinit).play_run (play_played (by decide +kernel))).1
  obtain ⟨⟨c, hcache, -⟩, -⟩ := pool_is_lru_cache hinit hrun
  exact ⟨c, hcache⟩

end runs

end Session

end BusTub
