/-
  Pin counts and what they protect.

  A client gets a pointer into a frame from `NewPgImp` or `FetchPgImp` and gives it up with
  `UnpinPgImp`.  `tally` counts these calls per page from the moment the page became resident;
  `pinned_page_stays` — **the main result** — says that this ghost count is the frame's
  `pin_count_`, and that while it is positive no method moves the page, drops it, or touches the
  frame's bytes, so the client's pointer stays good.

  The one-step facts are `pin_step` (the pin count changes as the tally does) and `pinned_step`
  (frame, entry and bytes of a pinned page survive), both by cases on `Effect`.
-/
import BusTub.Buffer.Invariant
import Mathlib.Algebra.BigOperators.Group.Finset.Basic
import Mathlib.Tactic.Ring

set_option linter.unusedSectionVars false

namespace BusTub

namespace BufferPoolManagerInstance

variable {Disk Data : Type} [DiskManager Disk Data] [Zero Data]
variable {s s' s₁ : BufferPoolManagerInstance Disk Data} {c : Call} {ret : Return}

/-- Pins on page `p` a call hands to its caller, less those it takes back. -/
def pinDelta (p : PageId) : Call → Return → Int
  | .newPg, .page (some _) q => if q = p then 1 else 0
  | .fetchPg _, .page (some _) q => if q = p then 1 else 0
  | .unpinPg q _, .flag true => if q = p then -1 else 0
  | _, _ => 0

/-! ## What one call does to a resident page -/

/-- Taking a frame leaves the entry of every page in another frame alone. -/
theorem Picked.keeps {f g : FrameId} (hpick : s.Picked f s₁) {p : PageId}
    (hp : s.pageTable p = some g) (hne : g ≠ f)
    (hback : f ∉ s.freeList → s.pageTable (s.pages f).pageId = some f) :
    s₁.pageTable p = some g := by
  cases hpick with
  | free => exact hp
  | @victim l f r hfree hl hr =>
    have hid : p ≠ (s.pages f).pageId := fun he => by
      rw [he, hback (by simp [hfree]), Option.some.injEq] at hp
      exact hne hp.symm
    simpa [hid] using hp

/-- A page in a frame other than the one taken keeps its frame, entry and metadata when the taken
    frame is installed under another id. -/
theorem Consistent.install_keeps (h : s.Consistent) (hb : s.Backed) {f g : FrameId} (hpick : s.Picked f s₁) {p q : PageId}
    (hp : s.pageTable p = some g) (hne : g ≠ f) (hpq : p ≠ q) (x : Data) (r : LRUReplacer) (d : Disk) :
    (s₁.install f q x r d).pageTable p = some g ∧ (s₁.install f q x r d).pages g = s.pages g := by
  have hf : s.inPool f := by
    have hf' := (hpick.spec h).2.inPool
    simpa [inPool, hpick.frame.1] using hf'
  have hkeep := hpick.keeps hp hne (hb f hf)
  exact ⟨by simpa [hpq] using hkeep, by simp [hne, hpick.frame.2.1]⟩

/-- A picked frame has pin count 0. -/
theorem Picked.unpinned (h : s.Consistent) {f : FrameId} (hpick : s.Picked f s₁) :
    (s.pages f).pinCount = 0 := by
  have := (hpick.spec h).2.unpinned
  rwa [hpick.frame.2.1] at this

/-- **A pinned page survives every call**: it keeps its frame and its bytes. -/
theorem Inv.pinned_step (h : s.Inv) (he : s.Effect c ret s') {p : PageId} {f : FrameId}
    (hp : s.pageTable p = some f) (hpin : 0 < (s.pages f).pinCount) :
    s'.pageTable p = some f ∧ (s'.pages f).data = (s.pages f).data := by
  cases he with
  | @new g s₁ r hpick hr =>
    have hb : s.bumped.Consistent := { h.toConsistent with }
    -- the frame that is taken has no pin, so it is not the page's
    have hne : f ≠ g := fun he => by
      have h0 : (s.pages g).pinCount = 0 := hpick.unpinned hb
      rw [← he] at h0
      omega
    have hpn : p ≠ s.nextPageId := fun he => by
      rw [he, h.next_absent] at hp
      cases hp
    obtain ⟨ht, hpg⟩ := hb.install_keeps h.backed hpick hp hne hpn 0 r
      (DiskManager.writePage s₁.disk s.nextPageId 0)
    exact ⟨ht, by rw [hpg]; rfl⟩
  | @fetchMiss q g s₁ r hq hpick hr =>
    have hne : f ≠ g := fun he => by
      have h0 := hpick.unpinned h.toConsistent
      rw [← he] at h0
      omega
    have hpq : p ≠ q := fun he => by
      rw [he, hq] at hp
      cases hp
    obtain ⟨ht, hpg⟩ := h.install_keeps h.backed hpick hp hne hpq (DiskManager.readPage s₁.disk q) r s₁.disk
    exact ⟨ht, by rw [hpg]⟩
  | @fetchHit q g r hq hr =>
    refine ⟨hp, ?_⟩
    by_cases he : f = g <;> simp [he]
  | @unpinZero q d g hq h0 =>
    refine ⟨hp, ?_⟩
    by_cases he : f = g <;> simp [he]
  | @unpin q d g hq h0 h1 =>
    refine ⟨hp, ?_⟩
    by_cases he : f = g <;> simp [he]
  | @unpinLast q d g r hq h1 hr =>
    refine ⟨hp, ?_⟩
    by_cases he : f = g <;> simp [he]
  | @delete q g r hq h0 hr =>
    have hne : f ≠ g := fun he => by
      rw [← he] at h0
      omega
    have hpq : p ≠ q := fun he => by
      rw [he, hq, Option.some.injEq] at hp
      exact hne hp.symm
    exact ⟨by simpa [hpq] using hp, by simp [hne]⟩
  | _ => exact ⟨hp, rfl⟩

/-! ## The pin count of a page -/

/-- The pin count of the frame that holds page `p`; 0 when it is not resident. -/
def pinCountOf (s : BufferPoolManagerInstance Disk Data) (p : PageId) : Int :=
  match s.pageTable p with
  | some f => (s.pages f).pinCount
  | none => 0

theorem pinCountOf_some {p : PageId} {f : FrameId} (hp : s.pageTable p = some f) :
    s.pinCountOf p = (s.pages f).pinCount := by
  simp [pinCountOf, hp]

theorem pinCountOf_none {p : PageId} (hp : s.pageTable p = none) : s.pinCountOf p = 0 := by
  simp [pinCountOf, hp]

theorem Consistent.pinCountOf_nonneg (h : s.Consistent) (p : PageId) : 0 ≤ s.pinCountOf p := by
  cases hp : s.pageTable p with
  | none => rw [pinCountOf_none hp]
  | some f =>
    rw [pinCountOf_some hp]
    exact h.pin_nonneg f (h.mapped_inPool p f hp)

/-- Assigning the frame of page `q` changes the pin count of `q` alone. -/
theorem Consistent.pinCountOf_setPage (h : s.Consistent) {q : PageId} {f : FrameId}
    (hq : s.pageTable q = some f) (pg : Page Data) (p : PageId) :
    (s.setPage f pg).pinCountOf p = if q = p then pg.pinCount else s.pinCountOf p := by
  by_cases hqp : q = p
  · rw [if_pos hqp, pinCountOf_some (f := f) (hqp ▸ hq)]
    simp
  · rw [if_neg hqp]
    cases hp : s.pageTable p with
    | none => simp [pinCountOf, hp]
    | some g =>
      have hne : g ≠ f := fun he => hqp (h.mapped_inj hq (he ▸ hp))
      simp [pinCountOf, hp, hne]

/-- Installing a page that was not resident gives it one pin and changes no other pin count: the
    page that leaves the pool had none. -/
theorem Consistent.pinCountOf_install (h : s.Consistent) (hb : s.Backed) {f : FrameId} (hpick : s.Picked f s₁) {q : PageId}
    (hq : s.pageTable q = none) (x : Data) (r : LRUReplacer) (d : Disk) (p : PageId) :
    (s₁.install f q x r d).pinCountOf p = s.pinCountOf p + if q = p then 1 else 0 := by
  by_cases hqp : q = p
  · subst hqp
    have hnew : (s₁.install f q x r d).pageTable q = some f := by simp
    rw [pinCountOf_some hnew, pinCountOf_none hq]
    simp
  · have hpq : p ≠ q := fun he => hqp he.symm
    rw [if_neg hqp, Int.add_zero]
    have h0 := hpick.unpinned h
    cases hp : s.pageTable p with
    | none =>
      have hp₁ : s₁.pageTable p = none := by
        rw [Option.eq_none_iff_forall_ne_some]
        exact fun g hg => by simp [hpick.mapped hg] at hp
      have hnew : (s₁.install f q x r d).pageTable p = none := by simp [hpq, hp₁]
      rw [pinCountOf_none hnew, pinCountOf_none hp]
    | some g =>
      by_cases hgf : g = f
      · -- `p` was the victim: its entry is gone, and its pin count was 0
        subst hgf
        have hp₁ : s₁.pageTable p = none := by
          rw [Option.eq_none_iff_forall_ne_some]
          intro g' hg'
          have hgg : g' = g := by simpa [hp] using (hpick.mapped hg').symm
          exact (hpick.spec h).2.unmapped p (hgg ▸ hg')
        have hnew : (s₁.install g q x r d).pageTable p = none := by simp [hpq, hp₁]
        rw [pinCountOf_none hnew, pinCountOf_some hp, h0]
      · obtain ⟨ht, hpg⟩ := h.install_keeps hb hpick hp hgf hpq x r d
        rw [pinCountOf_some ht, pinCountOf_some hp, hpg]

/-- **The pin count of every page changes exactly by the pins a call hands out or takes back.** -/
theorem Inv.pin_step (h : s.Inv) (he : s.Effect c ret s') (p : PageId) :
    s'.pinCountOf p = s.pinCountOf p + pinDelta p c ret := by
  cases he with
  | newFull => simp [pinDelta]
  | @new f s₁ r hpick hr =>
    -- the page is new, so its count was 0, and it comes with one pin
    have hb : s.bumped.Consistent := { h.toConsistent with }
    exact hb.pinCountOf_install h.backed hpick h.next_absent _ _ _ p
  | @fetchHit q f r hq hr =>
    have hset := h.pinCountOf_setPage hq { s.pages f with pinCount := (s.pages f).pinCount + 1 } p
    show (s.setPage f { s.pages f with pinCount := (s.pages f).pinCount + 1 }).pinCountOf p = _
    rw [hset]
    by_cases hqp : q = p
    · simp [pinDelta, hqp, pinCountOf_some (f := f) (hqp ▸ hq)]
    · simp [pinDelta, hqp]
  | fetchFull => simp [pinDelta]
  | fetchMiss hq hpick hr => exact h.pinCountOf_install h.backed hpick hq _ _ _ p
  | unpinAbsent => simp [pinDelta]
  | @unpinZero q d f hq h0 =>
    rw [h.pinCountOf_setPage hq]
    by_cases hqp : q = p
    · simp [pinDelta, hqp, pinCountOf_some (f := f) (hqp ▸ hq)]
    · simp [pinDelta, hqp]
  | @unpin q d f hq h0 h1 =>
    rw [h.pinCountOf_setPage hq]
    by_cases hqp : q = p
    · simp [pinDelta, hqp, pinCountOf_some (f := f) (hqp ▸ hq), Int.sub_eq_add_neg]
    · simp [pinDelta, hqp]
  | @unpinLast q d f r hq h1 hr =>
    have hset := h.pinCountOf_setPage hq
      { s.pages f with isDirty := d || (s.pages f).isDirty, pinCount := 0 } p
    show (s.setPage f { s.pages f with
      isDirty := d || (s.pages f).isDirty, pinCount := 0 }).pinCountOf p = _
    rw [hset]
    by_cases hqp : q = p
    · simp [pinDelta, hqp, pinCountOf_some (f := f) (hqp ▸ hq), h1]
    · simp [pinDelta, hqp]
  | flushAbsent => simp [pinDelta]
  | flush => simp [pinDelta, pinCountOf]
  | flushAll => simp [pinDelta, pinCountOf, flushAllPgsImp]
  | deleteAbsent => simp [pinDelta]
  | deletePinned => simp [pinDelta]
  | @delete q f r hq h0 hr =>
    -- the page that goes had no pin; no other page is in its frame
    simp only [pinDelta, Int.add_zero]
    by_cases hqp : p = q
    · subst hqp
      rw [pinCountOf_some hq, h0]
      exact pinCountOf_none (by simp)
    · cases hp : s.pageTable p with
      | none =>
        rw [pinCountOf_none hp]
        exact pinCountOf_none (by simpa [hqp] using hp)
      | some g =>
        have hne : g ≠ f := fun he => hqp (h.mapped_inj (he ▸ hp) hq)
        rw [pinCountOf_some hp, pinCountOf_some (f := g) (by simpa [hqp] using hp)]
        simp [hne]

/-! ## The id counter -/

/-- A call that creates no page leaves the counter alone. -/
theorem Effect.counter_kept (he : s.Effect c ret s') (hnew : newIds c ret = []) :
    s'.nextPageId = s.nextPageId := by
  cases he with
  | new => cases hnew
  | fetchMiss hp hpick hr => exact hpick.frame.2.2
  | _ => rfl

/-- A new page moves it on by one stride, unless it wraps. -/
theorem Effect.counter_advanced {f : FrameId} {p : PageId} (he : s.Effect .newPg (.page (some f) p) s')
    (h0 : (0 : Int) ≤ s.nextPageId) (h1 : (s.nextPageId + s.cfg.numInstances : Int) < 2 ^ 31) :
    s'.nextPageId = s.nextPageId + s.cfg.numInstances := by
  cases he with
  | new hpick hr =>
    rw [install_nextPageId, hpick.frame.2.2]
    show int32 (s.nextPageId + s.cfg.numInstances) = _
    exact int32_of_range (by omega) h1

/-! ## How many pins there are -/

/-- The pins on all frames together. -/
def pinTotal (s : BufferPoolManagerInstance Disk Data) : Int :=
  ∑ i ∈ Finset.range s.cfg.poolSize, (s.pages i).pinCount

/-- Pins a call hands to its caller, less those it takes back, whatever the page. -/
def pinChange : Call → Return → Int
  | .newPg, .page (some _) _ => 1
  | .fetchPg _, .page (some _) _ => 1
  | .unpinPg _ _, .flag true => -1
  | _, _ => 0

/-- When frame `f` alone changes, the total changes as its pin count does. -/
theorem pinTotal_eq (hcfg : s'.cfg = s.cfg) {f : FrameId} (hf : s.inPool f)
    (hrest : ∀ g, g ≠ f → (s'.pages g).pinCount = (s.pages g).pinCount) :
    s'.pinTotal = s.pinTotal + ((s'.pages f).pinCount - (s.pages f).pinCount) := by
  obtain ⟨hnonneg, hlt⟩ := hf
  obtain ⟨i, rfl⟩ := Int.eq_ofNat_of_zero_le hnonneg
  have hmem : i ∈ Finset.range s.cfg.poolSize := Finset.mem_range.mpr (Int.ofNat_lt.mp hlt)
  have herase : ∑ j ∈ (Finset.range s.cfg.poolSize).erase i, (s'.pages j).pinCount =
      ∑ j ∈ (Finset.range s.cfg.poolSize).erase i, (s.pages j).pinCount :=
    Finset.sum_congr rfl fun j hj => hrest j fun he => Finset.ne_of_mem_erase hj (Int.ofNat.inj he)
  unfold pinTotal
  rw [hcfg, ← Finset.add_sum_erase _ _ hmem, ← Finset.add_sum_erase _ _ hmem, herase]
  ring

/-- A page installed in a picked frame adds its one pin. -/
theorem Consistent.pinTotal_install (h : s.Consistent) {f : FrameId} (hpick : s.Picked f s₁) (q : PageId)
    (x : Data) (r : LRUReplacer) (d : Disk) : (s₁.install f q x r d).pinTotal = s.pinTotal + 1 := by
  obtain ⟨hcfg, hpages, -⟩ := hpick.frame
  have hf : s.inPool f := by
    have hf' := (hpick.spec h).2.inPool
    simpa [inPool, hcfg] using hf'
  rw [pinTotal_eq (s := s) (f := f) (by simpa using hcfg) hf fun g hg => by simp [hg, hpages]]
  simp [hpick.unpinned h]

/-- Assigning the frame of a resident page changes the total as it changes the pin count. -/
theorem Consistent.pinTotal_assign (h : s.Consistent) {p : PageId} {f : FrameId} (hp : s.pageTable p = some f)
    {pg : Page Data} (hcfg : s'.cfg = s.cfg) (hpages : s'.pages = Function.update s.pages f pg) :
    s'.pinTotal = s.pinTotal + (pg.pinCount - (s.pages f).pinCount) := by
  rw [pinTotal_eq (f := f) hcfg (h.mapped_inPool p f hp) fun g hg => by rw [hpages, Function.update_of_ne hg],
    hpages, Function.update_self]

/-- **The number of pins changes by the pins a call hands out or takes back.**  No discipline is asked
    of the callers. -/
theorem Consistent.pinTotal_step (h : s.Consistent) (he : s.Effect c ret s') :
    s'.pinTotal = s.pinTotal + pinChange c ret := by
  cases he with
  | new hpick hr =>
    have hb : s.bumped.Consistent := { h with }
    exact hb.pinTotal_install hpick _ _ _ _
  | fetchMiss hp hpick hr => exact h.pinTotal_install hpick _ _ _ _
  | fetchHit hp hr =>
    refine Eq.trans (h.pinTotal_assign hp rfl rfl) ?_
    simp [pinChange]
  | unpinZero hp h0 =>
    refine Eq.trans (h.pinTotal_assign hp rfl rfl) ?_
    simp [pinChange]
  | unpin hp h0 h1 =>
    refine Eq.trans (h.pinTotal_assign hp rfl rfl) ?_
    simp [pinChange]
  | unpinLast hp h1 hr =>
    refine Eq.trans (h.pinTotal_assign hp rfl rfl) ?_
    rw [h1]
    rfl
  | delete hp h0 hr =>
    refine Eq.trans (h.pinTotal_assign hp rfl rfl) ?_
    rw [h0]
    rfl
  | _ => exact (Int.add_zero _).symm

/-- The frames that a page can be put into. -/
def obtainable (s : BufferPoolManagerInstance Disk Data) : ℕ :=
  s.freeList.length + s.replacer.tracked.length

/-- A new page takes one of them. -/
theorem obtainable_new {f : FrameId} {p : PageId} (he : s.Effect .newPg (.page (some f) p) s') :
    s'.obtainable + 1 = s.obtainable := by
  cases he with
  | new hpick hr =>
    unfold obtainable
    rw [install_replacer, install_freeList, hr.tracked]
    cases hpick with
    | @free l f hl =>
      have hl' : s.freeList = l ++ [f] := hl
      rw [hl', List.length_append]
      show l.length + s.replacer.tracked.length + 1 = l.length + 1 + s.replacer.tracked.length
      omega
    | @victim l f r' hfree hl hr' =>
      have hl' : s.replacer.tracked = l ++ [f] := hl
      rw [hl', List.length_append, show r'.tracked = l from hr'.tracked]
      show s.freeList.length + l.length + 1 = s.freeList.length + (l.length + 1)
      omega

/-- `NewPgImp` returns nullptr only when there are none. -/
theorem Consistent.obtainable_full (h : s.Consistent) {p : PageId} (he : s.Effect .newPg (.page none p) s') :
    s' = s ∧ s.obtainable = 0 := by
  cases he with
  | newFull hfull =>
    refine ⟨rfl, ?_⟩
    unfold obtainable
    rcases hfull with hall | ⟨htracked, hfree⟩
    · have hfree : s.freeList = [] :=
        List.eq_nil_iff_forall_not_mem.mpr fun f hf => hall f (h.free_inPool f hf) (h.free_meta f hf).1
      have htracked : s.replacer.tracked = [] :=
        List.eq_nil_iff_forall_not_mem.mpr fun f hf => hall f (h.tracked_inPool f hf) (h.tracked_unpinned f hf)
      rw [hfree, htracked]
      rfl
    · rw [hfree, htracked]
      rfl

/-! ## Calls that succeed -/

/-- An exact counter passes the assertion of `ValidatePageId`. -/
theorem allocatePage_ok {b : Build} {k : Nat}
    (hk : s.nextPageId = s.cfg.instanceIndex + s.cfg.numInstances * k) (hlt : s.nextPageId < 2 ^ 31) :
    s.allocatePage b = .ok (s.nextPageId, s.bumped) := by
  have hidx : (s.cfg.instanceIndex : Int) < s.cfg.numInstances := by exact_mod_cast s.cfg.index_lt
  have hn : (0 : Int) ≤ s.cfg.numInstances * k := by positivity
  have h0 : (0 : Int) ≤ s.nextPageId := by
    rw [hk]
    exact Int.add_nonneg (Int.natCast_nonneg _) hn
  have hu : uint32 s.nextPageId = s.nextPageId := uint32_of_range h0 (hlt.trans (by norm_num))
  have hmod : s.nextPageId % s.cfg.numInstances = s.cfg.instanceIndex := by
    rw [hk, Int.add_mul_emod_self_left]
    exact Int.emod_eq_of_lt (Int.natCast_nonneg _) hidx
  simp [allocatePage, validatePageId, bumped, hu, hmod, bind, Except.bind]

theorem frame_zero (hpool : 0 < s.cfg.poolSize) : s.inPool 0 := ⟨Int.le_refl 0, by exact_mod_cast hpool⟩

/-- With no pins at all, no frame is pinned. -/
theorem Inv.unpinned_frame (h : s.Inv) (hno : ∀ p, s.pinCountOf p = 0) {f : FrameId} (hf : s.inPool f) :
    (s.pages f).pinCount = 0 := by
  by_cases hfree : f ∈ s.freeList
  · exact (h.free_meta f hfree).1
  · have hback := h.backed f hf hfree
    rw [← pinCountOf_some hback]
    exact hno _

/-- A frame without a pin can be taken. -/
theorem Inv.obtainable (h : s.Inv) {f : FrameId} (hf : s.inPool f) (h0 : (s.pages f).pinCount = 0) :
    ¬ (s.replacer.tracked = [] ∧ s.freeList = []) := by
  rintro ⟨htracked, hfree⟩
  have hback := h.backed f hf (by simp [hfree])
  have hmem := h.mapped_tracked _ _ hback h0
  rw [htracked] at hmem
  cases hmem

/-- With a frame to take and an exact counter `NewPgImp` succeeds. -/
theorem Inv.new_succeeds {b : Build} (h : s.Inv) {f : FrameId} (hf : s.inPool f)
    (h0 : (s.pages f).pinCount = 0) (halloc : s.allocatePage b = .ok (s.nextPageId, s.bumped)) :
    ∃ g s', s.exec b .newPg = .ok (.page (some g) s.nextPageId, s') ∧
      s.Effect .newPg (.page (some g) s.nextPageId) s' := by
  rcases exec_total (b := b) h.toConsistent .newPg with ⟨ret, s', hexec, he⟩ | ⟨-, -, herr⟩
  · cases he with
    | newFull hfull =>
      rcases hfull with hall | hempty
      · exact absurd h0 (hall f hf)
      · exact absurd hempty (h.obtainable hf h0)
    | new hpick hr => exact ⟨_, _, hexec, .new hpick hr⟩
  · rw [halloc] at herr
    cases herr

/-- A pinned page can be unpinned. -/
theorem Consistent.unpin_succeeds (h : s.Consistent) (b : Build) (d : Bool) {p : PageId}
    (hp : p ≠ invalidPageId) (hpin : 0 < s.pinCountOf p) :
    ∃ s', s.exec b (.unpinPg p d) = .ok (.flag true, s') ∧ s.Effect (.unpinPg p d) (.flag true) s' := by
  rcases exec_total (b := b) h (.unpinPg p d) with ⟨ret, s', hexec, he⟩ | ⟨hc, -, -⟩
  · cases he with
    | unpinAbsent habs =>
      rcases habs with hinv | hnone
      · exact absurd hinv hp
      · rw [pinCountOf_none hnone] at hpin
        cases hpin
    | unpinZero hmap h0 =>
      rw [pinCountOf_some hmap, h0] at hpin
      cases hpin
    | unpin hmap h0 hne => exact ⟨_, hexec, .unpin hmap h0 hne⟩
    | unpinLast hmap hone hr => exact ⟨_, hexec, .unpinLast hmap hone hr⟩
  · cases hc

/-- An unpinned page can be deleted. -/
theorem Consistent.delete_succeeds (h : s.Consistent) (b : Build) {p : PageId} (hpin : s.pinCountOf p = 0) :
    ∃ s', s.exec b (.deletePg p) = .ok (.flag true, s') ∧ s.Effect (.deletePg p) (.flag true) s' := by
  rcases exec_total (b := b) h (.deletePg p) with ⟨ret, s', hexec, he⟩ | ⟨hc, -, -⟩
  · cases he with
    | deleteAbsent hp => exact ⟨_, hexec, .deleteAbsent hp⟩
    | deletePinned hp hpos =>
      rw [pinCountOf_some hp] at hpin
      omega
    | delete hp h0 hr => exact ⟨_, hexec, .delete hp h0 hr⟩
  · cases hc

end BufferPoolManagerInstance

open BufferPoolManagerInstance

namespace Session

variable {Disk Data : Type} [DiskManager Disk Data] [Zero Data]
variable {b : Build} {cfg : PoolConfig} {disk : Disk}

/-! ## Counting pins along a run -/

/-- The ghost count of pins per page after one more event: a page that was not resident before the
    event starts from 0. -/
def tally (s : BufferPoolManagerInstance Disk Data) (e : Event Data) (n : PageId → Int) (p : PageId) :
    Int :=
  (if s.pageTable p = none then 0 else n p) +
    match e with
    | .call c ret => pinDelta p c ret
    | .store _ _ => 0

/-- The runs of `system` with the ghost count alongside. -/
def countedSystem (b : Build) (cfg : PoolConfig) (disk : Disk) :
    StepSystem (Session Disk Data × (PageId → Int)) (Event Data) where
  init a := (system b cfg disk).init a.1 ∧ a.2 = fun _ => 0
  step a e a' := (system b cfg disk).step a.1 e a'.1 ∧ a'.2 = tally a.1.pool e a.2

/-- In every state of a run the ghost count of a resident page is its pin count. -/
theorem counted_sound {a : Session Disk Data × (PageId → Int)}
    (h : (countedSystem b cfg disk).Reachable a) :
    a.1.Sound ∧ ∀ p, a.1.pool.pageTable p ≠ none → a.2 p = a.1.pool.pinCountOf p := by
  refine h.invariant (I := fun a => a.1.Sound ∧
    ∀ p, a.1.pool.pageTable p ≠ none → a.2 p = a.1.pool.pinCountOf p) ?_ ?_
  · rintro a ⟨ha, -⟩
    refine ⟨Sound.init ha, fun p hp => ?_⟩
    obtain ⟨he, -⟩ := ha
    simp [he, create] at hp
  · rintro a e a' ⟨hs, hcount⟩ ⟨hstep, hn⟩
    refine ⟨hs.step hstep, fun p hp => ?_⟩
    have hold : (if a.1.pool.pageTable p = none then 0 else a.2 p) = a.1.pool.pinCountOf p := by
      split
      · next h0 => rw [pinCountOf_none h0]
      · next h0 => exact hcount p h0
    rw [hn]
    unfold tally
    rw [hold]
    cases e with
    | call c ret => exact (hs.inv.pin_step (exec_effect hs.inv.toConsistent hstep.1) p).symm
    | store f x =>
      have hpool : a'.1.pool = a.1.pool.setPage f { a.1.pool.pages f with data := x } :=
        congrArg Session.pool hstep
      rw [Int.add_zero, hpool]
      unfold pinCountOf
      cases hpt : a.1.pool.pageTable p with
      | none => simp [hpt]
      | some g => by_cases hg : g = f <;> simp [hpt, hg]

/-- **A pinned page stays put.**  The pin count of a resident page is the number of `NewPgImp` and
    `FetchPgImp` calls that returned it less the number of successful `UnpinPgImp` calls since it
    became resident; it is never negative, and while it is positive no call evicts or deletes the
    page, moves it to another frame or changes the bytes of its frame. -/
theorem pinned_page_stays {a : Session Disk Data × (PageId → Int)}
    (h : (countedSystem b cfg disk).Reachable a) :
    (∀ p f, a.1.pool.pageTable p = some f → (a.1.pool.pages f).pinCount = a.2 p ∧ 0 ≤ a.2 p) ∧
    ∀ p f, a.1.pool.pageTable p = some f → 0 < a.2 p →
      ∀ c ret a', (countedSystem b cfg disk).step a (.call c ret) a' →
        a'.1.pool.pageTable p = some f ∧
          (a'.1.pool.pages f).data = (a.1.pool.pages f).data := by
  obtain ⟨hs, hcount⟩ := counted_sound h
  have heq : ∀ p f, a.1.pool.pageTable p = some f → (a.1.pool.pages f).pinCount = a.2 p := by
    intro p f hp
    rw [hcount p (by simp [hp]), pinCountOf_some hp]
  refine ⟨fun p f hp => ⟨heq p f hp, ?_⟩, ?_⟩
  · rw [hcount p (by simp [hp])]
    exact hs.inv.pinCountOf_nonneg p
  · rintro p f hp hpos c ret a' ⟨hstep, -⟩
    have he := exec_effect hs.inv.toConsistent hstep.1
    exact hs.inv.pinned_step he hp (by rw [heq p f hp]; exact hpos)

/-- Page 0, created in frame 1 of a pool of two frames, has one pin and keeps its frame when a
    second page is created. -/
theorem pinned_page_stays_two_frames :
    (((fresh 2).after .debug .newPg).pool.pages 1).pinCount = 1 ∧
      ((((fresh 2).after .debug .newPg).after .debug .newPg).pool.pageTable 0 = some 1) := by
  have h₀ : (countedSystem .debug ⟨2, 1, 0, by decide, by decide⟩ fun _ => 0).Reachable
      (fresh 2, fun _ => 0) :=
    .init ⟨⟨rfl, by decide⟩, rfl⟩
  have h₁ : (countedSystem .debug ⟨2, 1, 0, by decide, by decide⟩ fun _ => 0).Reachable
      ((fresh 2).after .debug .newPg,
        tally (fresh 2).pool (.call .newPg (.page (some 1) 0)) fun _ => 0) :=
    h₀.step (e := .call .newPg (.page (some 1) 0))
      ⟨⟨rfl, fun p hp => (by cases hp), rfl, by decide⟩, rfl⟩
  have h := pinned_page_stays h₁
  refine ⟨(h.1 0 1 (by decide)).1, ?_⟩
  exact (h.2 0 1 (by decide) (by decide) .newPg (.page (some 0) 1)
    (((fresh 2).after .debug .newPg).after .debug .newPg, _)
    ⟨⟨rfl, fun p hp => (by cases hp), rfl, by decide⟩, rfl⟩).1

end Session

end BusTub
