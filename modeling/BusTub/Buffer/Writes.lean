/-
  The disk writes of the pool, one `WritePage` call at a time.

  1. **`writes b c`** lists the `WritePage` calls that call `c` makes, each with the frame whose bytes it
     passes.  `exec_disk` ties the list to the methods: for every disk manager, the disk after a call is the
     disk before it with these writes done in order.

  2. **`WritesResident`** is what one expects of them: every write names the page that `page_table_` has in the
     written frame when the call starts or ends, never `INVALID_PAGE_ID`, and `FlushAllPgsImp` brings the disk up
     to date without touching pages that are not resident.

  3. `writes_resident_iff` — **the main result**: when exactly that is so.  `FlushAllPgsImp` writes every frame
     under its `page_id_`, and that of a free frame is `INVALID_PAGE_ID`; so a caller that fetches only pages
     it created gets it exactly as long as it does not flush all pages while a frame is free.
-/
import BusTub.Buffer.Content

set_option linter.unusedSectionVars false

namespace BusTub

/-- A call of `DiskManager::WritePage`, with the frame that the bytes are taken from. -/
structure WriteCall (Data : Type) where
  frame : FrameId
  pageId : PageId
  data : Data
  deriving DecidableEq

/-- The disk after a write. -/
def WriteCall.on {Disk Data : Type} [DiskManager Disk Data] (d : Disk) (w : WriteCall Data) : Disk :=
  DiskManager.writePage d w.pageId w.data

namespace BufferPoolManagerInstance

variable {Disk Data : Type} [DiskManager Disk Data] [Zero Data]
variable {s s' s₁ : BufferPoolManagerInstance Disk Data}

/-! ## The writes of each method -/

section writes

variable (b : Build) (s : BufferPoolManagerInstance Disk Data)

/-- Frame `f` written under its own page id. -/
def ownWrite (f : FrameId) : WriteCall Data := ⟨f, (s.pages f).pageId, (s.pages f).data⟩

/-- Frame `f` is written if it is dirty. -/
def writeBackWrites (f : FrameId) : List (WriteCall Data) :=
  if (s.pages f).isDirty then [s.ownWrite f] else []

/-- `pickFrame` writes a victim back. -/
def pickFrameWrites : List (WriteCall Data) :=
  match s.freeList.getLast? with
  | some _ => []
  | none =>
    match s.replacer.victim (-1) with
    | .ok (_, frame_id, _) => s.writeBackWrites frame_id
    | .error _ => []

def newPgWrites : List (WriteCall Data) :=
  if s.cfg.poolSize ≤ firstUnpinned s.pages s.cfg.poolSize 0 then []
  else if s.replacer.size = 0 ∧ s.freeList = [] then []
  else match s.allocatePage b with
  | .error _ => []
  | .ok (page_id, s) =>
    match s.pickFrame with
    | .error _ => []
    -- the new page is flushed, zeroed, after the victim
    | .ok (frame_id, _) => s.pickFrameWrites ++ [⟨frame_id, page_id, 0⟩]

def fetchPgWrites (page_id : PageId) : List (WriteCall Data) :=
  match s.pageTable page_id with
  | some _ => []
  | none => if s.replacer.size = 0 ∧ s.freeList = [] then [] else s.pickFrameWrites

def deletePgWrites (page_id : PageId) : List (WriteCall Data) :=
  match s.pageTable page_id with
  | none => []
  | some frame_id => if (s.pages frame_id).pinCount > 0 then [] else s.writeBackWrites frame_id

def flushPgWrites (page_id : PageId) : List (WriteCall Data) :=
  if page_id = invalidPageId then []
  else match s.pageTable page_id with
  | none => []
  | some frame_id => [⟨frame_id, page_id, (s.pages frame_id).data⟩]

/-- Every frame, the free ones included. -/
def flushAllWrites : List (WriteCall Data) := (List.range s.cfg.poolSize).map fun tmp : Nat => s.ownWrite tmp

/-- **The `WritePage` calls that a call makes**, in order. -/
def writes : Call → List (WriteCall Data)
  | .newPg => s.newPgWrites b
  | .fetchPg p => s.fetchPgWrites p
  | .unpinPg _ _ => []
  | .flushPg p => s.flushPgWrites p
  | .flushAllPgs => s.flushAllWrites
  | .deletePg p => s.deletePgWrites p

end writes

theorem foldl_writeBackWrites (s : BufferPoolManagerInstance Disk Data) (f : FrameId) :
    (s.writeBackWrites f).foldl WriteCall.on s.disk = s.writeBack f := by
  unfold writeBackWrites writeBack
  split <;> rfl

theorem pickFrame_disk {f : FrameId} (h : s.pickFrame = .ok (f, s₁)) :
    s₁.disk = s.pickFrameWrites.foldl WriteCall.on s.disk ∧ s₁.pages = s.pages := by
  unfold pickFrame at h
  split at h
  · next g hg =>
    unfold pickFrameWrites
    rw [hg]
    split at h
    · cases h
      exact ⟨rfl, rfl⟩
    · cases h
  · next hg =>
    obtain ⟨⟨res, g, r⟩, hv, h⟩ := except_bind_inv h
    unfold pickFrameWrites
    rw [hg]
    rw [hv]
    simp only at h ⊢
    split at h
    · cases h
      exact ⟨(foldl_writeBackWrites s _).symm, rfl⟩
    · cases h

/-- The loop of `FlushAllPgsImp` makes its writes in order. -/
theorem flushFrames_eq (s : BufferPoolManagerInstance Disk Data) : ∀ (n tmp : Nat) (d : Disk),
    flushFrames s.pages n tmp d = ((List.range' tmp n).map fun i : Nat => s.ownWrite i).foldl WriteCall.on d := by
  intro n
  induction n with
  | zero => exact fun _ _ => rfl
  | succ n ih =>
    intro tmp d
    rw [List.range'_succ, List.map_cons, List.foldl_cons, ← ih]
    rfl

/-- `UnpinPgImp` writes nothing. -/
theorem unpinPgImp_disk {p : PageId} {d res : Bool} (h : s.unpinPgImp p d = .ok (res, s')) :
    s'.disk = s.disk := by
  -- the last part runs on a pool that differs from `s` in the dirty flag of one frame
  have hrest : ∀ (t : BufferPoolManagerInstance Disk Data) (f : FrameId), t.disk = s.disk →
      ((if (t.pages f).pinCount = 0 then .ok (false, t)
        else
          let u := t.setPage f { t.pages f with pinCount := (t.pages f).pinCount - 1 }
          if (u.pages f).pinCount = 0 then do
            let r ← u.replacer.unpin f
            .ok (true, { u with replacer := r })
          else .ok (true, u)) : Except Fault _) = .ok (res, s') → s'.disk = s.disk := by
    intro t f ht hrun
    split at hrun
    · cases hrun
      exact ht
    · simp only at hrun
      split at hrun
      · obtain ⟨r, -, hrun⟩ := except_bind_inv hrun
        cases hrun
        exact ht
      · cases hrun
        exact ht
  unfold unpinPgImp at h
  split at h
  · cases h
    rfl
  · split at h
    · cases h
      rfl
    · next f hf =>
      cases d with
      | false => exact hrest s f rfl h
      | true => exact hrest (s.setPage f { s.pages f with isDirty := true }) f rfl h

/-- `NewPgImp` writes the victim back, then the new page. -/
theorem newPgImp_disk {b : Build} {page_id : PageId} {x : Option FrameId × PageId}
    (h : s.newPgImp b page_id = .ok (x, s')) : s'.disk = (s.newPgWrites b).foldl WriteCall.on s.disk := by
  unfold newPgImp at h
  unfold newPgWrites
  split at h
  · next hscan =>
    cases h
    rw [if_pos hscan]
    rfl
  · next hscan =>
    rw [if_neg hscan]
    split at h
    · next hempty =>
      cases h
      rw [if_pos hempty]
      rfl
    · next hempty =>
      rw [if_neg hempty]
      obtain ⟨⟨q, s₀⟩, halloc, h⟩ := except_bind_inv h
      obtain ⟨⟨g, s₁⟩, hpick, h⟩ := except_bind_inv h
      obtain ⟨r, hpin, h⟩ := except_bind_inv h
      cases h
      have hdisk : s₀.disk = s.disk := by
        rcases allocatePage_eq b s with he | he
        · rw [halloc] at he
          cases he
          rfl
        · rw [halloc] at he
          cases he
      rw [halloc]
      simp only [hpick]
      rw [List.foldl_append, ← hdisk, ← (pickFrame_disk hpick).1]
      simp [WriteCall.on]

/-- `FetchPgImp` writes the victim back. -/
theorem fetchPgImp_disk {p : PageId} {f : Option FrameId} (h : s.fetchPgImp p = .ok (f, s')) :
    s'.disk = (s.fetchPgWrites p).foldl WriteCall.on s.disk := by
  unfold fetchPgImp at h
  split at h
  · next g hg =>
    obtain ⟨r, hpin, h⟩ := except_bind_inv h
    cases h
    unfold fetchPgWrites
    rw [hg]
    rfl
  · next hg =>
    unfold fetchPgWrites
    rw [hg]
    split at h
    · next hempty =>
      cases h
      simp only [if_pos hempty]
      rfl
    · next hempty =>
      simp only [if_neg hempty]
      obtain ⟨⟨g, s₁⟩, hpick, h⟩ := except_bind_inv h
      obtain ⟨r, hpin, h⟩ := except_bind_inv h
      cases h
      exact (pickFrame_disk hpick).1

/-- `FlushPgImp` writes the page, if it is there. -/
theorem flushPgImp_disk {p : PageId} {res : Bool} (h : s.flushPgImp p = .ok (res, s')) :
    s'.disk = (s.flushPgWrites p).foldl WriteCall.on s.disk := by
  unfold flushPgImp at h
  split at h
  · next hp =>
    cases h
    unfold flushPgWrites
    rw [if_pos hp]
    rfl
  · next hp =>
    split at h
    · next hg =>
      cases h
      unfold flushPgWrites
      rw [if_neg hp, hg]
      rfl
    · next g hg =>
      cases h
      unfold flushPgWrites
      rw [if_neg hp, hg]
      rfl

/-- `DeletePgImp` writes the page back, if nobody has pinned it. -/
theorem deletePgImp_disk {p : PageId} {res : Bool} (h : s.deletePgImp p = .ok (res, s')) :
    s'.disk = (s.deletePgWrites p).foldl WriteCall.on s.disk := by
  unfold deletePgImp at h
  split at h
  · next hg =>
    cases h
    unfold deletePgWrites
    rw [hg]
    rfl
  · next g hg =>
    unfold deletePgWrites
    rw [hg]
    split at h
    · next hpin =>
      cases h
      simp only [if_pos hpin]
      rfl
    · next hpin =>
      simp only [if_neg hpin]
      obtain ⟨r, -, h⟩ := except_bind_inv h
      cases h
      exact (foldl_writeBackWrites s g).symm

/-- **The list is complete and in order**: for every disk manager, a call leaves the disk that its writes
    make of the disk before. -/
theorem exec_disk {b : Build} {c : Call} {ret : Return} (h : s.exec b c = .ok (ret, s')) :
    s'.disk = (s.writes b c).foldl WriteCall.on s.disk := by
  cases c with
  | newPg =>
    obtain ⟨x, hrun, h⟩ := except_bind_inv h
    cases h
    exact newPgImp_disk hrun
  | fetchPg p =>
    obtain ⟨x, hrun, h⟩ := except_bind_inv h
    cases h
    exact fetchPgImp_disk hrun
  | unpinPg p d =>
    obtain ⟨x, hrun, h⟩ := except_bind_inv h
    cases h
    exact unpinPgImp_disk hrun
  | flushPg p =>
    obtain ⟨x, hrun, h⟩ := except_bind_inv h
    cases h
    exact flushPgImp_disk hrun
  | flushAllPgs =>
    cases h
    show flushFrames s.pages s.cfg.poolSize 0 s.disk = _
    rw [flushFrames_eq, ← List.range_eq_range']
    rfl
  | deletePg p =>
    obtain ⟨x, hrun, h⟩ := except_bind_inv h
    cases h
    exact deletePgImp_disk hrun

/-! ## What is expected of the writes -/

/-- The write names the page that `page_table_` has in its frame, before the call or after it. -/
def NamesResident (s s' : BufferPoolManagerInstance Disk Data) (w : WriteCall Data) : Prop :=
  w.pageId ≠ invalidPageId ∧ (s.pageTable w.pageId = some w.frame ∨ s'.pageTable w.pageId = some w.frame)

/-- **What is expected of a call from `s` to `s'`**: its writes name resident pages, and after
    `FlushAllPgsImp` the disk has every resident page and is otherwise unchanged. -/
structure WritesResident (b : Build) (s : BufferPoolManagerInstance Disk Data) (c : Call)
    (s' : BufferPoolManagerInstance Disk Data) : Prop where
  names : ∀ w ∈ s.writes b c, NamesResident s s' w
  flushed : c = .flushAllPgs → ∀ p f, s.pageTable p = some f → DiskManager.readPage s'.disk p = (s.pages f).data
  kept : c = .flushAllPgs → ∀ p, s.pageTable p = none →
    DiskManager.readPage s'.disk p = DiskManager.readPage s.disk p

/-- The next frame taken is that of a page, the one unpinned the longest ago. -/
def Evicts (s : BufferPoolManagerInstance Disk Data) (f : FrameId) : Prop :=
  s.freeList = [] ∧ s.replacer.tracked.getLast? = some f

/-- Writing frame `f` back is in order when page `p` is about to get it: `page_table_` has the frame's page
    there, or the frame's page is `p` itself. -/
def Accounted (s : BufferPoolManagerInstance Disk Data) (p : PageId) (f : FrameId) : Prop :=
  s.pageTable (s.pages f).pageId = some f ∨ (s.pages f).pageId = p

/-- The condition on the pool before the call. -/
def WritesSafe (s : BufferPoolManagerInstance Disk Data) : Call → Prop
  | .newPg => ¬ (s.replacer.tracked = [] ∧ s.freeList = []) → s.nextPageId ≠ invalidPageId ∧
      ∀ f, s.Evicts f → (s.pages f).isDirty = true → s.Accounted s.nextPageId f
  | .fetchPg p => s.pageTable p = none → ∀ f, s.Evicts f → (s.pages f).isDirty = true → s.Accounted p f
  | .flushAllPgs => s.freeList = [] ∧ s.Backed ∧ s.pageTable invalidPageId = none
  | _ => True

/-! ## The invariant of any calls -/

/-- A page under `INVALID_PAGE_ID` cannot be unpinned, so it is pinned for ever. -/
structure Known (s : BufferPoolManagerInstance Disk Data) : Prop extends s.Consistent where
  invalid_pinned : ∀ f, s.inPool f → f ∉ s.freeList → (s.pages f).pageId = invalidPageId →
    0 < (s.pages f).pinCount

theorem create_known (cfg : PoolConfig) (disk : Disk) :
    (create cfg disk : BufferPoolManagerInstance Disk Data).Known where
  toConsistent := create_consistent cfg disk
  invalid_pinned f hf hnot _ := by
    obtain ⟨h0, h1⟩ := hf
    obtain ⟨i, rfl⟩ := Int.eq_ofNat_of_zero_le h0
    refine absurd (List.mem_map.mpr ⟨i, List.mem_range.mpr ?_, rfl⟩) hnot
    exact Int.ofNat_lt.mp h1

/-- Giving the taken frame to a page pins it. -/
theorem Known.install (h : s.Known) {f : FrameId} (hpick : s.Picked f s₁) {r : LRUReplacer}
    (hr : s₁.Replaced s₁.replacer.tracked r) (p : PageId) (x : Data) (d : Disk) :
    (s₁.install f p x r d).Known where
  toConsistent := (hpick.spec h.toConsistent).1.install (hpick.spec h.toConsistent).2 hr p x d
  invalid_pinned g hg hnot hid := by
    obtain ⟨hcfg, hpages, -⟩ := hpick.frame
    by_cases he : g = f
    · simp [he]
    · have hfree : g ∉ s.freeList := by
        cases hpick with
        | @free l f hl =>
          rw [hl, List.mem_append, List.mem_singleton]
          exact fun hm => hm.elim hnot he
        | victim hfree => simp [hfree]
      have hid' : (s.pages g).pageId = invalidPageId := by simpa [he, hpages] using hid
      have hg' : s.inPool g := by simpa [inPool, hcfg] using hg
      simpa [he, hpages] using h.invalid_pinned g hg' hfree hid'

/-- Changing a mapped frame whose page has a valid id. -/
theorem Known.touch (h : s.Known) {p : PageId} {f : FrameId} (hp : s.pageTable p = some f)
    (hvalid : p ≠ invalidPageId) (hs' : s'.Consistent) (hcfg : s'.cfg = s.cfg) (hfree : s'.freeList = s.freeList)
    (hid : (s'.pages f).pageId = (s.pages f).pageId) (hother : ∀ g, g ≠ f → s'.pages g = s.pages g) :
    s'.Known := by
  refine ⟨hs', fun g hg hnot hinv => ?_⟩
  by_cases hgf : g = f
  · rw [hgf, hid, h.mapped_pageId p f hp] at hinv
    exact absurd hinv hvalid
  · rw [hother g hgf] at hinv ⊢
    exact h.invalid_pinned g (by simpa [inPool, hcfg] using hg) (hfree ▸ hnot) hinv

/-- **Any call keeps it**, whatever its arguments. -/
theorem Known.step (h : s.Known) {b : Build} {c : Call} {ret : Return} (hexec : s.exec b c = .ok (ret, s')) :
    s'.Known := by
  have he := exec_effect h.toConsistent hexec
  have hs' := h.toConsistent.step he
  -- `UnpinPgImp` looks at no frame when it is given `INVALID_PAGE_ID`
  have hrefused : ∀ d, c = .unpinPg invalidPageId d → s' = s := by
    rintro d rfl
    have hrun : s.exec b (.unpinPg invalidPageId d) = .ok (.flag false, s) := rfl
    rw [hexec] at hrun
    cases hrun
    rfl
  cases he with
  | newFull => exact h
  | @new f s₁ r hpick hr =>
    have hb : s.bumped.Known := ⟨{ h.toConsistent with }, h.invalid_pinned⟩
    exact hb.install hpick hr _ _ _
  | @fetchHit p f r hp hr =>
    refine ⟨hs', fun g hg hnot hid => ?_⟩
    by_cases hgf : g = f
    · have hnn := h.pin_nonneg f (h.mapped_inPool p f hp)
      subst hgf
      simp
      omega
    · simpa [hgf] using h.invalid_pinned g hg hnot (by simpa [hgf] using hid)
  | fetchFull => exact h
  | fetchMiss hp hpick hr => exact h.install hpick hr _ _ _
  | unpinAbsent => exact h
  | @unpinZero p d f hp h0 =>
    by_cases hvalid : p = invalidPageId
    · rw [hrefused d (by rw [hvalid])]
      exact h
    · exact h.touch hp hvalid hs' rfl rfl (by simp) fun g hg => by simp [hg]
  | @unpin p d f hp h0 h1 =>
    by_cases hvalid : p = invalidPageId
    · rw [hrefused d (by rw [hvalid])]
      exact h
    · exact h.touch hp hvalid hs' rfl rfl (by simp) fun g hg => by simp [hg]
  | @unpinLast p d f r hp h1 hr =>
    by_cases hvalid : p = invalidPageId
    · rw [hrefused d (by rw [hvalid])]
      exact h
    · exact h.touch hp hvalid hs' rfl rfl (by simp) fun g hg => by simp [hg]
  | flushAbsent => exact h
  | flush => exact ⟨hs', h.invalid_pinned⟩
  | flushAll => exact ⟨hs', h.invalid_pinned⟩
  | deleteAbsent => exact h
  | deletePinned => exact h
  | @delete p f r hp h0 hr =>
    refine ⟨hs', fun g hg hnot hid => ?_⟩
    have hgf : g ≠ f := fun he => hnot (by simp [he])
    have hfree : g ∉ s.freeList := fun hm => hnot (by simp [hm])
    simpa [hgf] using h.invalid_pinned g hg hfree (by simpa [hgf] using hid)

/-- Stores into frames keep it too. -/
theorem Known.store (h : s.Known) (f : FrameId) (x : Data) :
    (s.setPage f { s.pages f with data := x }).Known := by
  refine ⟨h.toConsistent.store f x, fun g hg hnot hid => ?_⟩
  by_cases hgf : g = f
  · subst hgf
    simpa using h.invalid_pinned g hg hnot (by simpa using hid)
  · simpa [hgf] using h.invalid_pinned g hg hnot (by simpa [hgf] using hid)

/-- An unpinned page has a valid id. -/
theorem Known.valid (h : s.Known) {f : FrameId} (hf : s.inPool f) (hnot : f ∉ s.freeList)
    (h0 : (s.pages f).pinCount = 0) : (s.pages f).pageId ≠ invalidPageId := by
  intro hid
  have := h.invalid_pinned f hf hnot hid
  omega

/-! ## When the writes are as expected -/

theorem Evicts.eq_append {f : FrameId} (h : s.Evicts f) : ∃ l, s.replacer.tracked = l ++ [f] :=
  List.getLast?_eq_some_iff.mp h.2

theorem some_left_iff : ¬ (s.replacer.size = 0 ∧ s.freeList = []) ↔
    ¬ (s.replacer.tracked = [] ∧ s.freeList = []) := by
  rw [LRUReplacer.size_eq, List.length_eq_zero_iff]

/-- `pickFrame` writes the dirty frame that it evicts, and nothing else. -/
theorem mem_pickFrameWrites (h : s.Consistent) (hsome : ¬ (s.replacer.tracked = [] ∧ s.freeList = []))
    {w : WriteCall Data} :
    w ∈ s.pickFrameWrites ↔ ∃ f, s.Evicts f ∧ (s.pages f).isDirty = true ∧ w = s.ownWrite f := by
  unfold pickFrameWrites
  rcases List.eq_nil_or_concat' s.freeList with hnil | ⟨l, g, hl⟩
  · obtain ⟨l, g, hl⟩ := (List.eq_nil_or_concat' s.replacer.tracked).resolve_left fun ht => hsome ⟨ht, hnil⟩
    obtain ⟨r, hv, -⟩ := LRUReplacer.victim_spec h.lru hl (-1)
    have hevicts : ∀ f, s.Evicts f ↔ f = g := fun f => by simp [Evicts, hnil, hl, eq_comm]
    simp only [hnil, hv, List.getLast?_nil, hevicts, exists_eq_left]
    unfold writeBackWrites
    split
    · next hd => simp [hd]
    · next hd => simp [hd]
  · have hevicts : ∀ f, ¬ s.Evicts f := fun f he => by simp [he.1] at hl
    simp [hl, hevicts]

/-- What `pickFrame` writes for page `p` names resident pages exactly if the frame evicted is accounted for. -/
theorem pick_names_iff (h : s.Known) (hsome : ¬ (s.replacer.tracked = [] ∧ s.freeList = [])) {p : PageId}
    {f : FrameId} (hpick : s.Picked f s₁) (ht : s'.pageTable = Function.update s₁.pageTable p (some f)) :
    (∀ w ∈ s.pickFrameWrites, NamesResident s s' w) ↔
      ∀ g, s.Evicts g → (s.pages g).isDirty = true → s.Accounted p g := by
  have hone : ∀ g, s.Evicts g → (NamesResident s s' (s.ownWrite g) ↔ s.Accounted p g) := by
    intro g hg
    obtain ⟨l, hl⟩ := hg.eq_append
    have hmem : g ∈ s.replacer.tracked := by simp [hl]
    have hvalid : (s.pages g).pageId ≠ invalidPageId :=
      h.valid (h.tracked_inPool g hmem) (by simp [hg.1]) (h.tracked_unpinned g hmem)
    cases hpick with
    | free hfree => simp [hg.1] at hfree
    | @victim l' f r hfree hl' hr =>
      obtain rfl : g = f := by simpa [hl', eq_comm] using hg.2
      have hafter : s'.pageTable (s.pages g).pageId = some g ↔ (s.pages g).pageId = p := by
        rw [ht]
        by_cases he : (s.pages g).pageId = p
        · simp [he]
        · simp [he]
      constructor
      · exact fun hw => hw.2.imp_right hafter.mp
      · exact fun hw => ⟨hvalid, hw.imp_right hafter.mpr⟩
  constructor
  · intro hall g hg hd
    exact (hone g hg).mp (hall _ ((mem_pickFrameWrites h.toConsistent hsome).mpr ⟨g, hg, hd, rfl⟩))
  · intro hall w hw
    obtain ⟨g, hg, hd, rfl⟩ := (mem_pickFrameWrites h.toConsistent hsome).mp hw
    exact (hone g hg).mpr (hall g hg hd)

/-- With a frame to take, a `NewPgImp` that returns took one. -/
theorem newPg_inv {b : Build} {ret : Return} (h : s.Consistent)
    (hsome : ¬ (s.replacer.tracked = [] ∧ s.freeList = [])) (hexec : s.exec b .newPg = .ok (ret, s')) :
    ∃ f s₁, s.bumped.Picked f s₁ ∧ s'.pageTable = Function.update s₁.pageTable s.nextPageId (some f) ∧
      s.newPgWrites b = s.pickFrameWrites ++ [⟨f, s.nextPageId, 0⟩] := by
  have hscan : ¬ s.cfg.poolSize ≤ firstUnpinned s.pages s.cfg.poolSize 0 := by
    rw [scan_full_iff]
    intro hall
    rcases List.eq_nil_or_concat' s.freeList with hnil | ⟨l, f, hl⟩
    · obtain ⟨l, f, hl⟩ := (List.eq_nil_or_concat' s.replacer.tracked).resolve_left fun ht => hsome ⟨ht, hnil⟩
      have hf : f ∈ s.replacer.tracked := by simp [hl]
      exact hall f (h.tracked_inPool f hf) (h.tracked_unpinned f hf)
    · have hf : f ∈ s.freeList := by simp [hl]
      exact hall f (h.free_inPool f hf) (h.free_meta f hf).1
  have hsome' := some_left_iff.mpr hsome
  obtain ⟨⟨⟨g, p⟩, s''⟩, hrun, h'⟩ := except_bind_inv hexec
  cases h'
  unfold newPgImp at hrun
  rw [if_neg hscan, if_neg hsome'] at hrun
  obtain ⟨⟨q, s₀⟩, halloc, hrun⟩ := except_bind_inv hrun
  obtain ⟨⟨f, s₁⟩, hpick, hrun⟩ := except_bind_inv hrun
  obtain ⟨r, hpin, hrun⟩ := except_bind_inv hrun
  cases hrun
  obtain ⟨rfl, rfl⟩ : p = s.nextPageId ∧ s₀ = s.bumped := by
    rcases allocatePage_eq b s with he | he
    · rw [halloc] at he
      cases he
      exact ⟨rfl, rfl⟩
    · rw [halloc] at he
      cases he
  have hb : s.bumped.Consistent := { h with }
  obtain ⟨f', s₁', hpick', hpicked⟩ := pickFrame_spec hb hsome'
  rw [hpick] at hpick'
  cases hpick'
  refine ⟨f, s₁, hpicked, rfl, ?_⟩
  unfold newPgWrites
  rw [if_neg hscan, if_neg hsome', halloc]
  simp only [hpick]
  rfl

/-- `FlushAllPgsImp` writes every frame under its page id. -/
theorem flushAll_names_iff (h : s.Known) : (∀ w ∈ s.flushAllWrites, NamesResident s s.flushAllPgsImp w) ↔
    s.freeList = [] ∧ s.Backed ∧ s.pageTable invalidPageId = none := by
  have hmem : ∀ w, w ∈ s.flushAllWrites ↔ ∃ f, s.inPool f ∧ w = s.ownWrite f := by
    intro w
    unfold flushAllWrites
    rw [List.mem_map]
    constructor
    · rintro ⟨i, hi, rfl⟩
      exact ⟨i, ⟨Int.natCast_nonneg i, Int.ofNat_lt.mpr (List.mem_range.mp hi)⟩, rfl⟩
    · rintro ⟨f, ⟨h0, h1⟩, rfl⟩
      obtain ⟨i, rfl⟩ := Int.eq_ofNat_of_zero_le h0
      exact ⟨i, List.mem_range.mpr (Int.ofNat_lt.mp h1), rfl⟩
  have hone : ∀ f, NamesResident s s.flushAllPgsImp (s.ownWrite f) ↔
      (s.pages f).pageId ≠ invalidPageId ∧ s.pageTable (s.pages f).pageId = some f :=
    fun f => and_congr_right fun _ => or_self_iff
  constructor
  · intro hall
    have hf : ∀ f, s.inPool f → (s.pages f).pageId ≠ invalidPageId ∧ s.pageTable (s.pages f).pageId = some f :=
      fun f hf => (hone f).mp (hall _ ((hmem _).mpr ⟨f, hf, rfl⟩))
    refine ⟨List.eq_nil_iff_forall_not_mem.mpr fun f hfree => ?_, fun f hin _ => (hf f hin).2, ?_⟩
    · exact (hf f (h.free_inPool f hfree)).1 (h.free_meta f hfree).2.2
    · rw [Option.eq_none_iff_forall_ne_some]
      exact fun f hp => (hf f (h.mapped_inPool _ f hp)).1 (h.mapped_pageId _ f hp)
  · rintro ⟨hfree, hbacked, hnone⟩ w hw
    obtain ⟨f, hin, rfl⟩ := (hmem w).mp hw
    have hmap := hbacked f hin (by simp [hfree])
    refine (hone f).mpr ⟨fun hid => ?_, hmap⟩
    rw [hid, hnone] at hmap
    cases hmap

/-- After `FlushAllPgsImp` the disk has every resident page, and no other page changed. -/
theorem flushAll_reads [LawfulDiskManager Disk] (h : s.Consistent) (hfree : s.freeList = []) (hbacked : s.Backed) :
    (∀ p f, s.pageTable p = some f → DiskManager.readPage s.flushAllPgsImp.disk p = (s.pages f).data) ∧
    ∀ p, s.pageTable p = none → DiskManager.readPage s.flushAllPgsImp.disk p = DiskManager.readPage s.disk p := by
  -- a frame is written under the one id that `page_table_` sends to it
  have hmap : ∀ i : Nat, i < s.cfg.poolSize → s.pageTable (s.pages i).pageId = some (i : Int) := fun i hi =>
    hbacked i ⟨Int.natCast_nonneg i, Int.ofNat_lt.mpr hi⟩ (by simp [hfree])
  refine ⟨fun p f hp => ?_, fun p hp => ?_⟩
  · refine read_flushFrames s.pages p _ _ _ _ (fun i _ hi hid => ?_) (.inr ?_)
    · have hi' := hmap i (by omega)
      rw [hid, hp, Option.some.injEq] at hi'
      rw [hi']
    · obtain ⟨h0, h1⟩ := h.mapped_inPool p f hp
      obtain ⟨i, rfl⟩ := Int.eq_ofNat_of_zero_le h0
      exact ⟨i, Nat.zero_le _, by simpa using h1, h.mapped_pageId p i hp⟩
  · refine read_flushFrames s.pages p _ _ _ _ (fun i _ hi hid => ?_) (.inl rfl)
    have hi' := hmap i (by omega)
    rw [hid, hp] at hi'
    cases hi'

/-- `NewPgImp` creates a page only if it gets a frame. -/
theorem newPg_names_iff [LawfulDiskManager Disk] {b : Build} {ret : Return} (h : s.Known)
    (hexec : s.exec b .newPg = .ok (ret, s')) :
    (∀ w ∈ s.newPgWrites b, NamesResident s s' w) ↔ s.WritesSafe .newPg := by
  by_cases hsome : s.replacer.tracked = [] ∧ s.freeList = []
  · refine ⟨fun _ hno => absurd hsome hno, fun _ w hw => ?_⟩
    have hempty : s.replacer.size = 0 ∧ s.freeList = [] := ⟨by simp [hsome.1], hsome.2⟩
    unfold newPgWrites at hw
    rw [if_pos hempty, ite_self] at hw
    cases hw
  · obtain ⟨f, s₁, hpick, ht, hwrites⟩ := newPg_inv h.toConsistent hsome hexec
    obtain ⟨s₀, hpick₀, rfl⟩ := hpick.of_bumped
    have hiff := pick_names_iff h hsome hpick₀ ht
    rw [hwrites]
    constructor
    · intro hall _
      refine ⟨(hall ⟨f, s.nextPageId, 0⟩ (by simp)).1, hiff.mp fun w hw => hall w (by simp [hw])⟩
    · intro hsafe w hw
      obtain ⟨hvalid, hacc⟩ := hsafe hsome
      rcases List.mem_append.mp hw with hw | hw
      · exact hiff.mpr hacc w hw
      · rw [List.mem_singleton.mp hw]
        exact ⟨hvalid, .inr (by rw [ht, Function.update_self])⟩

/-- `FetchPgImp` writes only when the page is not resident. -/
theorem fetchPg_names_iff {b : Build} {ret : Return} {p : PageId} (h : s.Known)
    (hexec : s.exec b (.fetchPg p) = .ok (ret, s')) :
    (∀ w ∈ s.fetchPgWrites p, NamesResident s s' w) ↔ s.WritesSafe (.fetchPg p) := by
  unfold fetchPgWrites
  have he := exec_effect h.toConsistent hexec
  cases he with
  | @fetchHit _ f r hp hr =>
    rw [hp]
    exact ⟨fun _ hno => (by rw [hp] at hno; cases hno), fun _ w hw => by cases hw⟩
  | fetchFull hp ht hfree =>
    have hempty : s.replacer.size = 0 ∧ s.freeList = [] := ⟨by simp [ht], hfree⟩
    rw [hp]
    simp only [if_pos hempty]
    refine ⟨fun _ _ f hf => ?_, fun _ w hw => by cases hw⟩
    obtain ⟨l, hl⟩ := hf.eq_append
    simp [ht] at hl
  | @fetchMiss _ f s₁ r hp hpick hr =>
    have hsome : ¬ (s.replacer.tracked = [] ∧ s.freeList = []) := by
      rintro ⟨ht, hfree⟩
      cases hpick with
      | free hl => simp [hfree] at hl
      | victim _ hl => simp [ht] at hl
    rw [hp]
    simp only [if_neg (some_left_iff.mpr hsome)]
    exact (pick_names_iff h hsome hpick rfl).trans ⟨fun hall _ => hall, fun hall => hall hp⟩

/-- `FlushPgImp` writes the page it was asked for. -/
theorem flushPg_names {p : PageId} {w : WriteCall Data} (hw : w ∈ s.flushPgWrites p) : NamesResident s s' w := by
  unfold flushPgWrites at hw
  split at hw
  · cases hw
  · next hp =>
    split at hw
    · cases hw
    · next f hf =>
      rw [List.mem_singleton.mp hw]
      exact ⟨hp, .inl hf⟩

/-- `DeletePgImp` writes the page that it deletes. -/
theorem deletePg_names {p : PageId} {w : WriteCall Data} (h : s.Known) (hw : w ∈ s.deletePgWrites p) :
    NamesResident s s' w := by
  unfold deletePgWrites at hw
  split at hw
  · cases hw
  · next f hf =>
    split at hw
    · cases hw
    · next hpin =>
      unfold writeBackWrites at hw
      split at hw
      · rw [List.mem_singleton.mp hw]
        have hin := h.mapped_inPool p f hf
        have h0 : (s.pages f).pinCount = 0 := le_antisymm (not_lt.mp hpin) (h.pin_nonneg f hin)
        have hid := h.mapped_pageId p f hf
        refine ⟨h.valid hin (fun hm => h.free_unmapped f hm p hf) h0, .inl ?_⟩
        show s.pageTable (s.pages f).pageId = some f
        rw [hid, hf]
      · cases hw

/-- **Exactly when a call's writes are as expected**, in any state that calls lead to. -/
theorem writesResident_iff [LawfulDiskManager Disk] {b : Build} {c : Call} {ret : Return} (h : s.Known)
    (hexec : s.exec b c = .ok (ret, s')) : WritesResident b s c s' ↔ s.WritesSafe c := by
  -- only `FlushAllPgsImp` has more to it than the ids of its writes
  have hnames : c ≠ .flushAllPgs → (WritesResident b s c s' ↔ ∀ w ∈ s.writes b c, NamesResident s s' w) :=
    fun hc => ⟨fun hw => hw.names, fun hw => ⟨hw, fun he => absurd he hc, fun he => absurd he hc⟩⟩
  cases c with
  | newPg => exact (hnames fun he => by cases he).trans (newPg_names_iff h hexec)
  | fetchPg p => exact (hnames fun he => by cases he).trans (fetchPg_names_iff h hexec)
  | unpinPg p d => exact (hnames fun he => by cases he).trans ⟨fun _ => trivial, fun _ w hw => by cases hw⟩
  | flushPg p => exact (hnames fun he => by cases he).trans ⟨fun _ => trivial, fun _ w hw => flushPg_names hw⟩
  | deletePg p => exact (hnames fun he => by cases he).trans ⟨fun _ => trivial, fun _ w hw => deletePg_names h hw⟩
  | flushAllPgs =>
    cases hexec
    constructor
    · exact fun hw => (flushAll_names_iff h).mp hw.names
    · intro hsafe
      obtain ⟨hread, hkept⟩ := flushAll_reads h.toConsistent hsafe.1 hsafe.2.1
      exact ⟨(flushAll_names_iff h).mpr hsafe, fun _ => hread, fun _ => hkept⟩

/-! ## Over whole runs -/

/-- **The runs of a pool that anybody may call**, with any arguments and however often: nothing is assumed of the
    ids fetched or of the counter. -/
def anyCalls (b : Build) (cfg : PoolConfig) (disk : Disk) :
    StepSystem (BufferPoolManagerInstance Disk Data) (Event Data) where
  init s := s = create cfg disk
  step s e s' := match e with
    | .call c ret => s.exec b c = .ok (ret, s')
    | .store f x => s' = s.setPage f { s.pages f with data := x }

variable {b : Build} {cfg : PoolConfig} {disk : Disk}

theorem Known.reachable (h : (anyCalls b cfg disk).Reachable s) : s.Known := by
  refine h.invariant (fun s hs => hs ▸ create_known cfg disk) fun s e s' hs hstep => ?_
  cases e with
  | call c ret => exact hs.step hstep
  | store f x =>
    obtain rfl := hstep
    exact hs.store f x

end BufferPoolManagerInstance

namespace Session

open BufferPoolManagerInstance

variable {Disk Data : Type} [DiskManager Disk Data] [Zero Data] {a : Session Disk Data}

/-- An exact value of the counter is no `INVALID_PAGE_ID`. -/
theorem exact_ne_invalid (i n j : Nat) : (i + n * j : Int) ≠ invalidPageId := by
  show (i + n * j : Int) ≠ -1
  have h0 : (0 : Int) ≤ i + n * j := by positivity
  omega

theorem Sound.created_ne_invalid (h : a.Sound) {p : PageId} (hp : p ∈ a.created) : p ≠ invalidPageId := by
  obtain ⟨j, -, rfl⟩ := h.created_lt p hp
  exact exact_ne_invalid _ _ j

/-- The pool of a session is one that anybody may call. -/
theorem Sound.known (h : a.Sound) : a.pool.Known where
  toConsistent := h.inv.toConsistent
  invalid_pinned f hf hnot hid := by
    have hmap := h.inv.backed f hf hnot
    exact absurd hid (h.created_ne_invalid (h.resident _ f hmap))

/-- A session's calls are safe, but for `FlushAllPgsImp` with a frame free. -/
theorem Sound.writesSafe_iff (h : a.Sound) (c : Call) :
    a.pool.WritesSafe c ↔ (c = .flushAllPgs → a.pool.freeList = []) := by
  have hnone : a.pool.pageTable invalidPageId = none := by
    rw [Option.eq_none_iff_forall_ne_some]
    exact fun f hf => h.created_ne_invalid (h.resident _ f hf) rfl
  have hacc : ∀ p f, a.pool.Evicts f → a.pool.Accounted p f := by
    intro p f hf
    obtain ⟨l, hl⟩ := hf.eq_append
    have hmem : f ∈ a.pool.replacer.tracked := by simp [hl]
    exact .inl (h.inv.backed f (h.inv.tracked_inPool f hmem) (by simp [hf.1]))
  cases c with
  | newPg =>
    refine ⟨fun _ he => (by cases he), fun _ _ => ⟨?_, fun f hf _ => hacc _ f hf⟩⟩
    -- the id to come is the exact value of the counter
    have hu : a.pool.nextPageId = a.pool.cfg.instanceIndex + a.pool.cfg.numInstances * a.created.length :=
      h.unwrapped
    rw [hu]
    exact exact_ne_invalid _ _ _
  | fetchPg p => exact ⟨fun _ he => (by cases he), fun _ _ f hf _ => hacc p f hf⟩
  | flushAllPgs => exact ⟨fun hs _ => hs.1, fun hs => ⟨hs rfl, h.inv.backed, hnone⟩⟩
  | _ => exact ⟨fun _ he => (by cases he), fun _ => trivial⟩

end Session

namespace BufferPoolManagerInstance

variable {Disk Data : Type} [DiskManager Disk Data] [Zero Data]

/-- **Disk writes name resident pages exactly when the call is safe.**  That is so in every state that any calls
    lead to; and for a caller that fetches only pages it created, with a counter that has not wrapped, the one
    unsafe call is `FlushAllPgsImp` while a frame is free. -/
theorem writes_resident_iff [LawfulDiskManager Disk] (b : Build) (cfg : PoolConfig) (disk : Disk) :
    (∀ (s : BufferPoolManagerInstance Disk Data) (c : Call) (ret : Return) (s' : BufferPoolManagerInstance Disk Data),
      (anyCalls b cfg disk).Reachable s → s.exec b c = .ok (ret, s') →
        (WritesResident b s c s' ↔ s.WritesSafe c)) ∧
    (∀ (a : Session Disk Data) (c : Call) (ret : Return) (s' : BufferPoolManagerInstance Disk Data),
      (Session.system b cfg disk).Reachable a → a.pool.exec b c = .ok (ret, s') →
        (WritesResident b a.pool c s' ↔ (c = .flushAllPgs → a.pool.freeList = []))) := by
  refine ⟨fun s c ret s' hs hexec => writesResident_iff (.reachable hs) hexec, fun a c ret s' ha hexec => ?_⟩
  have hsound := Session.Sound.reachable ha
  exact (writesResident_iff hsound.known hexec).trans (hsound.writesSafe_iff c)

/-- A session of two frames with page 0 in frame 1 and frame 0 free. -/
theorem onePage_reachable : (Session.system .debug (Session.fresh 2).pool.cfg fun _ => 0).Reachable
    ((Session.fresh 2).after .debug .newPg) :=
  (Session.fresh_reachable 2).step (e := .call .newPg (.page (some 1) 0))
    ⟨rfl, fun p hp => (by cases hp), rfl, by decide⟩

/-- Flushing page 0 there writes it and nothing else, which is safe; so is what any call without a free frame
    does. -/
theorem writes_resident_one : WritesResident .debug ((Session.fresh 2).after .debug .newPg).pool (.flushPg 0)
    (((Session.fresh 2).after .debug .newPg).after .debug (.flushPg 0)).pool :=
  ((writes_resident_iff .debug _ _).2 _ _ (.flag true) _ onePage_reachable rfl).mpr fun h => by cases h

/-- `FlushAllPgsImp` there writes frame 0, which is free, under the id -1. -/
theorem flushAll_writes_invalid : (Session.system .debug (Session.fresh 2).pool.cfg fun _ => 0).Reachable
      ((Session.fresh 2).after .debug .newPg) ∧
    ⟨0, invalidPageId, 0⟩ ∈ ((Session.fresh 2).after .debug .newPg).pool.writes .debug .flushAllPgs ∧
    ¬ WritesResident .debug ((Session.fresh 2).after .debug .newPg).pool .flushAllPgs
      (((Session.fresh 2).after .debug .newPg).after .debug .flushAllPgs).pool :=
  have hmem : ⟨0, invalidPageId, 0⟩ ∈ ((Session.fresh 2).after .debug .newPg).pool.writes .debug .flushAllPgs := by
    decide
  ⟨onePage_reachable, hmem, fun h => (h.names _ hmem).1 rfl⟩

end BufferPoolManagerInstance

end BusTub
