/-
  A pool on another disk.

  Several pools share one disk, and each of them is to be looked at as if the disk were its own.

  1. **`exec_withDisk`**: a call does the same on another disk, if the page that it may fetch is the same there, and it
     makes the same writes.

  2. **`Inv.writes_own`**: these writes are to resident pages, to the page that is created, and to what lies under
     `INVALID_PAGE_ID`.  All other pages stay as they are (`read_writes_of_ne`).
-/
import BusTub.Buffer.Writes

set_option linter.unusedSectionVars false

namespace BusTub

namespace BufferPoolManagerInstance

variable {Disk Data : Type} [DiskManager Disk Data] [Zero Data]
variable {s s' s₁ : BufferPoolManagerInstance Disk Data} {b : Build} {c : Call} {ret : Return}

/-! ## Writes in order -/

section reads

variable [LawfulDiskManager Disk] {ws : List (WriteCall Data)} {d d' : Disk} {p : PageId}

/-- Pages that are not written keep their contents. -/
theorem read_writes_of_ne (hne : ∀ w ∈ ws, w.pageId ≠ p) :
    DiskManager.readPage (ws.foldl WriteCall.on d) p = DiskManager.readPage d p := by
  induction ws generalizing d with
  | nil => rfl
  | cons w ws ih =>
    rw [List.foldl_cons, ih fun w' hw => hne w' (List.mem_cons_of_mem w hw)]
    exact LawfulDiskManager.read_write_of_ne _ _ (hne w List.mem_cons_self).symm

/-- A page that is the same on two disks is the same after the same writes. -/
theorem read_writes_congr (hsame : DiskManager.readPage d p = DiskManager.readPage d' p) :
    DiskManager.readPage (ws.foldl WriteCall.on d) p = DiskManager.readPage (ws.foldl WriteCall.on d') p := by
  induction ws generalizing d d' with
  | nil => exact hsame
  | cons w ws ih =>
    rw [List.foldl_cons, List.foldl_cons]
    refine ih ?_
    by_cases hp : p = w.pageId
    · subst hp
      exact (LawfulDiskManager.read_write_self _ _ _).trans (LawfulDiskManager.read_write_self _ _ _).symm
    · exact (LawfulDiskManager.read_write_of_ne _ _ hp).trans
        (hsame.trans (LawfulDiskManager.read_write_of_ne _ _ hp).symm)

end reads

/-! ## The methods -/

/-- A computation goes on with what its first part returned. -/
theorem bind_of_ok {ε α β : Type} {x : Except ε α} {f : α → Except ε β} {a : α} {y : Except ε β} (h : x = .ok a)
    (hy : f a = y) : (x >>= f) = y := by
  rw [h]
  exact hy

/-- The same pool, but for the disk. -/
def withDisk (s : BufferPoolManagerInstance Disk Data) (d : Disk) : BufferPoolManagerInstance Disk Data :=
  { s with disk := d }

/-- On its own disk the pool is what it is. -/
theorem withDisk_self {d : Disk} (h : s.disk = d) : s.withDisk d = s := by
  subst h
  rfl

/-- Writing a frame back is the same write on any disk. -/
theorem writeBack_withDisk (s : BufferPoolManagerInstance Disk Data) (d : Disk) (f : FrameId) :
    (s.withDisk d).writeBack f = (s.writeBackWrites f).foldl WriteCall.on d :=
  (foldl_writeBackWrites (s.withDisk d) f).symm

/-- Which frame is taken does not depend on the disk; a dirty victim is written to whichever disk there is. -/
theorem pickFrame_withDisk {f : FrameId} (h : s.pickFrame = .ok (f, s₁)) (d : Disk) :
    (s.withDisk d).pickFrame = .ok (f, s₁.withDisk (s.pickFrameWrites.foldl WriteCall.on d)) := by
  have hlist : (s.withDisk d).freeList = s.freeList := rfl
  have hlru : (s.withDisk d).replacer = s.replacer := rfl
  unfold pickFrame at h ⊢
  unfold pickFrameWrites
  rw [hlist, hlru]
  cases hg : s.freeList.getLast? with
  | some g =>
    simp only [hg] at h ⊢
    split at h
    · next hin =>
      cases h
      exact if_pos hin
    · cases h
  | none =>
    simp only [hg] at h ⊢
    obtain ⟨⟨res, g, r⟩, hv, h⟩ := except_bind_inv h
    simp only [hv, bind, Except.bind]
    simp only at h
    split at h
    · next hin =>
      cases h
      rw [← writeBack_withDisk]
      exact if_pos hin
    · cases h

/-- Ids are counted without looking at the disk. -/
theorem allocatePage_withDisk {p : PageId} (h : s.allocatePage b = .ok (p, s₁)) (d : Disk) :
    (s.withDisk d).allocatePage b = .ok (p, s₁.withDisk d) := by
  obtain ⟨u, hvalid, hret⟩ := except_bind_inv h
  cases hret
  have hvalid' : (s.withDisk d).bumped.validatePageId b s.nextPageId = .ok u := hvalid
  show (s.withDisk d).bumped.validatePageId b s.nextPageId >>= _ = _
  rw [hvalid']
  rfl

/-- `NewPgImp` writes and never reads, so it does the same on any disk. -/
theorem newPgImp_withDisk {q : PageId} {x : Option FrameId × PageId} (h : s.newPgImp b q = .ok (x, s')) (d : Disk) :
    (s.withDisk d).newPgImp b q = .ok (x, s'.withDisk ((s.newPgWrites b).foldl WriteCall.on d)) := by
  have hpages : (s.withDisk d).pages = s.pages := rfl
  have hcfg : (s.withDisk d).cfg = s.cfg := rfl
  have hlist : (s.withDisk d).freeList = s.freeList := rfl
  have hlru : (s.withDisk d).replacer = s.replacer := rfl
  unfold newPgImp at h ⊢
  unfold newPgWrites
  rw [hpages, hcfg, hlist, hlru]
  split at h
  · next hscan =>
    cases h
    rw [if_pos hscan, if_pos hscan]
    rfl
  · next hscan =>
    rw [if_neg hscan, if_neg hscan]
    split at h
    · next hempty =>
      cases h
      rw [if_pos hempty, if_pos hempty]
      rfl
    · next hempty =>
      rw [if_neg hempty, if_neg hempty]
      obtain ⟨⟨id, s₀⟩, halloc, h⟩ := except_bind_inv h
      obtain ⟨⟨g, s₁⟩, hpick, h⟩ := except_bind_inv h
      obtain ⟨r, hpin, h⟩ := except_bind_inv h
      cases h
      refine bind_of_ok (allocatePage_withDisk halloc d) (bind_of_ok (pickFrame_withDisk hpick d) (bind_of_ok hpin ?_))
      simp only [halloc, hpick, List.foldl_append, List.foldl_cons, List.foldl_nil, setPage_pages, Function.update_self]
      rfl

/-- `FetchPgImp` reads one page. On a disk on which that page is the same it does the same. -/
theorem fetchPgImp_withDisk [LawfulDiskManager Disk] {p : PageId} {f : Option FrameId}
    (h : s.fetchPgImp p = .ok (f, s')) {d : Disk} (hread : DiskManager.readPage d p = DiskManager.readPage s.disk p) :
    (s.withDisk d).fetchPgImp p = .ok (f, s'.withDisk ((s.fetchPgWrites p).foldl WriteCall.on d)) := by
  have htable : (s.withDisk d).pageTable = s.pageTable := rfl
  have hlist : (s.withDisk d).freeList = s.freeList := rfl
  have hlru : (s.withDisk d).replacer = s.replacer := rfl
  unfold fetchPgImp at h ⊢
  unfold fetchPgWrites
  rw [htable, hlist, hlru]
  cases hg : s.pageTable p with
  | some g =>
    simp only [hg] at h ⊢
    obtain ⟨r, hpin, h⟩ := except_bind_inv h
    cases h
    exact bind_of_ok hpin rfl
  | none =>
    simp only [hg] at h ⊢
    split at h
    · next hempty =>
      cases h
      rw [if_pos hempty, if_pos hempty]
      rfl
    · next hempty =>
      rw [if_neg hempty, if_neg hempty]
      obtain ⟨⟨g, s₁⟩, hpick, h⟩ := except_bind_inv h
      obtain ⟨r, hpin, h⟩ := except_bind_inv h
      cases h
      -- the victim is written back on both disks before the page is read
      have hsame : DiskManager.readPage (s.pickFrameWrites.foldl WriteCall.on d) p = DiskManager.readPage s₁.disk p := by
        rw [(pickFrame_disk hpick).1]
        exact read_writes_congr hread
      refine bind_of_ok (pickFrame_withDisk hpick d) ?_
      refine bind_of_ok hpin ?_
      rw [← hsame]
      rfl

/-- `DeletePgImp` may write the page back, and reads nothing. -/
theorem deletePgImp_withDisk {p : PageId} {res : Bool} (h : s.deletePgImp p = .ok (res, s')) (d : Disk) :
    (s.withDisk d).deletePgImp p = .ok (res, s'.withDisk ((s.deletePgWrites p).foldl WriteCall.on d)) := by
  have htable : (s.withDisk d).pageTable = s.pageTable := rfl
  have hpages : (s.withDisk d).pages = s.pages := rfl
  unfold deletePgImp at h ⊢
  unfold deletePgWrites
  rw [htable, hpages]
  cases hg : s.pageTable p with
  | none =>
    simp only [hg] at h ⊢
    cases h
    rfl
  | some g =>
    simp only [hg] at h ⊢
    split at h
    · next hpinned =>
      cases h
      rw [if_pos hpinned, if_pos hpinned]
      rfl
    · next hpinned =>
      rw [if_neg hpinned, if_neg hpinned, writeBack_withDisk]
      obtain ⟨r, hpin, h⟩ := except_bind_inv h
      cases h
      exact bind_of_ok hpin rfl

/-- `UnpinPgImp` does not touch the disk. -/
theorem unpinPgImp_withDisk {p : PageId} {dirty res : Bool} (h : s.unpinPgImp p dirty = .ok (res, s')) (d : Disk) :
    (s.withDisk d).unpinPgImp p dirty = .ok (res, s'.withDisk d) := by
  have htable : (s.withDisk d).pageTable = s.pageTable := rfl
  -- the last part runs on a pool that differs from `s` in the dirty flag of one frame
  have hrest : ∀ (t : BufferPoolManagerInstance Disk Data) (f : FrameId),
      ((if (t.pages f).pinCount = 0 then .ok (false, t)
        else
          let u := t.setPage f { t.pages f with pinCount := (t.pages f).pinCount - 1 }
          if (u.pages f).pinCount = 0 then do
            let r ← u.replacer.unpin f
            .ok (true, { u with replacer := r })
          else .ok (true, u)) : Except Fault _) = .ok (res, s') →
      ((if ((t.withDisk d).pages f).pinCount = 0 then .ok (false, t.withDisk d)
        else
          let u := (t.withDisk d).setPage f
            { (t.withDisk d).pages f with pinCount := ((t.withDisk d).pages f).pinCount - 1 }
          if (u.pages f).pinCount = 0 then do
            let r ← u.replacer.unpin f
            .ok (true, { u with replacer := r })
          else .ok (true, u)) : Except Fault _) = .ok (res, s'.withDisk d) := by
    intro t f hrun
    have hpages : (t.withDisk d).pages = t.pages := rfl
    rw [hpages]
    split at hrun
    · next h0 =>
      cases hrun
      exact if_pos h0
    · next h0 =>
      rw [if_neg h0]
      simp only [setPage_pages, Function.update_self] at hrun ⊢
      split at hrun
      · next hlast =>
        obtain ⟨r, hunpin, hrun⟩ := except_bind_inv hrun
        cases hrun
        exact (if_pos hlast).trans (bind_of_ok hunpin rfl)
      · next hlast =>
        cases hrun
        exact if_neg hlast
  unfold unpinPgImp at h ⊢
  rw [htable]
  split at h
  · next hp =>
    cases h
    exact if_pos hp
  · next hp =>
    rw [if_neg hp]
    split at h
    · next hg =>
      cases h
      rfl
    · next g hg =>
      cases dirty with
      | false => exact hrest s g h
      | true => exact hrest (s.setPage g { s.pages g with isDirty := true }) g h

/-- `FlushPgImp` makes its one write on any disk. -/
theorem flushPgImp_withDisk {p : PageId} {res : Bool} (h : s.flushPgImp p = .ok (res, s')) (d : Disk) :
    (s.withDisk d).flushPgImp p = .ok (res, s'.withDisk ((s.flushPgWrites p).foldl WriteCall.on d)) := by
  have htable : (s.withDisk d).pageTable = s.pageTable := rfl
  unfold flushPgImp at h ⊢
  unfold flushPgWrites
  rw [htable]
  split at h
  · next hp =>
    cases h
    rw [if_pos hp, if_pos hp]
    rfl
  · next hp =>
    rw [if_neg hp, if_neg hp]
    cases hg : s.pageTable p with
    | none =>
      simp only [hg] at h ⊢
      cases h
      rfl
    | some g =>
      simp only [hg] at h ⊢
      cases h
      rfl

/-- **A call does the same on another disk**, if a page that it fetches is the same there. -/
theorem exec_withDisk [LawfulDiskManager Disk] (h : s.exec b c = .ok (ret, s')) {d : Disk}
    (hread : ∀ p, c = .fetchPg p → DiskManager.readPage d p = DiskManager.readPage s.disk p) :
    (s.withDisk d).exec b c = .ok (ret, s'.withDisk ((s.writes b c).foldl WriteCall.on d)) := by
  cases c with
  | newPg =>
    obtain ⟨x, hrun, h⟩ := except_bind_inv h
    cases h
    exact bind_of_ok (newPgImp_withDisk hrun d) rfl
  | fetchPg p =>
    obtain ⟨x, hrun, h⟩ := except_bind_inv h
    cases h
    exact bind_of_ok (fetchPgImp_withDisk hrun (hread p rfl)) rfl
  | unpinPg p dirty =>
    obtain ⟨x, hrun, h⟩ := except_bind_inv h
    cases h
    exact bind_of_ok (unpinPgImp_withDisk hrun d) rfl
  | flushPg p =>
    obtain ⟨x, hrun, h⟩ := except_bind_inv h
    cases h
    exact bind_of_ok (flushPgImp_withDisk hrun d) rfl
  | flushAllPgs =>
    cases h
    show Except.ok (_, { s.withDisk d with disk := flushFrames s.pages s.cfg.poolSize 0 d }) = _
    rw [flushFrames_eq, ← List.range_eq_range']
    rfl
  | deletePg p =>
    obtain ⟨x, hrun, h⟩ := except_bind_inv h
    cases h
    exact bind_of_ok (deletePgImp_withDisk hrun d) rfl

/-! ## Which pages are written -/

/-- A frame is written under the id of the page that it holds. -/
theorem Consistent.ownWrite_own (h : s.Consistent) (hb : s.Backed) {f : FrameId} (hf : s.inPool f) :
    (s.ownWrite f).pageId = invalidPageId ∨ s.pageTable (s.ownWrite f).pageId = some f := by
  by_cases hfree : f ∈ s.freeList
  · exact .inl (h.free_meta f hfree).2.2
  · exact .inr (hb f hf hfree)

/-- The victim's write is to a page that is resident, or under `INVALID_PAGE_ID`. -/
theorem Consistent.pickFrame_own (h : s.Consistent) (hb : s.Backed) {f : FrameId} (hpick : s.pickFrame = .ok (f, s₁)) :
    ∀ w ∈ s.pickFrameWrites, w.pageId = invalidPageId ∨ s.pageTable w.pageId ≠ none := by
  intro w hw
  unfold pickFrame at hpick
  unfold pickFrameWrites at hw
  split at hw
  · cases hw
  · next hg =>
    rw [hg] at hpick
    obtain ⟨⟨res, g, r⟩, hv, hpick⟩ := except_bind_inv hpick
    rw [hv] at hw
    simp only at hpick hw
    split at hpick
    · next hin =>
      unfold writeBackWrites at hw
      split at hw
      · rw [List.mem_singleton] at hw
        rw [hw]
        refine (h.ownWrite_own hb hin).imp_right fun hp => ?_
        rw [hp]
        exact Option.some_ne_none _
      · cases hw
    · cases hpick

/-- **A call writes the pool's own pages**, and what lies under `INVALID_PAGE_ID`. -/
theorem Inv.writes_own (h : s.Inv) (hexec : s.exec b c = .ok (ret, s')) : ∀ w ∈ s.writes b c,
    w.pageId = invalidPageId ∨ w.pageId = s.nextPageId ∨ s.pageTable w.pageId ≠ none := by
  cases c with
  | newPg =>
    intro w hw
    replace hw : w ∈ s.newPgWrites b := hw
    unfold newPgWrites at hw
    split at hw
    · cases hw
    · split at hw
      · cases hw
      · split at hw
        · cases hw
        · next id s₀ halloc =>
          have hs₀ : id = s.nextPageId ∧ s₀ = s.bumped := by
            rcases allocatePage_eq b s with he | he
            · rw [halloc] at he
              cases he
              exact ⟨rfl, rfl⟩
            · rw [halloc] at he
              cases he
          obtain ⟨rfl, rfl⟩ := hs₀
          split at hw
          · cases hw
          · next g s₁ hpick =>
            -- the victim's write, then the new page's own
            rcases List.mem_append.mp hw with hw | hw
            · have hb : s.bumped.Consistent := { h.toConsistent with }
              exact (hb.pickFrame_own h.backed hpick w hw).imp_right .inr
            · rw [List.mem_singleton] at hw
              rw [hw]
              exact .inr (.inl rfl)
  | fetchPg p =>
    obtain ⟨x, hrun, -⟩ := except_bind_inv hexec
    intro w hw
    replace hw : w ∈ s.fetchPgWrites p := hw
    unfold fetchPgImp at hrun
    unfold fetchPgWrites at hw
    split at hw
    · cases hw
    · next hg =>
      rw [hg] at hrun
      split at hw
      · cases hw
      · next hsome =>
        rw [if_neg hsome] at hrun
        obtain ⟨⟨g, s₁⟩, hpick, -⟩ := except_bind_inv hrun
        exact (h.pickFrame_own h.backed hpick w hw).imp_right .inr
  | unpinPg p dirty => exact fun w hw => (by cases hw)
  | flushPg p =>
    intro w hw
    replace hw : w ∈ s.flushPgWrites p := hw
    unfold flushPgWrites at hw
    split at hw
    · cases hw
    · split at hw
      · cases hw
      · next g hg =>
        rw [List.mem_singleton] at hw
        refine .inr (.inr ?_)
        rw [hw, hg]
        exact Option.some_ne_none _
  | flushAllPgs =>
    intro w hw
    obtain ⟨k, hk, rfl⟩ := List.mem_map.mp hw
    -- every frame is written, a free one under `INVALID_PAGE_ID`
    refine (h.ownWrite_own h.backed ⟨Int.natCast_nonneg k, ?_⟩).imp_right fun hp => .inr ?_
    · exact_mod_cast List.mem_range.mp hk
    · rw [hp]
      exact Option.some_ne_none _
  | deletePg p =>
    intro w hw
    replace hw : w ∈ s.deletePgWrites p := hw
    unfold deletePgWrites at hw
    split at hw
    · cases hw
    · next g hg =>
      split at hw
      · cases hw
      · unfold writeBackWrites at hw
        split at hw
        · rw [List.mem_singleton] at hw
          refine .inr (.inr ?_)
          rw [hw]
          -- the id comes from the frame, where the page table leads
          show s.pageTable (s.pages g).pageId ≠ none
          rw [h.mapped_pageId p g hg, hg]
          exact Option.some_ne_none _
        · cases hw

end BufferPoolManagerInstance

end BusTub
