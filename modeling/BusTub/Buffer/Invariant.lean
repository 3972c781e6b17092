/-
  The buffer pool's invariant over whole runs.

  `Session` is a pool together with the ids `NewPgImp` has returned so far.  Its steps are the
  calls of the pool's methods with any arguments, restricted as the callers are: only ids in
  `created` are fetched, and the id counter still has its exact value (it has not wrapped).  The
  owner of a frame's bytes may also store into it at any time (`Event.store`).

  1. `Consistent.step` — the undisciplined part of the invariant survives every outcome of
     `Effect`.
  2. `Inv` adds what the discipline buys: no frame is orphaned (`backed`), because a resident page
     never gets a fresh id (`past`: the counter is beyond it for ever).
  3. `frames_partitioned` — **the main result**: in every reachable state each frame is in the
     free list exactly once or the target of exactly one page-table entry, and the replacer tracks
     exactly the mapped frames with pin count 0.
-/
import BusTub.Buffer.Effect
import BusTub.Lib.StepSystem
import Mathlib.Tactic.Linarith
import Mathlib.Tactic.Ring

set_option linter.unusedSectionVars false

namespace BusTub

namespace BufferPoolManagerInstance

variable {Disk Data : Type} [DiskManager Disk Data] [Zero Data]
variable {s s' s₁ : BufferPoolManagerInstance Disk Data} {c : Call} {ret : Return}

/-! ## `Consistent` survives every outcome -/

theorem Replaced.refl (h : s.replacer.Inv) : s.Replaced s.replacer.tracked s.replacer := ⟨h, rfl, rfl⟩

/-- Changing the metadata of one mapped frame, and whether it is tracked, as long as it is tracked
    exactly when its pin count is 0. -/
theorem Consistent.touch (h : s.Consistent) {p : PageId} {f : FrameId}
    (hp : s.pageTable p = some f) (pg : Page Data) (hid : pg.pageId = (s.pages f).pageId)
    (hnn : 0 ≤ pg.pinCount) {l : List FrameId} {r : LRUReplacer} (hr : s.Replaced l r)
    (hl : ∀ g, g ≠ f → (g ∈ l ↔ g ∈ s.replacer.tracked)) (hf : f ∈ l ↔ pg.pinCount = 0) :
    Consistent { s.setPage f pg with replacer := r } := by
  -- a mapped frame is not free, so the free list is not concerned
  have hfree : ∀ g ∈ s.freeList, g ≠ f := fun g hg he => h.free_unmapped g hg p (he ▸ hp)
  have hmem : ∀ g, g ∈ r.tracked → (g = f ∧ pg.pinCount = 0) ∨ (g ≠ f ∧ g ∈ s.replacer.tracked) := by
    intro g hg
    rw [hr.tracked] at hg
    by_cases he : g = f
    · exact .inl ⟨he, hf.mp (he ▸ hg)⟩
    · exact .inr ⟨he, (hl g he).mp hg⟩
  exact
    { lru := hr.lru
      capacity := hr.capacity.trans h.capacity
      free_nodup := h.free_nodup
      free_inPool := h.free_inPool
      free_meta := fun g hg => by simpa [hfree g hg] using h.free_meta g hg
      free_unmapped := h.free_unmapped
      free_untracked := fun g hg ht =>
        (hmem g ht).elim (fun h' => hfree g hg h'.1) (fun h' => h.free_untracked g hg h'.2)
      mapped_inPool := h.mapped_inPool
      mapped_pageId := fun q g hq => by
        by_cases he : g = f
        · simpa [he, hid] using h.mapped_pageId q f (he ▸ hq)
        · simpa [he] using h.mapped_pageId q g hq
      mapped_tracked := fun q g hq h0 => by
        show g ∈ r.tracked
        rw [hr.tracked]
        by_cases he : g = f
        · subst he
          exact hf.mpr (by simpa [setPage] using h0)
        · exact (hl g he).mpr (h.mapped_tracked q g hq (by simpa [he] using h0))
      tracked_inPool := fun g ht => by
        rcases hmem g ht with ⟨rfl, -⟩ | ⟨-, ht⟩
        · exact h.mapped_inPool p g hp
        · exact h.tracked_inPool g ht
      tracked_unpinned := fun g ht => by
        rcases hmem g ht with ⟨rfl, h0⟩ | ⟨he, ht⟩
        · simpa [setPage] using h0
        · simpa [he] using h.tracked_unpinned g ht
      pin_nonneg := fun g hg => by
        by_cases he : g = f
        · simpa [he] using hnn
        · simpa [he] using h.pin_nonneg g hg }

/-- Bytes alone may change in any frame. -/
theorem Consistent.store (h : s.Consistent) (f : FrameId) (x : Data) :
    (s.setPage f { s.pages f with data := x }).Consistent := by
  have hpin : ∀ g, ((s.setPage f { s.pages f with data := x }).pages g).pinCount = (s.pages g).pinCount ∧
      ((s.setPage f { s.pages f with data := x }).pages g).isDirty = (s.pages g).isDirty ∧
      ((s.setPage f { s.pages f with data := x }).pages g).pageId = (s.pages g).pageId := by
    intro g
    by_cases he : g = f <;> simp [he]
  exact { h with
    free_meta := fun g hg => by
      obtain ⟨h1, h2, h3⟩ := hpin g
      rw [h1, h2, h3]
      exact h.free_meta g hg
    mapped_pageId := fun q g hq => (hpin g).2.2.trans (h.mapped_pageId q g hq)
    mapped_tracked := fun q g hq h0 => h.mapped_tracked q g hq ((hpin g).1 ▸ h0)
    tracked_unpinned := fun g hg => (hpin g).1.trans (h.tracked_unpinned g hg)
    pin_nonneg := fun g hg => (hpin g).1 ▸ h.pin_nonneg g hg }

theorem Consistent.delete (h : s.Consistent) {p : PageId} {f : FrameId}
    (hp : s.pageTable p = some f) {r : LRUReplacer}
    (hr : s.Replaced (s.replacer.tracked.filter (· ≠ f)) r) (d : Disk) :
    Consistent { s with
      pages := Function.update s.pages f blankPage
      disk := d
      replacer := r
      freeList := s.freeList ++ [f]
      pageTable := Function.update s.pageTable p none } := by
  -- the frame is mapped, so it is not free yet; afterwards it is free and nothing else
  have hfree : ∀ g ∈ s.freeList, g ≠ f := fun g hg he => h.free_unmapped g hg p (he ▸ hp)
  have hmap : ∀ q g, Function.update s.pageTable p none q = some g →
      s.pageTable q = some g ∧ g ≠ f := by
    intro q g hq
    by_cases hqp : q = p
    · simp [hqp] at hq
    · rw [Function.update_of_ne hqp] at hq
      exact ⟨hq, fun he => hqp (h.mapped_inj (he ▸ hq) hp)⟩
  have hmem : ∀ g, g ∈ r.tracked ↔ g ∈ s.replacer.tracked ∧ g ≠ f := by
    intro g
    rw [hr.tracked]
    simp
  have hcase : ∀ g, g ∈ s.freeList ++ [f] → g ∈ s.freeList ∨ g = f := by
    intro g hg
    simpa using hg
  exact
    { lru := hr.lru
      capacity := hr.capacity.trans h.capacity
      free_nodup := by
        rw [List.nodup_append]
        refine ⟨h.free_nodup, List.nodup_singleton f, fun a ha b hb => ?_⟩
        rw [List.mem_singleton.mp hb]
        exact hfree a ha
      free_inPool := fun g hg => by
        rcases hcase g hg with hg | rfl
        · exact h.free_inPool g hg
        · exact h.mapped_inPool p g hp
      free_meta := fun g hg => by
        rcases hcase g hg with hg | rfl
        · simpa [hfree g hg] using h.free_meta g hg
        · simp [blankPage]
      free_unmapped := fun g hg q hq => by
        obtain ⟨hq, hne⟩ := hmap q g hq
        exact h.free_unmapped g ((hcase g hg).resolve_right hne) q hq
      free_untracked := fun g hg ht => by
        obtain ⟨ht, hne⟩ := (hmem g).mp ht
        exact h.free_untracked g ((hcase g hg).resolve_right hne) ht
      mapped_inPool := fun q g hq => h.mapped_inPool q g (hmap q g hq).1
      mapped_pageId := fun q g hq => by
        simpa [(hmap q g hq).2] using h.mapped_pageId q g (hmap q g hq).1
      mapped_tracked := fun q g hq h0 => by
        obtain ⟨hq, hne⟩ := hmap q g hq
        exact (hmem g).mpr ⟨h.mapped_tracked q g hq (by simpa [hne] using h0), hne⟩
      tracked_inPool := fun g ht => h.tracked_inPool g ((hmem g).mp ht).1
      tracked_unpinned := fun g ht => by
        obtain ⟨ht, hne⟩ := (hmem g).mp ht
        simpa [hne] using h.tracked_unpinned g ht
      pin_nonneg := fun g hg => by
        by_cases he : g = f
        · simp [he, blankPage]
        · simpa [he] using h.pin_nonneg g hg }

/-- **The undisciplined invariant survives every call.** -/
theorem Consistent.step (h : s.Consistent) (he : s.Effect c ret s') : s'.Consistent := by
  cases he with
  | newFull => exact h
  | new hpick hr =>
    have hb : s.bumped.Consistent := { h with }
    obtain ⟨hs₁, hf⟩ := hpick.spec hb
    exact hs₁.install hf hr _ _ _
  | @fetchHit p f r hp hr =>
    have hnn := h.pin_nonneg f (h.mapped_inPool p f hp)
    refine h.touch hp { s.pages f with pinCount := (s.pages f).pinCount + 1 } rfl
      (Int.add_nonneg hnn Int.one_nonneg) hr (fun g hg => by simp [hg]) ?_
    simp
    omega
  | fetchFull => exact h
  | fetchMiss hp hpick hr =>
    obtain ⟨hs₁, hf⟩ := hpick.spec h
    exact hs₁.install hf hr _ _ _
  | unpinAbsent => exact h
  | @unpinZero p d f hp h0 =>
    have hf := h.mapped_tracked p f hp h0
    exact h.touch hp { s.pages f with isDirty := d || (s.pages f).isDirty } rfl (by simp [h0])
      (.refl h.lru) (fun g hg => Iff.rfl) (by simp [hf, h0])
  | @unpin p d f hp h0 h1 =>
    have hnn := h.pin_nonneg f (h.mapped_inPool p f hp)
    have hf : f ∉ s.replacer.tracked := fun hf => h0 (h.tracked_unpinned f hf)
    have h2 : 0 < (s.pages f).pinCount - 1 := by omega
    exact h.touch hp { s.pages f with
      isDirty := d || (s.pages f).isDirty, pinCount := (s.pages f).pinCount - 1 } rfl
      (Int.le_of_lt h2) (.refl h.lru) (fun g hg => Iff.rfl) (by simp [hf, Int.ne_of_gt h2])
  | @unpinLast p d f r hp h1 hr =>
    exact h.touch hp { s.pages f with isDirty := d || (s.pages f).isDirty, pinCount := 0 } rfl
      (Int.le_refl 0) hr (fun g hg => by simp [hg]) (by simp)
  | flushAbsent => exact h
  | flush hp => exact { h with }
  | flushAll => exact { h with }
  | deleteAbsent => exact h
  | deletePinned => exact h
  | delete hp h0 hr => exact h.delete hp hr _

/-! ## The invariant of disciplined callers -/

/-- The id counter is beyond `p` for ever: `p` is none of the ids still to come. -/
def Past (s : BufferPoolManagerInstance Disk Data) (p : PageId) : Prop :=
  ∀ j : Nat, p ≠ s.nextPageId + j * s.cfg.numInstances

/-- Every frame out of the free list is the one its page's entry names: no frame is orphaned. -/
def Backed (s : BufferPoolManagerInstance Disk Data) : Prop :=
  ∀ f, s.inPool f → f ∉ s.freeList → s.pageTable (s.pages f).pageId = some f

/-- The pool's invariant when no page is fetched before the id counter is past it. -/
structure Inv (s : BufferPoolManagerInstance Disk Data) : Prop extends Consistent s where
  backed : s.Backed
  past : ∀ p f, s.pageTable p = some f → s.Past p

/-- The ids a call returns to the caller for the first time. -/
def newIds : Call → Return → List PageId
  | .newPg, .page (some _) p => [p]
  | _, _ => []

/-- Distinct calls of `AllocatePage` keep their exact values: the counter did not wrap. -/
def CountsOn (s : BufferPoolManagerInstance Disk Data) (c : Call) (ret : Return)
    (s' : BufferPoolManagerInstance Disk Data) : Prop :=
  s'.nextPageId = s.nextPageId + s.cfg.numInstances * (newIds c ret).length

theorem stride_pos (s : BufferPoolManagerInstance Disk Data) : 0 < s.cfg.numInstances :=
  Nat.lt_of_le_of_lt (Nat.zero_le _) s.cfg.index_lt

theorem create_inv (cfg : PoolConfig) (disk : Disk) :
    (create cfg disk : BufferPoolManagerInstance Disk Data).Inv where
  toConsistent := create_consistent cfg disk
  backed f hf hnot := by
    obtain ⟨h0, h1⟩ := hf
    obtain ⟨i, rfl⟩ := Int.eq_ofNat_of_zero_le h0
    exact absurd (List.mem_map.mpr ⟨i, List.mem_range.mpr (Int.ofNat_lt.mp h1), rfl⟩) hnot
  past p f h := by simp [create] at h

/-- An id in the past stays there, and an id just handed out is there. -/
theorem CountsOn.past (hcount : s.CountsOn c ret s') (hcfg : s'.cfg = s.cfg) {q : PageId}
    (hq : s.Past q ∨ (newIds c ret = [s.nextPageId] ∧ q = s.nextPageId)) : s'.Past q := by
  intro j
  unfold CountsOn at hcount
  rw [hcount, hcfg]
  rcases hq with hq | ⟨hn, rfl⟩
  · refine fun he => hq (j + (newIds c ret).length) (he.trans ?_)
    push_cast
    ring
  · have h0 : (0 : Int) ≤ j * s.cfg.numInstances := by positivity
    have h1 : (0 : Int) < s.cfg.numInstances := by exact_mod_cast s.stride_pos
    rw [hn]
    exact ne_of_lt (by simp; linarith)

theorem Picked.frame {f : FrameId} (h : s.Picked f s₁) :
    s₁.cfg = s.cfg ∧ s₁.pages = s.pages ∧ s₁.nextPageId = s.nextPageId := by
  cases h <;> exact ⟨rfl, rfl, rfl⟩

/-- `pickFrame` only takes entries out of the page table. -/
theorem Picked.mapped {f : FrameId} (h : s.Picked f s₁) {p : PageId} {g : FrameId}
    (hp : s₁.pageTable p = some g) : s.pageTable p = some g := by
  cases h with
  | free => exact hp
  | victim =>
    by_cases he : p = (s.pages f).pageId
    · simp [he] at hp
    · simpa [he] using hp

/-- Every frame but the one taken keeps its page and its entry. -/
theorem Picked.backed (h : s.Consistent) (hb : s.Backed) {f : FrameId} (hpick : s.Picked f s₁) {g : FrameId}
    (hg : s.inPool g) (hnot : g ∉ s₁.freeList) (hne : g ≠ f) :
    s.pageTable (s.pages g).pageId = some g ∧ s₁.pageTable (s.pages g).pageId = some g := by
  cases hpick with
  | @free l f hl =>
    have hnot' : g ∉ s.freeList := by
      rw [hl, List.mem_append, List.mem_singleton]
      exact fun hm => hm.elim hnot hne
    exact ⟨hb g hg hnot', hb g hg hnot'⟩
  | @victim l f r hfree hl hr =>
    have hgt := hb g hg (by simp [hfree])
    have hf : s.inPool f := h.tracked_inPool f (by simp [hl])
    have hft := hb f hf (by simp [hfree])
    have hid : (s.pages g).pageId ≠ (s.pages f).pageId := fun he => by
      rw [he, hft, Option.some.injEq] at hgt
      exact hne hgt.symm
    exact ⟨hgt, by simpa [hid] using hgt⟩

/-- The entry that a frame has belongs to its page id. -/
theorem Backed.setPage (h : s.Backed) {f : FrameId} {pg : Page Data} (hid : pg.pageId = (s.pages f).pageId) :
    (s.setPage f pg).Backed := by
  intro g hg hnot
  by_cases he : g = f
  · simpa [he, hid] using h f (he ▸ hg) (he ▸ hnot)
  · simpa [he] using h g hg hnot

/-- Giving the taken frame to a page that is not resident keeps every frame backed. -/
theorem Inv.install (h : s.Inv) {f : FrameId} (hpick : s.Picked f s₁) {p : PageId}
    (hp : s.pageTable p = none) {r : LRUReplacer} (hr : s₁.Replaced s₁.replacer.tracked r) (x : Data)
    (d : Disk) (hpast : ∀ q, q = p ∨ s.Past q → (s₁.install f p x r d).Past q) :
    (s₁.install f p x r d).Inv := by
  obtain ⟨hs₁, hf⟩ := hpick.spec h.toConsistent
  obtain ⟨hcfg, hpages, -⟩ := hpick.frame
  refine { hs₁.install hf hr p x d with backed := fun g hg hnot => ?_, past := fun q g hq => ?_ }
  · by_cases he : g = f
    · simp [he]
    · -- another frame keeps its entry, since `p` had none
      have hg' : s.inPool g := by simpa [inPool, hcfg] using hg
      obtain ⟨hold, hnew⟩ := hpick.backed h.toConsistent h.backed hg' hnot he
      have hne : (s.pages g).pageId ≠ p := fun h' => by simp [h', hp] at hold
      simpa [he, hpages, hne] using hnew
  · refine hpast q ?_
    by_cases he : q = p
    · exact .inl he
    · refine .inr (h.past q g (hpick.mapped ?_))
      simpa [he] using hq

theorem Inv.next_absent (h : s.Inv) : s.pageTable s.nextPageId = none := by
  rw [Option.eq_none_iff_forall_ne_some]
  exact fun g hg => h.past _ g hg 0 (by simp)

/-- **The invariant survives every call of a disciplined caller.** -/
theorem Inv.step (h : s.Inv) (he : s.Effect c ret s')
    (hfetch : ∀ p, c = .fetchPg p → s.Past p) (hcount : s.CountsOn c ret s') : s'.Inv := by
  have hs' := h.toConsistent.step he
  cases he with
  | newFull => exact h
  | @new f s₁ r hpick hr =>
    have hb : s.bumped.Consistent := { h.toConsistent with }
    obtain ⟨hcfg, hpages, hnext⟩ := hpick.frame
    have hnone := h.next_absent
    -- An id in the past of the old counter is in the past of the new one.
    have hmono : ∀ q, q = s.nextPageId ∨ s.Past q → s.bumped.Past q := by
      intro q hq
      have hcount' : s.CountsOn .newPg (.page (some f) s.nextPageId) s.bumped :=
        hnext.symm.trans hcount
      exact hcount'.past rfl (hq.symm.imp id fun he => ⟨rfl, he⟩)
    have hbinv : s.bumped.Inv :=
      { hb with backed := h.backed, past := fun q g hq => hmono q (.inr (h.past q g hq)) }
    refine hbinv.install hpick hnone hr _ _ fun q hq => ?_
    have hq' : s.bumped.Past q := hq.elim (fun he => hmono q (.inl he)) id
    simpa [Past, hcfg, hnext] using hq'
  | fetchHit => exact { hs' with backed := Backed.setPage h.backed rfl, past := h.past }
  | fetchFull => exact h
  | @fetchMiss p f s₁ r hp hpick hr =>
    obtain ⟨hcfg, -, hnext⟩ := hpick.frame
    refine h.install hpick hp hr _ _ fun q hq => ?_
    have hq' : s.Past q := hq.elim (fun he => he ▸ hfetch p rfl) id
    simpa [Past, hcfg, hnext] using hq'
  | unpinAbsent => exact h
  | unpinZero => exact { hs' with backed := Backed.setPage h.backed rfl, past := h.past }
  | unpin => exact { hs' with backed := Backed.setPage h.backed rfl, past := h.past }
  | unpinLast => exact { hs' with backed := Backed.setPage h.backed rfl, past := h.past }
  | flushAbsent => exact h
  | flush => exact { hs' with backed := h.backed, past := h.past }
  | flushAll => exact { hs' with backed := h.backed, past := h.past }
  | deleteAbsent => exact h
  | deletePinned => exact h
  | @delete p f r hp h0 hr =>
    refine { hs' with backed := fun g hg hnot => ?_, past := fun q g hq => ?_ }
    · have hne : g ≠ f := fun he => hnot (by simp [he])
      have hg' := h.backed g hg fun hm => hnot (by simp [hm])
      have hid : (s.pages g).pageId ≠ p := fun hid => by
        rw [hid, hp, Option.some.injEq] at hg'
        exact hne hg'.symm
      simpa [hne, hid] using hg'
    · by_cases he : q = p
      · simp [he] at hq
      · exact h.past q g (by simpa [he] using hq)

/-- Bytes alone may change in any frame. -/
theorem Inv.store (h : s.Inv) (f : FrameId) (x : Data) :
    (s.setPage f { s.pages f with data := x }).Inv :=
  { h.toConsistent.store f x with
    backed := Backed.setPage h.backed rfl
    past := h.past }

end BufferPoolManagerInstance

open BufferPoolManagerInstance

/-! ## Runs of a pool -/

/-- A pool and the ids its `NewPgImp` has returned so far. -/
structure Session (Disk Data : Type) where
  created : List PageId
  pool : BufferPoolManagerInstance Disk Data

/-- One step of a session: a call with what it returned, or a store into a frame's bytes by whoever
    holds a pointer to it. -/
inductive Event (Data : Type) where
  | call (c : Call) (ret : Return)
  | store (f : FrameId) (x : Data)

namespace Session

variable {Disk Data : Type} [DiskManager Disk Data] [Zero Data]

/-- The id counter has not wrapped: it has the value that exact arithmetic gives it. -/
def Unwrapped (a : Session Disk Data) : Prop :=
  a.pool.nextPageId = a.pool.cfg.instanceIndex + a.pool.cfg.numInstances * a.created.length

instance (a : Session Disk Data) : Decidable a.Unwrapped := by
  unfold Unwrapped; infer_instance

/-- The runs of a fresh pool: any calls with any arguments, except that only ids returned by
    `NewPgImp` earlier are fetched, as long as the id counter has not wrapped. -/
def system (b : Build) (cfg : PoolConfig) (disk : Disk) : StepSystem (Session Disk Data) (Event Data) where
  init a := a = ⟨[], create cfg disk⟩ ∧ a.Unwrapped
  step a e a' :=
    match e with
    | .call c ret =>
      a.pool.exec b c = .ok (ret, a'.pool) ∧ (∀ p, c = .fetchPg p → p ∈ a.created) ∧
        a'.created = a.created ++ newIds c ret ∧ a'.Unwrapped
    | .store f x => a' = ⟨a.created, a.pool.setPage f { a.pool.pages f with data := x }⟩

/-- What holds in every state of a run: the pool's invariant, the exact counter, and every id in
    `created` is an earlier value of the counter. -/
structure Sound (a : Session Disk Data) : Prop where
  inv : a.pool.Inv
  unwrapped : a.Unwrapped
  created_lt : ∀ p ∈ a.created, ∃ j < a.created.length,
    p = (a.pool.cfg.instanceIndex + a.pool.cfg.numInstances * j : Int)
  resident : ∀ p f, a.pool.pageTable p = some f → p ∈ a.created

/-- An id returned earlier is never handed out again. -/
theorem Sound.past {a : Session Disk Data} (h : a.Sound) {p : PageId} (hp : p ∈ a.created) :
    a.pool.Past p := by
  obtain ⟨i, hi, rfl⟩ := h.created_lt p hp
  intro j he
  have hu := h.unwrapped
  unfold Unwrapped at hu
  have hn : (0 : Int) < a.pool.cfg.numInstances := by exact_mod_cast a.pool.stride_pos
  have hmul : (a.pool.cfg.numInstances : Int) * (a.created.length + j - i) = 0 := by
    rw [hu] at he
    linarith
  have hlt : (i : Int) < a.created.length := by exact_mod_cast hi
  rcases Int.mul_eq_zero.mp hmul with h0 | h0 <;> omega

theorem effect_cfg {s s' : BufferPoolManagerInstance Disk Data} {c : Call} {ret : Return}
    (he : s.Effect c ret s') : s'.cfg = s.cfg := by
  cases he with
  | new hpick hr => exact hpick.frame.1
  | fetchMiss hp hpick hr => exact hpick.frame.1
  | _ => rfl

/-- A page becomes resident only by being created or fetched. -/
theorem effect_resident {s s' : BufferPoolManagerInstance Disk Data} {c : Call} {ret : Return}
    (he : s.Effect c ret s') {p : PageId} {f : FrameId} (hp : s'.pageTable p = some f) :
    (∃ g, s.pageTable p = some g) ∨ p ∈ newIds c ret ∨ c = .fetchPg p := by
  have hinstall : ∀ {t t₁ : BufferPoolManagerInstance Disk Data} {g : FrameId} {q : PageId},
      t.Picked g t₁ → Function.update t₁.pageTable q (some g) p = some f →
      p = q ∨ t.pageTable p = some f := by
    intro t t₁ g q hpick hpq
    by_cases he : p = q
    · exact .inl he
    · exact .inr (hpick.mapped (by simpa [he] using hpq))
  cases he with
  | new hpick hr =>
    rcases hinstall hpick hp with rfl | hp
    · exact .inr (.inl (by simp [newIds]))
    · exact .inl ⟨f, hp⟩
  | fetchMiss hq hpick hr =>
    rcases hinstall hpick hp with rfl | hp
    · exact .inr (.inr rfl)
    · exact .inl ⟨f, hp⟩
  | @delete q g r hq h0 hr =>
    by_cases he : p = q
    · simp [he] at hp
    · exact .inl ⟨f, by simpa [he] using hp⟩
  | _ => exact .inl ⟨f, hp⟩

/-- The id a call returns for the first time is the counter's value. -/
theorem newIds_eq {s s' : BufferPoolManagerInstance Disk Data} {c : Call} {ret : Return}
    (he : s.Effect c ret s') : newIds c ret = [] ∨ newIds c ret = [s.nextPageId] := by
  cases he with
  | new hpick hr => exact .inr rfl
  | _ => exact .inl rfl

variable {b : Build} {cfg : PoolConfig} {disk : Disk}

theorem Sound.init {a : Session Disk Data} (h : (system b cfg disk).init a) : a.Sound := by
  obtain ⟨rfl, hu⟩ := h
  exact ⟨create_inv cfg disk, hu, by simp, fun p f hp => by simp [create] at hp⟩

/-- **Every step of a run keeps the session sound.** -/
theorem Sound.step {a a' : Session Disk Data} {e : Event Data} (h : a.Sound)
    (hstep : (system b cfg disk).step a e a') : a'.Sound := by
  cases e with
  | store f x =>
    obtain rfl := hstep
    exact ⟨h.inv.store f x, h.unwrapped, h.created_lt, h.resident⟩
  | call c ret =>
    obtain ⟨hexec, hfetch, hcreated, hu⟩ := hstep
    have he := exec_effect h.inv.toConsistent hexec
    have hcfg := effect_cfg he
    have hu₀ := h.unwrapped
    have hcount : a.pool.CountsOn c ret a'.pool := by
      unfold Unwrapped at hu hu₀
      unfold CountsOn
      rw [hu, hu₀, hcreated, hcfg, List.length_append]
      push_cast
      ring
    refine ⟨h.inv.step he (fun p hp => h.past (hfetch p hp)) hcount, hu, fun p hp => ?_,
      fun p f hp => ?_⟩
    · rw [hcreated, List.mem_append] at hp
      rw [hcreated, hcfg, List.length_append]
      rcases hp with hp | hp
      · obtain ⟨j, hj, hpj⟩ := h.created_lt p hp
        exact ⟨j, by omega, hpj⟩
      · rcases newIds_eq he with hn | hn
        · simp [hn] at hp
        · rw [hn, List.mem_singleton] at hp
          exact ⟨a.created.length, by simp [hn], hp.trans hu₀⟩
    · rw [hcreated, List.mem_append]
      rcases effect_resident he hp with ⟨g, hg⟩ | hnew | hf
      · exact .inl (h.resident p g hg)
      · exact .inr hnew
      · exact .inl (hfetch p hf)

theorem Sound.reachable {a : Session Disk Data} (h : (system b cfg disk).Reachable a) : a.Sound :=
  h.invariant (fun _ => Sound.init) fun _ _ _ => Sound.step

/-- **Every frame is free exactly once or holds exactly one page, and the replacer knows exactly
    the unpinned resident frames**: in every state of every run, whatever the calls and their
    arguments. -/
theorem frames_partitioned {a : Session Disk Data} (h : (system b cfg disk).Reachable a) :
    (∀ f, a.pool.inPool f →
      (a.pool.freeList.count f = 1 ∧ ∀ p, a.pool.pageTable p ≠ some f) ∨
      (f ∉ a.pool.freeList ∧ ∃! p, a.pool.pageTable p = some f)) ∧
    (∀ p f, a.pool.pageTable p = some f → a.pool.inPool f ∧ (a.pool.pages f).pageId = p) ∧
    (∀ f ∈ a.pool.freeList, a.pool.inPool f ∧ (a.pool.pages f).pinCount = 0 ∧
      (a.pool.pages f).isDirty = false ∧ (a.pool.pages f).pageId = invalidPageId) ∧
    a.pool.replacer.tracked.Nodup ∧
    (∀ f, f ∈ a.pool.replacer.tracked ↔
      (∃ p, a.pool.pageTable p = some f) ∧ (a.pool.pages f).pinCount = 0) := by
  have hinv := (Sound.reachable h).inv
  refine ⟨fun f hf => ?_, fun p f hp => ⟨hinv.mapped_inPool p f hp, hinv.mapped_pageId p f hp⟩,
    fun f hf => ⟨hinv.free_inPool f hf, hinv.free_meta f hf⟩, hinv.lru.frame_nodup, fun f => ?_⟩
  · by_cases hfree : f ∈ a.pool.freeList
    · exact .inl ⟨List.count_eq_one_of_mem hinv.free_nodup hfree, hinv.free_unmapped f hfree⟩
    · refine .inr ⟨hfree, _, hinv.backed f hf hfree, fun p hp => (hinv.mapped_pageId p f hp).symm⟩
  · constructor
    · intro hf
      have hfree : f ∉ a.pool.freeList := fun hm => hinv.free_untracked f hm hf
      exact ⟨⟨_, hinv.backed f (hinv.tracked_inPool f hf) hfree⟩, hinv.tracked_unpinned f hf⟩
    · rintro ⟨⟨p, hp⟩, h0⟩
      exact hinv.mapped_tracked p f hp h0

/-- The session after one more call, where it returns. -/
def after (b : Build) (a : Session Disk Data) (c : Call) : Session Disk Data :=
  match a.pool.exec b c with
  | .ok (ret, s) => ⟨a.created ++ newIds c ret, s⟩
  | .error _ => a

/-- A fresh single-instance pool with `n` frames over a zeroed disk of numbers. -/
def fresh (n : Nat) : Session (PageId → Nat) Nat :=
  ⟨[], create ⟨n, 1, 0, by decide, by decide⟩ fun _ => 0⟩

theorem fresh_reachable (n : Nat) :
    (system .debug ⟨n, 1, 0, by decide, by decide⟩ fun _ => 0).Reachable (fresh n) :=
  .init ⟨rfl, by simp [Unwrapped, fresh, create, int32]⟩

/-- The run that creates page 0 in a pool of two frames: frame 0 is still free, once. -/
theorem frames_partitioned_two_frames :
    (((fresh 2).after .debug .newPg).pool.freeList.count 0 = 1 ∧
      ∀ p, ((fresh 2).after .debug .newPg).pool.pageTable p ≠ some 0) ∨
    (0 ∉ ((fresh 2).after .debug .newPg).pool.freeList ∧
      ∃! p, ((fresh 2).after .debug .newPg).pool.pageTable p = some 0) := by
  have hnew : (system .debug ⟨2, 1, 0, by decide, by decide⟩ fun _ => 0).Reachable
      ((fresh 2).after .debug .newPg) :=
    (fresh_reachable 2).step (e := .call .newPg (.page (some 1) 0))
      ⟨rfl, fun p hp => (by cases hp), rfl, by decide⟩
  exact (frames_partitioned hnew).1 0 (by decide)

end Session

end BusTub
