/-
  Which page has to leave the pool, and whether one can.

  1. **Availability.**  `NewPgImp` scans the pin counts, `FetchPgImp` looks whether replacer and free list are
     empty, and both then rely on a `Victim` whose result they do not check.  In every reachable state the two
     tests agree, and that `Victim` finds an unpinned page (`frames_available`).

  2. **`evicts`** is the frame whose page a call evicts: its page is gone afterwards (`Inv.lost`), and every
     other page stays where it is (`Inv.kept`).

  3. **Time.**  `timedSystem` runs a pool beside a clock that notes when the pin count of each page last fell to
     0.  The replacer's list is in the order of these times (`Aged`), so the page that is evicted is the one
     that has been unpinned the longest (`evicts_least_recent`).
-/
import BusTub.Buffer.Pins

set_option linter.unusedSectionVars false

namespace BusTub

namespace BufferPoolManagerInstance

variable {Disk Data : Type} [DiskManager Disk Data] [Zero Data]
variable {s s' : BufferPoolManagerInstance Disk Data} {c : Call} {ret : Return} {p : PageId} {f : FrameId}

/-! ## Whether a frame can be had -/

/-- The test of `FetchPgImp`: nothing is left exactly when every frame is pinned. -/
theorem Inv.none_left_iff (h : s.Inv) :
    (s.replacer.size = 0 ∧ s.freeList = []) ↔ ∀ g, s.inPool g → 0 < (s.pages g).pinCount := by
  rw [LRUReplacer.size_eq, List.length_eq_zero_iff]
  constructor
  · intro hempty g hg
    have hnn := h.pin_nonneg g hg
    have hne : (s.pages g).pinCount ≠ 0 := fun h0 => h.obtainable hg h0 hempty
    omega
  · intro hall
    constructor
    · apply List.eq_nil_iff_forall_not_mem.mpr
      intro g hg
      have hpos := hall g (h.tracked_inPool g hg)
      have h0 := h.tracked_unpinned g hg
      omega
    · apply List.eq_nil_iff_forall_not_mem.mpr
      intro g hg
      have hpos := hall g (h.free_inPool g hg)
      have h0 := (h.free_meta g hg).1
      omega

/-- The scan of `NewPgImp` says the same. -/
theorem Inv.scan_full_iff (h : s.Inv) : s.cfg.poolSize ≤ firstUnpinned s.pages s.cfg.poolSize 0 ↔
    ∀ g, s.inPool g → 0 < (s.pages g).pinCount := by
  rw [BufferPoolManagerInstance.scan_full_iff]
  refine forall₂_congr fun g hg => ?_
  have hnn := h.pin_nonneg g hg
  constructor <;> intro hc <;> omega

/-- `NewPgImp` returns nullptr exactly when every frame is pinned. -/
theorem Inv.new_none_iff (h : s.Inv) {g : Option FrameId} (he : s.Effect .newPg (.page g p) s') :
    g = none ↔ ∀ f, s.inPool f → 0 < (s.pages f).pinCount := by
  constructor
  · rintro rfl
    obtain ⟨-, hnone⟩ := h.toConsistent.obtainable_full he
    unfold BufferPoolManagerInstance.obtainable at hnone
    apply h.none_left_iff.mp
    rw [LRUReplacer.size_eq]
    exact ⟨by omega, List.length_eq_zero_iff.mp (by omega)⟩
  · intro hall
    cases he with
    | newFull => rfl
    | @new f s₁ r hpick hr =>
      -- the frame that was taken had no pin
      have hb : s.bumped.Consistent := { h.toConsistent with }
      have hf : s.inPool f := by
        have hf' := (hpick.spec hb).2.inPool
        unfold inPool at hf' ⊢
        rwa [hpick.frame.1] at hf'
      have h0 : (s.pages f).pinCount = 0 := hpick.unpinned hb
      have hpos := hall f hf
      omega

theorem Effect.fetch_page {g : Option FrameId} {q : PageId} (he : s.Effect (.fetchPg p) (.page g q) s') : q = p := by
  cases he with
  | _ => rfl

/-- `FetchPgImp` returns nullptr exactly when the page is not resident and every frame is pinned. -/
theorem Inv.fetch_none_iff (h : s.Inv) {g : Option FrameId} (he : s.Effect (.fetchPg p) (.page g p) s') :
    g = none ↔ s.pageTable p = none ∧ ∀ f, s.inPool f → 0 < (s.pages f).pinCount := by
  rw [← h.none_left_iff, LRUReplacer.size_eq, List.length_eq_zero_iff]
  cases he with
  | fetchHit hp hr =>
    rw [hp]
    exact ⟨nofun, fun hc => absurd hc.1 (Option.some_ne_none _)⟩
  | fetchFull hp ht hfree => exact ⟨fun _ => ⟨hp, ht, hfree⟩, fun _ => rfl⟩
  | @fetchMiss _ f s₁ r hp hpick hr =>
    refine ⟨nofun, fun hc => absurd hc.2 ?_⟩
    have hf : s.inPool f := by
      have hf' := (hpick.spec h.toConsistent).2.inPool
      unfold inPool at hf' ⊢
      rwa [hpick.frame.1] at hf'
    exact h.obtainable hf (hpick.unpinned h.toConsistent)

/-- `Victim` finds a frame of the pool that holds an unpinned page. -/
theorem Inv.victim_found (h : s.Inv) (hfree : s.freeList = []) (hsome : s.replacer.size ≠ 0) (x : FrameId) :
    ∃ f r, s.replacer.victim x = .ok (true, f, r) ∧ s.inPool f ∧ (∃ p, s.pageTable p = some f) ∧
      (s.pages f).pinCount = 0 := by
  rw [LRUReplacer.size_eq, Ne, List.length_eq_zero_iff] at hsome
  obtain ⟨l, f, hl⟩ := (List.eq_nil_or_concat' s.replacer.tracked).resolve_left hsome
  have hf : f ∈ s.replacer.tracked := by rw [hl]; simp
  obtain ⟨r, hv, -⟩ := LRUReplacer.victim_spec h.lru hl x
  have hin := h.tracked_inPool f hf
  exact ⟨f, r, hv, hin, ⟨_, h.backed f hin (by simp [hfree])⟩, h.tracked_unpinned f hf⟩

/-- The counter always is a signed 32-bit number. -/
theorem Effect.counter_lt (he : s.Effect c ret s') (hlt : s.nextPageId < 2 ^ 31) : s'.nextPageId < 2 ^ 31 := by
  cases he with
  | new hpick hr =>
    rw [install_nextPageId, hpick.frame.2.2]
    exact int32_lt _
  | fetchMiss hp hpick hr =>
    rw [install_nextPageId, hpick.frame.2.2]
    exact hlt
  | _ => exact hlt

/-! ## What a call evicts -/

/-- The frame whose page a call evicts: if no frame is free, the one that was unpinned least recently. -/
def evicts (s : BufferPoolManagerInstance Disk Data) : Call → Option FrameId
  | .newPg => if s.freeList = [] then s.replacer.tracked.getLast? else none
  | .fetchPg p => if s.pageTable p = none ∧ s.freeList = [] then s.replacer.tracked.getLast? else none
  | _ => none

/-- A frame that is taken is free or evicted. -/
theorem Picked.evicted {s₁ : BufferPoolManagerInstance Disk Data} (hpick : s.Picked f s₁) :
    f ∈ s.freeList ∨ s.freeList = [] ∧ s.replacer.tracked.getLast? = some f := by
  cases hpick with
  | free hl => exact .inl (by rw [hl]; simp)
  | victim hfree hl hr => exact .inr ⟨hfree, by rw [hl]; simp⟩

/-- With no free frame it is the last one, and its page is taken out of the table. -/
theorem Picked.victim_eq {s₁ : BufferPoolManagerInstance Disk Data} {g : FrameId} (hpick : s.Picked g s₁)
    (hfree : s.freeList = []) (hlast : s.replacer.tracked.getLast? = some f) :
    g = f ∧ s₁.pageTable = Function.update s.pageTable (s.pages g).pageId none := by
  cases hpick with
  | free hl =>
    rw [hfree] at hl
    exact absurd hl.symm (by simp)
  | victim _ hl hr =>
    rw [hl, List.getLast?_append, Option.or_eq_some_iff] at hlast
    refine ⟨?_, rfl⟩
    simpa using hlast

/-- **A page stays in its frame** unless it is deleted or the frame evicted. -/
theorem Inv.kept (h : s.Inv) (he : s.Effect c ret s') (hp : s.pageTable p = some f) (hdel : c ≠ .deletePg p)
    (hnot : s.evicts c ≠ some f) : s'.pageTable p = some f := by
  have hfree : f ∉ s.freeList := fun hm => h.free_unmapped f hm p hp
  cases he with
  | @new g s₁ r hpick hr =>
    have hne : f ≠ g := by
      rintro rfl
      rcases hpick.evicted with hm | ⟨hnil, hlast⟩
      · exact hfree hm
      · exact hnot ((if_pos hnil).trans hlast)
    have hpn : p ≠ s.nextPageId := fun he => by
      rw [he, h.next_absent] at hp
      cases hp
    have hb : s.bumped.Consistent := { h.toConsistent with }
    exact (hb.install_keeps h.backed hpick hp hne hpn _ _ _).1
  | @fetchMiss q g s₁ r hq hpick hr =>
    have hne : f ≠ g := by
      rintro rfl
      rcases hpick.evicted with hm | ⟨hnil, hlast⟩
      · exact hfree hm
      · exact hnot ((if_pos ⟨hq, hnil⟩).trans hlast)
    have hpq : p ≠ q := by
      rintro rfl
      rw [hq] at hp
      cases hp
    exact (h.toConsistent.install_keeps h.backed hpick hp hne hpq _ _ _).1
  | @delete q g r hq h0 hr =>
    have hpq : p ≠ q := by
      rintro rfl
      exact hdel rfl
    exact (Function.update_of_ne hpq ..).trans hp
  | _ => exact hp

/-- **A frame that is evicted loses its page.** -/
theorem Inv.lost (h : s.Inv) (he : s.Effect c ret s') (hp : s.pageTable p = some f) (hevict : s.evicts c = some f) :
    s'.pageTable p ≠ some f := by
  have hid : (s.pages f).pageId = p := h.mapped_pageId p f hp
  have htracked : s.replacer.tracked.getLast? = some f → f ∈ s.replacer.tracked := List.mem_of_getLast?
  cases he with
  | newFull hfull =>
    obtain ⟨-, hlast⟩ := Option.ite_none_right_eq_some.mp hevict
    have hm := htracked hlast
    rcases hfull with hall | ⟨hnil, -⟩
    · exact absurd (h.tracked_unpinned f hm) (hall f (h.tracked_inPool f hm))
    · rw [hnil] at hm
      cases hm
  | @new g s₁ r hpick hr =>
    obtain ⟨hfree, hlast⟩ := Option.ite_none_right_eq_some.mp hevict
    have hpn : p ≠ s.nextPageId := fun he => by
      rw [he, h.next_absent] at hp
      cases hp
    obtain ⟨rfl, htable⟩ := hpick.victim_eq hfree hlast
    show Function.update s₁.pageTable s.nextPageId (some g) p ≠ some g
    rw [Function.update_of_ne hpn, htable, show (s.bumped.pages g).pageId = p from hid, Function.update_self]
    exact nofun
  | fetchHit hq hr =>
    obtain ⟨⟨hno, -⟩, -⟩ := Option.ite_none_right_eq_some.mp hevict
    rw [hq] at hno
    cases hno
  | fetchFull hq ht hfree =>
    obtain ⟨-, hlast⟩ := Option.ite_none_right_eq_some.mp hevict
    have hm := htracked hlast
    rw [ht] at hm
    cases hm
  | @fetchMiss q g s₁ r hq hpick hr =>
    obtain ⟨⟨-, hfree⟩, hlast⟩ := Option.ite_none_right_eq_some.mp hevict
    have hpq : p ≠ q := by
      rintro rfl
      rw [hq] at hp
      cases hp
    obtain ⟨rfl, htable⟩ := hpick.victim_eq hfree hlast
    show Function.update s₁.pageTable q (some g) p ≠ some g
    rw [Function.update_of_ne hpq, htable, hid, Function.update_self]
    exact nofun
  | _ => cases hevict

/-- A page does not move: it stays in its frame or leaves the pool. -/
theorem Inv.stays_or_goes (h : s.Inv) (he : s.Effect c ret s') (hp : s.pageTable p = some f) :
    s'.pageTable p = some f ∨ s'.pageTable p = none := by
  have hinstall : ∀ {t t₁ : BufferPoolManagerInstance Disk Data} {g : FrameId} {q : PageId}, t.Picked g t₁ →
      t.pageTable p = some f → p ≠ q → Function.update t₁.pageTable q (some g) p = some f ∨
        Function.update t₁.pageTable q (some g) p = none := by
    intro t t₁ g q hpick ht hpq
    rw [Function.update_of_ne hpq]
    cases ht₁ : t₁.pageTable p with
    | none => exact .inr rfl
    | some g' =>
      rw [hpick.mapped ht₁] at ht
      exact .inl ht
  cases he with
  | new hpick hr =>
    apply hinstall hpick hp
    rintro rfl
    rw [h.next_absent] at hp
    cases hp
  | fetchMiss hq hpick hr =>
    apply hinstall hpick hp
    rintro rfl
    rw [hq] at hp
    cases hp
  | @delete q g r hq h0 hr =>
    by_cases hpq : p = q
    · exact .inr (hpq ▸ Function.update_self ..)
    · exact .inl ((Function.update_of_ne hpq ..).trans hp)
  | _ => exact .inl hp

/-- Page `p` was resident and is not any more. -/
def Evicted (s s' : BufferPoolManagerInstance Disk Data) (p : PageId) : Prop :=
  s.pageTable p ≠ none ∧ s'.pageTable p = none

/-- The call has to find a frame for a page. -/
def NeedsFrame (s : BufferPoolManagerInstance Disk Data) : Call → Prop
  | .newPg => True
  | .fetchPg p => s.pageTable p = none
  | _ => False

/-- What such a call evicts is the page of the frame at the end of the replacer's list, if no frame is free. -/
theorem Inv.evicted_iff (h : s.Inv) (he : s.Effect c ret s') (hneeds : s.NeedsFrame c) :
    s.Evicted s' p ↔ ∃ f, s.pageTable p = some f ∧ s.freeList = [] ∧ s.replacer.tracked.getLast? = some f := by
  have hevicts : s.evicts c = if s.freeList = [] then s.replacer.tracked.getLast? else none := by
    cases c with
    | newPg => rfl
    | fetchPg q =>
      have hmiss : s.pageTable q = none := hneeds
      exact if_congr (and_iff_right hmiss) rfl rfl
    | _ => cases hneeds
  have hdel : c ≠ .deletePg p := by
    rintro rfl
    cases hneeds
  constructor
  · rintro ⟨hsome, hnone⟩
    obtain ⟨f, hp⟩ := Option.ne_none_iff_exists'.mp hsome
    refine ⟨f, hp, ?_⟩
    apply Option.ite_none_right_eq_some.mp
    rw [← hevicts]
    apply Classical.byContradiction
    intro hnot
    rw [h.kept he hp hdel hnot] at hnone
    cases hnone
  · rintro ⟨f, hp, hfree, hlast⟩
    refine ⟨Option.ne_none_iff_exists'.mpr ⟨f, hp⟩, (h.stays_or_goes he hp).resolve_left ?_⟩
    exact h.lost he hp (hevicts.trans ((if_pos hfree).trans hlast))

/-! ## When a page was unpinned -/

/-- Page `p` is resident and nobody has pinned it. -/
def Idle (s : BufferPoolManagerInstance Disk Data) (p : PageId) : Prop :=
  s.pageTable p ≠ none ∧ s.pinCountOf p = 0

/-- The pin count of page `p` falls to 0. -/
def Falls (s s' : BufferPoolManagerInstance Disk Data) (p : PageId) : Prop :=
  0 < s.pinCountOf p ∧ s'.pinCountOf p = 0

instance (s s' : BufferPoolManagerInstance Disk Data) (p : PageId) : Decidable (s.Falls s' p) := by
  unfold Falls; infer_instance

/-- The idle pages are those of the tracked frames. -/
theorem Inv.idle_iff (h : s.Inv) : s.Idle p ↔ ∃ f ∈ s.replacer.tracked, s.pageTable p = some f := by
  unfold Idle
  constructor
  · rintro ⟨hres, h0⟩
    obtain ⟨f, hp⟩ := Option.ne_none_iff_exists'.mp hres
    rw [pinCountOf_some hp] at h0
    exact ⟨f, h.mapped_tracked p f hp h0, hp⟩
  · rintro ⟨f, hf, hp⟩
    rw [pinCountOf_some hp, hp]
    exact ⟨Option.some_ne_none f, h.tracked_unpinned f hf⟩

/-- The page of a tracked frame has no pin to lose. -/
theorem Inv.tracked_pin (h : s.Inv) (hf : f ∈ s.replacer.tracked) : s.pinCountOf (s.pages f).pageId = 0 := by
  have hback := h.backed f (h.tracked_inPool f hf) fun hfree => h.free_untracked f hfree hf
  rw [pinCountOf_some hback]
  exact h.tracked_unpinned f hf

/-- Only a successful `UnpinPgImp` lets a pin count fall. -/
theorem Inv.not_falls (h : s.Inv) (he : s.Effect c ret s') (hc : ∀ q d, c = .unpinPg q d → ret ≠ .flag true) :
    ¬ s.Falls s' p := by
  have hdelta : 0 ≤ pinDelta p c ret := by
    unfold pinDelta
    split
    · split <;> omega
    · split <;> omega
    · next q d => exact absurd rfl (hc q d rfl)
    · exact Int.le_refl 0
  have hstep := h.pin_step he p
  rintro ⟨hpos, h0⟩
  omega

end BufferPoolManagerInstance

open BufferPoolManagerInstance

/-- A clock that counts events, and when the pin count of each page last fell to 0. -/
structure Times where
  now : ℕ
  fell : PageId → Option ℕ

namespace Times

variable {Disk Data : Type} [DiskManager Disk Data] [Zero Data] (t : Times)
variable {s s' : BufferPoolManagerInstance Disk Data} {c : Call} {ret : Return} {p : PageId}

/-- One event more, from pool `s` to pool `s'`. -/
def next (s s' : BufferPoolManagerInstance Disk Data) : Times where
  now := t.now + 1
  fell p := if s.Falls s' p then some t.now else t.fell p

/-- **Page `p` is resident without a pin, and of all these pages its pin count fell to 0 first.** -/
def Oldest (s : BufferPoolManagerInstance Disk Data) (p : PageId) : Prop :=
  s.Idle p ∧ ∃ i, t.fell p = some i ∧ ∀ q, s.Idle q → q ≠ p → ∃ j, t.fell q = some j ∧ i < j

/-- The replacer's list is in the order of these times, the latest in front. -/
structure Aged (s : BufferPoolManagerInstance Disk Data) : Prop where
  known : ∀ f ∈ s.replacer.tracked, ∃ i < t.now, t.fell (s.pages f).pageId = some i
  order : s.replacer.tracked.Pairwise fun f g =>
    ∀ i j, t.fell (s.pages f).pageId = some i → t.fell (s.pages g).pageId = some j → j < i

variable {t}

theorem next_fell (hno : ¬ s.Falls s' p) : (t.next s s').fell p = t.fell p := if_neg hno

/-- Frames that were tracked before, with their pages, are still in order. -/
theorem Aged.keep (ha : t.Aged s) (hsub : s'.replacer.tracked.Sublist s.replacer.tracked)
    (hid : ∀ f ∈ s'.replacer.tracked, (s'.pages f).pageId = (s.pages f).pageId)
    (hno : ∀ f ∈ s'.replacer.tracked, ¬ s.Falls s' (s.pages f).pageId) : (t.next s s').Aged s' := by
  have hsame : ∀ f ∈ s'.replacer.tracked,
      (t.next s s').fell (s'.pages f).pageId = t.fell (s.pages f).pageId := by
    intro f hf
    rw [hid f hf, next_fell (hno f hf)]
  refine ⟨fun f hf => ?_, (ha.order.sublist hsub).imp_of_mem fun {f g} hf hg hfg => ?_⟩
  · obtain ⟨i, hi, hfell⟩ := ha.known f (hsub.subset hf)
    exact ⟨i, Nat.lt_succ_of_lt hi, (hsame f hf).trans hfell⟩
  · rw [hsame f hf, hsame g hg]
    exact hfg

/-- A page that is put into a free or evicted frame leaves the order alone. -/
theorem Aged.install (ha : t.Aged s) {s₁ : BufferPoolManagerInstance Disk Data} {f : FrameId}
    (hs : s.Consistent) (hpick : s.Picked f s₁) {r : LRUReplacer} (hr : s₁.Replaced s₁.replacer.tracked r) (q : PageId)
    (x : Data) (d : Disk) (hno : ∀ p, ¬ s.Falls (s₁.install f q x r d) p) :
    (t.next s (s₁.install f q x r d)).Aged (s₁.install f q x r d) := by
  have hf : f ∉ s₁.replacer.tracked := (hpick.spec hs).2.untracked
  have hsub : s₁.replacer.tracked.Sublist s.replacer.tracked := by
    cases hpick with
    | free => exact List.Sublist.refl _
    | victim hfree hl hr' =>
      rw [hl, show _ = _ from hr'.tracked]
      exact List.sublist_append_left ..
  refine ha.keep (by rw [install_replacer, hr.tracked]; exact hsub) (fun g hg => ?_) fun g _ => hno _
  have hg' : g ∈ s₁.replacer.tracked := hr.tracked ▸ hg
  have hne : g ≠ f := by
    rintro rfl
    exact hf hg'
  rw [install_pages, Function.update_of_ne hne, hpick.frame.2.1]

/-- A frame whose page's pin count falls enters the list in front. -/
theorem Aged.enter (ha : t.Aged s) {f : FrameId} (ht : s'.replacer.tracked = f :: s.replacer.tracked)
    (hid : ∀ g, (s'.pages g).pageId = (s.pages g).pageId) (hfalls : s.Falls s' (s.pages f).pageId)
    (hno : ∀ g ∈ s.replacer.tracked, ¬ s.Falls s' (s.pages g).pageId) : (t.next s s').Aged s' := by
  have hnew : (t.next s s').fell (s'.pages f).pageId = some t.now := by
    rw [hid f]
    exact if_pos hfalls
  have hsame : ∀ g ∈ s.replacer.tracked,
      (t.next s s').fell (s'.pages g).pageId = t.fell (s.pages g).pageId := by
    intro g hg
    rw [hid g, next_fell (hno g hg)]
  refine ⟨fun g hg => ?_, ?_⟩
  · rcases List.mem_cons.mp (ht ▸ hg) with rfl | hg
    · exact ⟨t.now, Nat.lt_succ_self _, hnew⟩
    · obtain ⟨i, hi, hfell⟩ := ha.known g hg
      exact ⟨i, Nat.lt_succ_of_lt hi, (hsame g hg).trans hfell⟩
  · rw [ht]
    refine List.pairwise_cons.mpr ⟨fun g hg i j hi hj => ?_, ha.order.imp_of_mem fun {g k} hg hk hgk => ?_⟩
    · obtain ⟨j', hlt, hj'⟩ := ha.known g hg
      rw [hnew] at hi
      rw [hsame g hg, hj'] at hj
      cases hi
      cases hj
      exact hlt
    · rw [hsame g hg, hsame k hk]
      exact hgk

/-- **Every call keeps the replacer's list in the order of the times.** -/
theorem Aged.step (ha : t.Aged s) (h : s.Inv) (he : s.Effect c ret s') : (t.next s s').Aged s' := by
  -- an assignment to one frame that leaves its page id alone
  have hset : ∀ {f g : FrameId} {pg : Page Data}, pg.pageId = (s.pages f).pageId →
      (Function.update s.pages f pg g).pageId = (s.pages g).pageId := by
    intro f g pg hpg
    by_cases hg : g = f
    · rw [hg, Function.update_self, hpg]
    · rw [Function.update_of_ne hg]
  have hpins := h.pin_step he
  have hno : (∀ q d, c = .unpinPg q d → ret ≠ .flag true) → ∀ p, ¬ s.Falls s' p := fun hc p => h.not_falls he hc
  cases he with
  | new hpick hr =>
    have hb : s.bumped.Consistent := { h.toConsistent with }
    have hb' : t.Aged s.bumped := ⟨ha.known, ha.order⟩
    exact hb'.install hb hpick hr _ _ _ (hno nofun)
  | fetchMiss hp hpick hr => exact ha.install h.toConsistent hpick hr _ _ _ (hno nofun)
  | fetchHit hp hr =>
    refine ha.keep ?_ (fun g _ => hset rfl) fun g _ => hno nofun _
    rw [show _ = _ from hr.tracked]
    exact List.filter_sublist
  | unpinZero hp h0 =>
    refine ha.keep (List.Sublist.refl _) (fun g _ => hset rfl) fun g _ => hno ?_ _
    exact fun _ _ _ hret => by cases hret
  | @unpin p d f hp h0 h1 =>
    refine ha.keep (List.Sublist.refl _) (fun g hg => hset rfl) fun g hg hfalls => ?_
    have hpos := hfalls.1
    rw [h.tracked_pin hg] at hpos
    exact absurd hpos (Int.lt_irrefl 0)
  | @unpinLast p d f r hp h1 hr =>
    have hfalls := hpins p
    rw [pinCountOf_some hp, h1, show pinDelta p (.unpinPg p d) (.flag true) = -1 from if_pos rfl] at hfalls
    refine ha.enter (f := f) hr.tracked (fun g => hset rfl) ⟨?_, ?_⟩ fun g hg hg' => ?_
    · rw [h.mapped_pageId p f hp, pinCountOf_some hp, h1]
      exact Int.one_pos
    · rw [h.mapped_pageId p f hp]
      exact hfalls
    · have hpos := hg'.1
      rw [h.tracked_pin hg] at hpos
      exact absurd hpos (Int.lt_irrefl 0)
  | @delete p f r hp h0 hr =>
    have hsub : r.tracked.Sublist s.replacer.tracked := by
      rw [hr.tracked]
      exact List.filter_sublist
    refine ha.keep hsub (fun g hg => ?_) fun g _ => hno nofun _
    have hne : g ≠ f := by
      rintro rfl
      have hm : g ∈ r.tracked := hg
      rw [hr.tracked, List.mem_filter] at hm
      simp at hm
    show (Function.update s.pages f blankPage g).pageId = _
    rw [Function.update_of_ne hne]
  | unpinAbsent hp =>
    refine ha.keep (List.Sublist.refl _) (fun _ _ => rfl) fun g _ => hno ?_ _
    exact fun _ _ _ hret => by cases hret
  | _ => exact ha.keep (List.Sublist.refl _) (fun _ _ => rfl) fun g _ => hno nofun _

/-- The one that left is the oldest. -/
theorem Aged.oldest_iff (ha : t.Aged s) (h : s.Inv) :
    t.Oldest s p ↔ ∃ f, s.pageTable p = some f ∧ s.replacer.tracked.getLast? = some f := by
  constructor
  · rintro ⟨hidle, i, hi, hfirst⟩
    obtain ⟨f, hf, hp⟩ := h.idle_iff.mp hidle
    refine ⟨f, hp, ?_⟩
    -- the replacer's list is in order of age, so compare with its last frame
    obtain ⟨l, g, hl⟩ := (List.eq_nil_or_concat' s.replacer.tracked).resolve_left (List.ne_nil_of_mem hf)
    have hg : g ∈ s.replacer.tracked := by rw [hl]; simp
    have hlast : s.replacer.tracked.getLast? = some g := by rw [hl]; simp
    by_cases hfg : f = g
    · rw [hlast, hfg]
    · -- the last one would be older
      have horder := ha.order
      rw [hl, List.mem_append, List.mem_singleton] at hf
      rw [hl, List.pairwise_append] at horder
      have hgp := h.backed g (h.tracked_inPool g hg) fun hfree => h.free_untracked g hfree hg
      have hne : (s.pages g).pageId ≠ p := by
        rintro rfl
        rw [hp] at hgp
        cases hgp
        exact hfg rfl
      obtain ⟨j, hj, hij⟩ := hfirst _ (h.idle_iff.mpr ⟨g, hg, hgp⟩) hne
      have hji := horder.2.2 f (hf.resolve_right hfg) g (by simp) i j (h.mapped_pageId p f hp ▸ hi) hj
      omega
  · rintro ⟨f, hp, hlast⟩
    have hf : f ∈ s.replacer.tracked := List.mem_of_getLast? hlast
    -- every other idle page is in front of the last one, and younger
    obtain ⟨i, -, hi⟩ := ha.known f hf
    rw [h.mapped_pageId p f hp] at hi
    refine ⟨h.idle_iff.mpr ⟨f, hf, hp⟩, i, hi, fun q hq hne => ?_⟩
    obtain ⟨g, hg, hgq⟩ := h.idle_iff.mp hq
    obtain ⟨j, -, hj⟩ := ha.known g hg
    refine ⟨j, h.mapped_pageId q g hgq ▸ hj, ?_⟩
    obtain ⟨l, rfl | hl⟩ : ∃ l, f = g ∨ s.replacer.tracked = l ++ [f] := by
      obtain ⟨l, hl⟩ := List.getLast?_eq_some_iff.mp hlast
      exact ⟨l, .inr hl⟩
    · exact absurd (h.mapped_inj hgq hp) hne
    · have horder := ha.order
      have hgl : g ∈ l := by
        rw [hl, List.mem_append, List.mem_singleton] at hg
        refine hg.resolve_right ?_
        rintro rfl
        exact hne (h.mapped_inj hgq hp)
      rw [hl, List.pairwise_append] at horder
      exact horder.2.2 g hgl f (by simp) j i hj (h.mapped_pageId p f hp ▸ hi)

end Times

/-! ## Runs -/

namespace Session

variable {Disk Data : Type} [DiskManager Disk Data] [Zero Data]
variable {b : Build} {cfg : PoolConfig} {disk : Disk}

/-- The counter is a signed 32-bit number in every state of a run. -/
theorem counter_lt {a : Session Disk Data} (h : (system b cfg disk).Reachable a) :
    a.pool.nextPageId < 2 ^ 31 := by
  refine (h.invariant (I := fun a => a.Sound ∧ a.pool.nextPageId < 2 ^ 31) ?_ ?_).2
  · intro a ha
    refine ⟨Sound.init ha, ?_⟩
    obtain ⟨rfl, -⟩ := ha
    simp only [create]
    exact int32_lt _
  · rintro a e a' ⟨hs, hlt⟩ hstep
    refine ⟨hs.step hstep, ?_⟩
    cases e with
    | call c ret => exact (exec_effect hs.inv.toConsistent hstep.1).counter_lt hlt
    | store f x =>
      obtain rfl := hstep
      exact hlt

/-- **Whether a page can be had is decided by the pins alone.**  `NewPgImp` returns nullptr exactly when every
    frame is pinned, `FetchPgImp` exactly when besides the page is not resident; the scan over the pin counts
    and the test of replacer and free list agree; where `Victim` is called it returns a frame of the pool that
    holds an unpinned page; and the `Unpin` of `UnpinPgImp` never has to call it. -/
theorem frames_available {a : Session Disk Data} (h : (system b cfg disk).Reachable a) :
    (∃ f p s', a.pool.exec b .newPg = .ok (.page f p, s') ∧
      (f = none ↔ ∀ g, a.pool.inPool g → 0 < (a.pool.pages g).pinCount)) ∧
    (∀ p, ∃ f s', a.pool.exec b (.fetchPg p) = .ok (.page f p, s') ∧
      (f = none ↔ a.pool.pageTable p = none ∧ ∀ g, a.pool.inPool g → 0 < (a.pool.pages g).pinCount)) ∧
    (a.pool.cfg.poolSize ≤ firstUnpinned a.pool.pages a.pool.cfg.poolSize 0 ↔
      a.pool.replacer.size = 0 ∧ a.pool.freeList = []) ∧
    (a.pool.freeList = [] → a.pool.replacer.size ≠ 0 → ∀ x, ∃ f r,
      a.pool.replacer.victim x = .ok (true, f, r) ∧ a.pool.inPool f ∧ (∃ p, a.pool.pageTable p = some f) ∧
        (a.pool.pages f).pinCount = 0) ∧
    ∀ p f, a.pool.pageTable p = some f → (a.pool.pages f).pinCount ≠ 0 →
      a.pool.replacer.size ≠ a.pool.replacer.numPages := by
  have hs := Sound.reachable h
  have hinv := hs.inv
  refine ⟨?_, fun p => ?_, hinv.scan_full_iff.trans hinv.none_left_iff.symm, hinv.victim_found,
    fun p f hp hpin => ?_⟩
  · rcases newPgImp_effect hinv.toConsistent b with ⟨f, p, s', hnew, he⟩ | ⟨-, halloc⟩
    · refine ⟨f, p, s', ?_, hinv.new_none_iff he⟩
      show (a.pool.newPgImp b invalidPageId >>= _) = _
      rw [hnew]
      rfl
    · rw [allocatePage_ok hs.unwrapped (counter_lt h)] at halloc
      cases halloc
  · obtain ⟨f, s', hfetch, he⟩ := fetchPgImp_effect hinv.toConsistent p
    refine ⟨f, s', ?_, hinv.fetch_none_iff he⟩
    show (a.pool.fetchPgImp p >>= _) = _
    rw [hfetch]
    rfl
  · have hnot : f ∉ a.pool.replacer.tracked := fun hf => hpin (hinv.tracked_unpinned f hf)
    have hroom := hinv.tracked_room (hinv.mapped_inPool p f hp) hnot
    rw [LRUReplacer.size_eq]
    omega

/-- A pool of one frame whose only page is pinned. -/
theorem frames_available_one_frame :
    ∃ p s', ((fresh 1).after .debug .newPg).pool.exec .debug .newPg = .ok (.page none p, s') := by
  have hnew : (system .debug ⟨1, 1, 0, by decide, by decide⟩ fun _ => 0).Reachable
      ((fresh 1).after .debug .newPg) :=
    (fresh_reachable 1).step (e := .call .newPg (.page (some 0) 0))
      ⟨rfl, fun p hp => (by cases hp), rfl, by decide⟩
  obtain ⟨⟨f, p, s', hexec, hiff⟩, -⟩ := frames_available hnew
  obtain rfl := hiff.mpr fun g hg => by
    obtain ⟨i, rfl⟩ := Int.eq_ofNat_of_zero_le hg.1
    obtain rfl : i = 0 := Nat.lt_one_iff.mp (Int.ofNat_lt.mp hg.2)
    decide
  exact ⟨p, s', hexec⟩

/-- The runs of a pool beside a clock. -/
def timedSystem (b : Build) (cfg : PoolConfig) (disk : Disk) :
    StepSystem (Session Disk Data × Times) (Event Data) where
  init a := (system b cfg disk).init a.1 ∧ a.2 = ⟨0, fun _ => none⟩
  step a e a' := (system b cfg disk).step a.1 e a'.1 ∧ a'.2 = a.2.next a.1.pool a'.1.pool

/-- The list is in order in every state of a run. -/
theorem timed_sound {a : Session Disk Data × Times} (h : (timedSystem b cfg disk).Reachable a) :
    a.1.Sound ∧ a.2.Aged a.1.pool := by
  refine h.invariant (I := fun a => a.1.Sound ∧ a.2.Aged a.1.pool) ?_ ?_
  · rintro ⟨a, t⟩ ⟨ha, -⟩
    refine ⟨Sound.init ha, ?_⟩
    obtain ⟨rfl, -⟩ := ha
    exact ⟨nofun, List.Pairwise.nil⟩
  · rintro ⟨a, t⟩ e ⟨a', t'⟩ ⟨hs, ha⟩ ⟨hstep, ht⟩
    obtain rfl : t' = t.next a.pool a'.pool := ht
    refine ⟨hs.step hstep, ?_⟩
    cases e with
    | call c ret => exact Times.Aged.step ha hs.inv (exec_effect hs.inv.toConsistent hstep.1)
    | store f x =>
      -- bytes alone changed
      have hpool : a'.pool = a.pool.setPage f { a.pool.pages f with data := x } := congrArg Session.pool hstep
      have hmeta : ∀ g, (a'.pool.pages g).pageId = (a.pool.pages g).pageId := by
        intro g
        rw [hpool]
        by_cases hg : g = f <;> simp [hg]
      have hreplacer : a'.pool.replacer = a.pool.replacer := by rw [hpool]; rfl
      refine Times.Aged.keep ha (hreplacer ▸ List.Sublist.refl _) (fun g _ => hmeta g) fun g hg hfalls => ?_
      have hpos := hfalls.1
      rw [hs.inv.tracked_pin (hreplacer ▸ hg)] at hpos
      exact absurd hpos (Int.lt_irrefl 0)

/-- **The page that is evicted is the one that was unpinned the longest ago.**  A call that has to find a frame
    evicts nothing while a frame is free, and otherwise exactly the resident page without a pin whose pin count
    fell to 0 first; if it returns a frame there was such a page. -/
theorem evicts_least_recent {a a' : Session Disk Data × Times} (h : (timedSystem b cfg disk).Reachable a)
    {c : Call} {ret : Return} (hneeds : a.1.pool.NeedsFrame c)
    (hstep : (timedSystem b cfg disk).step a (.call c ret) a') :
    (a.1.pool.freeList ≠ [] → ∀ p, ¬ a.1.pool.Evicted a'.1.pool p) ∧
    (a.1.pool.freeList = [] → (∀ p, a.1.pool.Evicted a'.1.pool p ↔ a.2.Oldest a.1.pool p) ∧
      ∀ f p, ret = .page (some f) p → ∃ q, a.1.pool.Evicted a'.1.pool q) := by
  obtain ⟨hs, ha⟩ := timed_sound h
  have he := exec_effect hs.inv.toConsistent hstep.1.1
  have hevicted := fun p => hs.inv.evicted_iff (p := p) he hneeds
  refine ⟨fun hfree p hev => ?_, fun hfree => ⟨fun p => ?_, ?_⟩⟩
  · obtain ⟨f, -, hnil, -⟩ := (hevicted p).mp hev
    exact hfree hnil
  · rw [hevicted, Times.Aged.oldest_iff ha hs.inv]
    simp only [hfree, true_and]
  · rintro f p rfl
    obtain ⟨g, hlast⟩ : ∃ g, a.1.pool.replacer.tracked.getLast? = some g := by
      apply Option.ne_none_iff_exists'.mp
      intro hnone
      rw [List.getLast?_eq_none_iff] at hnone
      have hempty : a.1.pool.replacer.size = 0 ∧ a.1.pool.freeList = [] :=
        ⟨by rw [LRUReplacer.size_eq, hnone]; rfl, hfree⟩
      have hall := hs.inv.none_left_iff.mp hempty
      cases c with
      | newPg => exact absurd ((hs.inv.new_none_iff he).mpr hall) (Option.some_ne_none f)
      | fetchPg q =>
        obtain rfl := he.fetch_page
        exact absurd ((hs.inv.fetch_none_iff he).mpr ⟨hneeds, hall⟩) (Option.some_ne_none f)
      | _ => cases hneeds
    have hg := List.mem_of_getLast? hlast
    refine ⟨(a.1.pool.pages g).pageId, (hevicted _).mpr ⟨g, ?_, hfree, hlast⟩⟩
    exact hs.inv.backed g (hs.inv.tracked_inPool g hg) (by simp [hfree])

/-- The session and the times after one more call. -/
def later (a : Session (PageId → Nat) Nat × Times) (c : Call) : Session (PageId → Nat) Nat × Times :=
  (a.1.after .debug c, a.2.next a.1.pool (a.1.after .debug c).pool)

/-- That was a step, if the call returned. -/
theorem later_step {disk : PageId → Nat} (a : Session (PageId → Nat) Nat × Times) {c : Call} (hc : ∀ p, c ≠ .fetchPg p)
    (ret : Return) (hexec : a.1.pool.exec .debug c = .ok (ret, (a.1.after .debug c).pool))
    (hcreated : (a.1.after .debug c).created = a.1.created ++ newIds c ret) (hu : (a.1.after .debug c).Unwrapped) :
    (timedSystem .debug cfg disk).step a (.call c ret) (later a c) :=
  ⟨⟨hexec, fun p hp => absurd hp (hc p), hcreated, hu⟩, rfl⟩

/-- Two frames, two pages, of which page 1 is unpinned first: a third page makes it leave. -/
theorem evicts_least_recent_two_frames : ∃ a : Session (PageId → Nat) Nat × Times,
    (timedSystem .debug ⟨2, 1, 0, by decide, by decide⟩ fun _ => 0).Reachable a ∧
      a.2.Oldest a.1.pool 1 ∧ a.1.pool.Evicted (a.1.after .debug .newPg).pool 1 := by
  have h₀ : (timedSystem .debug ⟨2, 1, 0, by decide, by decide⟩ fun _ => 0).Reachable
      (fresh 2, ⟨0, fun _ => none⟩) := .init ⟨⟨rfl, by decide⟩, rfl⟩
  have h₁ := h₀.step (later_step (fresh 2, ⟨0, fun _ => none⟩) nofun (.page (some 1) 0) rfl rfl rfl (c := .newPg))
  have h₂ := h₁.step (later_step _ nofun (.page (some 0) 1) rfl rfl rfl (c := .newPg))
  have h₃ := h₂.step (later_step _ nofun (.flag true) rfl rfl rfl (c := .unpinPg 1 true))
  have h₄ := h₃.step (later_step _ nofun (.flag true) rfl rfl rfl (c := .unpinPg 0 true))
  obtain ⟨-, hold⟩ := evicts_least_recent h₄ (c := .newPg) trivial
    (later_step _ nofun (.page (some 0) 2) rfl rfl rfl (c := .newPg))
  exact ⟨_, h₄, ((hold rfl).1 1).mp ⟨by decide, by decide⟩, by decide, by decide⟩

end Session

end BusTub
