/-
  What the pool keeps to when its callers keep to nothing.

  The runs here (`Session.anyCalls`) are those of `Buffer.Invariant` without their discipline: any page id may be
  fetched, and the id counter may wrap.  `Consistent` is all that is left of the invariant.

  1. **Release.**  A frame that `FetchPgImp` returned can be given back with `UnpinPgImp`, unless its page id is
     `INVALID_PAGE_ID`: `FetchPgImp` takes that id as any other, `UnpinPgImp` refuses it (`releases_iff`).  The pin
     is never taken back, whatever is called afterwards (`leaked_for_good`).

  2. **Failure.**  A call that returns nullptr or false leaves everything as it was, but for one thing:
     `UnpinPgImp` marks the frame dirty before it looks at the pin count (`failed_call`).

  3. **Replacer.**  `UnpinPgImp` gives the replacer frames that are not there yet, while there is room for them, and
     a frame leaves the replacer for a reason (`replacer_has_room`).
-/
import BusTub.Buffer.Pins

set_option linter.unusedSectionVars false

namespace BusTub

open BufferPoolManagerInstance

namespace Session

variable {Disk Data : Type} [DiskManager Disk Data] [Zero Data]

/-- The runs of a fresh pool: any calls with any arguments. -/
def anyCalls (b : Build) (cfg : PoolConfig) (disk : Disk) : StepSystem (Session Disk Data) (Event Data) where
  init a := a = ⟨[], create cfg disk⟩
  step a e a' :=
    match e with
    | .call c ret => a.pool.exec b c = .ok (ret, a'.pool) ∧ a'.created = a.created ++ newIds c ret
    | .store f x => a' = ⟨a.created, a.pool.setPage f { a.pool.pages f with data := x }⟩

variable {b : Build} {cfg : PoolConfig} {disk : Disk} {a a' : Session Disk Data}

/-- What is true of every pool at all times. -/
theorem anyCalls_consistent (h : (anyCalls b cfg disk).Reachable a) : a.pool.cfg = cfg ∧ a.pool.Consistent := by
  refine h.invariant (I := fun a => a.pool.cfg = cfg ∧ a.pool.Consistent) ?_ ?_
  · rintro a rfl
    exact ⟨rfl, create_consistent cfg disk⟩
  · rintro a e a' ⟨hcfg, hcon⟩ hstep
    cases e with
    | store f x =>
      obtain rfl := hstep
      exact ⟨hcfg, hcon.store f x⟩
    | call c ret =>
      have he := exec_effect hcon hstep.1
      exact ⟨(effect_cfg he).trans hcfg, hcon.step he⟩

/-- A call that returns is a step. -/
theorem anyCalls_after {c : Call} (ret : Return) (h : (anyCalls b cfg disk).Reachable a)
    (hret : (a.pool.exec b c).toOption.map Prod.fst = some ret) : (anyCalls b cfg disk).Reachable (a.after b c) := by
  obtain ⟨⟨ret', s⟩, hrun, he⟩ := Option.map_eq_some_iff.mp hret
  replace hrun := eq_ok_of_toOption hrun
  apply h.step (e := .call c ret')
  show a.pool.exec b c = .ok (ret', (a.after b c).pool) ∧ (a.after b c).created = a.created ++ newIds c ret'
  have hafter : a.after b c = ⟨a.created ++ newIds c ret', s⟩ := by
    unfold after
    rw [hrun]
  rw [hafter]
  exact ⟨hrun, rfl⟩

end Session

namespace BufferPoolManagerInstance

variable {Disk Data : Type} [DiskManager Disk Data] [Zero Data]
variable {s s' s₁ : BufferPoolManagerInstance Disk Data} {c : Call} {ret : Return} {p : PageId} {f : FrameId}

/-! ## Fetching a page and releasing it -/

/-- If `FetchPgImp` returns a frame for page `p`, then `UnpinPgImp` returns true and the frame has as many pins as
    before. -/
def Releases (s : BufferPoolManagerInstance Disk Data) (p : PageId) (d : Bool) : Prop :=
  ∀ f s₁, s.fetchPgImp p = .ok (some f, s₁) →
    ∃ s₂, s₁.unpinPgImp p d = .ok (true, s₂) ∧ (s₂.pages f).pinCount = s.pinCountOf p

/-- `FetchPgImp` cannot serve page `p`: it is not there, and there is no frame for it. -/
def Refuses (s : BufferPoolManagerInstance Disk Data) (p : PageId) : Prop :=
  s.pageTable p = none ∧ s.replacer.size = 0 ∧ s.freeList = []

/-- A frame can be picked only where there is one. -/
theorem Picked.not_empty (hpick : s.Picked f s₁) : ¬ (s.replacer.size = 0 ∧ s.freeList = []) := by
  rintro ⟨hsize, hfree⟩
  rw [LRUReplacer.size_eq, List.length_eq_zero_iff] at hsize
  cases hpick with
  | free hl =>
    rw [hl] at hfree
    exact absurd hfree (by simp)
  | victim _ hl _ =>
    rw [hl] at hsize
    exact absurd hsize (by simp)

/-- **`FetchPgImp` always returns**: nullptr where it has to refuse, and else a frame, which then holds the page with
    one pin more. -/
theorem Consistent.fetch_spec (h : s.Consistent) (p : PageId) :
    (s.Refuses p ∧ s.fetchPgImp p = .ok (none, s)) ∨
    ∃ f s₁, ¬ s.Refuses p ∧ s.fetchPgImp p = .ok (some f, s₁) ∧ s₁.Consistent ∧ s₁.pageTable p = some f ∧
      (s₁.pages f).pinCount = s.pinCountOf p + 1 := by
  obtain ⟨g, s₁, hrun, he⟩ := fetchPgImp_effect h p
  have hs₁ := h.step he
  cases he with
  | @fetchHit _ f r hp hr =>
    refine .inr ⟨f, _, fun hno => ?_, hrun, hs₁, hp, ?_⟩
    · rw [hno.1] at hp
      cases hp
    · rw [pinCountOf_some hp]
      simp
  | fetchFull hp ht hfree => exact .inl ⟨⟨hp, by rw [LRUReplacer.size_eq, ht]; rfl, hfree⟩, hrun⟩
  | @fetchMiss _ f t r hp hpick hr =>
    refine .inr ⟨f, _, fun hno => hpick.not_empty hno.2, hrun, hs₁, ?_, ?_⟩
    · simp
    · rw [pinCountOf_none hp]
      simp

/-- `UnpinPgImp` takes one pin from a page that has one. -/
theorem Consistent.unpin_spec (h : s.Consistent) (hinvalid : p ≠ invalidPageId) (hp : s.pageTable p = some f)
    (hpin : 0 < (s.pages f).pinCount) (d : Bool) :
    ∃ s', s.unpinPgImp p d = .ok (true, s') ∧ (s'.pages f).pinCount = (s.pages f).pinCount - 1 := by
  obtain ⟨res, s', hrun, he⟩ := unpinPgImp_effect h p d
  cases he with
  | unpinAbsent habs =>
    rcases habs with hinv | hnone
    · exact absurd hinv hinvalid
    · rw [hnone] at hp
      cases hp
  | unpinZero hp' h0 =>
    rw [hp, Option.some.injEq] at hp'
    subst hp'
    omega
  | unpin hp' h0 h1 =>
    rw [hp, Option.some.injEq] at hp'
    subst hp'
    exact ⟨_, hrun, by simp⟩
  | unpinLast hp' h1 hr =>
    rw [hp, Option.some.injEq] at hp'
    subst hp'
    exact ⟨_, hrun, by simp [h1]⟩

theorem Consistent.releases_iff (h : s.Consistent) (p : PageId) (d : Bool) :
    s.Releases p d ↔ p ≠ invalidPageId ∨ s.Refuses p := by
  constructor
  · intro hrel
    rcases h.fetch_spec p with ⟨hno, -⟩ | ⟨f, s₁, -, hrun, -⟩
    · exact .inr hno
    · left
      rintro rfl
      -- `UnpinPgImp` looks at the id first
      obtain ⟨s₂, hunpin, -⟩ := hrel f s₁ hrun
      have hfalse : s₁.unpinPgImp invalidPageId d = .ok (false, s₁) := if_pos rfl
      rw [hfalse] at hunpin
      cases hunpin
  · intro hcond f s₁ hrun
    rcases h.fetch_spec p with ⟨-, hnone⟩ | ⟨g, t, hserves, hsome, ht, hp, hpin⟩
    · rw [hnone] at hrun
      cases hrun
    · rw [hsome] at hrun
      cases hrun
      have hnn := h.pinCountOf_nonneg p
      obtain ⟨s₂, hunpin, hback⟩ := ht.unpin_spec (hcond.resolve_right hserves) hp (by omega) d
      refine ⟨s₂, hunpin, ?_⟩
      rw [hback, hpin]
      omega

/-- Frame `f` has a pin under `INVALID_PAGE_ID`. -/
structure Leaked (s : BufferPoolManagerInstance Disk Data) (f : FrameId) : Prop where
  pageId : (s.pages f).pageId = invalidPageId
  pinned : 0 < (s.pages f).pinCount

/-- Such a pin is not taken back by the next call. -/
theorem Consistent.leaked_step {b : Build} (h : s.Consistent) (hexec : s.exec b c = .ok (ret, s'))
    (hl : s.Leaked f) : s'.Leaked f := by
  have he := exec_effect h hexec
  have hsame : ∀ {t : BufferPoolManagerInstance Disk Data}, t.pages f = s.pages f → t.Leaked f := by
    intro t ht
    exact ⟨by rw [ht]; exact hl.pageId, by rw [ht]; exact hl.pinned⟩
  -- a page that lets go of the frame has another id
  have hother : ∀ {q : PageId} {d : Bool} {g : FrameId}, c = .unpinPg q d → ret = .flag true →
      s.pageTable q = some g → f ≠ g := by
    rintro q d g rfl rfl hq rfl
    have hid := (h.mapped_pageId q f hq).symm.trans hl.pageId
    rw [hid] at hexec
    cases hexec
  have hpinned : ∀ {g : FrameId}, (s.pages g).pinCount = 0 → f ≠ g := by
    rintro g h0 rfl
    exact absurd h0 hl.pinned.ne'
  cases he with
  | @new g t r hpick hr =>
    have hb : s.bumped.Consistent := { h with }
    have hne : f ≠ g := hpinned (hpick.unpinned hb)
    apply hsame
    rw [install_pages, Function.update_of_ne hne, hpick.frame.2.1]
    rfl
  | @fetchMiss q g t r hq hpick hr =>
    apply hsame
    rw [install_pages, Function.update_of_ne (hpinned (hpick.unpinned h)), hpick.frame.2.1]
  | @fetchHit q g r hq hr =>
    by_cases hg : f = g
    · subst hg
      have hpos := hl.pinned
      exact ⟨by simpa using hl.pageId, by simp; omega⟩
    · exact hsame (Function.update_of_ne hg ..)
  | unpinZero hq h0 => exact hsame (Function.update_of_ne (hpinned h0) ..)
  | unpin hq h0 h1 => exact hsame (Function.update_of_ne (hother rfl rfl hq) ..)
  | unpinLast hq h1 hr => exact hsame (Function.update_of_ne (hother rfl rfl hq) ..)
  | delete hq h0 hr => exact hsame (Function.update_of_ne (hpinned h0) ..)
  | _ => exact hsame rfl

theorem Leaked.store (hl : s.Leaked f) (g : FrameId) (x : Data) :
    (s.setPage g { s.pages g with data := x }).Leaked f := by
  by_cases hg : f = g
  · subst hg
    exact ⟨by simpa using hl.pageId, by simpa using hl.pinned⟩
  · have hsame : (s.setPage g { s.pages g with data := x }).pages f = s.pages f := Function.update_of_ne hg ..
    exact ⟨by rw [hsame]; exact hl.pageId, by rw [hsame]; exact hl.pinned⟩

end BufferPoolManagerInstance

namespace Session

variable {Disk Data : Type} [DiskManager Disk Data] [Zero Data]
variable {b : Build} {cfg : PoolConfig} {disk : Disk} {a : Session Disk Data}

/-- **A fetched page can be released exactly if its id is not `INVALID_PAGE_ID`**, or it was not fetched at all:
    in every state that any calls lead to. -/
theorem fetched_released_iff (h : (anyCalls b cfg disk).Reachable a) (p : PageId) (d : Bool) :
    a.pool.Releases p d ↔ p ≠ invalidPageId ∨ a.pool.Refuses p :=
  (anyCalls_consistent h).2.releases_iff p d

/-- Page 0 in a pool of one frame, with one pin. -/
def pinnedPage : Session (PageId → ℕ) ℕ := (fresh 1).after .debug .newPg

theorem pinnedPage_reachable :
    (anyCalls .debug ⟨1, 1, 0, by decide, by decide⟩ (fun _ => 0 : PageId → ℕ)).Reachable pinnedPage :=
  anyCalls_after (.page (some 0) 0) (.init rfl) (by decide +kernel)

/-- The page, given back clean. -/
def idlePage : Session (PageId → ℕ) ℕ := pinnedPage.after .debug (.unpinPg 0 false)

theorem idlePage_reachable :
    (anyCalls .debug ⟨1, 1, 0, by decide, by decide⟩ (fun _ => 0 : PageId → ℕ)).Reachable idlePage :=
  anyCalls_after (.flag true) pinnedPage_reachable (by decide +kernel)

/-- Page 1 in its place, given back as well. -/
def secondPage : Session (PageId → ℕ) ℕ := (idlePage.after .debug .newPg).after .debug (.unpinPg 1 false)

theorem secondPage_reachable :
    (anyCalls .debug ⟨1, 1, 0, by decide, by decide⟩ (fun _ => 0 : PageId → ℕ)).Reachable secondPage :=
  anyCalls_after (.flag true) (anyCalls_after (.page (some 0) 1) idlePage_reachable (by decide +kernel))
    (by decide +kernel)

/-- **Page 0 can be fetched and released** while it is resident, and when it has to be read again; a page under
    `INVALID_PAGE_ID` cannot, unless the pool has no frame for it. -/
theorem fetched_released_iff_one_frame : idlePage.pool.Releases 0 true ∧ secondPage.pool.Releases 0 false ∧
    ¬ secondPage.pool.Releases invalidPageId false ∧ pinnedPage.pool.Releases invalidPageId false :=
  ⟨(fetched_released_iff idlePage_reachable 0 true).mpr (.inl (by decide)),
    (fetched_released_iff secondPage_reachable 0 false).mpr (.inl (by decide)),
    fun h => ((fetched_released_iff secondPage_reachable invalidPageId false).mp h).elim (absurd rfl)
      fun hfull => absurd hfull.2 (by decide +kernel),
    (fetched_released_iff pinnedPage_reachable invalidPageId false).mpr (.inr (by unfold Refuses; decide +kernel))⟩

/-- The frame that is fetched under `INVALID_PAGE_ID` cannot be released. -/
theorem fetched_not_released :
    (anyCalls .debug ⟨1, 1, 0, by decide, by decide⟩ (fun _ => 0 : PageId → ℕ)).Reachable (fresh 1) ∧
      ¬ (fresh 1).pool.Releases invalidPageId false := by
  refine ⟨.init rfl, fun hrel => ?_⟩
  have hfetch : ∃ s₁, (fresh 1).pool.fetchPgImp invalidPageId = .ok (some 0, s₁) := ⟨_, rfl⟩
  obtain ⟨s₁, hfetch⟩ := hfetch
  obtain ⟨s₂, hunpin, -⟩ := hrel 0 s₁ hfetch
  have hfalse : s₁.unpinPgImp invalidPageId false = .ok (false, s₁) := if_pos rfl
  rw [hfalse] at hunpin
  cases hunpin

/-- **The frame is lost for good**: once it is fetched under `INVALID_PAGE_ID`, it is pinned in every state that
    follows. -/
theorem leaked_for_good (h : (anyCalls b cfg disk).Reachable a) {f : FrameId}
    {s₁ : BufferPoolManagerInstance Disk Data} (hfetch : a.pool.fetchPgImp invalidPageId = .ok (some f, s₁))
    {es : List (Event Data)} {a' : Session Disk Data} (hrun : (anyCalls b cfg disk).Run ⟨a.created, s₁⟩ es a') :
    0 < (a'.pool.pages f).pinCount := by
  have hcon := (anyCalls_consistent h).2
  rcases hcon.fetch_spec invalidPageId with ⟨-, hnone⟩ | ⟨g, t, -, hsome, ht, hp, hpin⟩
  · rw [hnone] at hfetch
    cases hfetch
  · rw [hsome] at hfetch
    cases hfetch
    have hnn := hcon.pinCountOf_nonneg invalidPageId
    have hstart : s₁.Consistent ∧ s₁.Leaked f := ⟨ht, ht.mapped_pageId _ f hp, by omega⟩
    have hend := hrun.invariant (I := fun a => a.pool.Consistent ∧ a.pool.Leaked f) ?_ hstart
    · exact hend.2.pinned
    · rintro a e a' ⟨hcon, hl⟩ hstep
      cases e with
      | store g x =>
        obtain rfl := hstep
        exact ⟨hcon.store g x, hl.store g x⟩
      | call c ret => exact ⟨hcon.step (exec_effect hcon hstep.1), hcon.leaked_step hstep.1 hl⟩

end Session

namespace BufferPoolManagerInstance

variable {Disk Data : Type} [DiskManager Disk Data] [Zero Data]
variable {s s' : BufferPoolManagerInstance Disk Data} {c : Call} {ret : Return} {p : PageId} {f : FrameId}

/-! ## Calls that fail -/

/-- The call returned nullptr or false. -/
def Return.Failed : Return → Prop
  | .page none _ => True
  | .flag false => True
  | _ => False

/-- Run one call, where the caller's `page_id` variable of `NewPage` has any value. -/
def execFrom (b : Build) (page_id : PageId) (s : BufferPoolManagerInstance Disk Data) :
    Call → Except Fault (Return × BufferPoolManagerInstance Disk Data)
  | .newPg => do let ((f, p), s) ← s.newPgImp b page_id; .ok (.page f p, s)
  | c => s.exec b c

/-- `NewPgImp` assigns the variable when it has an id for the page, and does not read it. -/
theorem newPgImp_out {b : Build} {page_id q : PageId} {frame : Option FrameId}
    (hrun : s.newPgImp b page_id = .ok ((frame, q), s')) :
    (frame = none ∧ q = page_id ∧ s.newPgImp b invalidPageId = .ok ((none, invalidPageId), s')) ∨
    (frame ≠ none ∧ s.newPgImp b invalidPageId = .ok ((frame, q), s')) := by
  unfold newPgImp at hrun ⊢
  by_cases hscan : s.cfg.poolSize ≤ firstUnpinned s.pages s.cfg.poolSize 0
  · rw [if_pos hscan] at hrun ⊢
    cases hrun
    exact .inl ⟨rfl, rfl, rfl⟩
  · rw [if_neg hscan] at hrun ⊢
    by_cases hempty : s.replacer.size = 0 ∧ s.freeList = []
    · rw [if_pos hempty] at hrun ⊢
      cases hrun
      exact .inl ⟨rfl, rfl, rfl⟩
    · rw [if_neg hempty] at hrun ⊢
      refine .inr ⟨?_, hrun⟩
      -- the frame that was picked is returned
      obtain ⟨⟨id, s₁⟩, -, hrun⟩ := except_bind_inv hrun
      obtain ⟨⟨g, s₂⟩, -, hrun⟩ := except_bind_inv hrun
      obtain ⟨r, -, hrun⟩ := except_bind_inv hrun
      cases hrun
      exact Option.some_ne_none g

/-- The call is to mark a page dirty that nobody has pinned, in frame `f`. -/
def MarksUnpinned (s : BufferPoolManagerInstance Disk Data) (c : Call) (f : FrameId) : Prop :=
  ∃ p, c = .unpinPg p true ∧ p ≠ invalidPageId ∧ s.pageTable p = some f ∧ (s.pages f).pinCount = 0

/-- Frame `f` is marked dirty, and nothing else is different. -/
def marked (s : BufferPoolManagerInstance Disk Data) (f : FrameId) : BufferPoolManagerInstance Disk Data :=
  s.setPage f { s.pages f with isDirty := true }

/-- A failed call has not touched anything, unless it was to mark an unpinned page. -/
theorem Consistent.failed_exec {b : Build} (h : s.Consistent) (hexec : s.exec b c = .ok (ret, s'))
    (hfail : ret.Failed) : s' = s ∨ ∃ f, s.MarksUnpinned c f ∧ s' = s.marked f := by
  have he := exec_effect h hexec
  cases he with
  | newFull => exact .inl rfl
  | fetchFull => exact .inl rfl
  | unpinAbsent => exact .inl rfl
  | flushAbsent => exact .inl rfl
  | deletePinned => exact .inl rfl
  | @unpinZero p d f hp h0 =>
    by_cases hinvalid : p = invalidPageId
    · -- that id is refused before the frame is marked
      subst hinvalid
      have hrefused : s.exec b (.unpinPg invalidPageId d) = .ok (.flag false, s) := rfl
      rw [hrefused, Except.ok.injEq, Prod.mk.injEq] at hexec
      exact .inl hexec.2.symm
    · cases d with
      | true => exact .inr ⟨f, ⟨p, rfl, hinvalid, hp, h0⟩, rfl⟩
      | false =>
        left
        show s.setPage f (s.pages f) = s
        unfold setPage
        rw [Function.update_eq_self]
  | _ => exact absurd hfail id

/-- A call that is to mark an unpinned page fails, and marks it. -/
theorem MarksUnpinned.exec (b : Build) (hm : s.MarksUnpinned c f) : s.exec b c = .ok (.flag false, s.marked f) := by
  obtain ⟨p, rfl, hinvalid, hp, h0⟩ := hm
  have hrun : s.unpinPgImp p true = .ok (false, s.marked f) := by
    unfold unpinPgImp marked
    rw [if_neg hinvalid, hp]
    simp [setPage, h0]
  simp [BufferPoolManagerInstance.exec, hrun, bind, Except.bind]

/-- **What a failed call leaves**: the caller's `page_id` as it was, and the pool and the disk as they were, but for
    the dirty flag of a frame that the call was to mark. -/
structure FailedSafely (page_id : PageId) (s : BufferPoolManagerInstance Disk Data) (c : Call) (ret : Return)
    (s' : BufferPoolManagerInstance Disk Data) : Prop where
  out_kept : c = .newPg → ret = .page none page_id
  marked : ∀ f, s.MarksUnpinned c f → s' = s.marked f
  unchanged : (∀ f, ¬ s.MarksUnpinned c f) → s' = s

theorem Consistent.failed_execFrom {b : Build} {page_id : PageId} (h : s.Consistent)
    (hexec : s.execFrom b page_id c = .ok (ret, s')) (hfail : ret.Failed) : FailedSafely page_id s c ret s' := by
  by_cases hnew : c = .newPg
  · subst hnew
    obtain ⟨⟨⟨frame, q⟩, t⟩, hrun, hexec⟩ := except_bind_inv hexec
    cases hexec
    rcases newPgImp_out hrun with ⟨rfl, rfl, hnone⟩ | ⟨hne, -⟩
    · have hexec : s.exec b .newPg = .ok (.page none invalidPageId, s') := by
        simp [exec, hnone, bind, Except.bind]
      have hno : ∀ f, ¬ s.MarksUnpinned .newPg f := by
        rintro f ⟨p, hc, -⟩
        cases hc
      refine ⟨fun _ => rfl, fun f hm => absurd hm (hno f), fun _ => ?_⟩
      rcases h.failed_exec hexec trivial with hsame | ⟨f, hm, -⟩
      · exact hsame
      · exact absurd hm (hno f)
    · obtain ⟨g, rfl⟩ := Option.ne_none_iff_exists'.mp hne
      exact absurd hfail id
  · have hexec' : s.exec b c = .ok (ret, s') := by
      cases c with
      | newPg => exact absurd rfl hnew
      | _ => exact hexec
    refine ⟨fun hc => absurd hc hnew, fun f hm => ?_, fun hno => ?_⟩
    · rw [hm.exec b, Except.ok.injEq, Prod.mk.injEq] at hexec'
      exact hexec'.2.symm
    · rcases h.failed_exec hexec' hfail with hsame | ⟨f, hm, -⟩
      · exact hsame
      · exact absurd hm (hno f)

end BufferPoolManagerInstance

namespace Session

variable {Disk Data : Type} [DiskManager Disk Data] [Zero Data]
variable {b : Build} {cfg : PoolConfig} {disk : Disk} {a : Session Disk Data}

/-- **A call that returns nullptr or false changes nothing**, in any state and for any arguments, but that
    `UnpinPgImp` with `is_dirty` sets the flag of a resident page that nobody has pinned. -/
theorem failed_call (h : (anyCalls b cfg disk).Reachable a) {page_id : PageId} {c : Call} {ret : Return}
    {s' : BufferPoolManagerInstance Disk Data} (hexec : a.pool.execFrom b page_id c = .ok (ret, s'))
    (hfail : ret.Failed) : FailedSafely page_id a.pool c ret s' :=
  (anyCalls_consistent h).2.failed_execFrom hexec hfail

/-- A pinned page cannot be deleted, and stays as it is. -/
theorem failed_call_pinned : FailedSafely 7 pinnedPage.pool (.deletePg 0) (.flag false) pinnedPage.pool := by
  refine failed_call (b := .debug) pinnedPage_reachable ?_ trivial
  have hrun : pinnedPage.pool.deletePgImp 0 = .ok (false, pinnedPage.pool) := by
    unfold deletePgImp
    rw [show pinnedPage.pool.pageTable 0 = some 0 from by decide +kernel]
    exact if_pos (by decide +kernel)
  show pinnedPage.pool.exec .debug (.deletePg 0) = _
  simp [exec, hrun, bind, Except.bind]

/-- A second `UnpinPgImp` returns false, and the page is dirty. -/
theorem failed_call_marks :
    (anyCalls .debug ⟨1, 1, 0, by decide, by decide⟩ (fun _ => 0 : PageId → ℕ)).Reachable idlePage ∧
    ∃ s', idlePage.pool.execFrom .debug 7 (.unpinPg 0 true) = .ok (.flag false, s') ∧
      (idlePage.pool.pages 0).isDirty = false ∧ (s'.pages 0).isDirty = true := by
  refine ⟨idlePage_reachable, idlePage.pool.marked 0, ?_, by decide +kernel, ?_⟩
  · show idlePage.pool.exec .debug (.unpinPg 0 true) = _
    apply MarksUnpinned.exec
    exact ⟨0, rfl, by decide, by decide +kernel, by decide +kernel⟩
  · simp [marked]

end Session

namespace BufferPoolManagerInstance

variable {Disk Data : Type} [DiskManager Disk Data] [Zero Data]
variable {s s' s₁ : BufferPoolManagerInstance Disk Data} {c : Call} {ret : Return} {p : PageId} {f : FrameId}

/-! ## What the replacer is asked -/

/-- `UnpinPgImp` over any `Unpin` of its replacer. -/
def unpinPgImpOver {ε : Type} (unpin : FrameId → LRUReplacer → Except ε LRUReplacer) (page_id : PageId)
    (is_dirty : Bool) (s : BufferPoolManagerInstance Disk Data) :
    Except ε (Bool × BufferPoolManagerInstance Disk Data) :=
  if page_id = invalidPageId then .ok (false, s)
  else match s.pageTable page_id with
  | none => .ok (false, s)
  | some frame_id =>
    let pg := s.pages frame_id
    let s := if is_dirty then s.setPage frame_id { pg with isDirty := is_dirty } else s
    let pg := s.pages frame_id
    if pg.pinCount = 0 then .ok (false, s)
    else
      let s := s.setPage frame_id { pg with pinCount := pg.pinCount - 1 }
      if (s.pages frame_id).pinCount = 0 then do
        let r ← unpin frame_id s.replacer
        .ok (true, { s with replacer := r })
      else .ok (true, s)

/-- The method is this with the replacer's own `Unpin`. -/
theorem unpinPgImp_eq_over (s : BufferPoolManagerInstance Disk Data) (p : PageId) (d : Bool) :
    s.unpinPgImp p d = s.unpinPgImpOver LRUReplacer.unpin p d := rfl

/-- The call of `replacer_->Unpin` that `UnpinPgImp` makes, if it makes one: the frame, and the replacer at that
    moment.  An `Unpin` that stops with its arguments shows them. -/
def unpinCall (p : PageId) (d : Bool) (s : BufferPoolManagerInstance Disk Data) : Option (FrameId × LRUReplacer) :=
  match s.unpinPgImpOver (fun f r => .error (f, r)) p d with
  | .error asked => some asked
  | .ok _ => none

/-- The replacer is asked about the frame of a page whose last pin goes. -/
theorem unpinCall_iff {d : Bool} {r : LRUReplacer} : s.unpinCall p d = some (f, r) ↔
    p ≠ invalidPageId ∧ s.pageTable p = some f ∧ (s.pages f).pinCount = 1 ∧ r = s.replacer := by
  unfold unpinCall unpinPgImpOver
  by_cases hinvalid : p = invalidPageId
  · rw [if_pos hinvalid]
    exact ⟨fun hcall => (by cases hcall), fun hc => absurd hinvalid hc.1⟩
  · rw [if_neg hinvalid]
    cases hp : s.pageTable p with
    | none => exact ⟨fun hcall => (by cases hcall), fun hc => (by cases hc.2.1)⟩
    | some g =>
      -- marking the frame is or-ing the flag in
      have hmark : (if d then s.setPage g { s.pages g with isDirty := d } else s) =
          s.setPage g { s.pages g with isDirty := d || (s.pages g).isDirty } := by
        cases d <;> simp [setPage]
      simp only [hmark, setPage_pages, setPage_replacer, Function.update_self, Option.some.injEq]
      by_cases h1 : (s.pages g).pinCount = 1
      · have hcalls : (s.pages g).pinCount - 1 = 0 := by omega
        rw [if_neg (by omega), if_pos hcalls]
        constructor
        · intro hcall
          cases hcall
          exact ⟨hinvalid, rfl, h1, rfl⟩
        · rintro ⟨-, rfl, -, rfl⟩
          rfl
      · have hno : ∀ r, ¬ (p ≠ invalidPageId ∧ g = f ∧ (s.pages f).pinCount = 1 ∧ r = s.replacer) := by
          rintro r ⟨-, rfl, hone, -⟩
          exact h1 hone
        refine iff_of_false (fun hcall => ?_) (hno r)
        by_cases h0 : (s.pages g).pinCount = 0
        · rw [if_pos h0] at hcall
          cases hcall
        · rw [if_neg h0, if_neg (by omega)] at hcall
          cases hcall

/-- `Victim` gives frame `f`, which it does only where no frame is free. -/
def ChosenAsVictim (s : BufferPoolManagerInstance Disk Data) (f : FrameId) : Prop :=
  s.freeList = [] ∧ ∃ r, s.replacer.victim (-1) = .ok (true, f, r)

/-- The reasons for which frame `f` may leave the replacer. -/
def Leaves (s : BufferPoolManagerInstance Disk Data) (f : FrameId) : Call → Prop
  | .newPg => s.ChosenAsVictim f
  | .fetchPg p => s.pageTable p = some f ∨ s.pageTable p = none ∧ s.ChosenAsVictim f
  | .deletePg p => s.pageTable p = some f
  | _ => False

/-- A frame that was tracked before a frame was picked, and is not any more, is the victim. -/
theorem Picked.chosen (h : s.Consistent) {g : FrameId} (hpick : s.Picked g s₁) (hf : f ∈ s.replacer.tracked)
    (hnot : f ∉ s₁.replacer.tracked) : s.ChosenAsVictim f := by
  cases hpick with
  | free hl => exact absurd hf hnot
  | @victim l g r hfree hl hr =>
    obtain rfl : f = g := by
      rw [hl, List.mem_append, List.mem_singleton] at hf
      exact hf.resolve_left fun hm => hnot (hr.tracked ▸ hm)
    obtain ⟨r', hv, -⟩ := LRUReplacer.victim_spec h.lru hl (-1)
    exact ⟨hfree, r', hv⟩

/-- **A frame leaves the replacer as victim, fetched or deleted.** -/
theorem Consistent.leaves (h : s.Consistent) (he : s.Effect c ret s') (hf : f ∈ s.replacer.tracked)
    (hnot : f ∉ s'.replacer.tracked) : s.Leaves f c := by
  have hfiltered : ∀ {g : FrameId} {r : LRUReplacer}, s.Replaced (s.replacer.tracked.filter (· ≠ g)) r →
      f ∉ r.tracked → f = g := by
    intro g r hr hnot
    apply Classical.byContradiction
    intro hne
    apply hnot
    rw [hr.tracked, List.mem_filter]
    exact ⟨hf, by simpa using hne⟩
  cases he with
  | @new g t r hpick hr =>
    have hb : s.bumped.Consistent := { h with }
    rw [install_replacer, hr.tracked] at hnot
    have hv : s.bumped.ChosenAsVictim f := hpick.chosen hb hf hnot
    exact hv
  | @fetchMiss p g t r hp hpick hr =>
    rw [install_replacer, hr.tracked] at hnot
    exact .inr ⟨hp, hpick.chosen h hf hnot⟩
  | fetchHit hp hr =>
    obtain rfl := hfiltered hr hnot
    exact .inl hp
  | delete hp h0 hr =>
    obtain rfl := hfiltered hr hnot
    exact hp
  | unpinLast hp h1 hr =>
    refine absurd ?_ hnot
    show f ∈ LRUReplacer.tracked _
    rw [hr.tracked]
    exact List.mem_cons_of_mem _ hf
  | _ => exact absurd hf hnot

/-- **The replacer has room for the frame that `UnpinPgImp` gives it**, which is not there yet. -/
theorem Consistent.unpinCall_room (h : s.Consistent) {d : Bool} {r : LRUReplacer}
    (hcall : s.unpinCall p d = some (f, r)) :
    f ∉ r.tracked ∧ r.tracked.length < s.cfg.poolSize ∧ r.size ≠ r.numPages ∧
      ∃ r', r.unpin f = .ok r' ∧ r'.tracked = f :: r.tracked := by
  obtain ⟨-, hp, h1, rfl⟩ := unpinCall_iff.mp hcall
  have hnot : f ∉ s.replacer.tracked := by
    intro hf
    have h0 := h.tracked_unpinned f hf
    omega
  have hroom := h.tracked_room (h.mapped_inPool p f hp) hnot
  obtain ⟨r', hrun, -, ht, -⟩ := LRUReplacer.unpin_spec h.lru hnot hroom
  have hcap := h.capacity
  rw [LRUReplacer.size_eq]
  exact ⟨hnot, by omega, by omega, r', hrun, ht⟩

end BufferPoolManagerInstance

namespace Session

variable {Disk Data : Type} [DiskManager Disk Data] [Zero Data]
variable {b : Build} {cfg : PoolConfig} {disk : Disk} {a : Session Disk Data}

/-- **The replacer is never full when `UnpinPgImp` calls it**, whatever was called before: the frame is not tracked
    and fewer than `pool_size_` frames are, so the branch of `Unpin` that evicts is not taken and the call returns.
    And a frame leaves the replacer only as a victim, fetched again, or deleted.  The call is seen by running
    `UnpinPgImp` over an `Unpin` that stops; over the replacer's own it is `UnpinPgImp`. -/
theorem replacer_has_room (h : (anyCalls b cfg disk).Reachable a) :
    (∀ p d, a.pool.unpinPgImp p d = a.pool.unpinPgImpOver LRUReplacer.unpin p d) ∧
    (∀ p d f r, a.pool.unpinCall p d = some (f, r) → f ∉ r.tracked ∧ r.tracked.length < cfg.poolSize ∧
      r.size ≠ r.numPages ∧ ∃ r', r.unpin f = .ok r' ∧ r'.tracked = f :: r.tracked) ∧
    (∀ c ret s' f, a.pool.exec b c = .ok (ret, s') → f ∈ a.pool.replacer.tracked → f ∉ s'.replacer.tracked →
      a.pool.Leaves f c) := by
  obtain ⟨rfl, hcon⟩ := anyCalls_consistent h
  refine ⟨a.pool.unpinPgImp_eq_over, fun p d f r hcall => hcon.unpinCall_room hcall, ?_⟩
  intro c ret s' f hexec hf hnot
  exact hcon.leaves (exec_effect hcon hexec) hf hnot

/-- The only page of a pool of one frame is given back: the replacer is asked about its frame, and is empty. -/
theorem replacer_has_room_one_frame : ∃ r, pinnedPage.pool.unpinCall 0 false = some (0, r) ∧ r.tracked.length < 1 := by
  have hcall : pinnedPage.pool.unpinCall 0 false = some (0, pinnedPage.pool.replacer) :=
    unpinCall_iff.mpr ⟨by decide, by decide +kernel, by decide +kernel, rfl⟩
  exact ⟨_, hcall, ((replacer_has_room pinnedPage_reachable).2.1 0 false 0 _ hcall).2.1⟩

end Session

end BusTub
