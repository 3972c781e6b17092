/-
  The table over the buffer pool.

  1. **`poolMachine`** runs the table's programs over a `BufferPoolManagerInstance`: a `Page *` is a
     frame, and reading or writing through it reads or writes whatever that frame holds by then.

  2. **`CarriedBy`** relates the checked store to it.  The pages of the store are the ledger of the
     pool, every pin of the store is a pin of the ledger, and the pointer of a token is the frame it was
     handed out with.  Since the checked store holds at most three pins, a pool with three frames or more
     always has one to take, and every command that the store accepts does the same over the pool
     (`CarriedBy.step`), whatever is evicted and read back meanwhile.

  3. `pool_refines_ideal` — **the main result**: in the build that evaluates asserts, the one that
     `README.md` builds, the table returns the same over the pool as over the ideal store, and leaves
     the same directory and buckets.
-/
import BusTub.Buffer.Content
import BusTub.Buffer.PageIds
import BusTub.Table.Calls

set_option linter.unusedSectionVars false

namespace BusTub

open Command BufferPoolManagerInstance

/-! ## The machine -/

/-- A pool with the pointer variables of the running method. -/
structure PoolStore (Disk K V : Type) where
  pool : BufferPoolManagerInstance Disk (PageData K V)
  ptr : PtrVar → Option FrameId

namespace BufferPoolManagerInstance

/-- The frame that a call returned, unless it was nullptr. -/
def Return.frame : Return → Option FrameId
  | .page f _ => f
  | _ => none

/-- The page id that `NewPage` set, unless it returned nullptr. -/
def Return.newId : Return → Option PageId
  | .page f p => f.map fun _ => p
  | _ => none

/-- The flag that a call returned. -/
def Return.res : Return → Bool
  | .flag res => res
  | _ => false

end BufferPoolManagerInstance

/-- The table's commands over a pool. -/
def poolMachine {Disk K V : Type} [DiskManager Disk (PageData K V)] (b : Build) :
    Machine (Cmd.Res (K := K) (V := V)) Fault (PoolStore Disk K V)
  | .newPage v, s => do
    let (ret, pool) ← s.pool.exec b .newPg
    .ok (ret.newId, ⟨pool, Function.update s.ptr v ret.frame⟩)
  | .fetchPage v p, s => do
    let (ret, pool) ← s.pool.exec b (.fetchPg p)
    .ok (ret.frame.isSome, ⟨pool, Function.update s.ptr v ret.frame⟩)
  | .unpinPage p d, s => do
    let (ret, pool) ← s.pool.exec b (.unpinPg p d)
    .ok (ret.res, { s with pool := pool })
  | .deletePage p, s => do
    let (ret, pool) ← s.pool.exec b (.deletePg p)
    .ok (ret.res, { s with pool := pool })
  | .load v, s =>
    match s.ptr v with
    | none => .error .nullPointer
    | some f => .ok ((s.pool.pages f).data, s)
  | .store v x, s =>
    match s.ptr v with
    | none => .error .nullPointer
    | some f => .ok ((), { s with pool := s.pool.setPage f { s.pool.pages f with data := x } })
  | .latch _, s => .ok ((), s)

/-- A command that was to return a page returned nullptr. -/
def Cmd.gotNull {K V : Type} : (c : Cmd K V) → Cmd.Res c → Bool
  | .newPage _, id => id.isNone
  | .fetchPage _ _, page => !page
  | _, _ => false

section access

variable {Disk K V : Type} [DiskManager Disk (PageData K V)] {b : Build} {t t' : PoolStore Disk K V} {v : PtrVar}

theorem poolMachine_load {x : PageData K V} (hrun : poolMachine b (.load v) t = .ok (x, t')) :
    t' = t ∧ t.ptr v ≠ none := by
  cases hptr : t.ptr v with
  | none =>
    simp only [poolMachine, hptr] at hrun
    cases hrun
  | some f =>
    simp only [poolMachine, hptr] at hrun
    cases hrun
    exact ⟨rfl, fun he => (by cases he)⟩

theorem poolMachine_store {x : PageData K V} {r : Unit} (hrun : poolMachine b (.store v x) t = .ok (r, t')) :
    ∃ f, t.ptr v = some f ∧ t' = { t with pool := t.pool.setPage f { t.pool.pages f with data := x } } := by
  cases hptr : t.ptr v with
  | none =>
    simp only [poolMachine, hptr] at hrun
    cases hrun
  | some f =>
    simp only [poolMachine, hptr] at hrun
    cases hrun
    exact ⟨f, rfl, rfl⟩

end access

/-! ## The pages of a store as the ledger of a pool -/

section backs

variable {Disk K V : Type} [DiskManager Disk (PageData K V)] [LawfulDiskManager Disk]

/-- The pages that were created and what was last written to them, with the pins `pins`. -/
def Pages.ledger (ids : ℕ → PageId) (P : Pages K V) (pins : List Pin) : Ledger (PageData K V) :=
  ⟨(List.range P.next).map ids, P.mem, pins⟩

/-- **The pool backs the pages `P`**, on which the pins `pins` are held. -/
structure Backs (cfg : PoolConfig) (P : Pages K V) (pins : List Pin)
    (s : BufferPoolManagerInstance Disk (PageData K V)) : Prop where
  linked : s.Linked (P.ledger cfg.idAt pins)
  cfg_eq : s.cfg = cfg
  counter : s.nextPageId = cfg.idAt P.next

variable {cfg : PoolConfig} {P : Pages K V} {pins : List Pin}
  {s s' : BufferPoolManagerInstance Disk (PageData K V)} {c : Call} {ret : Return} (b : Build)

/-- A call that creates no page, with the pins it leaves. -/
theorem Backs.call (h : Backs cfg P pins s) (he : s.Effect c ret s') (hnew : newIds c ret = [])
    {pins' : List Pin} (hnext : (P.ledger cfg.idAt pins).Next c ret (P.ledger cfg.idAt pins')) :
    Backs cfg P pins' s' := by
  have hcounter := he.counter_kept hnew
  have hcount : s.CountsOn c ret s' := by
    show s'.nextPageId = s.nextPageId + s.cfg.numInstances * ((newIds c ret).length : ℤ)
    rw [hcounter, hnew]
    simp
  exact ⟨h.linked.step he hnext hcount, (Session.effect_cfg he).trans h.cfg_eq, hcounter.trans h.counter⟩

theorem Backs.perm (h : Backs cfg P pins s) {pins' : List Pin} (hp : pins.Perm pins') :
    Backs cfg P pins' s :=
  ⟨h.linked.perm hp, h.cfg_eq, h.counter⟩

/-- `NewPage` creates the next page, or finds every frame pinned. -/
theorem Backs.new (h : Backs cfg P pins s) (hcount : cfg.idAt (P.next + 1) < 2 ^ 31) :
    (∃ f s', s.exec b .newPg = .ok (.page (some f) (cfg.idAt P.next), s') ∧
      Backs cfg (P.create cfg.idAt) (⟨cfg.idAt P.next, f, false⟩ :: pins) s') ∨
    s.exec b .newPg = .ok (.page none invalidPageId, s) ∧ ∀ f, s.inPool f → (s.pages f).pinCount ≠ 0 := by
  have hlt : (s.nextPageId : ℤ) < 2 ^ 31 := by
    rw [h.counter]
    exact lt_trans (cfg.idAt_lt (Nat.lt_succ_self P.next)) hcount
  have halloc := allocatePage_ok (b := b) (k := P.next) (by rw [h.counter, h.cfg_eq]; rfl) hlt
  rcases exec_total (b := b) h.linked.inv.toConsistent .newPg with ⟨ret, s', hexec, he⟩ | ⟨-, -, herr⟩
  · cases he with
    | newFull hfull =>
      refine .inr ⟨hexec, fun f hf h0 => ?_⟩
      rcases hfull with hall | hempty
      · exact hall f hf h0
      · exact h.linked.inv.obtainable hf h0 hempty
    | @new f s₁ r hpick hr =>
      refine .inl ⟨f, _, h.counter ▸ hexec, ?_⟩
      have he : s.Effect .newPg (.page (some f) s.nextPageId) _ := .new hpick hr
      rw [h.counter] at he
      have hcounter := he.counter_advanced (by rw [h.counter, PoolConfig.idAt]; positivity)
        (by rw [h.counter, h.cfg_eq, ← cfg.idAt_succ]; exact hcount)
      rw [h.counter, h.cfg_eq, ← cfg.idAt_succ] at hcounter
      refine ⟨?_, (Session.effect_cfg he).trans h.cfg_eq, hcounter⟩
      have hledger : (P.create cfg.idAt).ledger cfg.idAt (⟨cfg.idAt P.next, f, false⟩ :: pins) =
          (P.ledger cfg.idAt pins).create (cfg.idAt P.next) f := by
        simp [Pages.ledger, Ledger.create, Pages.create_mem, List.range_succ]
      rw [hledger]
      refine h.linked.step he rfl ?_
      show _ = s.nextPageId + s.cfg.numInstances * ((1 : ℕ) : ℤ)
      rw [hcounter, h.counter, h.cfg_eq, cfg.idAt_succ, Nat.cast_one, mul_one]
  · rw [halloc] at herr
    cases herr

/-- `FetchPage` pins a page that was created, or finds every frame pinned. -/
theorem Backs.fetch (h : Backs cfg P pins s) {p : PageId} (hp : P.Created cfg.idAt p) :
    (∃ f s', s.exec b (.fetchPg p) = .ok (.page (some f) p, s') ∧ Backs cfg P (⟨p, f, false⟩ :: pins) s') ∨
    s.exec b (.fetchPg p) = .ok (.page none p, s) ∧ ∀ f, s.inPool f → (s.pages f).pinCount ≠ 0 := by
  have hmem : p ∈ (P.ledger cfg.idAt pins).created := by
    obtain ⟨j, hj, rfl⟩ := hp
    exact List.mem_map_of_mem (List.mem_range.mpr hj)
  rcases exec_total (b := b) h.linked.inv.toConsistent (.fetchPg p) with ⟨ret, s', hexec, he⟩ | ⟨hc, -, -⟩
  · cases he with
    | fetchFull hno ht hfree =>
      exact .inr ⟨hexec, fun f hf h0 => h.linked.inv.obtainable hf h0 ⟨ht, hfree⟩⟩
    | fetchHit hf hr => exact .inl ⟨_, _, hexec, h.call (.fetchHit hf hr) rfl ⟨hmem, rfl⟩⟩
    | fetchMiss hno hpick hr => exact .inl ⟨_, _, hexec, h.call (.fetchMiss hno hpick hr) rfl ⟨hmem, rfl⟩⟩
  · cases hc

/-- A pin is given up, with `is_dirty` if its page was written through it. -/
theorem Backs.unpin (h : Backs cfg P pins s) {k : Pin} (hk : k ∈ pins) {d : Bool}
    (hd : k.wrote = true → d = true) : ∃ s', s.exec b (.unpinPg k.page d) = .ok (.flag true, s') ∧
      Backs cfg P (pins.erase k) s' := by
  have hvalid : k.page ≠ invalidPageId :=
    h.linked.created_valid _ (h.linked.resident _ _ (h.linked.pin_frame k hk))
  obtain ⟨s', hexec, he⟩ := h.linked.inv.unpin_succeeds b d hvalid (h.linked.pinned hk)
  exact ⟨s', hexec, h.call he rfl ⟨k, hk, rfl, hd, rfl⟩⟩

/-- A page without pins is deleted. -/
theorem Backs.delete (h : Backs cfg P pins s) {p : PageId} (hno : ∀ k ∈ pins, k.page ≠ p) :
    ∃ s', s.exec b (.deletePg p) = .ok (.flag true, s') ∧ Backs cfg (P.delete p) pins s' := by
  have h0 : s.pinCountOf p = 0 := by
    rw [h.linked.pin_count]
    exact_mod_cast List.countP_eq_zero.mpr fun k hk => by simpa using hno k hk
  obtain ⟨s', hexec, he⟩ := h.linked.inv.delete_succeeds b h0
  have hcall : Backs cfg P pins s' := h.call he rfl rfl
  exact ⟨s', hexec, hcall.linked, hcall.cfg_eq, hcall.counter⟩

/-- A page is written through a pin. -/
theorem Backs.write (h : Backs cfg P pins s) {k : Pin} (hk : k ∈ pins) (x : PageData K V) :
    Backs cfg (P.write k.page x) ({ k with wrote := true } :: pins.erase k)
      (s.setPage k.frame { s.pages k.frame with data := x }) :=
  ⟨h.linked.write hk x, h.cfg_eq, h.counter⟩

/-- A pin's frame shows its page. -/
theorem Backs.read (h : Backs cfg P pins s) {k : Pin} (hk : k ∈ pins) : (s.pages k.frame).data = P.mem k.page :=
  h.linked.data _ _ (h.linked.pin_frame k hk)

/-- What a pool holds of page `p`: the bytes of its frame, or else those on disk. -/
def BufferPoolManagerInstance.shown (s : BufferPoolManagerInstance Disk (PageData K V)) (p : PageId) :
    PageData K V :=
  match s.pageTable p with
  | some f => (s.pages f).data
  | none => DiskManager.readPage s.disk p

/-- A pool shows the pages it backs. -/
theorem Backs.shown (h : Backs cfg P pins s) {p : PageId} (hp : P.Created cfg.idAt p) : s.shown p = P.mem p := by
  have hmem : p ∈ (P.ledger cfg.idAt pins).created := by
    obtain ⟨j, hj, rfl⟩ := hp
    exact List.mem_map_of_mem (List.mem_range.mpr hj)
  unfold BufferPoolManagerInstance.shown
  split
  · next f hf => exact h.linked.data p f hf
  · next hnone => exact h.linked.absent p hmem hnone

end backs

/-! ## The pool carries out what the checked store does -/

section carried

variable {Disk K V : Type} [DiskManager Disk (PageData K V)] [LawfulDiskManager Disk]

/-- The pin of a hold, whose token stands for the frame `frameOf` of it. -/
def pinOf (frameOf : ℕ → FrameId) (k : Hold) : Pin := ⟨k.page, frameOf k.token, k.wrote⟩

/-- The store `s` is carried by `t`, where `frameOf` are the frames that its tokens stand for. -/
structure CarriedBy (cfg : PoolConfig) (frameOf : ℕ → FrameId) (s : CheckedStore K V) (t : PoolStore Disk K V) :
    Prop where
  backs : Backs cfg s.pages (s.holds.map (pinOf frameOf)) t.pool
  fresh : ∀ k ∈ s.holds, k.token < s.tokens
  nodup : (s.holds.map Hold.token).Nodup
  ptr_fresh : ∀ v n, s.ptr v = some n → n < s.tokens
  ptr : ∀ v n, s.ptr v = some n → t.ptr v = some (frameOf n)

/-- The store `s` is carried by `t` beside `others`, the pins of other callers. -/
structure CarriedWith (cfg : PoolConfig) (frameOf : ℕ → FrameId) (others : List Pin) (s : CheckedStore K V)
    (t : PoolStore Disk K V) : Prop where
  backs : Backs cfg s.pages (s.holds.map (pinOf frameOf) ++ others) t.pool
  fresh : ∀ k ∈ s.holds, k.token < s.tokens
  nodup : (s.holds.map Hold.token).Nodup
  ptr_fresh : ∀ v n, s.ptr v = some n → n < s.tokens
  ptr : ∀ v n, s.ptr v = some n → t.ptr v = some (frameOf n)

variable {cfg : PoolConfig} {cap : ℕ} {frameOf : ℕ → FrameId} {others : List Pin} {s s' : CheckedStore K V}
  {t : PoolStore Disk K V} (b : Build)

theorem carriedBy_iff : CarriedBy cfg frameOf s t ↔ CarriedWith cfg frameOf [] s t := by
  constructor
  · exact fun h => ⟨by rw [List.append_nil]; exact h.backs, h.fresh, h.nodup, h.ptr_fresh, h.ptr⟩
  · exact fun h => ⟨by have hbacks := h.backs; rwa [List.append_nil] at hbacks, h.fresh, h.nodup, h.ptr_fresh, h.ptr⟩

/-- A new pin: its token stands for the frame that the pool returned. -/
theorem CarriedWith.pin (h : CarriedWith cfg frameOf others s t) (v : PtrVar) {p : PageId} {f : FrameId}
    {P : Pages K V} {pool : BufferPoolManagerInstance Disk (PageData K V)}
    (hbacks : Backs cfg P (⟨p, f, false⟩ :: (s.holds.map (pinOf frameOf) ++ others)) pool) :
    CarriedWith cfg (Function.update frameOf s.tokens f) others
      ⟨P, Function.update s.ptr v (some s.tokens), ⟨s.tokens, p, false⟩ :: s.holds, s.tokens + 1⟩
      ⟨pool, Function.update t.ptr v (some f)⟩ where
  backs := by
    -- the tokens of older pins stand for the frames they stood for
    have hold : s.holds.map (pinOf (Function.update frameOf s.tokens f)) = s.holds.map (pinOf frameOf) := by
      refine List.map_congr_left fun k hk => ?_
      unfold pinOf
      rw [Function.update_of_ne (Nat.ne_of_lt (h.fresh k hk))]
    rw [List.map_cons, List.cons_append, hold]
    have hnew : pinOf (Function.update frameOf s.tokens f) ⟨s.tokens, p, false⟩ = ⟨p, f, false⟩ := by
      unfold pinOf
      rw [Function.update_self]
    rw [hnew]
    exact hbacks
  fresh k hk := token_lt_succ h.fresh rfl hk
  nodup := by
    rw [List.map_cons, List.nodup_cons]
    refine ⟨fun hm => ?_, h.nodup⟩
    obtain ⟨k, hk, he⟩ := List.mem_map.mp hm
    exact absurd (h.fresh k hk) (by rw [he]; exact Nat.lt_irrefl _)
  ptr_fresh w n hn := ptr_lt_succ h.ptr_fresh hn
  ptr w n hn := by
    replace hn : Function.update s.ptr v (some s.tokens) w = some n := hn
    show Function.update t.ptr v (some f) w = some (Function.update frameOf s.tokens f n)
    rw [Function.update_apply] at hn ⊢
    split at hn
    · next hwv =>
      cases hn
      rw [if_pos hwv, Function.update_self]
    · next hwv =>
      rw [if_neg hwv, Function.update_of_ne (Nat.ne_of_lt (h.ptr_fresh w n hn))]
      exact h.ptr w n hn

/-- The pins left when hold `k` is given up. -/
theorem holds_erase_perm {holds : List Hold} {k : Hold} (hk : k ∈ holds) :
    ((holds.map (pinOf frameOf)).erase (pinOf frameOf k)).Perm ((holds.erase k).map (pinOf frameOf)) := by
  refine List.Perm.cons_inv (a := pinOf frameOf k) ?_
  refine (List.perm_cons_erase (List.mem_map_of_mem hk)).symm.trans ?_
  exact (List.perm_cons_erase hk).map (pinOf frameOf)

/-- The pins left when the page of hold `k` is written. -/
theorem holds_write_perm {holds : List Hold} {k : Hold} (hk : k ∈ holds) (hnodup : (holds.map Hold.token).Nodup) :
    ({ pinOf frameOf k with wrote := true } :: (holds.map (pinOf frameOf)).erase (pinOf frameOf k)).Perm
      ((holds.map (markWrote k)).map (pinOf frameOf)) := by
  have hperm := List.perm_cons_erase hk
  -- no other hold has the token of `k`
  have hother : (holds.erase k).map (markWrote k) = holds.erase k := by
    have htokens := (hperm.map Hold.token).nodup hnodup
    rw [List.map_cons, List.nodup_cons] at htokens
    refine (List.map_congr_left fun h hh => ?_).trans (List.map_id _)
    have hne : h.token ≠ k.token := fun he => htokens.1 (he ▸ List.mem_map_of_mem hh)
    exact if_neg hne
  have hself : markWrote k k = { k with wrote := true } := if_pos rfl
  refine List.Perm.trans ?_ ((hperm.map (markWrote k)).map (pinOf frameOf)).symm
  rw [List.map_cons, hself, hother, List.map_cons]
  exact (holds_erase_perm hk).cons _

/-- Giving hold `k` up. -/
theorem CarriedWith.unpin (h : CarriedWith cfg frameOf others s t) {k : Hold} (hk : k ∈ s.holds)
    {pool : BufferPoolManagerInstance Disk (PageData K V)}
    (hbacks : Backs cfg s.pages ((s.holds.map (pinOf frameOf) ++ others).erase (pinOf frameOf k)) pool) :
    CarriedWith cfg frameOf others { s with holds := s.holds.erase k } { t with pool := pool } where
  backs := by
    rw [List.erase_append_left _ (List.mem_map_of_mem hk)] at hbacks
    exact hbacks.perm ((holds_erase_perm hk).append_right others)
  fresh k' hk' := h.fresh k' (List.mem_of_mem_erase hk')
  nodup := h.nodup.sublist (List.erase_sublist.map _)
  ptr_fresh := h.ptr_fresh
  ptr := h.ptr

/-- Writing the page of hold `k`. -/
theorem CarriedWith.write (h : CarriedWith cfg frameOf others s t) {k : Hold} (hk : k ∈ s.holds) (x : PageData K V) :
    CarriedWith cfg frameOf others { s with pages := s.pages.write k.page x, holds := s.holds.map (markWrote k) }
      { t with pool := t.pool.setPage (frameOf k.token) { t.pool.pages (frameOf k.token) with data := x } } where
  backs := by
    have hmem : pinOf frameOf k ∈ s.holds.map (pinOf frameOf) := List.mem_map_of_mem hk
    refine (h.backs.write (List.mem_append_left others hmem) x).perm ?_
    rw [List.erase_append_left _ hmem]
    exact (holds_write_perm hk h.nodup).append_right others
  fresh k' hk' := by
    obtain ⟨k₀, hk₀, rfl⟩ := List.mem_map.mp hk'
    rw [markWrote_token]
    exact h.fresh k₀ hk₀
  nodup := by
    have htokens : (s.holds.map (markWrote k)).map Hold.token = s.holds.map Hold.token := by
      rw [List.map_map]
      exact List.map_congr_left fun k₀ _ => markWrote_token k k₀
    rw [htokens]
    exact h.nodup
  ptr_fresh := h.ptr_fresh
  ptr := h.ptr

/-- **Every command that the checked store accepts does the same over the pool**, as long as the id counter
    does not wrap and nobody else has pinned a page that is deleted; or the pool finds every frame pinned. -/
theorem CarriedWith.step (h : CarriedWith cfg frameOf others s t) {c : Cmd K V} {r : Cmd.Res c}
    (hrun : checkedMachine cfg.idAt cap c s = .ok (r, s')) (hcount : cfg.idAt s'.pages.next < 2 ^ 31)
    (halone : ∀ p, c = .deletePage p → ∀ k ∈ others, k.page ≠ p) :
    (∃ t', poolMachine b c t = .ok (r, t') ∧ ∃ frameOf, CarriedWith cfg frameOf others s' t') ∨
    ∃ r' t', poolMachine b c t = .ok (r', t') ∧ c.gotNull r' = true ∧ t'.pool = t.pool ∧
      ∀ f, t.pool.inPool f → (t.pool.pages f).pinCount ≠ 0 := by
  -- the pins of the store are pins of the pool, beside those of the others
  have hpin : ∀ {k}, k ∈ s.holds → pinOf frameOf k ∈ s.holds.map (pinOf frameOf) ++ others :=
    fun hk => List.mem_append_left others (List.mem_map_of_mem hk)
  cases c with
  | newPage v =>
    -- the pool gives the id that the store gives, or no frame at all
    obtain ⟨-, rfl, rfl⟩ := newPage_ok hrun
    rcases h.backs.new b hcount with ⟨f, pool, hexec, hbacks⟩ | ⟨hexec, hfull⟩
    · refine .inl ⟨_, ?_, _, h.pin v hbacks⟩
      show (t.pool.exec b .newPg >>= _) = _
      rw [hexec]
      rfl
    · refine .inr ⟨none, ⟨t.pool, Function.update t.ptr v none⟩, ?_, rfl, rfl, hfull⟩
      show (t.pool.exec b .newPg >>= _) = _
      rw [hexec]
      rfl
  | fetchPage v p =>
    -- a fetch pins a frame anew, maybe another one than before
    obtain ⟨-, hcreated, rfl, rfl⟩ := fetchPage_ok hrun
    rcases h.backs.fetch b hcreated with ⟨f, pool, hexec, hbacks⟩ | ⟨hexec, hfull⟩
    · refine .inl ⟨_, ?_, _, h.pin v hbacks⟩
      show (t.pool.exec b (.fetchPg p) >>= _) = _
      rw [hexec]
      rfl
    · refine .inr ⟨false, ⟨t.pool, Function.update t.ptr v none⟩, ?_, rfl, rfl, hfull⟩
      show (t.pool.exec b (.fetchPg p) >>= _) = _
      rw [hexec]
      rfl
  | unpinPage p d =>
    obtain ⟨k, hk, rfl, hflag, rfl, rfl⟩ := unpinPage_ok hrun
    obtain ⟨pool, hexec, hbacks⟩ := h.backs.unpin b (hpin hk) hflag
    refine .inl ⟨_, ?_, _, h.unpin hk hbacks⟩
    show (t.pool.exec b (.unpinPg (pinOf frameOf k).page d) >>= _) = _
    rw [hexec]
    rfl
  | deletePage p =>
    -- nobody has the page pinned, so the pool does delete it
    obtain ⟨hno, rfl, rfl⟩ := deletePage_ok hrun
    obtain ⟨pool, hexec, hbacks⟩ := h.backs.delete (p := p) b fun k hk => by
      rcases List.mem_append.mp hk with hk | hk
      · obtain ⟨k₀, hk₀, rfl⟩ := List.mem_map.mp hk
        exact hno k₀ hk₀
      · exact halone p rfl k hk
    refine .inl ⟨{ t with pool := pool }, ?_, frameOf, ⟨hbacks, h.fresh, h.nodup, h.ptr_fresh, h.ptr⟩⟩
    show (t.pool.exec b (.deletePg p) >>= _) = _
    rw [hexec]
    rfl
  | load v =>
    obtain ⟨k, hk, hptr, rfl, rfl⟩ := load_ok hrun
    -- the frame of the hold has the bytes of the page
    have hread : (t.pool.pages (frameOf k.token)).data = s'.pages.mem k.page := h.backs.read (hpin hk)
    refine .inl ⟨t, ?_, frameOf, h⟩
    simp only [poolMachine, h.ptr v _ hptr, hread]
  | store v x =>
    obtain ⟨k, hk, hptr, rfl⟩ := store_ok hrun
    exact .inl ⟨_, by simp only [poolMachine, h.ptr v _ hptr], frameOf, h.write hk x⟩
  | latch l =>
    cases hrun
    exact .inl ⟨t, rfl, frameOf, h⟩

/-- Nobody else uses the pool, and it has more frames than the store holds pins: there is always a frame. -/
theorem CarriedBy.step (hcap : cap ≤ cfg.poolSize) (c : Cmd K V) (s : CheckedStore K V)
    (t : PoolStore Disk K V) (r : Cmd.Res c) (s' : CheckedStore K V) (h : ∃ frameOf, CarriedBy cfg frameOf s t)
    (hrun : checkedMachine cfg.idAt cap c s = .ok (r, s')) (hcount : cfg.idAt s'.pages.next < 2 ^ 31) :
    ∃ t', poolMachine b c t = .ok (r, t') ∧ ∃ frameOf, CarriedBy cfg frameOf s' t' := by
  obtain ⟨frameOf, h⟩ := h
  rw [carriedBy_iff] at h
  rcases h.step b hrun hcount fun p _ k hk => (by cases hk) with ⟨t', hpool, frameOf', h'⟩ | ⟨r', t', -, hnull, -, hfull⟩
  · exact ⟨t', hpool, frameOf', carriedBy_iff.mpr h'⟩
  · have hlt : s.holds.length < cap := by
      cases c with
      | newPage v => exact (newPage_ok hrun).1
      | fetchPage v p => exact (fetchPage_ok hrun).1
      | _ => cases hnull
    have hroom : (((s.holds.map (pinOf frameOf) ++ []).map Pin.page).toFinset).card < t.pool.cfg.poolSize := by
      rw [h.backs.cfg_eq]
      refine Nat.lt_of_le_of_lt (List.toFinset_card_le _) (Nat.lt_of_lt_of_le ?_ hcap)
      simpa using hlt
    obtain ⟨f, hf, h0⟩ := h.backs.linked.room hroom
    exact absurd h0 (hfull f hf)

/-- Only `NewPage` changes how many pages the checked store has. -/
theorem checked_next {ids : ℕ → PageId} (c : Cmd K V) (s : CheckedStore K V) (r : Cmd.Res c)
    (s' : CheckedStore K V) (hrun : checkedMachine ids cap c s = .ok (r, s')) :
    s'.pages.next = s.pages.next ∨ (∃ v, c = .newPage v) ∧ s'.pages.next = s.pages.next + 1 := by
  cases c with
  | newPage v =>
    obtain ⟨-, -, rfl⟩ := newPage_ok hrun
    exact .inr ⟨⟨v, rfl⟩, rfl⟩
  | fetchPage v p =>
    obtain ⟨-, -, -, rfl⟩ := fetchPage_ok hrun
    exact .inl rfl
  | unpinPage p d =>
    obtain ⟨k, -, -, -, -, rfl⟩ := unpinPage_ok hrun
    exact .inl rfl
  | deletePage p =>
    obtain ⟨-, -, rfl⟩ := deletePage_ok hrun
    exact .inl rfl
  | load v =>
    obtain ⟨k, -, -, -, rfl⟩ := load_ok hrun
    exact .inl rfl
  | store v x =>
    obtain ⟨k, -, -, rfl⟩ := store_ok hrun
    exact .inl rfl
  | latch l =>
    cases hrun
    exact .inl rfl

/-- The checked store never takes a page back. -/
theorem checked_next_le {ids : ℕ → PageId} (c : Cmd K V) (s : CheckedStore K V) (r : Cmd.Res c)
    (s' : CheckedStore K V) (hrun : checkedMachine ids cap c s = .ok (r, s')) : s.pages.next ≤ s'.pages.next := by
  rcases checked_next c s r s' hrun with hsame | ⟨-, hone⟩
  · exact Nat.le_of_eq hsame.symm
  · omega

/-- A call has no pins at its start. -/
theorem CarriedWith.start {P : Pages K V} {pool : BufferPoolManagerInstance Disk (PageData K V)}
    (hbacks : Backs cfg P others pool) :
    CarriedWith cfg (fun _ => 0) others ⟨P, fun _ => none, [], 0⟩ (⟨pool, fun _ => none⟩ : PoolStore Disk K V) where
  backs := hbacks
  fresh k hk := by cases hk
  nodup := List.nodup_nil
  ptr_fresh v n hn := by cases hn
  ptr v n hn := by cases hn

/-- **What is disciplined does the same over a pool** with enough frames and no pins held. -/
theorem Disciplined.pool (hcap : cap ≤ cfg.poolSize) {α : Type} {p : TableProg K V α} {P P' : Pages K V} {r : α}
    (h : Disciplined cfg.idAt cap p P r P') (hcount : cfg.idAt P'.next < 2 ^ 31)
    {pool : BufferPoolManagerInstance Disk (PageData K V)} (hbacks : Backs cfg P [] pool) :
    ∃ pool' ptr', run (poolMachine b) p ⟨pool, fun _ => none⟩ = .ok (r, ⟨pool', ptr'⟩) ∧ Backs cfg P' [] pool' := by
  obtain ⟨ptr', t', hrun⟩ := h (fun _ => none) 0
  have hstart := carriedBy_iff.mpr (CarriedWith.start hbacks)
  obtain ⟨⟨pool', ptr₁⟩, hpool, frameOf, hcarried⟩ := run_simulates
    (R := fun s (t : PoolStore Disk K V) => ∃ frameOf, CarriedBy cfg frameOf s t)
    (G := fun s => cfg.idAt s.pages.next < 2 ^ 31)
    (fun c s r s' hc hg => lt_of_le_of_lt (cfg.idAt_le (checked_next_le c s r s' hc)) hg)
    (fun c s t r s' hR hc hg => CarriedBy.step b hcap c s t r s' hR hc hg)
    p _ _ _ _ ⟨_, hstart⟩ hrun hcount
  exact ⟨pool', ptr₁, hpool, hcarried.backs⟩

omit [DiskManager Disk (PageData K V)] [LawfulDiskManager Disk] in
theorem Disciplined.next_le {ids : ℕ → PageId} {α : Type} {p : TableProg K V α} {P P' : Pages K V} {r : α}
    (h : Disciplined ids cap p P r P') : P.next ≤ P'.next := by
  obtain ⟨ptr', t', hrun⟩ := h (fun _ => none) 0
  exact run_before (G := fun s => s.pages.next ≤ P'.next)
    (fun c s r s' hc hg => (checked_next_le c s r s' hc).trans hg) p _ _ _ hrun (Nat.le_refl _)

/-- Deletions do not matter to a pool. -/
theorem Backs.covers {P Q : Pages K V} {pins : List Pin} {pool : BufferPoolManagerInstance Disk (PageData K V)}
    (h : Backs cfg P pins pool) (hcov : P.Covers Q) : Backs cfg Q pins pool := by
  obtain ⟨hlinked, hcfg, hcounter⟩ := h
  unfold Pages.ledger at hlinked
  rw [← hcov.next, ← hcov.mem] at hlinked
  exact ⟨hlinked, hcfg, by rw [hcov.next]; exact hcounter⟩

/-- A fresh pool backs the store without pages. -/
theorem Backs.fresh {n : ℕ} (hcount : cfg.idAt n < 2 ^ 31) (disk : Disk) :
    Backs cfg (Pages.empty : Pages K V) [] (create cfg disk) := by
  have hidx : (cfg.instanceIndex : ℤ) ≤ cfg.idAt n := by
    unfold PoolConfig.idAt
    have h0 : (0 : ℤ) ≤ cfg.numInstances * n := by positivity
    linarith
  have hnext : int32 cfg.instanceIndex = cfg.instanceIndex := int32_of_range (by omega) (by linarith)
  have hlinked : (create cfg disk).Linked (Ledger.empty : Ledger (PageData K V)) :=
    linked_create cfg disk (by rw [hnext]; omega)
  have hledger : (Pages.empty : Pages K V).ledger cfg.idAt [] = Ledger.empty := rfl
  have hcounter : (create cfg disk : BufferPoolManagerInstance Disk (PageData K V)).nextPageId = cfg.idAt 0 := by
    simpa [create, PoolConfig.idAt] using hnext
  exact ⟨hledger ▸ hlinked, rfl, hcounter⟩

end carried

namespace HashTableType

variable {Disk K V : Type} [DiskManager Disk (PageData K V)]
variable [Inhabited K] [Inhabited V] [DecidableEq K] [DecidableEq V]

/-- Run one method over a pool; its pointer variables start null. -/
def callPool {α : Type} (b : Build) (p : TableProg K V α) (s : BufferPoolManagerInstance Disk (PageData K V)) :
    Except Fault (α × BufferPoolManagerInstance Disk (PageData K V)) :=
  match run (poolMachine b) p ⟨s, fun _ => none⟩ with
  | .ok (a, t) => .ok (a, t.pool)
  | .error e => .error e

omit [Inhabited K] [Inhabited V] [DecidableEq K] [DecidableEq V] in
/-- A method that returned ran to its end. -/
theorem callPool_inv {α : Type} {b : Build} {p : TableProg K V α} {a : α}
    {pool pool' : BufferPoolManagerInstance Disk (PageData K V)} (h : callPool b p pool = .ok (a, pool')) :
    ∃ ptr, run (poolMachine b) p ⟨pool, fun _ => none⟩ = .ok (a, ⟨pool', ptr⟩) := by
  unfold callPool at h
  split at h
  · next a t hrun =>
    cases h
    exact ⟨t.ptr, hrun⟩
  · cases h

/-- Make calls over a pool. -/
def callsPool (T : HashTableType K V) (b : Build) (dirId : PageId) (fuel : ℕ) :
    List (TableCall K V) → BufferPoolManagerInstance Disk (PageData K V) →
      Except Fault (List (TableRet V) × BufferPoolManagerInstance Disk (PageData K V)) :=
  runCalls fun c => callPool b (T.method b dirId fuel c)

/-- A pool shows the directory of `P`, and every bucket that it names. -/
structure SameContents (T : HashTableType K V) (P : Pages K V) (dirId : PageId)
    (s : BufferPoolManagerInstance Disk (PageData K V)) : Prop where
  directory : T.asDirectory (s.shown dirId) = T.directoryAt P dirId
  bucket : ∀ i < (T.directoryAt P dirId).size,
    T.asBucket (s.shown ((T.directoryAt P dirId).bucketPageIds i)) =
      T.bucketAt P ((T.directoryAt P dirId).bucketPageIds i)

variable [LawfulDiskManager Disk] {T : HashTableType K V} {cfg : PoolConfig} {dirId : PageId}
  {P : Pages K V} {A : HashPartition.Partition PageId}

theorem Layout.sameContents {s : BufferPoolManagerInstance Disk (PageData K V)} {pins : List Pin}
    (h : T.Layout cfg.idAt P dirId A) (hbacks : Backs cfg P pins s) : T.SameContents P dirId s where
  directory := congrArg T.asDirectory (hbacks.shown h.dir_created)
  bucket i hi := by
    have hpage : (T.directoryAt P dirId).bucketPageIds i = A.page i :=
      h.shows_dir.page i (HashTableDirectoryPage.size_eq ▸ hi)
    rw [hpage]
    exact congrArg T.asBucket (hbacks.shown (h.created i))

theorem Disciplined.callPool {cap : ℕ} (hcap : cap ≤ cfg.poolSize) {α : Type} {p : TableProg K V α}
    {P P' : Pages K V} {r : α} (h : Disciplined cfg.idAt cap p P r P') (b : Build)
    (hcount : cfg.idAt P'.next < 2 ^ 31) {s : BufferPoolManagerInstance Disk (PageData K V)}
    (hbacks : Backs cfg P [] s) :
    ∃ s', HashTableType.callPool b p s = .ok (r, s') ∧ Backs cfg P' [] s' := by
  obtain ⟨s', ptr', hrun, hbacks'⟩ := h.pool b hcap hcount hbacks
  exact ⟨s', by simp [HashTableType.callPool, hrun], hbacks'⟩

variable (Disk) in
/-- **Programs over the ideal store and over a pool that backs its pages**: if each of them keeps the discipline
    and leaves a layout, then run one after another they return the same in both places, and the pool backs the
    pages they leave. -/
theorem Layout.programs_agree (hpool : 3 ≤ cfg.poolSize) {C R : Type} {prog : C → TableProg K V R}
    (hrun : ∀ c P A, T.Layout cfg.idAt P dirId A →
      ∃ r P' A', Disciplined cfg.idAt 3 (prog c) P r P' ∧ T.Layout cfg.idAt P' dirId A') :
    ∀ (cs : List C) {P : Pages K V} {A : HashPartition.Partition PageId}, T.Layout cfg.idAt P dirId A →
      ∃ rets P' A', runCalls (fun c => callIdeal cfg.idAt (prog c)) cs P = .ok (rets, P') ∧
        T.Layout cfg.idAt P' dirId A' ∧ P.next ≤ P'.next ∧ (cfg.idAt P'.next < 2 ^ 31 →
          ∀ s : BufferPoolManagerInstance Disk (PageData K V), Backs cfg P [] s →
            ∃ s', runCalls (fun c => HashTableType.callPool .debug (prog c)) cs s = .ok (rets, s') ∧
              Backs cfg P' [] s') := by
  intro cs
  induction cs with
  | nil => exact fun h => ⟨[], _, _, rfl, h, Nat.le_refl _, fun _ s hs => ⟨s, rfl, hs⟩⟩
  | cons c cs ih =>
    intro P A h
    obtain ⟨r, P₁, A₁, hdisc, hlayout⟩ := hrun c P A h
    obtain ⟨Q, hcall, hcov⟩ := Disciplined.callIdeal hdisc (follows_same (prog c))
    obtain ⟨rs, P', A', hcalls, hlayout', hle, hpools⟩ := ih (hlayout.covers hcov)
    -- the counter at the end bounds it after the first call
    have hle₁ : P₁.next ≤ P'.next := hcov.next ▸ hle
    refine ⟨r :: rs, P', A', runCalls_cons hcall hcalls, hlayout', hdisc.next_le.trans hle₁, fun hcount s hs => ?_⟩
    have hcount₁ : cfg.idAt P₁.next < 2 ^ 31 := lt_of_le_of_lt (cfg.idAt_le hle₁) hcount
    obtain ⟨s₁, hcall', hs₁⟩ := Disciplined.callPool hpool hdisc .debug hcount₁ hs
    obtain ⟨s', hcalls', hs'⟩ := hpools hcount s₁ (hs₁.covers hcov)
    exact ⟨s', runCalls_cons hcall' hcalls', hs'⟩

variable (Disk) in
/-- The same, from a fresh pool on and with the construction before them. -/
theorem opened_agree (T : HashTableType K V) (hpool : 3 ≤ cfg.poolSize) {C R : Type} {prog : C → TableProg K V R}
    (hrun : ∀ c P A, T.Layout cfg.idAt P (cfg.idAt 0) A →
      ∃ r P' A', Disciplined cfg.idAt 3 (prog c) P r P' ∧ T.Layout cfg.idAt P' (cfg.idAt 0) A')
    (disk : Disk) (dir₀ : PageId) (cs : List C) : ∃ P₁ rets P₂,
      callIdeal cfg.idAt (T.construct .debug dir₀) Pages.empty = .ok ((cfg.idAt 0, true), P₁) ∧
      runCalls (fun c => callIdeal cfg.idAt (prog c)) cs P₁ = .ok (rets, P₂) ∧
      (cfg.idAt P₂.next < 2 ^ 31 → ∃ (s₁ s₂ : BufferPoolManagerInstance Disk (PageData K V)),
        HashTableType.callPool .debug (T.construct .debug dir₀) (create cfg disk) = .ok ((cfg.idAt 0, true), s₁) ∧
        runCalls (fun c => HashTableType.callPool .debug (prog c)) cs s₁ = .ok (rets, s₂) ∧
        T.SameContents P₂ (cfg.idAt 0) s₂) := by
  have hids := cfg.idAt_injective
  have hdisc : Disciplined cfg.idAt 3 (T.construct .debug dir₀) Pages.empty _ _ :=
    construct_run hids (Nat.le_succ 2) Pages.empty dir₀
  obtain ⟨P₁, hopen, hcov⟩ := Disciplined.callIdeal hdisc (T.construct_follows .debug cfg.idAt 3 dir₀)
  have hlayout : T.Layout cfg.idAt (firstPages cfg.idAt Pages.empty) (cfg.idAt 0) _ :=
    firstPages_layout hids Pages.empty fun p hp => (by cases hp)
  obtain ⟨rets, P₂, A₂, hcalls, hlayout₂, hle, hpools⟩ := Layout.programs_agree Disk hpool hrun cs
    (hlayout.covers hcov)
  refine ⟨P₁, rets, P₂, hopen, hcalls, fun hcount => ?_⟩
  have hcount₁ : cfg.idAt (firstPages cfg.idAt (Pages.empty : Pages K V)).next < 2 ^ 31 :=
    lt_of_le_of_lt (cfg.idAt_le (hcov.next ▸ hle)) hcount
  obtain ⟨s₁, hopen', hs₁⟩ := Disciplined.callPool hpool hdisc .debug hcount₁ (.fresh hcount disk)
  obtain ⟨s₂, hcalls', hs₂⟩ := hpools hcount s₁ (hs₁.covers hcov)
  exact ⟨s₁, s₂, hopen', hcalls', hlayout₂.sameContents hs₂⟩

section

variable (hpool : 3 ≤ cfg.poolSize) {fuel : ℕ} (hfuel : 10 ≤ fuel)
include hpool hfuel

/-- **The table does not notice that its pages live in a buffer pool.**  Over a fresh pool of three
    frames or more that nobody else uses, construction and any calls return what they return over the
    ideal store, which keeps every page for ever, and leave the same directory and buckets; the id
    counter, which ends at `idAt P₂.next`, has not wrapped. -/
theorem pool_refines_ideal (T : HashTableType K V) (disk : Disk) (dir₀ : PageId)
    (calls : List (TableCall K V)) : ∃ P₁ rets P₂,
      callIdeal cfg.idAt (T.construct .debug dir₀) Pages.empty = .ok ((cfg.idAt 0, true), P₁) ∧
      T.callsIdeal cfg.idAt .debug (cfg.idAt 0) fuel calls P₁ = .ok (rets, P₂) ∧
      (cfg.idAt P₂.next < 2 ^ 31 → ∃ s₁ s₂,
        callPool .debug (T.construct .debug dir₀) (create cfg disk) = .ok ((cfg.idAt 0, true), s₁) ∧
        T.callsPool .debug (cfg.idAt 0) fuel calls s₁ = .ok (rets, s₂) ∧
        T.SameContents P₂ (cfg.idAt 0) s₂) := by
  refine opened_agree Disk T hpool (fun c P A h => ?_) disk dir₀ calls
  exact h.call_run (Nat.le_refl 3) cfg.idAt_injective hfuel c

end

/-- A pool of three frames. -/
def threeFrames : PoolConfig := (Session.fresh 3).pool.cfg

/-- The third of these calls splits a bucket twice, which makes four pages. -/
def fillingCalls : List (TableCall ℤ ℤ) := [.insert 0 7, .insert 2 7, .insert 4 7, .getValue 2 []]

/-- Over three frames these calls return what they return over the ideal store. -/
theorem pool_refines_ideal_three_frames : ∃ s₁ s₂ : BufferPoolManagerInstance (PageId → PageData ℤ ℤ) (PageData ℤ ℤ),
    callPool .debug (smallTable.construct .debug 0) (create threeFrames fun _ => 0) =
      .ok ((threeFrames.idAt 0, true), s₁) ∧
    smallTable.callsPool .debug (threeFrames.idAt 0) 10 fillingCalls s₁ =
      .ok ([.flag true, .flag true, .flag true, .values true [7]], s₂) := by
  obtain ⟨P₁, rets, P₂, hopen, hcalls, hagree⟩ := pool_refines_ideal
    (show 3 ≤ threeFrames.poolSize from Nat.le_refl 3) (Nat.le_refl 10) smallTable
    (fun _ => 0 : PageId → PageData ℤ ℤ) 0 fillingCalls
  -- what they return there, and how many pages there are afterwards
  have hideal : (do
      let (_, P) ← callIdeal threeFrames.idAt (smallTable.construct .debug 0) Pages.empty
      let (rets, P) ← smallTable.callsIdeal threeFrames.idAt .debug (threeFrames.idAt 0) 10 fillingCalls P
      .ok (rets, P.next) : Except Fault (List (TableRet ℤ) × ℕ)) =
    .ok ([.flag true, .flag true, .flag true, .values true [7]], 4) := rfl
  rw [hopen] at hideal
  replace hideal : (smallTable.callsIdeal threeFrames.idAt .debug (threeFrames.idAt 0) 10 fillingCalls P₁ >>=
    fun x => .ok (x.1, x.2.next)) = Except.ok _ := hideal
  rw [hcalls] at hideal
  obtain ⟨rfl, hnext⟩ := Prod.mk.inj (Except.ok.inj hideal)
  obtain ⟨s₁, s₂, hopen', hcalls', -⟩ := hagree (by rw [show P₂.next = 4 from hnext]; decide)
  exact ⟨s₁, s₂, hopen', hcalls'⟩

end HashTableType

end BusTub
