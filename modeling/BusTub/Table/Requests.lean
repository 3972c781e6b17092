/-
  What a table asks of a pool that it shares.

  1. **`Granted`** says when the pool does what is asked of it while others have pins: a page is found if it is
     pinned already or if fewer pages are pinned than there are frames, and it is deleted if nobody else has pinned
     it.  A command that is granted does what it does over the checked store; any other is refused
     (`CarriedWith.granted`, `CarriedWith.not_granted`).  A part that `AsksNothing` is granted anyhow
     (`allGranted_past`, `allGranted_only`).

  2. **`GivesUp`**: in the build that evaluates asserts every method fails as soon as the pool has refused
     something.

  3. `CarriedWith.run_granted`, `CarriedWith.granted_of_run` — **the main results**: a program that gives up returns
     exactly when everything that it asks for is granted, and then it returns what it returns over the checked store.
-/
import BusTub.Buffer.Victims
import BusTub.Lib.Interface
import BusTub.Table.Completes

set_option linter.unusedSectionVars false

namespace BusTub

open Command BufferPoolManagerInstance

/-! ## Refusals -/

section refusals

variable {K V : Type}

/-- The pool refused a command. -/
def Cmd.refused : (c : Cmd K V) → Cmd.Res c → Bool
  | .newPage _, id => id.isNone
  | .fetchPage _ _, page => !page
  | .unpinPage _ _, res => !res
  | .deletePage _, res => !res
  | _, _ => false

/-- Whether the pool has refused something so far. -/
def refusals : Interface (Cmd.Res (K := K) (V := V)) Bool where
  pre _ _ := True
  post c refused r refused' := refused' = (refused || c.refused r)
  fails _ := True

/-- `p` returns a result in `Q` only if nothing was refused. -/
def NeedsAll {α : Type} (Q : α → Prop) (p : TableProg K V α) : Prop :=
  Meets refusals (fun a refused => Q a → refused = false) p false

/-- `p` does not return once something was refused. -/
def GivesUp {α : Type} (p : TableProg K V α) : Prop := NeedsAll (fun _ => True) p

/-- After a refusal `p` returns no result in `Q`. -/
theorem not_returned {α σ : Type} {M : Machine (Cmd.Res (K := K) (V := V)) Fault σ} {Q : α → Prop}
    (p : TableProg K V α) : ∀ t a t', Meets refusals (fun a refused => Q a → refused = false) p true →
      run M p t = .ok (a, t') → ¬ Q a := by
  induction p with
  | ret a =>
    intro t a' t' h hrun hQ
    cases hrun
    cases h hQ
  | fail e =>
    intro t a t' _ hrun
    cases hrun
  | cmd c k ih =>
    intro t a t' h hrun
    obtain ⟨r, t₁, -, hk⟩ := run_cmd_inv hrun
    exact ih r t₁ a t' (h.2 r true rfl) hk

end refusals

/-! ## What is granted -/

section granted

variable {Disk K V : Type} [DiskManager Disk (PageData K V)] [LawfulDiskManager Disk]

/-- The pages that the store or someone else has pinned. -/
def CheckedStore.pinned (s : CheckedStore K V) (others : List Pin) : Finset PageId :=
  (s.holds.map Hold.page ++ others.map Pin.page).toFinset

/-- A pool of `n` frames does what is asked of it. -/
def CheckedStore.Granted (n : ℕ) (others : List Pin) (s : CheckedStore K V) : Cmd K V → Prop
  | .newPage _ => (s.pinned others).card < n
  | .fetchPage _ p => p ∈ s.pinned others ∨ (s.pinned others).card < n
  | .deletePage p => ∀ k ∈ others, k.page ≠ p
  | _ => True

variable {cfg : PoolConfig} {cap : ℕ} {frameOf : ℕ → FrameId} {others : List Pin} {s s' : CheckedStore K V}
  {t : PoolStore Disk K V} {c : Cmd K V} {r : Cmd.Res c} (b : Build)

/-- The same pages, read off the pins of the pool. -/
theorem CheckedStore.pinned_eq (s : CheckedStore K V) (frameOf : ℕ → FrameId) (others : List Pin) :
    ((s.holds.map (pinOf frameOf) ++ others).map Pin.page).toFinset = s.pinned others := by
  rw [pinned, List.map_append, List.map_map]
  rfl

/-- Pages leave room for one more as long as a frame has no pin. -/
theorem CarriedWith.room_iff (h : CarriedWith cfg frameOf others s t) : (s.pinned others).card < cfg.poolSize ↔
    ∃ f, t.pool.inPool f ∧ (t.pool.pages f).pinCount = 0 := by
  rw [← h.backs.linked.room_iff, h.backs.cfg_eq, ← s.pinned_eq frameOf]
  rfl

/-- Without room every frame is pinned. -/
theorem CarriedWith.all_pinned (h : CarriedWith cfg frameOf others s t)
    (hfull : ¬ (s.pinned others).card < cfg.poolSize) {f : FrameId} (hf : t.pool.inPool f) :
    0 < (t.pool.pages f).pinCount := by
  have hnn := h.backs.linked.inv.pin_nonneg f hf
  have h0 : (t.pool.pages f).pinCount ≠ 0 := fun h0 => hfull (h.room_iff.mpr ⟨f, hf, h0⟩)
  omega

/-- In the pool these are the pages with a pin count above 0. -/
theorem CarriedWith.mem_pinned (h : CarriedWith cfg frameOf others s t) {p : PageId} :
    p ∈ s.pinned others ↔ 0 < t.pool.pinCountOf p := by
  rw [h.backs.linked.pin_count, ← s.pinned_eq frameOf, List.mem_toFinset, List.mem_map, Ledger.held]
  constructor
  · rintro ⟨k, hk, rfl⟩
    exact_mod_cast List.countP_pos_iff.mpr ⟨k, hk, by simp⟩
  · intro hpos
    obtain ⟨k, hk, hkp⟩ := List.countP_pos_iff.mp (Int.natCast_pos.mp hpos)
    exact ⟨k, hk, of_decide_eq_true hkp⟩

/-- **What is granted, the pool does** as the checked store does it. -/
theorem CarriedWith.granted (h : CarriedWith cfg frameOf others s t)
    (hrun : checkedMachine cfg.idAt cap c s = .ok (r, s')) (hcount : cfg.idAt s'.pages.next < 2 ^ 31)
    (hgrant : s.Granted cfg.poolSize others c) :
    ∃ t', poolMachine b c t = .ok (r, t') ∧ ∃ frameOf, CarriedWith cfg frameOf others s' t' := by
  rcases h.step b hrun hcount fun p hc => (by subst hc; exact hgrant) with hdone | ⟨r', t', hpool, hnull, -, hfull⟩
  · exact hdone
  · -- a null page means that every frame is pinned
    have hroom : ¬ (s.pinned others).card < cfg.poolSize := fun hlt => by
      obtain ⟨f, hf, h0⟩ := h.room_iff.mp hlt
      exact hfull f hf h0
    cases c with
    | newPage v => exact absurd hgrant hroom
    | fetchPage v p =>
      have hpin : 0 < t.pool.pinCountOf p := h.mem_pinned.mp (hgrant.resolve_right hroom)
      obtain ⟨⟨ret, pool⟩, hexec, hret⟩ := except_bind_inv hpool
      cases exec_effect h.backs.linked.inv.toConsistent hexec with
      | fetchHit => cases hret; cases hnull
      | fetchMiss => cases hret; cases hnull
      | fetchFull hno =>
        rw [pinCountOf_none hno] at hpin
        exact absurd hpin (Int.lt_irrefl 0)
    | _ => cases hnull

/-- **What is not granted is refused.** -/
theorem CarriedWith.not_granted (h : CarriedWith cfg frameOf others s t)
    (hrun : checkedMachine cfg.idAt cap c s = .ok (r, s')) (hcount : cfg.idAt s'.pages.next < 2 ^ 31)
    (hgrant : ¬ s.Granted cfg.poolSize others c) :
    ∃ r' t', poolMachine b c t = .ok (r', t') ∧ c.refused r' = true ∧ t'.pool = t.pool := by
  have hcons := h.backs.linked.inv.toConsistent
  cases c with
  | newPage v =>
    obtain ⟨-, -, rfl⟩ := newPage_ok hrun
    rcases h.backs.new b hcount with ⟨f, pool, hexec, -⟩ | ⟨hexec, -⟩
    · have hnone := (h.backs.linked.inv.new_none_iff (exec_effect hcons hexec)).mpr fun f hf =>
        h.all_pinned hgrant hf
      cases hnone
    · refine ⟨none, ⟨t.pool, Function.update t.ptr v none⟩, ?_, rfl, rfl⟩
      show (t.pool.exec b .newPg >>= _) = _
      rw [hexec]
      rfl
  | fetchPage v p =>
    obtain ⟨-, hcreated, -, -⟩ := fetchPage_ok hrun
    obtain ⟨hno, hfull⟩ := not_or.mp hgrant
    rcases h.backs.fetch b hcreated with ⟨f, pool, hexec, -⟩ | ⟨hexec, -⟩
    · -- a page in the pool would be pinned, as every frame is
      have habsent : t.pool.pageTable p = none := by
        cases hp : t.pool.pageTable p with
        | none => rfl
        | some f =>
          have hpos := h.all_pinned hfull (h.backs.linked.inv.mapped_inPool p f hp)
          rw [← pinCountOf_some hp] at hpos
          exact absurd (h.mem_pinned.mpr hpos) hno
      have hnone := (h.backs.linked.inv.fetch_none_iff (exec_effect hcons hexec)).mpr
        ⟨habsent, fun f hf => h.all_pinned hfull hf⟩
      cases hnone
    · refine ⟨false, ⟨t.pool, Function.update t.ptr v none⟩, ?_, rfl, rfl⟩
      show (t.pool.exec b (.fetchPg p) >>= _) = _
      rw [hexec]
      rfl
  | deletePage p =>
    -- someone else has pinned the page
    obtain ⟨k, hk, rfl⟩ : ∃ k ∈ others, k.page = p := by
      simpa [CheckedStore.Granted] using hgrant
    have hpin : 0 < t.pool.pinCountOf k.page := h.backs.linked.pinned (List.mem_append_right _ hk)
    rcases exec_total (b := b) hcons (.deletePg k.page) with ⟨ret, pool, hexec, he⟩ | ⟨hc, -, -⟩
    · cases he with
      | deleteAbsent hp =>
        rw [pinCountOf_none hp] at hpin
        exact absurd hpin (Int.lt_irrefl 0)
      | delete hp h0 =>
        rw [pinCountOf_some hp, h0] at hpin
        exact absurd hpin (Int.lt_irrefl 0)
      | deletePinned =>
        refine ⟨false, t, ?_, rfl, rfl⟩
        show (t.pool.exec b (.deletePg k.page) >>= _) = _
        rw [hexec]
        rfl
    · cases hc
  | _ => exact absurd trivial hgrant

/-! ## Whole programs -/

/-- A `NewPage` does not take the id counter over its end. -/
def PoolStore.Counts (t : PoolStore Disk K V) : Cmd K V → Prop
  | .newPage _ => t.pool.nextPageId + t.pool.cfg.numInstances < 2 ^ 31
  | _ => True

instance PoolStore.decidableCounts (t : PoolStore Disk K V) (c : Cmd K V) : Decidable (t.Counts c) := by
  cases c <;> unfold PoolStore.Counts <;> infer_instance

/-- The id counter does not wrap while `p` runs. -/
abbrev CountsUp {α : Type} (b : Build) (p : TableProg K V α) (t : PoolStore Disk K V) : Prop :=
  Guarded (poolMachine b) (fun c t => t.Counts c) p t

/-- Everything is granted that `p` asks for from `s` on. -/
abbrev AllGranted {α : Type} (cfg : PoolConfig) (cap : ℕ) (others : List Pin) (p : TableProg K V α)
    (s : CheckedStore K V) : Prop :=
  Guarded (checkedMachine cfg.idAt cap) (fun c s => s.Granted cfg.poolSize others c) p s

/-- The counter after a command that the checked store accepts. -/
theorem CarriedWith.counts (h : CarriedWith cfg frameOf others s t) (hlt : cfg.idAt s.pages.next < 2 ^ 31)
    (hrun : checkedMachine cfg.idAt cap c s = .ok (r, s'))
    (hcount : t.Counts c) : cfg.idAt s'.pages.next < 2 ^ 31 := by
  rcases checked_next c s r s' hrun with hsame | ⟨⟨v, rfl⟩, hone⟩
  · rw [hsame]
    exact hlt
  · have hend : t.pool.nextPageId + t.pool.cfg.numInstances < 2 ^ 31 := hcount
    rw [h.backs.counter, h.backs.cfg_eq, ← cfg.idAt_succ] at hend
    rw [hone]
    exact hend

variable {α : Type} {Q : α → Prop}

/-- **If everything is granted, the program does over the pool what it does over the checked store.** -/
theorem CarriedWith.run_granted (p : TableProg K V α) : ∀ {s} {t : PoolStore Disk K V} {frameOf a s'},
    CarriedWith cfg frameOf others s t → cfg.idAt s.pages.next < 2 ^ 31 → CountsUp b p t →
    AllGranted cfg cap others p s → run (checkedMachine cfg.idAt cap) p s = .ok (a, s') →
    ∃ t', run (poolMachine b) p t = .ok (a, t') ∧ cfg.idAt s'.pages.next < 2 ^ 31 ∧
      ∃ frameOf, CarriedWith cfg frameOf others s' t' := by
  induction p with
  | ret a =>
    intro s t frameOf a' s' h hlt _ _ hrun
    cases hrun
    exact ⟨t, rfl, hlt, frameOf, h⟩
  | fail e =>
    intro s t frameOf a s' _ _ _ _ hrun
    cases hrun
  | cmd c k ih =>
    intro s t frameOf a s' h hlt hcount hgrant hrun
    obtain ⟨r, s₁, hc, hk⟩ := run_cmd_inv hrun
    have hlt₁ := h.counts hlt hc hcount.1
    obtain ⟨t₁, hpool, frameOf₁, h₁⟩ := h.granted b hc hlt₁ hgrant.1
    obtain ⟨t', hrun', hend⟩ := ih r h₁ hlt₁ (hcount.2 r t₁ hpool) (hgrant.2 r s₁ hc) hk
    exact ⟨t', (run_cmd_ok hpool k).trans hrun', hend⟩

/-- **If it returns a result for which it needs everything, everything was granted.** -/
theorem CarriedWith.granted_of_run (p : TableProg K V α) : ∀ {s s'} {t t' : PoolStore Disk K V} {frameOf a a'},
    CarriedWith cfg frameOf others s t → cfg.idAt s.pages.next < 2 ^ 31 → CountsUp b p t → NeedsAll Q p →
    run (checkedMachine cfg.idAt cap) p s = .ok (a, s') → run (poolMachine b) p t = .ok (a', t') → Q a' →
    AllGranted cfg cap others p s := by
  induction p with
  | ret a => exact fun _ _ _ _ _ _ _ => trivial
  | fail e => exact fun _ _ _ _ _ _ _ => trivial
  | cmd c k ih =>
    intro s s' t t' frameOf a a' h hlt hcount hneeds hrun hpool hQ
    obtain ⟨r, s₁, hc, hk⟩ := run_cmd_inv hrun
    obtain ⟨r₁, t₁, hc', hk'⟩ := run_cmd_inv hpool
    have hlt₁ := h.counts hlt hc hcount.1
    by_cases hgrant : s.Granted cfg.poolSize others c
    · obtain ⟨t₂, hc₂, frameOf₁, h₁⟩ := h.granted b hc hlt₁ hgrant
      obtain ⟨rfl, rfl⟩ := Prod.mk.inj (Except.ok.inj (hc'.symm.trans hc₂))
      refine ⟨hgrant, fun r₂ s₂ hc₂ => ?_⟩
      obtain ⟨rfl, rfl⟩ := Prod.mk.inj (Except.ok.inj (hc.symm.trans hc₂))
      by_cases hrefused : c.refused r₁ = true
      · exact absurd hQ (not_returned (k r₁) t₁ a' t' (hneeds.2 r₁ true hrefused.symm) hk')
      · exact ih r₁ h₁ hlt₁ (hcount.2 r₁ t₁ hc') (hneeds.2 r₁ false (Bool.eq_false_iff.mpr hrefused).symm) hk hk' hQ
    · obtain ⟨r₂, t₂, hc₂, hrefused, -⟩ := h.not_granted b hc hlt₁ hgrant
      obtain ⟨rfl, rfl⟩ := Prod.mk.inj (Except.ok.inj (hc'.symm.trans hc₂))
      exact absurd hQ (not_returned (k r₁) t₁ a' t' (hneeds.2 r₁ true hrefused.symm) hk')

/-- **A program that gives up returns exactly when everything is granted.** -/
theorem CarriedWith.returns_iff {p : TableProg K V α} (hgives : GivesUp p) {a : α}
    (h : CarriedWith cfg frameOf others s t) (hlt : cfg.idAt s.pages.next < 2 ^ 31) (hcount : CountsUp b p t)
    (hrun : run (checkedMachine cfg.idAt cap) p s = .ok (a, s')) :
    (∃ x, run (poolMachine b) p t = .ok x) ↔ AllGranted cfg cap others p s := by
  constructor
  · rintro ⟨⟨a', t'⟩, hpool⟩
    exact h.granted_of_run b p hlt hcount hgives hrun hpool trivial
  · intro hgrant
    obtain ⟨t', hpool, -⟩ := h.run_granted b p hlt hcount hgrant hrun
    exact ⟨_, hpool⟩

/-- A command that is granted in any case. -/
def Cmd.AsksNothing : Cmd K V → Prop
  | .newPage _ => False
  | .fetchPage _ _ => False
  | .deletePage _ => False
  | _ => True

/-- `p` asks for no page, and deletes none. -/
def AsksNothing (p : TableProg K V α) : Prop :=
  Meets (⟨fun c _ => c.AsksNothing, fun _ _ _ _ => True, fun _ => True⟩ : Interface (Cmd.Res (K := K) (V := V)) Unit)
    (fun _ _ => True) p ()

/-- Where nothing is asked for, everything is granted. -/
theorem AsksNothing.granted {p : TableProg K V α} (h : AsksNothing p) :
    ∀ s, AllGranted cfg cap others p s := by
  induction p with
  | ret a => exact fun _ => trivial
  | fail e => exact fun _ => trivial
  | cmd c k ih =>
    intro s
    refine ⟨?_, fun r s' _ => ih r (h.2 r () trivial) s'⟩
    have hc : c.AsksNothing := h.1
    cases c with
    | newPage v => exact absurd hc id
    | fetchPage v p => exact absurd hc id
    | deletePage p => exact absurd hc id
    | _ => trivial

section parts

variable {β : Type} {p : TableProg K V α} {f : α → TableProg K V β} {s s' : CheckedStore K V} {a : α}

omit [DiskManager Disk (PageData K V)] [LawfulDiskManager Disk]

/-- Two parts, if the run of the first is known. -/
theorem allGranted_bind (hrun : run (checkedMachine cfg.idAt cap) p s = .ok (a, s')) :
    AllGranted cfg cap others (p >>= f) s ↔ AllGranted cfg cap others p s ∧ AllGranted cfg cap others (f a) s' :=
  guarded_bind hrun

/-- A first part that asks for nothing. -/
theorem allGranted_past (hp : AsksNothing p) (hrun : run (checkedMachine cfg.idAt cap) p s = .ok (a, s')) :
    AllGranted cfg cap others (p >>= f) s ↔ AllGranted cfg cap others (f a) s' :=
  (guarded_bind hrun).trans (and_iff_right (hp.granted s))

/-- A second part that asks for nothing. -/
theorem allGranted_only (hf : ∀ a, AsksNothing (f a)) :
    AllGranted cfg cap others (p >>= f) s ↔ AllGranted cfg cap others p s :=
  (guarded_bind_iff p s).trans (and_iff_left fun a s' _ => (hf a).granted s')

/-- A single command is the least that can be asked for. -/
theorem allGranted_call (c : Cmd K V) :
    AllGranted cfg cap others (Prog.call c : TableProg K V _) s ↔ s.Granted cfg.poolSize others c := guarded_call

/-- A page is fetched if there is a frame for it beside those that are pinned. -/
theorem granted_fetch_iff {n : ℕ} (hle : (s.pinned others).card ≤ n) (v : PtrVar) (p : PageId) :
    s.Granted n others (.fetchPage v p) ↔ (insert p (s.pinned others)).card ≤ n := by
  show p ∈ s.pinned others ∨ (s.pinned others).card < n ↔ _
  by_cases hp : p ∈ s.pinned others
  · rw [Finset.insert_eq_of_mem hp]
    exact ⟨fun _ => hle, fun _ => .inl hp⟩
  · rw [Finset.card_insert_of_notMem hp]
    exact ⟨fun h => h.resolve_left hp, .inr⟩

end parts

/-- **A call over a shared pool** that returns what it needs every page for returns what it returns over the checked
    store, and leaves the same pages. -/
theorem Disciplined.shared {p : TableProg K V α} {P P' : Pages K V} {a a' : α}
    {pool pool' : BufferPoolManagerInstance Disk (PageData K V)} (h : Disciplined cfg.idAt cap p P a P')
    (hneeds : NeedsAll Q p) (hbacks : Backs cfg P others pool) (hlt : cfg.idAt P.next < 2 ^ 31)
    (hcount : CountsUp b p ⟨pool, fun _ => none⟩)
    (hrun : ∃ ptr, run (poolMachine b) p ⟨pool, fun _ => none⟩ = .ok (a', ⟨pool', ptr⟩)) (hQ : Q a') :
    a' = a ∧ Backs cfg P' others pool' ∧ cfg.idAt P'.next < 2 ^ 31 := by
  obtain ⟨ptr, hrun⟩ := hrun
  obtain ⟨ptr₁, n₁, hchecked⟩ := h (fun _ => none) 0
  have hstart := CarriedWith.start hbacks
  have hgrant := hstart.granted_of_run b p hlt hcount hneeds hchecked hrun hQ
  obtain ⟨t', hrun', hend, frameOf, hcarried⟩ := hstart.run_granted b p hlt hcount hgrant hchecked
  obtain ⟨rfl, rfl⟩ := Prod.mk.inj (Except.ok.inj (hrun.symm.trans hrun'))
  exact ⟨rfl, hcarried.backs, hend⟩

end granted

/-! ## The methods give up -/

section rules

variable {K V α β : Type} {Q : α → Prop} {R : β → Prop} {f : α → TableProg K V β}

/-- A command's result tells whether it was refused. -/
theorem NeedsAll.call {c : Cmd K V} {Q : Cmd.Res c → Prop} (hc : ∀ r, Q r → c.refused r = false) :
    NeedsAll Q (Prog.call c : TableProg K V _) := by
  refine Meets.call trivial fun r refused' hpost hQ => ?_
  rw [show refused' = c.refused r from hpost]
  exact hc r hQ

/-- What is no result in `Q` must not lead to one in `R`. -/
theorem NeedsAll.bind {p : TableProg K V α} (h : NeedsAll Q p) (hf : ∀ a, Q a → NeedsAll R (f a))
    (hno : ∀ a, ¬ Q a → ∀ refused, Meets refusals (fun b refused => R b → refused = false) (f a) refused) :
    NeedsAll R (p >>= f) := by
  refine Meets.bind p false (Meets.mono (fun a refused ha => ?_) p false h)
  by_cases hQ : Q a
  · obtain rfl := ha hQ
    exact hf a hQ
  · exact hno a hQ refused

namespace GivesUp

/-- Nothing was asked for. -/
theorem pure (a : α) : GivesUp (Pure.pure a : TableProg K V α) := fun _ => rfl

/-- A program that fails does not return. -/
theorem fail (e : Fault) : GivesUp (Prog.fail e : TableProg K V α) := trivial

/-- If the first part returns, nothing in it was refused, and the second goes on from there. -/
theorem bind {p : TableProg K V α} (h : GivesUp p) (hf : ∀ a, GivesUp (f a)) : GivesUp (p >>= f) :=
  NeedsAll.bind h (fun a _ => hf a) fun _ hno => absurd trivial hno

/-- A check that fails ends the program; else nothing was asked for. -/
theorem check (x : Except Fault α) : GivesUp (TableProg.check x : TableProg K V α) := by
  cases x with
  | ok a => exact pure a
  | error e => exact fail e

/-- A latch is no request, -/
theorem latch (l : LatchOp) : GivesUp (TableProg.latch l : TableProg K V Unit) := NeedsAll.call fun _ _ => rfl

/-- nor is a read, -/
theorem load (v : PtrVar) : GivesUp (TableProg.load v : TableProg K V _) := NeedsAll.call fun _ _ => rfl

/-- nor a write. -/
theorem store (v : PtrVar) (x : PageData K V) : GivesUp (TableProg.store v x) := NeedsAll.call fun _ _ => rfl

/-- An assert that holds only if nothing was refused. -/
theorem assert {p : TableProg K V Bool} (h : NeedsAll (· = true) p) : GivesUp (TableProg.assert_ .debug p) := by
  refine NeedsAll.bind h (fun res hres => ?_) fun res hres refused => ?_
  · rw [if_pos hres]
    exact pure ()
  · rw [if_neg hres]
    trivial

/-- The source asserts the result of its `UnpinPage` calls, so a refused one aborts; -/
theorem assert_unpinPage (p : PageId) (d : Bool) :
    GivesUp (TableProg.assert_ .debug (TableProg.unpinPage p d) : TableProg K V Unit) :=
  assert (NeedsAll.call fun r hr => by rw [hr]; rfl)

/-- and that of `DeletePage`. -/
theorem assert_deletePage (p : PageId) :
    GivesUp (TableProg.assert_ .debug (TableProg.deletePage p) : TableProg K V Unit) :=
  assert (NeedsAll.call fun r hr => by rw [hr]; rfl)

/-- An assert that only looks. -/
theorem assert_look {p : TableProg K V Bool} (h : GivesUp p) : GivesUp (TableProg.assert_ .debug p) :=
  bind h fun res => by
    cases res with
    | true => exact pure ()
    | false => exact fail .assertion

/-- A page that an assert saw. -/
theorem fetched (v : PtrVar) (p : PageId) : GivesUp (do
    let page ← TableProg.fetchPage v p
    TableProg.check (assertThat .debug page)
    Pure.pure page : TableProg K V Bool) := by
  refine NeedsAll.bind (Q := (· = true)) (NeedsAll.call fun r hr => by rw [hr]; rfl) (fun page hpage => ?_)
    fun page hpage refused => ?_
  · exact bind (check _) fun _ => pure page
  · rw [Bool.not_eq_true] at hpage
    subst hpage
    trivial

/-- A `NewPage` whose result is asserted to be a page. -/
theorem newPage {v : PtrVar} {f : Option PageId → TableProg K V α} (hf : ∀ page, GivesUp (f page)) : GivesUp (do
    let page ← TableProg.newPage v
    TableProg.check (assertThat .debug page.isSome)
    f page) := by
  refine NeedsAll.bind (Q := fun page => page.isSome = true) (NeedsAll.call fun r hr => ?_) (fun page _ => ?_)
    fun page hpage refused => ?_
  · cases r with
    | some p => rfl
    | none => cases hr
  · exact bind (check _) fun _ => hf page
  · cases page with
    | some p => exact absurd rfl hpage
    | none => trivial

end GivesUp

end rules

namespace AsksNothing

variable {K V α β : Type}

/-- A value asks for nothing. -/
theorem pure (a : α) : AsksNothing (Pure.pure a : TableProg K V α) := trivial

/-- Two parts that ask for nothing. -/
theorem bind {p : TableProg K V α} {f : α → TableProg K V β} (h : AsksNothing p) (hf : ∀ a, AsksNothing (f a)) :
    AsksNothing (p >>= f) :=
  Meets.bind p () (Meets.mono (fun a _ _ => hf a) p () h)

/-- A check asks the pool for nothing. -/
theorem check (x : Except Fault α) : AsksNothing (TableProg.check x : TableProg K V α) := by
  cases x with
  | ok a => trivial
  | error e => trivial

/-- A command is either a request or none. -/
theorem call {c : Cmd K V} (hc : c.AsksNothing) : AsksNothing (Prog.call c : TableProg K V _) :=
  Meets.call hc fun _ _ _ => trivial

theorem latch (l : LatchOp) : AsksNothing (TableProg.latch l : TableProg K V Unit) := call trivial

theorem load (v : PtrVar) : AsksNothing (TableProg.load v : TableProg K V _) := call trivial

theorem store (v : PtrVar) (x : PageData K V) : AsksNothing (TableProg.store v x) := call trivial

/-- What is asserted of a result asks for nothing more. -/
theorem assert {p : TableProg K V Bool} (h : AsksNothing p) : AsksNothing (TableProg.assert_ .debug p) :=
  bind h fun res => by
    cases res with
    | true => trivial
    | false => trivial

/-- `UnpinPage` takes no frame and refuses no pin that is there. -/
theorem assert_unpinPage (p : PageId) (d : Bool) :
    AsksNothing (TableProg.assert_ .debug (TableProg.unpinPage p d) : TableProg K V Unit) := assert (call trivial)

end AsksNothing

namespace HashTableType

open TableProg

variable {K V : Type} [Inhabited K] [Inhabited V] {T : HashTableType K V}

theorem loadDirectory_givesUp : GivesUp T.loadDirectory := .bind (.load _) fun _ => .pure _

theorem loadBucket_givesUp (v : PtrVar) : GivesUp (T.loadBucket v) := .bind (.load _) fun _ => .pure _

/-- The directory is read through a pointer that is held already, -/
theorem loadDirectory_asksNothing : AsksNothing T.loadDirectory := .bind (.load _) fun _ => .pure _

/-- and so is a bucket. -/
theorem loadBucket_asksNothing (v : PtrVar) : AsksNothing (T.loadBucket v) := .bind (.load _) fun _ => .pure _

theorem unpinDirectory_asksNothing (d : Bool) : AsksNothing (T.unpinDirectory .debug d) :=
  .assert (.bind loadDirectory_asksNothing fun _ => .call trivial)

/-- The directory is unpinned inside an `assert`. -/
theorem unpinDirectory_givesUp (d : Bool) : GivesUp (T.unpinDirectory .debug d) := by
  refine GivesUp.assert (NeedsAll.bind loadDirectory_givesUp (fun dir _ => ?_) fun _ hno => absurd trivial hno)
  exact NeedsAll.call fun r hr => by rw [hr]; rfl

/-- Both `FetchPage` calls at the head of an operation are asserted. -/
theorem fetchFor_givesUp (dirId : PageId) (key : K) : GivesUp (T.fetchFor .debug dirId key) :=
  .bind (.fetched _ _) fun _ => .bind (.check _) fun _ => .bind loadDirectory_givesUp fun _ =>
    .bind (.fetched _ _) fun _ => .bind (.check _) fun _ => .pure _

/-- `GetValue` asserts every result that it gets of the pool. -/
theorem getValue_givesUp (dirId : PageId) (key : K) (result : List V) :
    GivesUp (T.getValue .debug dirId key result) :=
  .bind (.latch _) fun _ => .bind (fetchFor_givesUp dirId key) fun _ => .bind (.latch _) fun _ =>
    .bind (loadBucket_givesUp _) fun _ => .bind (unpinDirectory_givesUp _) fun _ =>
    .bind (.assert_unpinPage _ _) fun _ => .bind (.latch _) fun _ => .bind (.latch _) fun _ => .pure _

/-- `GetGlobalDepth` asserts the fetch and the unpin of the directory. -/
theorem getGlobalDepth_givesUp (dirId : PageId) : GivesUp (T.getGlobalDepth .debug dirId) :=
  .bind (.latch _) fun _ => .bind (.fetched _ _) fun _ => .bind loadDirectory_givesUp fun _ =>
    .bind (.assert_unpinPage _ _) fun _ => .bind (.latch _) fun _ => .pure _

/-- `VerifyIntegrity` does, too. -/
theorem verifyIntegrity_givesUp (dirId : PageId) : GivesUp (T.verifyIntegrity .debug dirId) :=
  .bind (.latch _) fun _ => .bind (.fetched _ _) fun _ => .bind loadDirectory_givesUp fun _ =>
    .bind (.check _) fun _ => .bind (.assert_unpinPage _ _) fun _ => .latch _

/-- `Merge` asserts the deletion of the empty page as well. -/
theorem merge_givesUp (dirId : PageId) (key : K) : GivesUp (T.merge .debug dirId key) := by
  have hback : ∀ p : PageId, GivesUp (do
      assert_ .debug (unpinPage p false)
      T.unpinDirectory .debug false
      latch .tableWUnlock) := fun p =>
    .bind (.assert_unpinPage _ _) fun _ => .bind (unpinDirectory_givesUp _) fun _ => .latch _
  unfold merge
  refine .bind (.latch _) fun _ => .bind (fetchFor_givesUp dirId key) fun p => .bind loadDirectory_givesUp fun dir =>
    .bind (loadBucket_givesUp _) fun bucket => ?_
  split
  · exact hback p
  · refine .bind (.check _) fun _ => ?_
    split
    · exact hback p
    · exact .bind (.check _) fun _ => .bind (.assert_unpinPage _ _) fun _ => .bind (.assert_deletePage _) fun _ =>
        .bind (.check _) fun _ => .bind (.check _) fun _ => .bind (.store _ _) fun _ =>
        .bind (unpinDirectory_givesUp _) fun _ => .latch _

/-- The constructor returns true only if it got both of its pages. -/
theorem construct_needsAll (dirId : PageId) : NeedsAll (·.2 = true) (T.construct .debug dirId) := by
  have hnew : ∀ v, NeedsAll (fun page => page.isSome = true) (newPage v : TableProg K V (Option PageId)) := fun v =>
    NeedsAll.call fun r hr => by
      cases r with
      | some p => rfl
      | none => cases hr
  have hgo : ∀ {α β : Type} {R : β → Prop} {p : TableProg K V α} {f : α → TableProg K V β}, GivesUp p →
      (∀ a, NeedsAll R (f a)) → NeedsAll R (p >>= f) := fun hp hf =>
    NeedsAll.bind hp (fun a _ => hf a) fun _ hno => absurd trivial hno
  -- without a page it returns false
  have hend : ∀ (p : PageId) refused, Meets refusals (fun (r : PageId × Bool) refused => r.2 = true → refused = false)
      (do latch .tableWUnlock; pure (p, false) : TableProg K V (PageId × Bool)) refused := fun p refused =>
    Meets.call_bind trivial fun _ _ _ hr => (by cases hr)
  unfold construct
  refine hgo (.latch _) fun _ => NeedsAll.bind (hnew _) (fun page hpage => ?_) fun page hpage refused => ?_
  · cases page with
    | none => cases hpage
    | some dirId =>
      refine hgo loadDirectory_givesUp fun _ => hgo (.store _ _) fun _ => NeedsAll.bind (hnew _)
        (fun page hpage => ?_) fun page hpage refused => ?_
      · cases page with
        | none => cases hpage
        | some bucketId =>
          exact hgo loadDirectory_givesUp fun _ => hgo (.check _) fun _ => hgo (.store _ _) fun _ =>
            hgo (.assert_unpinPage _ _) fun _ => hgo (.assert_unpinPage _ _) fun _ =>
            hgo (.latch _) fun _ => fun _ => rfl
      · cases page with
        | none => exact hend dirId refused
        | some bucketId => exact absurd rfl hpage
  · cases page with
    | none => exact hend dirId refused
    | some p => exact absurd rfl hpage

variable [DecidableEq V]

/-- A split moves its pairs between two pages that it has pinned. -/
theorem redistribute_givesUp (p : PageId) : ∀ remaining arr_idx : ℕ,
    GivesUp (T.redistribute p remaining arr_idx) := by
  intro remaining
  induction remaining with
  | zero => exact fun _ => .pure _
  | succ remaining ih =>
    intro arr_idx
    unfold redistribute
    refine .bind (loadBucket_givesUp _) fun bucket => ?_
    split
    · refine .bind loadDirectory_givesUp fun dir => ?_
      split
      · exact .bind (loadBucket_givesUp _) fun _ => .bind (.store _ _) fun _ => .bind (.store _ _) fun _ => ih _
      · exact ih _
    · exact ih _

/-- So it asks for nothing while it does. -/
theorem redistribute_asksNothing (p : PageId) : ∀ remaining arr_idx : ℕ,
    AsksNothing (T.redistribute p remaining arr_idx) := by
  intro remaining
  induction remaining with
  | zero => exact fun _ => .pure _
  | succ remaining ih =>
    intro arr_idx
    unfold redistribute
    refine .bind (loadBucket_asksNothing _) fun bucket => ?_
    split
    · refine .bind loadDirectory_asksNothing fun dir => ?_
      split
      · exact .bind (loadBucket_asksNothing _) fun _ => .bind (.store _ _) fun _ => .bind (.store _ _) fun _ => ih _
      · exact ih _
    · exact ih _

/-- The first region of `Insert` asserts as `GetValue` does. -/
theorem insertRegion_givesUp (dirId : PageId) (key : K) (value : V) :
    GivesUp (T.insertRegion .debug dirId key value) := by
  unfold insertRegion
  refine .bind (.latch _) fun _ => .bind (fetchFor_givesUp dirId key) fun _ => .bind (.latch _) fun _ =>
    .bind (loadBucket_givesUp _) fun _ => ?_
  split
  · exact .bind (.store _ _) fun _ => .bind (unpinDirectory_givesUp _) fun _ => .bind (.assert_unpinPage _ _) fun _ =>
      .bind (.latch _) fun _ => .bind (.latch _) fun _ => .pure _
  · exact .bind (.assert_unpinPage _ _) fun _ => .bind (unpinDirectory_givesUp _) fun _ =>
      .bind (.latch _) fun _ => .bind (.latch _) fun _ => .pure _

/-- A round of `SplitInsert` asserts that its new page is there. -/
theorem splitInsertRegion_givesUp (dirId : PageId) (key : K) (value : V) :
    GivesUp (T.splitInsertRegion .debug dirId key value) := by
  have hlook : ∀ (v : PtrVar) (f : HashTableBucketPage K V → Bool),
      GivesUp (assert_ .debug (do let x ← T.loadBucket v; pure (f x))) := fun v f =>
    .assert_look (.bind (loadBucket_givesUp v) fun _ => .pure _)
  unfold splitInsertRegion
  refine .bind (.latch _) fun _ => .bind (fetchFor_givesUp dirId key) fun p => .bind loadDirectory_givesUp fun dir =>
    .bind (loadBucket_givesUp _) fun bucket => ?_
  split
  · exact .bind (.store _ _) fun _ => .bind (unpinDirectory_givesUp _) fun _ => .bind (.assert_unpinPage _ _) fun _ =>
      .bind (.latch _) fun _ => .pure _
  · refine .bind (.check _) fun dir => ?_
    cases dir with
    | none =>
      exact .bind (unpinDirectory_givesUp _) fun _ => .bind (.assert_unpinPage _ _) fun _ =>
        .bind (.latch _) fun _ => .pure _
    | some dir =>
      exact .bind (.store _ _) fun _ => .newPage fun page => .bind (.check _) fun _ => .bind (.store _ _) fun _ =>
        .bind (hlook _ _) fun _ => .bind (hlook _ _) fun _ => .bind (redistribute_givesUp _ _ _) fun _ =>
        .bind (unpinDirectory_givesUp _) fun _ => .bind (.assert_unpinPage _ _) fun _ =>
        .bind (.assert_unpinPage _ _) fun _ => .bind (.latch _) fun _ => .pure _

/-- `Insert` with all its rounds. -/
theorem insert_givesUp (dirId : PageId) (key : K) (value : V) : ∀ fuel : ℕ,
    GivesUp (T.insert .debug dirId key value fuel) := by
  intro fuel
  induction fuel with
  | zero => exact .fail _
  | succ fuel ih =>
    refine .bind (insertRegion_givesUp dirId key value) fun res => ?_
    cases res with
    | some res => exact .pure _
    | none =>
      refine .bind (splitInsertRegion_givesUp dirId key value) fun res => ?_
      cases res with
      | some res => exact .pure _
      | none => exact ih

/-- `Remove` with its merge. -/
theorem remove_givesUp (dirId : PageId) (key : K) (value : V) : GivesUp (T.remove .debug dirId key value) := by
  have hregion : GivesUp (T.removeRegion .debug dirId key value) :=
    .bind (.latch _) fun _ => .bind (fetchFor_givesUp dirId key) fun _ => .bind (.latch _) fun _ =>
      .bind (loadBucket_givesUp _) fun _ => .bind (.store _ _) fun _ => .bind (.assert_unpinPage _ _) fun _ =>
      .bind (unpinDirectory_givesUp _) fun _ => .bind (.latch _) fun _ => .bind (.latch _) fun _ => .pure _
  exact .bind hregion fun _ => .bind (merge_givesUp dirId key) fun _ => .pure _

variable [DecidableEq K]

/-- **Every public method gives up** when the pool refuses it something. -/
theorem publicMethod_givesUp (dirId : PageId) (fuel : ℕ) (c : PublicCall K V) :
    GivesUp (T.publicMethod .debug dirId fuel c) := by
  cases c with
  | call c =>
    refine .bind ?_ fun _ => .pure _
    cases c with
    | insert key value => exact .bind (insert_givesUp dirId key value fuel) fun _ => .pure _
    | remove key value => exact .bind (remove_givesUp dirId key value) fun _ => .pure _
    | getValue key result => exact .bind (getValue_givesUp dirId key result) fun _ => .pure _
  | getGlobalDepth => exact .bind (getGlobalDepth_givesUp dirId) fun _ => .pure _
  | verifyIntegrity => exact .bind (verifyIntegrity_givesUp dirId) fun _ => .pure _

end HashTableType

end BusTub
