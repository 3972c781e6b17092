/-
  The pins of concurrent callers.

  1. **How many pages are pinned**: a writer, which is alone, has three pages at most, and readers have the
     directory and one page each (`Accounted.pinned_le`).  Who asks for a page leaves room for it
     (`Accounted.pinned_lt`).

  2. **`Accounted.step`**: every act leaves the pins accounted for, unless it gets a null page, which needs a pool
     whose frames are all pinned and ends the process.

  3. `pinned_pages_bound` — **the main result**: the bound holds in every run, and with as many frames no page is
     ever null.
-/
import BusTub.Table.Seats
import BusTub.Table.Builds
import Mathlib.Data.Set.Card

set_option linter.unusedSectionVars false

namespace BusTub

open Command BufferPoolManagerInstance

/-! ## The id counter -/

/-- Whether a caller is about to ask for a new page. -/
def World.asksNewPage {K V : Type} : Option (JobProg K V) → Bool
  | some (.cmd (.newPage _) _) => true
  | _ => false

/-- An act does not take the id counter over its end. -/
def World.Counts {ι Disk K V : Type} [DiskManager Disk (PageData K V)] (w : World ι Disk K V) : Act ι K V → Prop
  | .call _ _ => True
  | .advance i => asksNewPage (w.prog i) = true → w.pool.nextPageId + w.pool.cfg.numInstances < 2 ^ 31

instance {ι Disk K V : Type} [DiskManager Disk (PageData K V)] (w : World ι Disk K V) (e : Act ι K V) :
    Decidable (w.Counts e) := by
  cases e <;> unfold World.Counts <;> infer_instance

/-! ## How many pages are pinned -/

section pages

variable {ι K V : Type} [DecidableEq ι] [Fintype ι] (seat : ι → Seat K V)

/-- The pages that callers have pinned. -/
noncomputable def pinnedPages : Finset PageId := ((allPins seat).map Pin.page).toFinset

theorem mem_pinnedPages {p : PageId} : p ∈ pinnedPages seat ↔ ∃ i, ∃ k ∈ (seat i).view.holds, k.page = p := by
  rw [pinnedPages, List.mem_toFinset, List.mem_map]
  constructor
  · rintro ⟨k, hk, rfl⟩
    obtain ⟨i, hi⟩ := (mem_allPins seat).mp hk
    obtain ⟨k₀, hk₀, rfl⟩ := List.mem_map.mp hi
    exact ⟨i, k₀, hk₀, rfl⟩
  · rintro ⟨i, k, hk, rfl⟩
    exact ⟨_, (mem_allPins seat).mpr ⟨i, List.mem_map_of_mem hk⟩, rfl⟩

end pages

namespace HashTableType

variable {ι Disk K V : Type} [DecidableEq ι] [Fintype ι] [DiskManager Disk (PageData K V)] [LawfulDiskManager Disk]
variable [Inhabited K] [Inhabited V] [DecidableEq K] [DecidableEq V]
variable {T : HashTableType K V} {cfg : PoolConfig} {dirId : PageId} {w w' : World ι Disk K V} {P P' : Pages K V}
  {seat : ι → Seat K V} {i : ι} {e : Act ι K V}

namespace Accounted

/-- A writer is alone with its pages. -/
theorem writer_pages (h : Accounted T cfg dirId w P seat) (hi : (seat i).view.mode = some .exclusive) :
    (pinnedPages seat).card ≤ (seat i).view.holds.length := by
  have hsub : pinnedPages seat ⊆ ((seat i).view.holds.map Hold.page).toFinset := by
    intro p hp
    obtain ⟨j, k, hk, rfl⟩ := (mem_pinnedPages seat).mp hp
    have hj : j = i := by
      by_contra hj
      rw [View.holds_eq_nil (h.alone i hi j hj)] at hk
      cases hk
    subst hj
    exact List.mem_toFinset.mpr (List.mem_map_of_mem hk)
  calc (pinnedPages seat).card ≤ ((seat i).view.holds.map Hold.page).toFinset.card := Finset.card_le_card hsub
    _ ≤ ((seat i).view.holds.map Hold.page).length := List.toFinset_card_le _
    _ = (seat i).view.holds.length := List.length_map ..

/-- Readers have the directory, and one page each. -/
theorem readers_pages (h : Accounted T cfg dirId w P seat) (hno : ∀ i, (seat i).view.mode ≠ some .exclusive) :
    ∃ q : ι → PageId, ∀ i, ∀ k ∈ (seat i).view.holds, k.page = dirId ∨ k.page = q i := by
  suffices hsome : ∀ i, ∃ q, ∀ k ∈ (seat i).view.holds, k.page = dirId ∨ k.page = q by
    exact ⟨fun i => (hsome i).choose, fun i => (hsome i).choose_spec⟩
  intro i
  cases hview : (seat i).view with
  | inside m s =>
    cases m with
    | shared => exact ((h.seated i).grip _ s hview).two rfl
    | exclusive => exact absurd (by rw [hview]; rfl) (hno i)
  | _ => exact ⟨dirId, fun k hk => by cases hk⟩

/-- **Never more than three pages, or one more than there are callers.** -/
theorem pinned_le (h : Accounted T cfg dirId w P seat) : (pinnedPages seat).card ≤ max 3 (Fintype.card ι + 1) := by
  by_cases hwriter : ∃ i, (seat i).view.mode = some .exclusive
  · obtain ⟨i, hi⟩ := hwriter
    have hfew : (seat i).view.holds.length ≤ 3 := by
      cases hview : (seat i).view with
      | inside m s => exact ((h.seated i).grip m s hview).few
      | _ => exact Nat.zero_le 3
    exact ((h.writer_pages hi).trans hfew).trans (le_max_left ..)
  · obtain ⟨q, hq⟩ := h.readers_pages fun i hi => hwriter ⟨i, hi⟩
    have hsub : pinnedPages seat ⊆ Insert.insert dirId (Finset.univ.image q) := by
      intro p hp
      obtain ⟨j, k, hk, rfl⟩ := (mem_pinnedPages seat).mp hp
      rcases hq j k hk with he | he
      · exact he ▸ Finset.mem_insert_self ..
      · exact he ▸ Finset.mem_insert_of_mem (Finset.mem_image_of_mem q (Finset.mem_univ j))
    refine le_trans ?_ (le_max_right ..)
    calc (pinnedPages seat).card ≤ (Insert.insert dirId (Finset.univ.image q)).card := Finset.card_le_card hsub
      _ ≤ (Finset.univ.image q).card + 1 := Finset.card_insert_le ..
      _ ≤ Fintype.card ι + 1 := Nat.add_le_add_right Finset.card_image_le 1

/-- **A caller that asks for a page leaves room for it**: a writer has two at most, a reader at most the
    directory. -/
theorem pinned_lt (h : Accounted T cfg dirId w P seat) {m : Mode} {s : CheckedStore K V}
    (hview : (seat i).view = .inside m s) (hfew : s.holds.length < 3)
    (hdir : m = .shared → ∀ k ∈ s.holds, k.page = dirId) : (pinnedPages seat).card < max 3 (Fintype.card ι + 1) := by
  have hmode : (seat i).view.mode = some m := by rw [hview]; rfl
  cases m with
  | exclusive =>
    have hle := h.writer_pages hmode
    rw [hview] at hle
    exact lt_of_lt_of_le (Nat.lt_of_le_of_lt hle hfew) (le_max_left ..)
  | shared =>
    obtain ⟨q, hq⟩ := h.readers_pages fun j hj => by
      by_cases hji : j = i
      · subst hji
        rw [hmode] at hj
        cases hj
      · have hnone := h.alone j hj i (Ne.symm hji)
        rw [hmode] at hnone
        cases hnone
    have hsub : pinnedPages seat ⊆ Insert.insert dirId ((Finset.univ.erase i).image q) := by
      intro p hp
      obtain ⟨j, k, hk, rfl⟩ := (mem_pinnedPages seat).mp hp
      by_cases hji : j = i
      · subst hji
        rw [hview] at hk
        exact hdir rfl k hk ▸ Finset.mem_insert_self ..
      · rcases hq j k hk with he | he
        · exact he ▸ Finset.mem_insert_self ..
        · have hj : j ∈ Finset.univ.erase i := Finset.mem_erase.mpr ⟨hji, Finset.mem_univ j⟩
          exact he ▸ Finset.mem_insert_of_mem (Finset.mem_image_of_mem q hj)
    have hone : (Finset.univ.erase i).card + 1 = Fintype.card ι := Finset.card_erase_add_one (Finset.mem_univ i)
    refine lt_of_lt_of_le (Nat.lt_succ_of_le ?_) (le_max_right ..)
    calc (pinnedPages seat).card ≤ (Insert.insert dirId ((Finset.univ.erase i).image q)).card := Finset.card_le_card hsub
      _ ≤ ((Finset.univ.erase i).image q).card + 1 := Finset.card_insert_le ..
      _ ≤ (Finset.univ.erase i).card + 1 := Nat.add_le_add_right Finset.card_image_le 1
      _ = Fintype.card ι := hone

/-- The pages that are pinned in the pool. -/
theorem pinned_iff (h : Accounted T cfg dirId w P seat) {p : PageId} :
    w.pool.pinCountOf p ≠ 0 ↔ p ∈ pinnedPages seat := by
  rw [h.backs.linked.pin_count p, pinnedPages, List.mem_toFinset, List.mem_map, Ledger.held, Ne, Int.natCast_eq_zero,
    List.countP_eq_zero]
  simp [Pages.ledger]

/-! ## One act -/

/-- **A command that goes to the pool**: the checked store accepts it beside the pins of the others, and either
    the pool does the same, or it finds every frame pinned, and then it has not enough of them. -/
theorem access (h : Accounted T cfg dirId w P seat) {c : Cmd K V} {k : Cmd.Res c → JobProg K V}
    (hprog : w.prog i = some (.cmd c k)) (hc : ∀ l, c ≠ .latch l) (hcounts : w.Counts (.advance i)) :
    ∃ m s r s', (seat i).view = .inside m s ∧ (m = .shared → Gentle dirId s c) ∧ Rely dirId m s.pages P ∧
      checkedMachine cfg.idAt 3 c { s with pages := P } = .ok (r, s') ∧
      ((∃ t frameOf, poolMachine .debug c ⟨w.pool, w.ptr i⟩ = .ok (r, t) ∧ cfg.idAt s'.pages.next < 2 ^ 31 ∧
          CarriedWith cfg frameOf (otherPins seat i) s' t) ∨
        ∃ r' t, poolMachine .debug c ⟨w.pool, w.ptr i⟩ = .ok (r', t) ∧ c.gotNull r' = true ∧ t.pool = w.pool ∧
          w.pool.cfg.poolSize < max 3 (Fintype.card ι + 1)) := by
  have hmay := h.may hprog
  obtain ⟨m, s, hview⟩ := hmay.inside (hc _) (hc _)
  rw [hview] at hmay
  have hgrip := (h.seated i).grip m s hview
  cases hmay with
  | tableRUnlock => exact absurd rfl (hc _)
  | tableWUnlock => exact absurd rfl (hc _)
  | take => exact absurd rfl (hc _)
  | give => exact absurd rfl (hc _)
  | access _ hgentle hok =>
    obtain ⟨r, s', hrun⟩ := hok P hgrip.rely
    refine ⟨m, s, r, s', hview, hgentle, hgrip.rely, hrun, ?_⟩
    have hbacks : Backs cfg P (s.holds.map (pinOf (seat i).frameOf) ++ otherPins seat i) w.pool := by
      have hpins : (seat i).pins = s.holds.map (pinOf (seat i).frameOf) := by rw [Seat.pins, hview]; rfl
      rw [← hpins]
      exact h.backs.perm (allPins_perm seat i)
    have hcount : cfg.idAt s'.pages.next < 2 ^ 31 := by
      rcases checked_next c _ r s' hrun with hsame | ⟨⟨v, rfl⟩, hone⟩
      · rw [hsame]
        exact h.count
      · have hend := hcounts (by rw [hprog]; rfl)
        rw [h.backs.counter, h.backs.cfg_eq, ← cfg.idAt_succ] at hend
        rw [hone]
        exact hend
    -- only a writer deletes, and nobody has pins beside it
    have halone : ∀ p, c = .deletePage p → ∀ k ∈ otherPins seat i, k.page ≠ p := by
      rintro p rfl k hk
      cases m with
      | shared => exact absurd (hgentle rfl) id
      | exclusive =>
        obtain ⟨j, hj, hk⟩ := (mem_otherPins seat i).mp hk
        rw [Seat.pins, View.holds_eq_nil (h.alone i (by rw [hview]; rfl) j hj)] at hk
        cases hk
    rcases (hgrip.carried hbacks).step .debug hrun hcount halone with
      ⟨t, hpool, frameOf, ht⟩ | ⟨r', t, hpool, hnull, hsame, hfull⟩
    · exact .inl ⟨t, frameOf, hpool, hcount, ht⟩
    · refine .inr ⟨r', t, hpool, hnull, hsame, ?_⟩
      by_contra hlarge
      have hlt : (pinnedPages seat).card < max 3 (Fintype.card ι + 1) := by
        cases c with
        | newPage v => exact h.pinned_lt hview (newPage_ok hrun).1 fun hm => absurd (hgentle hm) id
        | fetchPage v p => exact h.pinned_lt hview (fetchPage_ok hrun).1 hgentle
        | _ => cases hnull
      obtain ⟨f, hf, h0⟩ := h.backs.linked.room (lt_of_lt_of_le hlt (Nat.le_of_not_lt hlarge))
      exact hfull f hf h0

/-- The pool did what the checked store does. -/
theorem accessed (h : Accounted T cfg dirId w P seat) {c : Cmd K V} {k : Cmd.Res c → JobProg K V}
    {m : Mode} {s s' : CheckedStore K V} {r : Cmd.Res c} {t : PoolStore Disk K V} {frameOf : ℕ → FrameId}
    (hc : ∀ l, c ≠ .latch l) (hprog : w.prog i = some (.cmd c k)) (hview : (seat i).view = .inside m s)
    (hgentle : m = .shared → Gentle dirId s c) (hrely : Rely dirId m s.pages P)
    (hrun : checkedMachine cfg.idAt 3 c { s with pages := P } = .ok (r, s')) (hcount : cfg.idAt s'.pages.next < 2 ^ 31)
    (ht : CarriedWith cfg frameOf (otherPins seat i) s' t)
    (hsame : ∀ j, j ≠ i → SameCaller w ((w.accessed i c r t).goOn i (some (k r))) j) :
    Accounted T cfg dirId ((w.accessed i c r t).goOn i (some (k r))) s'.pages
      (Function.update seat i ⟨.inside m s', frameOf⟩) := by
  have hmode : (seat i).view.mode = some m := by rw [hview]; rfl
  -- what a reader does leaves the pages to every other reader
  have hkept : m = .shared → Rely dirId .shared P s'.pages := by
    intro hm
    have hgentle' : Gentle dirId { s with pages := P } c := by
      have hg := hgentle hm
      cases c <;> exact hg
    exact gentle_rely hgentle' hrun
  have hseated : T.Seated cfg dirId ((w.accessed i c r t).goOn i (some (k r))) s'.pages i ⟨.inside m s', frameOf⟩ := by
    have hrules := (h.seated i).rules _ hprog
    rw [hview] at hrules
    refine .busy (World.goOn_prog ..) nofun (hrules.2 r _ (.access hc hrely hrun)) (fun m' s₁ hs₁ => ?_)
      ((h.seated i).table.trans hmode)
    cases hs₁
    show Grip dirId s'.pages frameOf (Function.update w.ptr i t.ptr i) (Function.update w.page i _ i) m s'
    rw [Function.update_self, Function.update_self]
    exact ((h.seated i).grip m s hview).access hgentle hrun ht
  refine h.change hsame ht.backs hcount (fun j hj m' hm' => ?_) hseated
    (fun j hj => ⟨fun he => h.alone i (hmode.trans he) j hj, fun he => ?_⟩) fun hno hothers => ?_
  · -- who else has the table latch is a reader beside a reader
    cases m with
    | exclusive =>
      rw [h.alone i hmode j hj] at hm'
      cases hm'
    | shared =>
      cases m' with
      | shared => exact hkept rfl
      | exclusive =>
        rw [h.alone j hm' i (Ne.symm hj)] at hmode
        cases hmode
  · rw [h.alone j he i (Ne.symm hj)] at hmode
    cases hmode
  · cases m with
    | exclusive => exact absurd rfl hno
    | shared =>
      -- no writer before or after, so the partition is still shown
      obtain ⟨A, hA⟩ := h.layout fun j => by
        by_cases hj : j = i
        · rw [hj, hmode]
          exact nofun
        · exact hothers j hj
      exact ⟨A, hA.rely (hkept rfl)⟩

/-- **No command fails**, and no latch is looked for through a null pointer. -/
theorem no_fault (h : Accounted T cfg dirId w P seat) {c : Cmd K V} {k : Cmd.Res c → JobProg K V}
    (hprog : w.prog i = some (.cmd c k)) (hcounts : w.Counts (.advance i)) :
    (∃ r t, poolMachine .debug c ⟨w.pool, w.ptr i⟩ = .ok (r, t)) ∧ ∀ l, c = .latch l → l.latch (w.ptr i) ≠ none := by
  by_cases hc : ∀ l, c ≠ .latch l
  · obtain ⟨m, s, r, s', -, -, -, -, hpool⟩ := h.access hprog hc hcounts
    refine ⟨?_, fun l he => absurd he (hc l)⟩
    rcases hpool with ⟨t, _, hok, -⟩ | ⟨r', t, hok, -⟩
    · exact ⟨r, t, hok⟩
    · exact ⟨r', t, hok⟩
  · obtain ⟨l, rfl⟩ := not_forall_not.mp hc
    refine ⟨⟨(), _, rfl⟩, ?_⟩
    rintro _ ⟨⟩ hnull
    by_cases hlock : l = .tableRLock ∨ l = .tableWLock
    · rcases hlock with rfl | rfl
      · cases hnull
      · cases hnull
    · -- a page latch is taken and given back through a pointer that was set
      have hmay := h.may hprog
      obtain ⟨m, s, hview⟩ := hmay.inside (fun he => hlock (.inl (by cases he; rfl)))
        (fun he => hlock (.inr (by cases he; rfl)))
      rw [hview] at hmay
      have hgrip := (h.seated i).grip m s hview
      have hset : ∀ n, s.ptr .bucketPage = some n → w.ptr i .bucketPage ≠ none := fun n hn => by
        rw [hgrip.ptr _ n hn]
        exact nofun
      cases hmay with
      | tableRUnlock => cases hnull
      | tableWUnlock => cases hnull
      | take hl hk =>
        have hno := hset _ (CheckedStore.holdOf_ok hk).2
        cases hl <;> exact hno (Option.map_eq_none_iff.mp hnull)
      | give hl hptr =>
        obtain ⟨n, hn⟩ := Option.ne_none_iff_exists'.mp hptr
        have hno := hset n hn
        cases hl <;> exact hno (Option.map_eq_none_iff.mp hnull)
      | access hc => exact absurd rfl (hc l)

/-- **What an act leaves**: every pin is accounted for again; or a page was null, which ends the process and
    happens only with too few frames. -/
theorem step (h : Accounted T cfg dirId w P seat) (hcounts : w.Counts e) (hturn : T.Turn .debug dirId w e w') :
    (∃ P' seat', Accounted T cfg dirId w' P' seat') ∨ w'.Aborted ∧ w'.pool = w.pool ∧ w'.held = w.held ∧
      w.pool.cfg.poolSize < max 3 (Fintype.card ι + 1) := by
  have hsame : ∀ j, j ≠ e.caller → SameCaller w w' j := fun j hj => hturn.others hj
  cases hturn with
  | @call i c hprog =>
    obtain ⟨seat', h'⟩ := h.start (i := i) (by rw [(h.seated i).idle hprog]; rfl) c.job
    exact .inl ⟨P, seat', h'⟩
  | @next i y hprog =>
    have hdone : (seat i).view = .done := (h.seated i).rules _ hprog
    obtain ⟨seat', h'⟩ := h.start (i := i) (by rw [hdone]; rfl) y
    exact .inl ⟨P, seat', h'⟩
  | @ret i r hprog =>
    have hdone : (seat i).view = .done := (h.seated i).rules _ hprog
    obtain ⟨seat', h'⟩ := h.finish (i := i) (by rw [hdone]; rfl)
    exact .inl ⟨P, seat', h'⟩
  | latch hprog hlatch hmode hgrants =>
    subst hmode
    obtain ⟨seat', h'⟩ := h.latch hprog hlatch hgrants hsame
    exact .inl ⟨P, seat', h'⟩
  | @access i c k r t hprog hc hrun =>
    obtain ⟨m, s, r₁, s', hview, hgentle, hrely, hchecked, hpool⟩ := h.access hprog hc hcounts
    rcases hpool with ⟨t₁, frameOf, hrun₁, hcount, ht⟩ | ⟨r₁, t₁, hrun₁, hnull, hkept, hsmall⟩
    · obtain ⟨rfl, rfl⟩ := Prod.mk.inj (Except.ok.inj (hrun.symm.trans hrun₁))
      exact .inl ⟨_, _, h.accessed hc hprog hview hgentle hrely hchecked hcount ht hsame⟩
    · obtain ⟨rfl, rfl⟩ := Prod.mk.inj (Except.ok.inj (hrun.symm.trans hrun₁))
      have hrules := (h.seated i).rules _ hprog
      rw [hview] at hrules
      obtain ⟨e, he⟩ := dead_fails (hrules.2 r .dead (.null hnull))
      refine .inr ⟨⟨i, ?_⟩, hkept, rfl, hsmall⟩
      rw [World.goOn_prog, he]
      rfl
  | fault hprog hrun =>
    obtain ⟨⟨r, t, hok⟩, hset⟩ := h.no_fault hprog hcounts
    rcases hrun with hrun | ⟨l, rfl, hnull⟩
    · cases hok.symm.trans hrun
    · exact absurd hnull (hset l rfl)

end Accounted

/-! ## Runs -/

/-- Every pin is accounted for, or a page was null when every one was. -/
def AccountedFor (T : HashTableType K V) (cfg : PoolConfig) (dirId : PageId) (w : World ι Disk K V) : Prop :=
  (∃ P seat, Accounted T cfg dirId w P seat) ∨ w.Aborted ∧ ∃ (w₀ : World ι Disk K V) (P : Pages K V)
    (seat : ι → Seat K V), Accounted T cfg dirId w₀ P seat ∧ w.pool = w₀.pool ∧ w.held = w₀.held ∧
      w₀.pool.cfg.poolSize < max 3 (Fintype.card ι + 1)

/-- What the constructor leaves, if it got both of its pages. -/
theorem opened (hcount : cfg.idAt 2 < 2 ^ 31) {disk : Disk} {dir₀ : PageId}
    {pool : BufferPoolManagerInstance Disk (PageData K V)}
    (hopen : callPool .debug (T.construct .debug dir₀) (create cfg disk) = .ok ((dirId, true), pool)) :
    ∃ (P : Pages K V) (A : HashPartition.Partition PageId), Backs cfg P [] pool ∧ cfg.idAt P.next < 2 ^ 31 ∧
      T.Layout cfg.idAt P dirId A := by
  have hids := cfg.idAt_injective
  have hfresh : Backs cfg (Pages.empty : Pages K V) [] (create cfg disk) := .fresh hcount disk
  by_cases hpool : 2 ≤ cfg.poolSize
  · have hdisc : Disciplined cfg.idAt 2 (T.construct .debug dir₀) Pages.empty _ _ :=
      construct_run hids (Nat.le_refl 2) Pages.empty dir₀
    obtain ⟨s, hopen', hbacks⟩ := Disciplined.callPool hpool hdisc .debug hcount hfresh
    obtain ⟨hret, rfl⟩ := Prod.mk.inj (Except.ok.inj (hopen'.symm.trans hopen))
    obtain rfl : cfg.idAt 0 = dirId := (Prod.mk.inj hret).1
    exact ⟨_, _, hbacks, hcount, firstPages_layout hids Pages.empty fun p hp => by cases hp⟩
  · -- with fewer than two frames it does not get them
    have hroom : (create cfg disk : BufferPoolManagerInstance Disk (PageData K V)).obtainable < 2 := by
      show ((List.range cfg.poolSize).map Int.ofNat).length + 0 < 2
      rw [List.length_map, List.length_range]
      omega
    obtain ⟨ptr, hrun⟩ := callPool_inv hopen
    obtain ⟨-, -, -, hno⟩ := construct_stuck hfresh.linked.inv.toConsistent hroom hrun
    cases hno

/-- Nobody has made a call yet. -/
theorem accounted_rest {A : HashPartition.Partition PageId} {pool : BufferPoolManagerInstance Disk (PageData K V)}
    (hbacks : Backs cfg P [] pool) (hcount : cfg.idAt P.next < 2 ^ 31) (hlayout : T.Layout cfg.idAt P dirId A) :
    Accounted T cfg dirId (World.rest pool : World ι Disk K V) P fun _ => ⟨.out, fun _ => 0⟩ where
  backs := by
    have hnone : allPins (fun _ : ι => (⟨.out, fun _ => 0⟩ : Seat K V)) = [] :=
      List.eq_nil_iff_forall_not_mem.mpr fun k hk => by
        obtain ⟨i, hi⟩ := (mem_allPins _).mp hk
        cases hi
    rw [hnone]
    exact hbacks
  count := hcount
  seated i := ⟨nofun, fun _ => rfl, nofun, nofun, rfl⟩
  alone i hi := by cases hi
  layout _ := ⟨A, hlayout⟩

/-- **Every pin is accounted for in every reachable state.** -/
theorem callers_accounted (hcount : cfg.idAt 2 < 2 ^ 31) {disk : Disk} {dir₀ : PageId}
    {pool : BufferPoolManagerInstance Disk (PageData K V)}
    (hopen : callPool .debug (T.construct .debug dir₀) (create cfg disk) = .ok ((dirId, true), pool))
    {allowed : World ι Disk K V → Act ι K V → Prop} (hallowed : ∀ w e, allowed w e → w.Counts e)
    (h : (callers ι T .debug dirId pool allowed).Reachable w) : AccountedFor T cfg dirId w := by
  refine h.invariant (I := AccountedFor T cfg dirId) ?_ fun w e w' hw hstep => ?_
  · rintro w rfl
    obtain ⟨P, A, hbacks, hnext, hlayout⟩ := opened hcount hopen
    exact .inl ⟨P, _, accounted_rest hbacks hnext hlayout⟩
  · rcases hw with ⟨P, seat, hw⟩ | ⟨haborted, -⟩
    · rcases hw.step (hallowed w e hstep.1) (turn_of_act hstep.2) with hw' | ⟨haborted, hpool, hheld, hsmall⟩
      · exact .inl hw'
      · exact .inr ⟨haborted, w, P, seat, hw, hpool, hheld, hsmall⟩
    · exact absurd haborted (alive_of_act hstep.2)

/-- **How many pages the callers pin.**  In every run of any number of callers the pinned pages are never more
    than three, or one more than there are callers.  So over a pool with that many frames no call gets a null
    page, and no assert fails. -/
theorem pinned_pages_bound (hcount : cfg.idAt 2 < 2 ^ 31) {disk : Disk} {dir₀ : PageId}
    {pool : BufferPoolManagerInstance Disk (PageData K V)}
    (hopen : callPool .debug (T.construct .debug dir₀) (create cfg disk) = .ok ((dirId, true), pool))
    (h : (callers ι T .debug dirId pool World.Counts).Reachable w) :
    {p | w.pool.pinCountOf p ≠ 0}.encard ≤ (max 3 (Fintype.card ι + 1) : ℕ) ∧
      (max 3 (Fintype.card ι + 1) ≤ cfg.poolSize → ¬ w.Aborted ∧ ∀ i c k r t, w.prog i = some (.cmd c k) →
        w.Counts (.advance i) → poolMachine .debug c ⟨w.pool, w.ptr i⟩ = .ok (r, t) → c.gotNull r = false) := by
  have hcard : ∀ {w : World ι Disk K V} {P : Pages K V} {seat : ι → Seat K V}, Accounted T cfg dirId w P seat →
      {p | w.pool.pinCountOf p ≠ 0}.encard ≤ (max 3 (Fintype.card ι + 1) : ℕ) := by
    intro w P seat hw
    have hset : {p | w.pool.pinCountOf p ≠ 0} = (pinnedPages seat : Set PageId) := Set.ext fun p => hw.pinned_iff
    rw [hset, Set.encard_coe_eq_coe_finsetCard]
    exact_mod_cast hw.pinned_le
  rcases callers_accounted hcount hopen (fun w e hw => hw) h with
    ⟨P, seat, hw⟩ | ⟨-, w₀, P, seat, hw₀, hpool, -, hsmall⟩
  · refine ⟨hcard hw, fun hlarge => ⟨hw.not_aborted, fun i c k r t hprog hcounts hrun => ?_⟩⟩
    by_cases hlatch : ∃ l, c = .latch l
    · obtain ⟨l, rfl⟩ := hlatch
      rfl
    · obtain ⟨m, s, r₁, s', -, -, -, hchecked, hout⟩ := hw.access hprog (fun l he => hlatch ⟨l, he⟩) hcounts
      rcases hout with ⟨t₁, _, hrun₁, -⟩ | ⟨r₁, t₁, -, -, -, hsmall⟩
      · obtain ⟨rfl, -⟩ := Prod.mk.inj (Except.ok.inj (hrun.symm.trans hrun₁))
        exact checked_notNull hchecked
      · rw [hw.backs.cfg_eq] at hsmall
        exact absurd hlarge (Nat.not_le_of_lt hsmall)
  · rw [hpool]
    refine ⟨hcard hw₀, fun hlarge => ?_⟩
    rw [hw₀.backs.cfg_eq] at hsmall
    exact absurd hlarge (Nat.not_le_of_lt hsmall)

/-- One caller waits to split a bucket, while the other has its two pages pinned. -/
theorem pinned_pages_bound_two : ∃ pool w, callPool .debug (oneSlotTable.construct .debug 0) emptyPool =
      .ok ((0, true), pool) ∧
    (callers Bool oneSlotTable .debug 0 pool World.Counts).Reachable w ∧
    w.pool.pinCountOf 0 = 1 ∧ w.pool.pinCountOf 1 = 1 ∧
    {p | w.pool.pinCountOf p ≠ 0}.encard ≤ (3 : ℕ) ∧ ¬ w.Aborted := by
  have hsee : observe World.Counts (splitBesideReader ++ [.advance true, .advance true, .advance true])
      (fun w => (w.pool.pinCountOf 0, w.pool.pinCountOf 1)) = some ((0, true), 1, 1) := by decide +kernel
  obtain ⟨pool, w, hopen, hrun, hw⟩ := observe_run hsee
  obtain ⟨hzero, hone⟩ := Prod.mk.inj hw
  have hreach : (callers Bool oneSlotTable .debug 0 pool World.Counts).Reachable w := ⟨_, _, rfl, hrun⟩
  obtain ⟨hbound, hroom⟩ := pinned_pages_bound (show threeFrames.idAt 2 < 2 ^ 31 by decide) hopen hreach
  exact ⟨pool, w, hopen, hreach, hzero, hone, hbound, (hroom (by decide)).1⟩

end HashTableType

end BusTub
