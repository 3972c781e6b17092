/-
  Programs that keep the pin discipline, and what follows for the ideal store.

  1. **`Disciplined p P r P'`**: over the checked store, from the pages `P` and with no pin held, `p`
     returns `r`, leaves the pages `P'`, and holds no pin again.  Such facts compose.

  2. **`Matches`** relates the checked store to the ideal one: the pages agree, and a pointer that is
     backed by a pin points to the pinned page.  Every command keeps it (`Matches.step`), and
     `UnpinPage`, `DeletePage` and reading a page go unnoticed, so the asserts around them may be
     left out.

  3. **`Disciplined.ideal`** carries a disciplined program over to the ideal store, for any program
     that follows it there.
-/
import BusTub.Table.PageStore

set_option linter.unusedSectionVars false

namespace BusTub

open Command

variable {K V α β : Type} {ids : ℕ → PageId} {cap : ℕ}

/-- `p` turns the pages `P` into `P'`, returns `r`, and keeps the pin discipline. -/
def Disciplined (ids : ℕ → PageId) (cap : ℕ) (p : TableProg K V α) (P : Pages K V) (r : α)
    (P' : Pages K V) : Prop :=
  ∀ ptr t, ∃ ptr' t', run (checkedMachine ids cap) p ⟨P, ptr, [], t⟩ = .ok (r, ⟨P', ptr', [], t'⟩)

/-- A value keeps the discipline and leaves the pages as they are. -/
theorem Disciplined.pure (a : α) (P : Pages K V) : Disciplined ids cap (pure a) P a P :=
  fun ptr t => ⟨ptr, t, rfl⟩

/-- Two parts that keep it, one after the other. -/
theorem Disciplined.bind {p : TableProg K V α} {f : α → TableProg K V β} {P P₁ P' : Pages K V} {a : α}
    {r : β} (h : Disciplined ids cap p P a P₁) (hf : Disciplined ids cap (f a) P₁ r P') :
    Disciplined ids cap (p >>= f) P r P' := by
  intro ptr t
  obtain ⟨ptr₁, t₁, h₁⟩ := h ptr t
  obtain ⟨ptr', t', h'⟩ := hf ptr₁ t₁
  exact ⟨ptr', t', (run_bind_ok h₁ f).trans h'⟩

/-! ## What an accepted command does -/

variable {s s' : CheckedStore K V} {v : PtrVar}

/-- A pointer that may be used is one to a page that is held. -/
theorem CheckedStore.holdOf_ok {v : PtrVar} {k : Hold} (h : s.holdOf v = .ok k) :
    k ∈ s.holds ∧ s.ptr v = some k.token := by
  unfold CheckedStore.holdOf at h
  split at h
  · cases h
  · next n hn =>
    split at h
    · cases h
    · next k' hk =>
      cases h
      have hn' := List.find?_some hk
      refine ⟨List.mem_of_find?_eq_some hk, ?_⟩
      rw [hn, of_decide_eq_true hn']

/-- A `NewPage` that the checked store allows: there was a frame, and the page is the next one. -/
theorem newPage_ok {r : Option PageId} (hrun : checkedMachine ids cap (.newPage v) s = .ok (r, s')) :
    s.holds.length < cap ∧ r = some (ids s.pages.next) ∧
      s' = ⟨s.pages.create ids, Function.update s.ptr v (some s.tokens),
        ⟨s.tokens, ids s.pages.next, false⟩ :: s.holds, s.tokens + 1⟩ := by
  simp only [checkedMachine] at hrun
  split at hrun
  · next hroom =>
    cases hrun
    exact ⟨hroom, rfl, rfl⟩
  · cases hrun

/-- A `FetchPage` that it allows: there was a frame, and the page had been created. -/
theorem fetchPage_ok {p : PageId} {r : Bool} (hrun : checkedMachine ids cap (.fetchPage v p) s = .ok (r, s')) :
    s.holds.length < cap ∧ s.pages.Created ids p ∧ r = true ∧
      s' = ⟨s.pages, Function.update s.ptr v (some s.tokens), ⟨s.tokens, p, false⟩ :: s.holds, s.tokens + 1⟩ := by
  simp only [checkedMachine] at hrun
  split at hrun
  · next hok =>
    cases hrun
    exact ⟨hok.1, hok.2, rfl, rfl⟩
  · cases hrun

/-- The pin that is given up reported its writes. -/
theorem unpinPage_ok {p : PageId} {d r : Bool}
    (hrun : checkedMachine ids cap (.unpinPage p d) s = .ok (r, s')) :
    ∃ k ∈ s.holds, k.page = p ∧ (k.wrote = true → d = true) ∧ r = true ∧
      s' = { s with holds := s.holds.erase k } := by
  simp only [checkedMachine] at hrun
  split at hrun
  · cases hrun
  · next k hfind =>
    split at hrun
    · cases hrun
    · next hflag =>
      cases hrun
      have hpage := List.find?_some hfind
      rw [decide_eq_true_eq] at hpage
      refine ⟨k, List.mem_of_find?_eq_some hfind, hpage, fun hwrote => ?_, rfl, rfl⟩
      cases d with
      | true => rfl
      | false => exact absurd ⟨hwrote, rfl⟩ hflag

/-- A `DeletePage` that it allows: nobody held the page. -/
theorem deletePage_ok {p : PageId} {r : Bool}
    (hrun : checkedMachine ids cap (.deletePage p) s = .ok (r, s')) :
    (∀ k ∈ s.holds, k.page ≠ p) ∧ r = true ∧ s' = { s with pages := s.pages.delete p } := by
  simp only [checkedMachine] at hrun
  split at hrun
  · cases hrun
  · next hno =>
    cases hrun
    exact ⟨fun k hk he => hno ⟨k, hk, he⟩, rfl, rfl⟩

/-- A read that it allows goes through a pointer to a held page. -/
theorem load_ok {x : PageData K V} (hrun : checkedMachine ids cap (.load v) s = .ok (x, s')) :
    ∃ k ∈ s.holds, s.ptr v = some k.token ∧ x = s.pages.mem k.page ∧ s' = s := by
  simp only [checkedMachine] at hrun
  split at hrun
  · cases hrun
  · next k hk =>
    cases hrun
    obtain ⟨hmem, hptr⟩ := CheckedStore.holdOf_ok hk
    exact ⟨k, hmem, hptr, rfl, rfl⟩

/-- So does a write, which is noted with the hold. -/
theorem store_ok {x : PageData K V} {r : Unit} (hrun : checkedMachine ids cap (.store v x) s = .ok (r, s')) :
    ∃ k ∈ s.holds, s.ptr v = some k.token ∧
      s' = { s with pages := s.pages.write k.page x, holds := s.holds.map (markWrote k) } := by
  simp only [checkedMachine] at hrun
  split at hrun
  · cases hrun
  · next k hk =>
    cases hrun
    obtain ⟨hmem, hptr⟩ := CheckedStore.holdOf_ok hk
    exact ⟨k, hmem, hptr, rfl⟩

/-- Noting a write does not change whose hold it is, -/
@[simp] theorem markWrote_token (k h : Hold) : (markWrote k h).token = h.token := by
  show (if h.token = k.token then { h with wrote := true } else h).token = h.token
  split <;> rfl

/-- nor which page is held. -/
@[simp] theorem markWrote_page (k h : Hold) : (markWrote k h).page = h.page := by
  show (if h.token = k.token then { h with wrote := true } else h).page = h.page
  split <;> rfl

/-! ## The ideal store follows the checked one -/

/-- **The ideal store beside the checked one**: the same pages, and every pointer names the page that is held
    through it. -/
structure Matches (s : CheckedStore K V) (t : IdealStore K V) : Prop where
  pages : s.pages.Covers t.pages
  fresh : ∀ k ∈ s.holds, k.token < s.tokens
  ptr_fresh : ∀ v n, s.ptr v = some n → n < s.tokens
  ptr : ∀ v, ∀ k ∈ s.holds, s.ptr v = some k.token → t.ptr v = some k.page

variable {t : IdealStore K V}

/-- With a new pin, tokens in use are still below the next one. -/
theorem token_lt_succ {holds : List Hold} {tokens : ℕ} {k new : Hold} (h : ∀ k ∈ holds, k.token < tokens)
    (hnew : new.token = tokens) (hk : k ∈ new :: holds) : k.token < tokens + 1 := by
  rcases List.mem_cons.mp hk with rfl | hk
  · omega
  · exact Nat.lt_succ_of_lt (h k hk)

/-- Tokens are given out in order, so a new one is nobody else's. -/
theorem ptr_lt_succ {ptr : PtrVar → Option ℕ} {tokens : ℕ} (h : ∀ w n, ptr w = some n → n < tokens) {v w : PtrVar}
    {n : ℕ} (hn : Function.update ptr v (some tokens) w = some n) : n < tokens + 1 := by
  rw [Function.update_apply] at hn
  split at hn
  · cases hn
    exact Nat.lt_succ_self _
  · exact Nat.lt_succ_of_lt (h w n hn)

/-- A new pin gets a fresh token, and the pointer variable that goes with it. -/
theorem Matches.pin (h : Matches s t) (v : PtrVar) (p : PageId) {P Q : Pages K V} (hPQ : P.Covers Q) :
    Matches ⟨P, Function.update s.ptr v (some s.tokens), ⟨s.tokens, p, false⟩ :: s.holds, s.tokens + 1⟩
      ⟨Q, Function.update t.ptr v (some p)⟩ where
  pages := hPQ
  fresh k hk := token_lt_succ h.fresh rfl hk
  ptr_fresh w n hn := ptr_lt_succ h.ptr_fresh hn
  ptr w k hk hw := by
    replace hw : Function.update s.ptr v (some s.tokens) w = some k.token := hw
    show Function.update t.ptr v (some p) w = some k.page
    rcases List.mem_cons.mp hk with rfl | hk
    · rw [Function.update_apply] at hw ⊢
      split at hw
      · next hwv => rw [if_pos hwv]
      · next hwv => exact absurd (h.ptr_fresh w _ hw) (Nat.lt_irrefl _)
    · have hlt := h.fresh k hk
      rw [Function.update_apply] at hw ⊢
      split at hw
      · have htok : s.tokens = k.token := Option.some.inj hw
        omega
      · next hwv =>
        rw [if_neg hwv]
        exact h.ptr w k hk hw

/-- Giving pins up changes no pointer. -/
theorem Matches.unpin (h : Matches s t) {holds : List Hold} (hsub : ∀ k ∈ holds, k ∈ s.holds) :
    Matches { s with holds := holds } t where
  pages := h.pages
  fresh k hk := h.fresh k (hsub k hk)
  ptr_fresh := h.ptr_fresh
  ptr v k hk := h.ptr v k (hsub k hk)

/-- The checked store has one hold less; the ideal one, which has no holds, need not move. -/
theorem Matches.unpinPage {p : PageId} {d r : Bool} (h : Matches s t)
    (hrun : checkedMachine ids cap (.unpinPage p d) s = .ok (r, s')) : r = true ∧ Matches s' t := by
  obtain ⟨k, -, -, -, rfl, rfl⟩ := unpinPage_ok hrun
  exact ⟨rfl, h.unpin fun k' hk' => List.mem_of_mem_erase hk'⟩

/-- Both read the same page. -/
theorem Matches.load {v : PtrVar} {x : PageData K V} (h : Matches s t)
    (hrun : checkedMachine ids cap (.load v) s = .ok (x, s')) :
    s' = s ∧ ∃ p, t.ptr v = some p ∧ x = t.pages.mem p := by
  obtain ⟨k, hk, hptr, rfl, rfl⟩ := load_ok hrun
  exact ⟨rfl, k.page, h.ptr v k hk hptr, by rw [h.pages.mem]⟩

/-- A write through a pin goes to its page. -/
theorem Matches.write (h : Matches s t) (k : Hold) (x : PageData K V) :
    Matches { s with pages := s.pages.write k.page x, holds := s.holds.map (markWrote k) }
      { t with pages := t.pages.write k.page x } where
  pages := by
    refine ⟨h.pages.next, ?_, h.pages.deleted⟩
    show Function.update t.pages.mem k.page x = Function.update s.pages.mem k.page x
    rw [h.pages.mem]
  fresh k' hk' := by
    obtain ⟨k₀, hk₀, rfl⟩ := List.mem_map.mp hk'
    rw [markWrote_token]
    exact h.fresh k₀ hk₀
  ptr_fresh := h.ptr_fresh
  ptr w k' hk' hw := by
    obtain ⟨k₀, hk₀, rfl⟩ := List.mem_map.mp hk'
    rw [markWrote_token] at hw
    rw [markWrote_page]
    exact h.ptr w k₀ hk₀ hw

/-- **Every command that the checked store accepts does the same on the ideal store.** -/
theorem Matches.step (c : Cmd K V) (s : CheckedStore K V) (t : IdealStore K V) (r : Cmd.Res c)
    (s' : CheckedStore K V) (h : Matches s t) (hrun : checkedMachine ids cap c s = .ok (r, s')) :
    ∃ t', idealMachine ids c t = .ok (r, t') ∧ Matches s' t' := by
  cases c with
  | newPage v =>
    obtain ⟨-, rfl, rfl⟩ := newPage_ok hrun
    have hcreate : (s.pages.create ids).Covers (t.pages.create ids) := by
      refine ⟨?_, ?_, h.pages.deleted⟩
      · simp [h.pages.next]
      · rw [Pages.create_mem, Pages.create_mem, h.pages.next, h.pages.mem]
    refine ⟨⟨t.pages.create ids, Function.update t.ptr v (some (ids t.pages.next))⟩, ?_, ?_⟩
    · rw [← h.pages.next]
      rfl
    · rw [h.pages.next]
      exact h.pin v _ hcreate
  | fetchPage v p =>
    obtain ⟨-, -, rfl, rfl⟩ := fetchPage_ok hrun
    exact ⟨_, rfl, h.pin v p h.pages⟩
  | unpinPage p d =>
    obtain ⟨rfl, h'⟩ := h.unpinPage hrun
    exact ⟨t, rfl, h'⟩
  | deletePage p =>
    obtain ⟨-, rfl, rfl⟩ := deletePage_ok hrun
    refine ⟨_, rfl, ⟨⟨h.pages.next, h.pages.mem, fun q hq => ?_⟩, h.fresh, h.ptr_fresh, h.ptr⟩⟩
    rcases List.mem_cons.mp hq with rfl | hq
    · exact List.mem_cons_self ..
    · exact List.mem_cons_of_mem _ (h.pages.deleted q hq)
  | load v =>
    obtain ⟨rfl, p, hp, rfl⟩ := h.load hrun
    exact ⟨t, by simp only [idealMachine, hp], h⟩
  | store v x =>
    obtain ⟨k, hk, hptr, rfl⟩ := store_ok hrun
    exact ⟨_, by simp only [idealMachine, h.ptr v k hk hptr], h.write k x⟩
  | latch l =>
    cases hrun
    exact ⟨t, rfl, h⟩

/-- Equal pages stay equal, deletions included. -/
theorem Matches.step_pages (c : Cmd K V) (s : CheckedStore K V) (t : IdealStore K V) (r r' : Cmd.Res c)
    (s' : CheckedStore K V) (t' : IdealStore K V) (h : Matches s t) (hpages : t.pages = s.pages)
    (hrun : checkedMachine ids cap c s = .ok (r, s')) (hideal : idealMachine ids c t = .ok (r', t')) :
    t'.pages = s'.pages := by
  cases c with
  | newPage v =>
    obtain ⟨-, rfl, rfl⟩ := newPage_ok hrun
    cases hideal
    exact congrArg (Pages.create ids) hpages
  | fetchPage v p =>
    obtain ⟨-, -, rfl, rfl⟩ := fetchPage_ok hrun
    cases hideal
    exact hpages
  | unpinPage p d =>
    obtain ⟨k, -, -, -, -, rfl⟩ := unpinPage_ok hrun
    cases hideal
    exact hpages
  | deletePage p =>
    obtain ⟨-, rfl, rfl⟩ := deletePage_ok hrun
    cases hideal
    exact congrArg (Pages.delete · p) hpages
  | load v =>
    obtain ⟨rfl, p, hp, rfl⟩ := h.load hrun
    simp only [idealMachine, hp] at hideal
    cases hideal
    exact hpages
  | store v x =>
    obtain ⟨k, hk, hptr, rfl⟩ := store_ok hrun
    simp only [idealMachine, h.ptr v k hk hptr] at hideal
    cases hideal
    exact congrArg (Pages.write · k.page x) hpages
  | latch l =>
    cases hrun
    cases hideal
    exact hpages

/-- Program `q` does over the ideal store what `p` does over the checked one. -/
abbrev FollowsIdeal (ids : ℕ → PageId) (cap : ℕ) (p q : TableProg K V α) : Prop :=
  Follows (checkedMachine ids cap) (idealMachine ids) Matches p q

/-- The ideal store may leave the program out. -/
abbrev SilentIdeal (ids : ℕ → PageId) (cap : ℕ) (p : TableProg K V α) : Prop :=
  Silent (checkedMachine ids cap) Matches p

/-- **What is disciplined does the same over the ideal store.** -/
theorem Disciplined.ideal {p q : TableProg K V α} {P Q P' : Pages K V} {r : α}
    (h : Disciplined ids cap p P r P') (hq : FollowsIdeal ids cap p q) (hPQ : P.Covers Q)
    (ptr : PtrVar → Option PageId) :
    ∃ Q' ptr', run (idealMachine ids) q ⟨Q, ptr⟩ = .ok (r, ⟨Q', ptr'⟩) ∧ P'.Covers Q' := by
  obtain ⟨ptr₁, t₁, hrun⟩ := h (fun _ => none) 0
  have hstart : Matches ⟨P, fun _ => none, [], 0⟩ ⟨Q, ptr⟩ :=
    ⟨hPQ, fun k hk => (by cases hk), fun v n hn => (by cases hn), fun v k hk => (by cases hk)⟩
  obtain ⟨⟨Q', ptr'⟩, hideal, hmatch⟩ := hq _ _ _ _ hstart hrun
  exact ⟨Q', ptr', hideal, hmatch.pages⟩

/-- The same program leaves the same pages. -/
theorem Disciplined.ideal_same {p : TableProg K V α} {P P' : Pages K V} {r : α} (h : Disciplined ids cap p P r P')
    (ptr : PtrVar → Option PageId) : ∃ ptr', run (idealMachine ids) p ⟨P, ptr⟩ = .ok (r, ⟨P', ptr'⟩) := by
  obtain ⟨ptr₁, t₁, hrun⟩ := h (fun _ => none) 0
  have hstart : Matches ⟨P, fun _ => none, [], 0⟩ ⟨P, ptr⟩ :=
    ⟨.refl P, fun k hk => (by cases hk), fun v n hn => (by cases hn), fun v k hk => (by cases hk)⟩
  have hfollow : Follows (checkedMachine ids cap) (idealMachine ids)
      (fun s t => Matches s t ∧ t.pages = s.pages) p p := .same (fun c s t r s' hR hstep => by
    obtain ⟨t', ht', hm⟩ := hR.1.step c s t r s' hstep
    exact ⟨t', ht', hm, hR.1.step_pages c s t r r s' t' hR.2 hstep ht'⟩) p
  obtain ⟨⟨Q', ptr'⟩, hideal, -, hpages⟩ := hfollow _ _ _ _ ⟨hstart, rfl⟩ hrun
  obtain rfl : Q' = P' := hpages
  exact ⟨ptr', hideal⟩

end BusTub
