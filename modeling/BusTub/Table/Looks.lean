/-
  How a caller under the shared table latch looks at its bucket.

  1. **`lookRules`** are the rules of a look: the caller searches the directory, latches its bucket and loads it
     once, stores it once at most and only right after that, and then the look is settled.  Every job that takes
     the table latch shared keeps them (`job_begins`).

  2. **`Looks.settled_run`**: what is left of a settled look comes out the same whatever others do to the buckets.

  3. **`Looks.found_cases`**: right after the load a look is about to store its bucket, or it is settled.
-/
import BusTub.Table.Latches
import BusTub.Table.PageStore

set_option linter.unusedSectionVars false

namespace BusTub

open Command

/-- How far a look is: before the bucket is loaded, with its page latch or without; just after that; settled. -/
inductive Look where
  | search (l : Option Mode)
  | found (m : Mode)
  | settled

section rules

variable {K V : Type} (dirId : PageId)

/-- A command that touches no bucket. -/
inductive Cmd.Quiet : Cmd K V → Prop where
  | fetchDirectory : Quiet (.fetchPage .dirPage dirId)
  | fetchBucket (p : PageId) : Quiet (.fetchPage .bucketPage p)
  | loadDirectory : Quiet (.load .dirPage)
  | unpinPage (p : PageId) (d : Bool) : Quiet (.unpinPage p d)
  | latch (l : LatchOp) : Quiet (.latch l)

/-- The latch operations of a search. -/
inductive LatchOp.OnBucket : LatchOp → Mode → Prop where
  | shared : OnBucket (.pageRLatch .bucketPage) .shared
  | exclusive : OnBucket (.pageWLatch .bucketPage) .exclusive

/-- What may be done in a look. -/
inductive Look.May : Cmd K V → Look → Prop where
  | search {c : Cmd K V} (hc : c.Quiet dirId) (hl : ∀ l, c ≠ .latch l) : May c (.search none)
  | latch {l : LatchOp} {m : Mode} (hl : l.OnBucket m) : May (.latch l) (.search none)
  | load (m : Mode) : May (.load .bucketPage) (.search (some m))
  | store (x : PageData K V) : May (.store .bucketPage x) (.found .exclusive)
  | found {c : Cmd K V} (m : Mode) (hc : c.Quiet dirId) : May c (.found m)
  | settled {c : Cmd K V} (hc : c.Quiet dirId) : May c .settled

/-- What it leads to. -/
def Look.after (l : Look) (c : Cmd K V) : Look :=
  match l, c with
  | .search none, .latch (.pageRLatch _) => .search (some .shared)
  | .search none, .latch (.pageWLatch _) => .search (some .exclusive)
  | .search none, _ => .search none
  | .search (some m), _ => .found m
  | _, _ => .settled

/-- **The rules of a look.** -/
def lookRules : Interface (Cmd.Res (K := K) (V := V)) Look where
  pre := Look.May dirId
  post c l _ l' := l' = l.after c
  fails _ := True

/-- A program that leads from one point of a look to another. -/
def Looks {α : Type} (l : Look) (p : TableProg K V α) (l' : Look) : Prop :=
  Meets (lookRules dirId) (fun _ t => t = l') p l

end rules

namespace Looks

variable {K V α β : Type} {dirId : PageId} {l l₁ l' : Look}

/-- Two parts of an operation, the second from where the first has left off looking. -/
theorem bind {p : TableProg K V α} {f : α → TableProg K V β} (h : Looks dirId l p l₁)
    (hf : ∀ a, Looks dirId l₁ (f a) l') : Looks dirId l (p >>= f) l' := by
  refine Meets.bind p l (Meets.mono (fun a t ht => ?_) p l h)
  subst ht
  exact hf a

/-- Nothing is looked at. -/
theorem pure (a : α) : Looks dirId l (Pure.pure a : TableProg K V α) l := rfl

/-- A check looks at what was read before. -/
theorem check (x : Except Fault α) : Looks dirId l (TableProg.check x : TableProg K V α) l :=
  Meets.lift (fun _ _ => rfl) fun _ _ => trivial

/-- One command: it may be made at this point, and moves the looking on. -/
theorem call {c : Cmd K V} (h : Look.May dirId c l) (hl : l.after c = l') :
    Looks dirId l (Prog.call c : TableProg K V _) l' :=
  Meets.call h fun _ _ ht => ht.trans hl

/-- Where a look goes on once the bucket is loaded. -/
inductive Ending : Look → Prop where
  | found (m : Mode) : Ending (.found m)
  | settled : Ending .settled

/-- When the answer has been found, what is left are commands that look at nothing. -/
theorem quiet {c : Cmd K V} (h : Ending l) (hc : c.Quiet dirId) :
    Looks dirId l (Prog.call c : TableProg K V _) .settled := by
  cases h with
  | found m => exact call (.found m hc) rfl
  | settled => exact call (.settled hc) rfl

/-- An assertion looks at no more than what it is about. -/
theorem assert {p : TableProg K V Bool} (h : Looks dirId l p l') :
    Looks dirId l (TableProg.assert_ .debug p) l' := by
  refine .bind h fun res => ?_
  cases res with
  | true => exact pure ()
  | false => exact trivial

/-- Pins are given back when the looking is over, -/
theorem unpinPage (h : Ending l) (p : PageId) (d : Bool) :
    Looks dirId l (TableProg.assert_ .debug (TableProg.unpinPage p d) : TableProg K V Unit) .settled :=
  .assert (quiet h (.unpinPage p d))

/-- and latches are released. -/
theorem latch (h : Ending l) (x : LatchOp) :
    Looks dirId l (TableProg.latch x : TableProg K V Unit) .settled := quiet h (.latch x)

/-- A page is fetched on the way to the bucket. -/
theorem fetched {v : PtrVar} {p : PageId} (h : (Cmd.fetchPage v p : Cmd K V).Quiet dirId) :
    Looks dirId (.search none) (do
      let page ← TableProg.fetchPage v p
      TableProg.check (assertThat .debug page)
      Pure.pure page : TableProg K V Bool) (.search none) :=
  .bind (call (.search h fun _ => nofun) rfl) fun _ => .bind (.check _) fun _ => .pure _

/-- **Right after the load** a look is about to store its bucket, or it is settled. -/
theorem found_cases {p : TableProg K V α} {m : Mode} (h : Looks dirId (.found m) p .settled) :
    Looks dirId .settled p .settled ∨ ∃ x k, p = .cmd (.store .bucketPage x) k ∧ m = .exclusive ∧
      Looks dirId .settled (k ()) .settled := by
  cases p with
  | ret a => cases h
  | fail e => exact .inl trivial
  | cmd c k =>
    obtain ⟨hmay, hnext⟩ := h
    cases hmay with
    | store x => exact .inr ⟨x, k, rfl, rfl, hnext () _ rfl⟩
    | found m hc => exact .inl ⟨.settled hc, fun r l' hl' => hnext r l' hl'⟩

end Looks

namespace HashTableType

open TableProg
open Looks (Ending quiet call)

variable {K V : Type} [Inhabited K] [Inhabited V] [DecidableEq K] [DecidableEq V]
variable {T : HashTableType K V} {dirId : PageId} {l : Look}

/-! ## The jobs -/

/-- The directory is unpinned after it has been looked at. -/
theorem unpinDirectory_looks (h : Ending l) (d : Bool) : Looks dirId l (T.unpinDirectory .debug d) .settled :=
  .assert (.bind (.bind (quiet h .loadDirectory) fun _ => .pure _) fun _ => quiet .settled (.unpinPage _ d))

/-- The head of an operation: the directory is read before the page latch is taken. -/
theorem fetchFor_looks (key : K) :
    Looks dirId (.search none) (T.fetchFor .debug dirId key) (.search none) :=
  .bind (.fetched .fetchDirectory) fun _ => .bind (.check _) fun _ =>
    .bind (.bind (call (.search .loadDirectory fun _ => nofun) rfl) fun _ => .pure _) fun _ =>
    .bind (.fetched (.fetchBucket _)) fun _ => .bind (.check _) fun _ => .pure _

/-- The bucket is read once the page latch is held, and that settles the answer. -/
theorem loadBucket_looks (m : Mode) : Looks dirId (.search (some m)) (T.loadBucket .bucketPage) (.found m) :=
  .bind (call (.load m) rfl) fun _ => .pure _

/-- The page latch is taken between the two. -/
theorem pageLatch_looks {x : LatchOp} {m : Mode} (h : x.OnBucket m) :
    Looks dirId (.search none) (latch x : TableProg K V Unit) (.search (some m)) :=
  call (.latch h) (by cases h <;> rfl)

/-- What is left of `GetValue` under the table latch. -/
theorem getValue_begins (key : K) (result : List V) : ∃ f, T.getValue .debug dirId key result =
    (latch .tableRLock >>= f) ∧ Looks dirId (.search none) (f ()) .settled :=
  ⟨_, rfl, .bind (fetchFor_looks key) fun _ => .bind (pageLatch_looks .shared) fun _ =>
    .bind (loadBucket_looks _) fun _ => .bind (unpinDirectory_looks (.found _) _) fun _ =>
    .bind (.unpinPage .settled _ _) fun _ => .bind (.latch .settled _) fun _ => .bind (.latch .settled _) fun _ =>
    .pure _⟩

/-- `Insert` takes the table latch first, and then looks as the others do. -/
theorem insertRegion_begins (key : K) (value : V) : ∃ f, T.insertRegion .debug dirId key value =
    (latch .tableRLock >>= f) ∧ Looks dirId (.search none) (f ()) .settled := by
  refine ⟨_, rfl, .bind (fetchFor_looks key) fun _ => .bind (pageLatch_looks .exclusive) fun _ =>
    .bind (loadBucket_looks _) fun bucket => ?_⟩
  split
  · exact .bind (call (.store _) rfl) fun _ => .bind (unpinDirectory_looks .settled _) fun _ =>
      .bind (.unpinPage .settled _ _) fun _ => .bind (.latch .settled _) fun _ => .bind (.latch .settled _) fun _ =>
      .pure _
  · exact .bind (.unpinPage (.found _) _ _) fun _ => .bind (unpinDirectory_looks .settled _) fun _ =>
      .bind (.latch .settled _) fun _ => .bind (.latch .settled _) fun _ => .pure _

/-- So does `Remove`. -/
theorem removeRegion_begins (key : K) (value : V) : ∃ f, T.removeRegion .debug dirId key value =
    (latch .tableRLock >>= f) ∧ Looks dirId (.search none) (f ()) .settled :=
  ⟨_, rfl, .bind (fetchFor_looks key) fun _ => .bind (pageLatch_looks .exclusive) fun _ =>
    .bind (loadBucket_looks _) fun _ => .bind (call (.store _) rfl) fun _ => .bind (.unpinPage .settled _ _) fun _ =>
    .bind (unpinDirectory_looks .settled _) fun _ => .bind (.latch .settled _) fun _ =>
    .bind (.latch .settled _) fun _ => .pure _⟩

/-- The two public readers of the directory look at no bucket. -/
theorem fetchDirectoryPage_looks : Looks dirId .settled (fetchDirectoryPage (K := K) (V := V) .debug dirId) .settled :=
  .bind (quiet .settled .fetchDirectory) fun _ => .bind (.check _) fun _ => .pure _

/-- What they read of the directory is no answer about pairs. -/
theorem loadDirectory_looks : Looks dirId .settled T.loadDirectory .settled :=
  .bind (quiet .settled .loadDirectory) fun _ => .pure _

/-- `GetGlobalDepth` from its table latch on. -/
theorem getGlobalDepth_begins : ∃ f, T.getGlobalDepth .debug dirId = (latch .tableRLock >>= f) ∧
    Looks dirId .settled (f ()) .settled :=
  ⟨_, rfl, .bind fetchDirectoryPage_looks fun _ => .bind loadDirectory_looks fun _ =>
    .bind (.unpinPage .settled _ _) fun _ => .bind (.latch .settled _) fun _ => .pure _⟩

/-- `VerifyIntegrity` from its table latch on. -/
theorem verifyIntegrity_begins : ∃ f, T.verifyIntegrity .debug dirId = (latch .tableRLock >>= f) ∧
    Looks dirId .settled (f ()) .settled :=
  ⟨_, rfl, .bind fetchDirectoryPage_looks fun _ => .bind loadDirectory_looks fun _ => .bind (.check _) fun _ =>
    .bind (.unpinPage .settled _ _) fun _ => .latch .settled _⟩

/-- How a job begins: it takes the table latch as a writer, or goes on as a look from `l` on. -/
inductive Begins (dirId : PageId) : Job K V → TableProg K V (Job K V ⊕ PublicRet V) → Prop where
  | look {x : Region K V} {k : Unit → JobProg K V} (h : Looks dirId (.search none) (k ()) .settled) :
      Begins dirId (.region x) (.cmd (.latch .tableRLock) k)
  | audit {y : Job K V} {k : Unit → JobProg K V} (hy : ∀ x, y ≠ .region x)
      (h : Looks dirId .settled (k ()) .settled) : Begins dirId y (.cmd (.latch .tableRLock) k)
  | write {x : Region K V} {k : Unit → JobProg K V} : Begins dirId (.region x) (.cmd (.latch .tableWLock) k)

/-- A value computed from the result needs no further look. -/
theorem looks_then {α β : Type} {p : TableProg K V α} {g : α → TableProg K V β} (h : Looks dirId l p .settled)
    (hg : ∀ a, ∃ z, g a = pure z) : Looks dirId l (p >>= g) .settled := Looks.bind h fun a => by
  obtain ⟨z, hz⟩ := hg a
  rw [hz]
  exact Looks.pure z

/-- **How every job begins.** -/
theorem job_begins (y : Job K V) : Begins dirId y (T.jobProg .debug dirId y) := by
  have hlook : ∀ {α : Type} {p : TableProg K V α} {g : α → TableProg K V (Job K V ⊕ PublicRet V)} {x : Region K V},
      (∃ f, p = (latch .tableRLock >>= f) ∧ Looks dirId (.search none) (f ()) .settled) →
      (∀ a, ∃ z, g a = pure z) → Begins dirId (.region x) (p >>= g) := by
    rintro α p g x ⟨f, rfl, hf⟩ hg
    exact .look (looks_then hf hg)
  have haudit : ∀ {α : Type} {p : TableProg K V α} {g : α → TableProg K V (Job K V ⊕ PublicRet V)} {y : Job K V},
      (∀ x, y ≠ .region x) → (∃ f, p = (latch .tableRLock >>= f) ∧ Looks dirId .settled (f ()) .settled) →
      (∀ a, ∃ z, g a = pure z) → Begins dirId y (p >>= g) := by
    rintro α p g y hy ⟨f, rfl, hf⟩ hg
    exact .audit hy (looks_then hf hg)
  cases y with
  | region x =>
    cases x with
    | entry c =>
      cases c with
      | insert key value =>
        exact hlook (insertRegion_begins key value) fun res => by cases res <;> exact ⟨_, rfl⟩
      | remove key value => exact hlook (removeRegion_begins key value) fun _ => ⟨_, rfl⟩
      | getValue key result => exact hlook (getValue_begins key result) fun _ => ⟨_, rfl⟩
    | splitInsert key value => exact .write
    | merge key value res => exact .write
  | getGlobalDepth => exact haudit (fun _ => nofun) getGlobalDepth_begins fun _ => ⟨_, rfl⟩
  | verifyIntegrity => exact haudit (fun _ => nofun) verifyIntegrity_begins fun _ => ⟨_, rfl⟩

end HashTableType

/-! ## What a look comes to over the ideal store -/

section ideal

variable {K V α : Type} {ids : ℕ → PageId} {dirId : PageId} {P Q : Pages K V} {page : PtrVar → Option PageId}
  {t : IdealStore K V} {c : Cmd K V} {r : Cmd.Res c}

/-- The directory's variable points to the directory, if anywhere. -/
def AtDirectory (dirId : PageId) (page : PtrVar → Option PageId) : Prop := ∀ p, page .dirPage = some p → p = dirId

/-- **A command that touches no bucket** leaves the pages, and does not notice what the buckets hold. -/
theorem Cmd.Quiet.ideal (h : c.Quiet dirId) (hat : AtDirectory dirId page)
    (hrun : idealMachine ids c ⟨P, page⟩ = .ok (r, t)) : t.pages = P ∧ AtDirectory dirId t.ptr ∧
      ∀ Q : Pages K V, Q.mem dirId = P.mem dirId → idealMachine ids c ⟨Q, page⟩ = .ok (r, ⟨Q, t.ptr⟩) := by
  cases h with
  | fetchDirectory =>
    cases hrun
    refine ⟨rfl, fun p hp => ?_, fun Q _ => rfl⟩
    exact (Option.some.inj hp).symm
  | fetchBucket p =>
    cases hrun
    exact ⟨rfl, hat, fun Q _ => rfl⟩
  | loadDirectory =>
    simp only [idealMachine] at hrun
    split at hrun
    · cases hrun
    · next p hp =>
      obtain rfl := hat p hp
      cases hrun
      refine ⟨rfl, hat, fun Q hQ => ?_⟩
      simp only [idealMachine, hp, hQ]
  | unpinPage p d =>
    cases hrun
    exact ⟨rfl, hat, fun Q _ => rfl⟩
  | latch l =>
    cases hrun
    exact ⟨rfl, hat, fun Q _ => rfl⟩

/-- **What is left of a settled look** leaves the pages, and comes out the same over other buckets. -/
theorem Looks.settled_run {p : TableProg K V α} {l : Look} {a : α} (h : Looks dirId .settled p l)
    (hat : AtDirectory dirId page) (hrun : run (idealMachine ids) p ⟨P, page⟩ = .ok (a, t))
    (hQ : Q.mem dirId = P.mem dirId) : t.pages = P ∧ run (idealMachine ids) p ⟨Q, page⟩ = .ok (a, ⟨Q, t.ptr⟩) := by
  have hsame := Meets.simulates (I := lookRules dirId) (M := idealMachine ids) (N := idealMachine ids)
    (R := fun l s u => l = .settled ∧ s.pages = P ∧ AtDirectory dirId s.ptr ∧ u = ⟨Q, s.ptr⟩) ?_ p .settled _ _ a t h
    ⟨rfl, rfl, hat, rfl⟩ hrun
  · obtain ⟨l', u', -, hu', -, hpages, -, rfl⟩ := hsame
    exact ⟨hpages, hu'⟩
  · rintro c l ⟨P₁, page₁⟩ u r s' hmay ⟨rfl, hP₁, hat₁, rfl⟩ hc
    obtain rfl : P₁ = P := hP₁
    cases hmay with
    | settled hquiet =>
      obtain ⟨hpages, hat', hsame⟩ := hquiet.ideal hat₁ hc
      exact ⟨.settled, _, rfl, hsame Q hQ, rfl, hpages, hat', rfl⟩

end ideal

end BusTub
