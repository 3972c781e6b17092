/-
  What one caller sees of the pages, while others act between its commands.

  1. **`Rely`**: under the shared table latch others may change the buckets, but neither the directory nor
     which pages there are; under the exclusive one nobody changes anything.

  2. **`viewRules`** are the rules that a job keeps: it finds a layout and leaves one, it keeps the pin
     discipline of the checked store with three pins at most, and as a reader it fetches its bucket when it
     has no page but the directory, writes no directory, and creates and deletes nothing.  A page latch is
     taken through a pointer whose pin is held.

  3. `job_views` — **the main result**: every job keeps the rules, and fails only after a page was null.  For a
     reader this is shown command by command (`Reads`), since it may find anything in its bucket.  For a writer,
     which is alone, the run of its region over the checked store is enough (`run_keeps`).
-/
import BusTub.Table.Latches

set_option linter.unusedSectionVars false

namespace BusTub

open Command HashPartition

/-! ## Views -/

section views

variable {K V : Type}

/-- What the pages `P` may have become while a caller has the table latch. -/
def Rely (dirId : PageId) : Mode → Pages K V → Pages K V → Prop
  | .shared, P, Q => Q.next = P.next ∧ Q.deleted = P.deleted ∧ Q.mem dirId = P.mem dirId
  | .exclusive, P, Q => Q = P

/-- Where a caller is, and its pins. -/
inductive View (K V : Type) where
  | out
  | inside (m : Mode) (s : CheckedStore K V)
  | done
  | dead

/-- A caller has just got the table latch. -/
def entered (P : Pages K V) : CheckedStore K V := ⟨P, fun _ => none, [], 0⟩

/-- What a reader may do with its pins. -/
def Gentle (dirId : PageId) (s : CheckedStore K V) : Cmd K V → Prop
  | .newPage _ => False
  | .deletePage _ => False
  | .fetchPage _ _ => ∀ k ∈ s.holds, k.page = dirId
  | .store v _ => ∀ k, s.holdOf v = .ok k → k.page ≠ dirId
  | _ => True

/-- The operations that take a page latch. -/
inductive LatchOp.Takes : LatchOp → Prop where
  | shared : Takes (.pageRLatch .bucketPage)
  | exclusive : Takes (.pageWLatch .bucketPage)

/-- The operations that give it back. -/
inductive LatchOp.Gives : LatchOp → Prop where
  | shared : Gives (.pageRUnlatch .bucketPage)
  | exclusive : Gives (.pageWUnlatch .bucketPage)

/-- Nobody else has done anything. -/
theorem Rely.refl (dirId : PageId) (m : Mode) (P : Pages K V) : Rely dirId m P P := by
  cases m with
  | shared => exact ⟨rfl, rfl, rfl⟩
  | exclusive => rfl

/-- What others do in two steps they may do. -/
theorem Rely.trans {dirId : PageId} {m : Mode} {P Q R : Pages K V} (h : Rely dirId m P Q)
    (h' : Rely dirId m Q R) : Rely dirId m P R := by
  cases m with
  | shared => exact ⟨h'.1.trans h.1, h'.2.1.trans h.2.1, h'.2.2.trans h.2.2⟩
  | exclusive => exact Eq.trans h' h

variable [Inhabited K] [Inhabited V] [DecidableEq K] [DecidableEq V]

/-- What a caller may do. -/
inductive View.May (T : HashTableType K V) (ids : ℕ → PageId) (dirId : PageId) : Cmd K V → View K V → Prop where
  | tableRLock : May T ids dirId (.latch .tableRLock) .out
  | tableWLock : May T ids dirId (.latch .tableWLock) .out
  | tableRUnlock {s : CheckedStore K V} (hnone : s.holds = []) :
      May T ids dirId (.latch .tableRUnlock) (.inside .shared s)
  | tableWUnlock {s : CheckedStore K V} {A : Partition PageId} (hnone : s.holds = [])
      (hlayout : T.Layout ids s.pages dirId A) : May T ids dirId (.latch .tableWUnlock) (.inside .exclusive s)
  | take {l : LatchOp} {s : CheckedStore K V} {k : Hold} (hl : l.Takes) (hk : s.holdOf .bucketPage = .ok k) :
      May T ids dirId (.latch l) (.inside .shared s)
  | give {l : LatchOp} {s : CheckedStore K V} (hl : l.Gives) (hptr : s.ptr .bucketPage ≠ none) :
      May T ids dirId (.latch l) (.inside .shared s)
  | access {c : Cmd K V} {m : Mode} {s : CheckedStore K V} (hc : ∀ l, c ≠ .latch l)
      (hgentle : m = .shared → Gentle dirId s c) (hok : ∀ P, Rely dirId m s.pages P →
        ∃ r s', checkedMachine ids 3 c { s with pages := P } = .ok (r, s')) : May T ids dirId c (.inside m s)

/-- Whoever does not ask for the table latch has it. -/
theorem View.May.inside {T : HashTableType K V} {ids : ℕ → PageId} {dirId : PageId} {c : Cmd K V} {v : View K V}
    (h : View.May T ids dirId c v) (hr : c ≠ .latch .tableRLock) (hw : c ≠ .latch .tableWLock) :
    ∃ m s, v = .inside m s := by
  cases h with
  | tableRLock => exact absurd rfl hr
  | tableWLock => exact absurd rfl hw
  | _ => exact ⟨_, _, rfl⟩

/-- What comes of it. -/
inductive View.Next (T : HashTableType K V) (ids : ℕ → PageId) (dirId : PageId) :
    (c : Cmd K V) → View K V → Cmd.Res c → View K V → Prop where
  | tableRLock {P : Pages K V} {A : Partition PageId} (h : T.Layout ids P dirId A) :
      Next T ids dirId (.latch .tableRLock) .out () (.inside .shared (entered P))
  | tableWLock {P : Pages K V} {A : Partition PageId} (h : T.Layout ids P dirId A) :
      Next T ids dirId (.latch .tableWLock) .out () (.inside .exclusive (entered P))
  | tableRUnlock {s : CheckedStore K V} : Next T ids dirId (.latch .tableRUnlock) (.inside .shared s) () .done
  | tableWUnlock {s : CheckedStore K V} : Next T ids dirId (.latch .tableWUnlock) (.inside .exclusive s) () .done
  | take {l : LatchOp} {s : CheckedStore K V} (hl : l.Takes) :
      Next T ids dirId (.latch l) (.inside .shared s) () (.inside .shared s)
  | give {l : LatchOp} {s : CheckedStore K V} (hl : l.Gives) :
      Next T ids dirId (.latch l) (.inside .shared s) () (.inside .shared s)
  | access {c : Cmd K V} {m : Mode} {s s' : CheckedStore K V} {P : Pages K V} {r : Cmd.Res c}
      (hc : ∀ l, c ≠ .latch l) (hP : Rely dirId m s.pages P)
      (hrun : checkedMachine ids 3 c { s with pages := P } = .ok (r, s')) :
      Next T ids dirId c (.inside m s) r (.inside m s')
  | null {c : Cmd K V} {m : Mode} {s : CheckedStore K V} {r : Cmd.Res c} (hnull : c.gotNull r = true) :
      Next T ids dirId c (.inside m s) r .dead

/-- **The rules of a job.** -/
def viewRules (T : HashTableType K V) (ids : ℕ → PageId) (dirId : PageId) :
    Interface (Cmd.Res (K := K) (V := V)) (View K V) where
  pre := View.May T ids dirId
  post := View.Next T ids dirId
  fails v := v = .dead

end views

/-! ## Readers -/

namespace HashTableType

open TableProg

variable {K V α : Type} [Inhabited K] [Inhabited V] [DecidableEq K] [DecidableEq V]
variable {T : HashTableType K V} {ids : ℕ → PageId} {dirId : PageId} {P : Pages K V}

/-- The job keeps the rules to its end. -/
abbrev KeepsRules (T : HashTableType K V) (ids : ℕ → PageId) (dirId : PageId) (p : TableProg K V α)
    (v : View K V) : Prop :=
  Meets (viewRules T ids dirId) (fun _ v => v = .done) p v

/-- A reader that found the pages `P` goes on with `p`: its variables are `ptr`, its pins `holds`. -/
def Reads (T : HashTableType K V) (ids : ℕ → PageId) (dirId : PageId) (P : Pages K V) (ptr : PtrVar → Option ℕ)
    (holds : List Hold) (n : ℕ) (p : TableProg K V α) : Prop :=
  ∀ Q, Rely dirId .shared P Q → T.KeepsRules ids dirId p (.inside .shared ⟨Q, ptr, holds, n⟩)

namespace Reads

variable {ptr ptr' : PtrVar → Option ℕ} {holds holds' : List Hold} {n n' : ℕ} {v : PtrVar} {k : Hold}

/-- A command that the checked store accepts, whatever has become of the buckets. -/
theorem access {c : Cmd K V} {f : Cmd.Res c → TableProg K V α} (hc : ∀ l, c ≠ .latch l)
    (hgentle : ∀ Q, Gentle dirId (⟨Q, ptr, holds, n⟩ : CheckedStore K V) c)
    (hrun : ∀ Q, Rely dirId .shared P Q → ∃ r Q', Rely dirId .shared P Q' ∧
      checkedMachine ids 3 c ⟨Q, ptr, holds, n⟩ = .ok (r, ⟨Q', ptr', holds', n'⟩) ∧
      T.Reads ids dirId P ptr' holds' n' (f r))
    (hnull : ∀ r, c.gotNull r = true → T.KeepsRules ids dirId (f r) .dead) :
    T.Reads ids dirId P ptr holds n (Prog.call c >>= f) := by
  intro Q hQ
  refine Meets.call_bind (.access hc (fun _ => hgentle Q) fun Q₁ hQ₁ => ?_) fun r v' hnext => ?_
  · obtain ⟨r, Q', -, hok, -⟩ := hrun Q₁ (hQ.trans hQ₁)
    exact ⟨r, _, hok⟩
  · cases hnext with
    | access _ hQ₁ hok =>
      obtain ⟨r', Q', hQ', hok', hreads⟩ := hrun _ (hQ.trans hQ₁)
      cases hok.symm.trans hok'
      exact hreads Q' hQ'
    | null h => exact hnull r h
    | tableRUnlock => exact absurd rfl (hc _)
    | take => exact absurd rfl (hc _)
    | give => exact absurd rfl (hc _)

/-- A computation that does not fail. -/
theorem check {β : Type} {x : Except Fault β} {a : β} {f : β → TableProg K V α} (hx : x = .ok a)
    (hf : T.Reads ids dirId P ptr holds n (f a)) : T.Reads ids dirId P ptr holds n (TableProg.check x >>= f) := by
  subst hx
  exact hf

/-- A page is fetched, and an assert sees that it is not null. -/
theorem fetched {p : PageId} {f : Bool → TableProg K V α} (hroom : holds.length < 3) (hp : P.Created ids p)
    (hdir : ∀ k ∈ holds, k.page = dirId)
    (hf : T.Reads ids dirId P (Function.update ptr v (some n)) (⟨n, p, false⟩ :: holds) (n + 1) (f true)) :
    T.Reads ids dirId P ptr holds n ((do
      let page ← fetchPage v p
      TableProg.check (assertThat .debug page)
      pure page : TableProg K V Bool) >>= f) := by
  rw [fetchPage, Prog.bind_bind]
  refine access (fun l => nofun) (fun Q => hdir) (fun Q hQ => ⟨true, Q, hQ, ?_, hf⟩) fun r hr => ?_
  · have hcreated : Q.Created ids p := by
      obtain ⟨j, hj, rfl⟩ := hp
      exact ⟨j, hQ.1 ▸ hj, rfl⟩
    exact if_pos ⟨hroom, hcreated⟩
  · cases r with
    | true => cases hr
    | false => exact rfl

/-- A read goes through whatever others have written; only of the directory is it known what is read. -/
theorem load (hk : ∀ Q, (⟨Q, ptr, holds, n⟩ : CheckedStore K V).holdOf v = .ok k)
    {f : PageData K V → TableProg K V α} (hf : ∀ x, (k.page = dirId → x = P.mem dirId) →
      T.Reads ids dirId P ptr holds n (f x)) : T.Reads ids dirId P ptr holds n (TableProg.load v >>= f) := by
  refine access (fun l => nofun) (fun Q => trivial) (fun Q hQ => ⟨Q.mem k.page, Q, hQ, ?_, hf _ fun he => ?_⟩)
    fun r hr => (by cases hr)
  · simp only [checkedMachine, hk]
  · rw [he, hQ.2.2]

/-- A write to a page that is not the directory keeps to the rules of a reader. -/
theorem store {x : PageData K V} (hk : ∀ Q, (⟨Q, ptr, holds, n⟩ : CheckedStore K V).holdOf v = .ok k)
    (hne : k.page ≠ dirId) {f : Unit → TableProg K V α}
    (hf : T.Reads ids dirId P ptr (holds.map (markWrote k)) n (f ())) :
    T.Reads ids dirId P ptr holds n (TableProg.store v x >>= f) := by
  refine access (fun l => nofun) (fun Q k' hk' => ?_) (fun Q hQ => ⟨(), Q.write k.page x, ?_, ?_, hf⟩)
    fun r hr => (by cases hr)
  · cases (hk Q).symm.trans hk'
    exact hne
  · exact ⟨hQ.1, hQ.2.1, (Function.update_of_ne hne.symm ..).trans hQ.2.2⟩
  · simp only [checkedMachine, hk]

/-- A pin is given back with the dirty flag if the page was written. -/
theorem unpinPage {p : PageId} {d : Bool} (hk : holds.find? (fun k => k.page = p) = some k)
    (hd : ¬ (k.wrote = true ∧ d = false)) {f : Bool → TableProg K V α}
    (hf : T.Reads ids dirId P ptr (holds.erase k) n (f true)) :
    T.Reads ids dirId P ptr holds n (TableProg.unpinPage p d >>= f) := by
  refine access (fun l => nofun) (fun Q => trivial) (fun Q hQ => ⟨true, Q, hQ, ?_, hf⟩) fun r hr => (by cases hr)
  simp only [checkedMachine, hk, if_neg hd]

/-- An operation on the page latch of the bucket. -/
theorem take {l : LatchOp} (hl : l.Takes) (hk : ∀ Q, (⟨Q, ptr, holds, n⟩ : CheckedStore K V).holdOf .bucketPage = .ok k)
    {f : Unit → TableProg K V α} (hf : T.Reads ids dirId P ptr holds n (f ())) :
    T.Reads ids dirId P ptr holds n (TableProg.latch l >>= f) := by
  intro Q hQ
  refine Meets.call_bind (.take hl (hk Q)) fun r v' hnext => ?_
  cases hnext with
  | access hc => exact absurd rfl (hc _)
  | null h => cases h
  | tableRUnlock => cases hl
  | take => exact hf Q hQ
  | give => exact hf Q hQ

/-- A latch that is released changes no page. -/
theorem give {l : LatchOp} (hl : l.Gives) (hptr : ptr .bucketPage ≠ none) {f : Unit → TableProg K V α}
    (hf : T.Reads ids dirId P ptr holds n (f ())) : T.Reads ids dirId P ptr holds n (TableProg.latch l >>= f) := by
  intro Q hQ
  refine Meets.call_bind (.give hl hptr) fun r v' hnext => ?_
  cases hnext with
  | access hc => exact absurd rfl (hc _)
  | null h => cases h
  | tableRUnlock => cases hl
  | take => exact hf Q hQ
  | give => exact hf Q hQ

/-- Without pins the table latch is given back, and the job is over. -/
theorem tableRUnlock {f : Unit → TableProg K V α} {a : α} (hf : f () = pure a) :
    T.Reads ids dirId P ptr [] n (TableProg.latch .tableRUnlock >>= f) := by
  intro Q hQ
  refine Meets.call_bind (.tableRUnlock rfl) fun r v' hnext => ?_
  rw [hf]
  cases hnext with
  | access hc => exact absurd rfl (hc _)
  | null h => cases h
  | tableRUnlock => rfl
  | take hl => cases hl
  | give hl => cases hl

/-- The directory is the one that was there when the table latch was taken. -/
theorem loadDirectory (hk : ∀ Q, (⟨Q, ptr, holds, n⟩ : CheckedStore K V).holdOf .dirPage = .ok k)
    (hdir : k.page = dirId) {f : HashTableDirectoryPage → TableProg K V α}
    (hf : T.Reads ids dirId P ptr holds n (f (T.directoryAt P dirId))) :
    T.Reads ids dirId P ptr holds n (T.loadDirectory >>= f) := by
  rw [HashTableType.loadDirectory, Prog.bind_bind]
  refine load hk fun x hx => ?_
  rw [hx hdir]
  exact hf

/-- The bucket may be any: others write to buckets under their page latch. -/
theorem loadBucket (hk : ∀ Q, (⟨Q, ptr, holds, n⟩ : CheckedStore K V).holdOf v = .ok k)
    {f : HashTableBucketPage K V → TableProg K V α} (hf : ∀ bucket, T.Reads ids dirId P ptr holds n (f bucket)) :
    T.Reads ids dirId P ptr holds n (T.loadBucket v >>= f) := by
  rw [HashTableType.loadBucket, Prog.bind_bind]
  exact load hk fun x _ => hf (T.asBucket x)

/-- The same inside an `assert`. -/
theorem assert_unpinPage {p : PageId} {d : Bool} (hk : holds.find? (fun k => k.page = p) = some k)
    (hd : ¬ (k.wrote = true ∧ d = false)) {f : Unit → TableProg K V α}
    (hf : T.Reads ids dirId P ptr (holds.erase k) n (f ())) :
    T.Reads ids dirId P ptr holds n (assert_ .debug (TableProg.unpinPage p d) >>= f) := by
  rw [assert_, Prog.bind_bind]
  exact unpinPage hk hd hf

/-- The directory's own page id names the page whose pin is given back. -/
theorem unpinDirectory {j : Hold} (hself : (T.directoryAt P dirId).pageId = dirId)
    (hk : ∀ Q, (⟨Q, ptr, holds, n⟩ : CheckedStore K V).holdOf .dirPage = .ok k) (hdir : k.page = dirId)
    (hfind : holds.find? (fun k => k.page = dirId) = some j) (hclean : j.wrote = false)
    {f : Unit → TableProg K V α} (hf : T.Reads ids dirId P ptr (holds.erase j) n (f ())) :
    T.Reads ids dirId P ptr holds n (T.unpinDirectory .debug false >>= f) := by
  rw [HashTableType.unpinDirectory, assert_, Prog.bind_bind, Prog.bind_bind]
  refine loadDirectory hk hdir (unpinPage ?_ ?_ hf)
  · rw [HashTableDirectoryPage.getPageId, hself]
    exact hfind
  · simp [hclean]

end Reads

/-! ## The readers' jobs -/

/-- The variables of a reader that has fetched both pages. -/
def readerPtr : PtrVar → Option ℕ :=
  Function.update (Function.update (fun _ => none) .dirPage (some 0)) .bucketPage (some 1)

/-- Its pins. -/
def readerHolds (dirId bid : PageId) (wrote : Bool) : List Hold := [⟨1, bid, wrote⟩, ⟨0, dirId, false⟩]

variable {A : Partition PageId} {bid : PageId} {wrote : Bool}

/-- The head of an operation finds the page that the directory names for the key. -/
theorem fetchFor_reads (h : T.Layout ids P dirId A) (key : K) {f : PageId → TableProg K V α}
    (hf : T.Reads ids dirId P readerPtr (readerHolds dirId (A.page (T.hash key)) false) 2 (f (A.page (T.hash key)))) :
    T.Reads ids dirId P (fun _ => none) [] 0 (T.fetchFor .debug dirId key >>= f) := by
  simp only [fetchFor, Prog.bind_bind]
  refine Reads.fetched (by simp) h.dir_created (by simp) ?_
  refine Reads.check rfl ?_
  refine Reads.loadDirectory (k := ⟨0, dirId, false⟩) (fun _ => by rfl) rfl ?_
  rw [h.page]
  refine Reads.fetched (by simp) (h.created _) (by simp) ?_
  exact Reads.check rfl hf

/-- The bucket is written, and its hold is marked so. -/
theorem storeBucket_reads (hne : bid ≠ dirId) {x : HashTableBucketPage K V} {f : Unit → TableProg K V α}
    (hf : T.Reads ids dirId P readerPtr (readerHolds dirId bid true) 2 (f ())) :
    T.Reads ids dirId P readerPtr (readerHolds dirId bid wrote) 2 (storeBucket .bucketPage x >>= f) :=
  Reads.store (k := ⟨1, bid, wrote⟩) (fun _ => by rfl) hne hf

/-- Both pins are given back, that of the directory first. -/
theorem unpinBoth_reads (h : T.Layout ids P dirId A) (hne : bid ≠ dirId) {d : Bool}
    (hd : ¬ (wrote = true ∧ d = false)) {f : Unit → TableProg K V α}
    (hf : T.Reads ids dirId P readerPtr [] 2 (f ())) :
    T.Reads ids dirId P readerPtr (readerHolds dirId bid wrote) 2
      (T.unpinDirectory .debug false >>= fun _ => assert_ .debug (unpinPage bid d) >>= f) := by
  refine Reads.unpinDirectory (k := ⟨0, dirId, false⟩) (j := ⟨0, dirId, false⟩) h.self (fun _ => by rfl) rfl
    (by simp [readerHolds, hne]) rfl ?_
  rw [show (readerHolds dirId bid wrote).erase ⟨0, dirId, false⟩ = [⟨1, bid, wrote⟩] by simp [readerHolds]]
  refine Reads.assert_unpinPage (k := ⟨1, bid, wrote⟩) (by simp) hd ?_
  rw [List.erase_cons_head]
  exact hf

/-- Both pins are given back, that of the bucket first. -/
theorem unpinBoth_reads' (h : T.Layout ids P dirId A) {d : Bool} (hd : ¬ (wrote = true ∧ d = false))
    {f : Unit → TableProg K V α} (hf : T.Reads ids dirId P readerPtr [] 2 (f ())) :
    T.Reads ids dirId P readerPtr (readerHolds dirId bid wrote) 2
      (assert_ .debug (unpinPage bid d) >>= fun _ => T.unpinDirectory .debug false >>= f) := by
  refine Reads.assert_unpinPage (k := ⟨1, bid, wrote⟩) (by simp [readerHolds]) hd ?_
  rw [readerHolds, List.erase_cons_head]
  refine Reads.unpinDirectory (k := ⟨0, dirId, false⟩) (j := ⟨0, dirId, false⟩) h.self (fun _ => by rfl) rfl
    (by simp) rfl ?_
  rw [List.erase_cons_head]
  exact hf

/-- A reader's job, from the table latch on. -/
theorem keepsRules_reader {f : Unit → TableProg K V α}
    (hf : ∀ P A, T.Layout ids P dirId A → T.Reads ids dirId P (fun _ => none) [] 0 (f ())) :
    T.KeepsRules ids dirId (latch .tableRLock >>= f) .out := by
  refine Meets.call_bind .tableRLock fun r v' hnext => ?_
  cases hnext with
  | @tableRLock P A h => exact hf P A h P (Rely.refl ..)

/-- `GetValue` keeps the rules whatever other readers do meanwhile, -/
theorem getValue_keeps (key : K) (result : List V) :
    T.KeepsRules ids dirId (T.getValue .debug dirId key result) .out := by
  refine keepsRules_reader fun P A h => fetchFor_reads h key ?_
  refine Reads.take (k := ⟨1, A.page (T.hash key), false⟩) .shared (fun _ => by rfl) ?_
  refine Reads.loadBucket (k := ⟨1, A.page (T.hash key), false⟩) (fun _ => by rfl) fun bucket => ?_
  refine unpinBoth_reads h (h.ne_dir _) (by simp) ?_
  exact Reads.give .shared (by simp [readerPtr]) (Reads.tableRUnlock rfl)

/-- and `Insert` up to its `SplitInsert`, -/
theorem insertRegion_keeps (key : K) (value : V) :
    T.KeepsRules ids dirId (T.insertRegion .debug dirId key value) .out := by
  refine keepsRules_reader fun P A h => fetchFor_reads h key ?_
  refine Reads.take (k := ⟨1, A.page (T.hash key), false⟩) .exclusive (fun _ => by rfl) ?_
  refine Reads.loadBucket (k := ⟨1, A.page (T.hash key), false⟩) (fun _ => by rfl) fun bucket => ?_
  cases hfull : bucket.isFull T.bucketArraySize with
  | false =>
    refine storeBucket_reads (h.ne_dir _) (unpinBoth_reads h (h.ne_dir _) (by simp) ?_)
    exact Reads.give .exclusive (by simp [readerPtr]) (Reads.tableRUnlock rfl)
  | true =>
    refine unpinBoth_reads' h (by simp) ?_
    exact Reads.give .exclusive (by simp [readerPtr]) (Reads.tableRUnlock rfl)

/-- and `Remove` up to its `Merge`, -/
theorem removeRegion_keeps (key : K) (value : V) :
    T.KeepsRules ids dirId (T.removeRegion .debug dirId key value) .out := by
  refine keepsRules_reader fun P A h => fetchFor_reads h key ?_
  refine Reads.take (k := ⟨1, A.page (T.hash key), false⟩) .exclusive (fun _ => by rfl) ?_
  refine Reads.loadBucket (k := ⟨1, A.page (T.hash key), false⟩) (fun _ => by rfl) fun bucket => ?_
  refine storeBucket_reads (h.ne_dir _) (unpinBoth_reads' h (by simp) ?_)
  exact Reads.give .exclusive (by simp [readerPtr]) (Reads.tableRUnlock rfl)

/-- and the two readers of the directory: -/
theorem getGlobalDepth_keeps : T.KeepsRules ids dirId (T.getGlobalDepth .debug dirId) .out := by
  refine keepsRules_reader fun P A h => ?_
  refine Reads.fetched (by simp) h.dir_created (by simp) ?_
  refine Reads.loadDirectory (k := ⟨0, dirId, false⟩) (fun _ => by rfl) rfl ?_
  refine Reads.assert_unpinPage (k := ⟨0, dirId, false⟩) (by simp) (by simp) ?_
  rw [List.erase_cons_head]
  exact Reads.tableRUnlock rfl

/-- their checks are about the directory alone. -/
theorem verifyIntegrity_keeps : T.KeepsRules ids dirId (T.verifyIntegrity .debug dirId) .out := by
  refine keepsRules_reader fun P A h => ?_
  refine Reads.fetched (by simp) h.dir_created (by simp) ?_
  refine Reads.loadDirectory (k := ⟨0, dirId, false⟩) (fun _ => by rfl) rfl ?_
  refine Reads.check ((h.shows_dir.dirInv h.global_le h.tight).verifyIntegrity_ok .debug) ?_
  refine Reads.assert_unpinPage (k := ⟨0, dirId, false⟩) (by simp) (by simp) ?_
  rw [List.erase_cons_head]
  show T.Reads ids dirId P _ [] 1 (latch .tableRUnlock >>= fun _ => pure ())
  exact Reads.tableRUnlock rfl

/-! ## The writers' jobs -/

/-- After a null page nothing can follow but a failure. -/
theorem aborted_fails {b : Build} {p : TableProg K V α} (h : Goes b .aborted p .done) : ∃ e, p = .fail e := by
  cases p with
  | ret a => cases h
  | fail e => exact ⟨e, rfl⟩
  | cmd c k =>
    obtain ⟨hpre, -⟩ := h
    cases c with
    | latch l =>
      obtain ⟨st', hmoves⟩ := hpre
      cases hmoves
    | _ => cases hpre

/-- A caller whose process has aborted does nothing more. -/
theorem aborted_keeps {p : TableProg K V α} (h : Goes .debug .aborted p .done) : T.KeepsRules ids dirId p .dead := by
  obtain ⟨e, rfl⟩ := aborted_fails h
  exact rfl

/-- After the table latch was given back nothing can follow but the end. -/
theorem done_ends {p : TableProg K V α} (h : Goes .debug .done p .done) :
    (∃ a, p = .ret a) ∨ ∃ e, p = .fail e := by
  cases p with
  | ret a => exact .inl ⟨a, rfl⟩
  | fail e => exact .inr ⟨e, rfl⟩
  | cmd c k =>
    obtain ⟨hpre, -⟩ := h
    cases c with
    | latch l =>
      obtain ⟨st', hmoves⟩ := hpre
      cases hmoves
    | _ => cases hpre

/-- The checked store returns no null page. -/
theorem checked_notNull {c : Cmd K V} {r : Cmd.Res c} {s s' : CheckedStore K V} {cap : ℕ}
    (hrun : checkedMachine ids cap c s = .ok (r, s')) : c.gotNull r = false := by
  cases c with
  | newPage v =>
    obtain ⟨-, rfl, -⟩ := newPage_ok hrun
    rfl
  | fetchPage v p =>
    obtain ⟨-, -, rfl, -⟩ := fetchPage_ok hrun
    rfl
  | _ => rfl

/-- A writer is alone: its run over the checked store is what it does. -/
theorem run_keeps {a : α} (p : TableProg K V α) : ∀ {s s' : CheckedStore K V} {A : Partition PageId},
    run (checkedMachine ids 3) p s = .ok (a, s') → s'.holds = [] → T.Layout ids s'.pages dirId A →
    Goes .debug .exclusive p .done → T.KeepsRules ids dirId p (.inside .exclusive s) := by
  induction p with
  | ret a => exact fun _ _ _ hgoes => (by cases hgoes)
  | fail e => exact fun hrun => (by cases hrun)
  | cmd c k ih =>
    intro s s' A hrun hnone hlayout hgoes
    obtain ⟨r, s₁, hc, hk⟩ := run_cmd_inv hrun
    obtain ⟨hpre, hgoes⟩ := hgoes
    by_cases hlatch : ∃ l, c = .latch l
    · -- only the table latch may be given back, and only at the end
      obtain ⟨l, rfl⟩ := hlatch
      obtain ⟨st', hmoves⟩ := hpre
      have hrest := hgoes r st' hmoves
      cases hmoves
      cases hc
      have hend : ∃ a', k () = .ret a' := by
        rcases done_ends hrest with hret | ⟨e, hfail⟩
        · exact hret
        · rw [hfail] at hk
          cases hk
      obtain ⟨a', hret⟩ := hend
      rw [hret] at hk
      cases hk
      refine ⟨.tableWUnlock hnone hlayout, fun r v' hnext => ?_⟩
      cases hnext with
      | access hc => exact absurd rfl (hc _)
      | null h => cases h
      | tableWUnlock =>
        show T.KeepsRules ids dirId (k ()) .done
        rw [hret]
        rfl
    · -- any other command runs as it does when nobody else is there, for nobody else is
      have hc' : ∀ l, c ≠ .latch l := fun l he => hlatch ⟨l, he⟩
      have hpost : ∀ r, (latchRules .debug).post c .exclusive r (Stage.exclusive.after .debug (c.gotNull r)) := by
        cases c with
        | latch l => exact absurd rfl (hc' l)
        | _ => exact fun r => rfl
      refine ⟨.access hc' nofun fun P hP => ?_, fun r' v' hnext => ?_⟩
      · obtain rfl : P = s.pages := hP
        exact ⟨r, s₁, hc⟩
      · -- and the rest of the run goes on from what it answered
        have hstage := hgoes r' _ (hpost r')
        cases hnext with
        | @access c m s s₂ P r' _ hP hok =>
          obtain rfl : P = s.pages := hP
          cases hc.symm.trans hok
          rw [checked_notNull hc] at hstage
          exact ih r hk hnone hlayout hstage
        | null h =>
          rw [h] at hstage
          exact aborted_keeps hstage
        | tableWUnlock => exact absurd rfl (hc' _)

/-- A writer's job, from the table latch on. -/
theorem keepsRules_writer {f : Unit → TableProg K V α}
    (hrun : ∀ P A, T.Layout ids P dirId A → ∃ r P' A',
      Disciplined ids 3 (latch .tableWLock >>= f) P r P' ∧ T.Layout ids P' dirId A')
    (hgoes : Goes .debug .out (latch .tableWLock >>= f) .done) :
    T.KeepsRules ids dirId (latch .tableWLock >>= f) .out := by
  refine Meets.call_bind .tableWLock fun r v' hnext => ?_
  cases hnext with
  | @tableWLock P A h =>
    obtain ⟨r, P', A', hdisc, hlayout⟩ := hrun P A h
    obtain ⟨ptr', t', hrun⟩ := hdisc (fun _ => none) 0
    exact run_keeps (f ()) hrun rfl hlayout (hgoes.2 () _ .tableWLock)

/-- `Merge` is alone with the pages, so the rules of the store that it has for itself are enough. -/
theorem merge_keeps (key : K) : T.KeepsRules ids dirId (T.merge .debug dirId key) .out := by
  refine keepsRules_writer (fun P A h => ?_) (merge_goes key)
  rcases h.merge_run (Nat.le_refl 3) key with hmerge | ⟨i, s, e, hi, hs, hsib, d, hmerge, hlayout, -⟩
  · exact ⟨(), _, A, hmerge, h⟩
  · exact ⟨(), _, _, hmerge, hlayout⟩

section

variable (hids : Function.Injective ids)
include hids

/-- So is a round of `SplitInsert`. -/
theorem splitInsertRegion_keeps (key : K) (value : V) :
    T.KeepsRules ids dirId (T.splitInsertRegion .debug dirId key value) .out := by
  refine keepsRules_writer (fun P A h => ?_) (splitInsertRegion_goes key value)
  rcases h.splitInsertRegion_run (Nat.le_refl 3) hids key value with
    ⟨r, P', hrun, A', hlayout⟩ | ⟨P', A', hrun, hlayout, -⟩
  · exact ⟨_, P', A', hrun, hlayout⟩
  · exact ⟨_, P', A', hrun, hlayout⟩

/-- **Every job keeps the rules.** -/
theorem job_views (x : Job K V) : T.KeepsRules ids dirId (T.jobProg .debug dirId x) .out := by
  have hthen : ∀ {α β : Type} {p : TableProg K V α} {f : α → TableProg K V β} {v : View K V},
      T.KeepsRules ids dirId p v → (∀ a, ∃ y, f a = pure y) → T.KeepsRules ids dirId (p >>= f) v := by
    intro α β p f v hp hf
    refine Meets.bind p v (Meets.mono (fun a v' hv' => ?_) p v hp)
    obtain ⟨y, hy⟩ := hf a
    rw [hy]
    exact hv'
  cases x with
  | region x =>
    cases x with
    | entry c =>
      cases c with
      | insert key value =>
        refine hthen (insertRegion_keeps key value) fun res => ?_
        cases res <;> exact ⟨_, rfl⟩
      | remove key value => exact hthen (removeRegion_keeps key value) fun _ => ⟨_, rfl⟩
      | getValue key result => exact hthen (getValue_keeps key result) fun _ => ⟨_, rfl⟩
    | splitInsert key value =>
      refine hthen (splitInsertRegion_keeps hids key value) fun res => ?_
      cases res <;> exact ⟨_, rfl⟩
    | merge key value res => exact hthen (merge_keeps key) fun _ => ⟨_, rfl⟩
  | getGlobalDepth => exact hthen getGlobalDepth_keeps fun _ => ⟨_, rfl⟩
  | verifyIntegrity => exact hthen verifyIntegrity_keeps fun _ => ⟨_, rfl⟩

end

end HashTableType

end BusTub
