/-
  Page stores that a table can run over instead of the buffer pool.

  1. **The ideal store** keeps every page for ever: a page is addressed by its id, a new page is
     zeroed and gets the next id of a given sequence, and no call fails.  It is what the abstract
     reading of the table is stated over.

  2. **The checked store** adds what a client of a real pool has to respect: at most `cap` pins are
     held at a time, page memory is only touched through a pin that is still held, an unpin ends a
     pin and reports every change made through it, only pages that exist are fetched and only
     unpinned pages deleted.  Breaking a rule is a fault.  Pins are told apart by tokens that are
     never reused, so that a pointer kept beyond its pin is noticed.

  What the table does over the checked store it does over the ideal one (`Table.Discipline`) and
  over the buffer pool.
-/
import BusTub.Table.HashTable

set_option linter.unusedSectionVars false

namespace BusTub

open Command

/-- The pages of a store. -/
structure Pages (K V : Type) where
  /-- How many pages were created. -/
  next : ℕ
  mem : PageId → PageData K V
  deleted : List PageId

namespace Pages

variable {K V : Type} (ids : ℕ → PageId) (P : Pages K V)

/-- No page yet. -/
def empty : Pages K V := ⟨0, fun _ => 0, []⟩

/-- Create the next page. -/
def create : Pages K V :=
  { P with next := P.next + 1, mem := Function.update P.mem (ids P.next) 0 }

/-- Write page `p`. -/
def write (p : PageId) (x : PageData K V) : Pages K V := { P with mem := Function.update P.mem p x }

/-- Delete page `p`. -/
def delete (p : PageId) : Pages K V := { P with deleted := p :: P.deleted }

/-- Page `p` was created. -/
def Created (p : PageId) : Prop := ∃ j < P.next, ids j = p

instance (p : PageId) : Decidable (P.Created ids p) := by
  unfold Created; infer_instance

/-- A new page is zeroed, and the others are as they were. -/
@[simp] theorem create_next : (P.create ids).next = P.next + 1 := rfl
theorem create_mem : (P.create ids).mem = Function.update P.mem (ids P.next) 0 := rfl
@[simp] theorem create_deleted : (P.create ids).deleted = P.deleted := rfl

variable (p q : PageId) (x : PageData K V)

/-- Only the page that is written changes. -/
@[simp] theorem write_next : (P.write p x).next = P.next := rfl
theorem write_mem : (P.write p x).mem = Function.update P.mem p x := rfl
/-- A deleted page is remembered as such; its contents are not looked at any more. -/
@[simp] theorem write_deleted : (P.write p x).deleted = P.deleted := rfl
@[simp] theorem delete_next : (P.delete p).next = P.next := rfl
@[simp] theorem delete_mem : (P.delete p).mem = P.mem := rfl
@[simp] theorem delete_deleted : (P.delete p).deleted = p :: P.deleted := rfl

@[simp] theorem created_write : (P.write p x).Created ids q ↔ P.Created ids q := Iff.rfl
@[simp] theorem created_delete : (P.delete p).Created ids q ↔ P.Created ids q := Iff.rfl

/-- `Q` has the pages of `P`, and forgot at most some deletions. -/
structure Covers (P Q : Pages K V) : Prop where
  next : Q.next = P.next
  mem : Q.mem = P.mem
  deleted : ∀ p ∈ Q.deleted, p ∈ P.deleted

/-- A store covers itself. -/
theorem Covers.refl (P : Pages K V) : P.Covers P := ⟨rfl, rfl, fun _ h => h⟩

end Pages

/-! ## Reading pages -/

namespace HashTableType

variable {K V : Type} [Inhabited K] [Inhabited V] (T : HashTableType K V)

/-- Page `p`, read as a directory. -/
def directoryAt (P : Pages K V) (p : PageId) : HashTableDirectoryPage := T.asDirectory (P.mem p)

/-- Page `p`, read as a bucket. -/
def bucketAt (P : Pages K V) (p : PageId) : HashTableBucketPage K V := T.asBucket (P.mem p)

variable {T} {P : Pages K V} {p q : PageId} {x : PageData K V} {ids : ℕ → PageId}

@[simp] theorem asDirectory_mem : T.asDirectory (P.mem p) = T.directoryAt P p := rfl
@[simp] theorem asBucket_mem : T.asBucket (P.mem p) = T.bucketAt P p := rfl

/-- What was written as a directory is read as that directory. -/
@[simp] theorem directoryAt_write_self {d : HashTableDirectoryPage} :
    T.directoryAt (P.write p (.directory d)) p = d := by
  show T.asDirectory (Function.update P.mem p (.directory d) p) = d
  rw [Function.update_self]
  rfl

/-- What was written as a bucket is read as that bucket. -/
@[simp] theorem bucketAt_write_self {c : HashTableBucketPage K V} :
    T.bucketAt (P.write p (.bucket c)) p = c := by
  show T.asBucket (Function.update P.mem p (.bucket c) p) = c
  rw [Function.update_self]
  rfl

/-- A write to another page does not reach the directory. -/
theorem directoryAt_write_of_ne (h : q ≠ p) : T.directoryAt (P.write p x) q = T.directoryAt P q :=
  congrArg T.asDirectory (Function.update_of_ne h ..)

/-- Nor does it reach a bucket. -/
theorem bucketAt_write_of_ne (h : q ≠ p) : T.bucketAt (P.write p x) q = T.bucketAt P q :=
  congrArg T.asBucket (Function.update_of_ne h ..)

@[simp] theorem directoryAt_delete : T.directoryAt (P.delete p) q = T.directoryAt P q := rfl
@[simp] theorem bucketAt_delete : T.bucketAt (P.delete p) q = T.bucketAt P q := rfl

/-- A new page, read as a bucket, is the empty one. -/
@[simp] theorem bucketAt_create_self :
    T.bucketAt (P.create ids) (ids P.next) = HashTableBucketPage.zeroed := by
  show T.asBucket (Function.update P.mem (ids P.next) 0 (ids P.next)) = _
  rw [Function.update_self]
  rfl

/-- Read as a directory, it is the one with a single entry of depth 0, which names page 0. -/
@[simp] theorem directoryAt_create_self :
    T.directoryAt (P.create ids) (ids P.next) = HashTableDirectoryPage.zeroed := by
  show T.asDirectory (Function.update P.mem (ids P.next) 0 (ids P.next)) = _
  rw [Function.update_self]
  rfl

/-- Creating a page leaves the directory alone. -/
theorem directoryAt_create_of_ne (h : q ≠ ids P.next) :
    T.directoryAt (P.create ids) q = T.directoryAt P q :=
  congrArg T.asDirectory (Function.update_of_ne h ..)

/-- Creating a page leaves the buckets alone. -/
theorem bucketAt_create_of_ne (h : q ≠ ids P.next) :
    T.bucketAt (P.create ids) q = T.bucketAt P q :=
  congrArg T.asBucket (Function.update_of_ne h ..)

/-- A store that covers another one shows the same directory. -/
theorem directoryAt_covers {Q : Pages K V} (h : P.Covers Q) (p : PageId) :
    T.directoryAt Q p = T.directoryAt P p := by
  unfold directoryAt
  rw [h.mem]

/-- And the same buckets. -/
theorem bucketAt_covers {Q : Pages K V} (h : P.Covers Q) (p : PageId) : T.bucketAt Q p = T.bucketAt P p := by
  unfold bucketAt
  rw [h.mem]

end HashTableType

/-! ## The stores -/

/-- The ideal store's state, with the pointer variables of the running method. -/
structure IdealStore (K V : Type) where
  pages : Pages K V
  ptr : PtrVar → Option PageId

/-- A pin that is held. -/
structure Hold where
  token : ℕ
  page : PageId
  wrote : Bool
  deriving DecidableEq, Repr

/-- The checked store's state. -/
structure CheckedStore (K V : Type) where
  pages : Pages K V
  ptr : PtrVar → Option ℕ
  holds : List Hold
  tokens : ℕ

section stores

variable {K V : Type} (ids : ℕ → PageId)

/-- The ideal store. -/
def idealMachine : Machine (Cmd.Res (K := K) (V := V)) Fault (IdealStore K V)
  | .newPage v, s =>
    .ok (some (ids s.pages.next), ⟨s.pages.create ids, Function.update s.ptr v (some (ids s.pages.next))⟩)
  | .fetchPage v p, s => .ok (true, { s with ptr := Function.update s.ptr v (some p) })
  | .unpinPage _ _, s => .ok (true, s)
  | .deletePage p, s => .ok (true, { s with pages := s.pages.delete p })
  | .load v, s =>
    match s.ptr v with
    | none => .error .nullPointer
    | some p => .ok (s.pages.mem p, s)
  | .store v x, s =>
    match s.ptr v with
    | none => .error .nullPointer
    | some p => .ok ((), { s with pages := s.pages.write p x })
  | .latch _, s => .ok ((), s)

/-- The pin that variable `v` points through, while it is held. -/
def CheckedStore.holdOf (s : CheckedStore K V) (v : PtrVar) : Except Fault Hold :=
  match s.ptr v with
  | none => .error .nullPointer
  | some t =>
    match s.holds.find? (fun k => k.token = t) with
    | none => .error .danglingPointer
    | some k => .ok k

/-- Remember a change through pin `k`. -/
def markWrote (k h : Hold) : Hold := if h.token = k.token then { h with wrote := true } else h

/-- The checked store, with at most `cap` pins at a time. -/
def checkedMachine (cap : ℕ) : Machine (Cmd.Res (K := K) (V := V)) Fault (CheckedStore K V)
  | .newPage v, s =>
    if s.holds.length < cap then
      .ok (some (ids s.pages.next),
        { pages := s.pages.create ids
          ptr := Function.update s.ptr v (some s.tokens)
          holds := ⟨s.tokens, ids s.pages.next, false⟩ :: s.holds
          tokens := s.tokens + 1 })
    else .error .pinDiscipline
  | .fetchPage v p, s =>
    if s.holds.length < cap ∧ s.pages.Created ids p then
      .ok (true,
        { pages := s.pages
          ptr := Function.update s.ptr v (some s.tokens)
          holds := ⟨s.tokens, p, false⟩ :: s.holds
          tokens := s.tokens + 1 })
    else .error .pinDiscipline
  | .unpinPage p d, s =>
    match s.holds.find? (fun k => k.page = p) with
    | none => .error .pinDiscipline
    | some k =>
      if k.wrote = true ∧ d = false then .error .pinDiscipline
      else .ok (true, { s with holds := s.holds.erase k })
  | .deletePage p, s =>
    if ∃ k ∈ s.holds, k.page = p then .error .pinDiscipline
    else .ok (true, { s with pages := s.pages.delete p })
  | .load v, s =>
    match s.holdOf v with
    | .error e => .error e
    | .ok k => .ok (s.pages.mem k.page, s)
  | .store v x, s =>
    match s.holdOf v with
    | .error e => .error e
    | .ok k => .ok ((), { s with
        pages := s.pages.write k.page x
        holds := s.holds.map (markWrote k) })
  | .latch _, s => .ok ((), s)

end stores

/-! ## Running one command -/

namespace TableProg

variable {K V σ : Type} {M : Machine (Cmd.Res (K := K) (V := V)) Fault σ} {s : σ}

@[simp] theorem run_newPage (v : PtrVar) : run M (newPage v) s = M (.newPage v) s := run_call _ s

@[simp] theorem run_fetchPage (v : PtrVar) (p : PageId) : run M (fetchPage v p) s = M (.fetchPage v p) s :=
  run_call _ s

@[simp] theorem run_unpinPage (p : PageId) (d : Bool) : run M (unpinPage p d) s = M (.unpinPage p d) s :=
  run_call _ s

@[simp] theorem run_deletePage (p : PageId) : run M (deletePage p) s = M (.deletePage p) s := run_call _ s

@[simp] theorem run_load (v : PtrVar) : run M (load v) s = M (.load v) s := run_call _ s

@[simp] theorem run_store (v : PtrVar) (x : PageData K V) : run M (store v x) s = M (.store v x) s :=
  run_call _ s

@[simp] theorem run_latch (l : LatchOp) : run M (latch l) s = M (.latch l) s := run_call _ s

/-- A check that goes through leaves the store as it is. -/
@[simp] theorem run_check_ok {α : Type} (a : α) : run M (check (.ok a)) s = .ok (a, s) := rfl

end TableProg

end BusTub
