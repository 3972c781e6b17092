/-
  The seats of concurrent callers.

  1. **`Grip`** is what a caller with the table latch has: every pin of its view is where its variables say.

  2. **`Accounted`**: every pin of the pool belongs to a caller's view, the views agree with the table latch,
     and the pages are laid out unless a writer is at work on them.

  3. **One caller changes its seat** (`Accounted.change`): this is how every act is dealt with.  Here it is done
     for the beginning of a job and for the latches.
-/
import BusTub.Table.Views
import Mathlib.Algebra.BigOperators.Group.Finset.Basic

set_option linter.unusedSectionVars false

namespace BusTub

open Command HashPartition BufferPoolManagerInstance

/-! ## One command of a view -/

section commands

variable {K V : Type} {ids : ℕ → PageId} {cap : ℕ} {dirId : PageId} {c : Cmd K V} {r : Cmd.Res c}
  {s s' : CheckedStore K V}

/-- The checked store never holds more pins than it may. -/
theorem checked_holds_le (hrun : checkedMachine ids cap c s = .ok (r, s')) (hle : s.holds.length ≤ cap) :
    s'.holds.length ≤ cap := by
  cases c with
  | newPage v =>
    obtain ⟨hlt, -, rfl⟩ := newPage_ok hrun
    exact hlt
  | fetchPage v p =>
    obtain ⟨hlt, -, -, rfl⟩ := fetchPage_ok hrun
    exact hlt
  | unpinPage p d =>
    obtain ⟨k, -, -, -, -, rfl⟩ := unpinPage_ok hrun
    exact (List.length_erase_le ..).trans hle
  | deletePage p =>
    obtain ⟨-, -, rfl⟩ := deletePage_ok hrun
    exact hle
  | load v =>
    obtain ⟨k, -, -, -, rfl⟩ := load_ok hrun
    exact hle
  | store v x =>
    obtain ⟨k, -, -, rfl⟩ := store_ok hrun
    exact (List.length_map ..).trans_le hle
  | latch l =>
    cases hrun
    exact hle

/-- A reader's command leaves the directory alone, and which pages there are. -/
theorem gentle_rely (hgentle : Gentle dirId s c) (hrun : checkedMachine ids cap c s = .ok (r, s')) :
    Rely dirId .shared s.pages s'.pages := by
  cases c with
  | newPage v => exact absurd hgentle id
  | deletePage p => exact absurd hgentle id
  | fetchPage v p =>
    obtain ⟨-, -, -, rfl⟩ := fetchPage_ok hrun
    exact .refl ..
  | unpinPage p d =>
    obtain ⟨k, -, -, -, -, rfl⟩ := unpinPage_ok hrun
    exact .refl ..
  | load v =>
    obtain ⟨k, -, -, -, rfl⟩ := load_ok hrun
    exact .refl ..
  | latch l =>
    cases hrun
    exact .refl ..
  | store v x =>
    simp only [checkedMachine] at hrun
    split at hrun
    · cases hrun
    · next k hk =>
      cases hrun
      exact ⟨rfl, rfl, Function.update_of_ne (hgentle k hk).symm ..⟩

/-- A reader has no page but the directory and one other. -/
theorem gentle_two (hgentle : Gentle dirId s c) (hrun : checkedMachine ids cap c s = .ok (r, s'))
    (htwo : ∃ q, ∀ k ∈ s.holds, k.page = dirId ∨ k.page = q) : ∃ q, ∀ k ∈ s'.holds, k.page = dirId ∨ k.page = q := by
  obtain ⟨q, hq⟩ := htwo
  cases c with
  | newPage v => exact absurd hgentle id
  | deletePage p => exact absurd hgentle id
  | fetchPage v p =>
    obtain ⟨-, -, -, rfl⟩ := fetchPage_ok hrun
    refine ⟨p, fun k hk => ?_⟩
    rcases List.mem_cons.mp hk with rfl | hk
    · exact .inr rfl
    · exact .inl (hgentle k hk)
  | unpinPage p d =>
    obtain ⟨k, -, -, -, -, rfl⟩ := unpinPage_ok hrun
    exact ⟨q, fun k hk => hq k (List.mem_of_mem_erase hk)⟩
  | load v =>
    obtain ⟨k, -, -, -, rfl⟩ := load_ok hrun
    exact ⟨q, hq⟩
  | latch l =>
    cases hrun
    exact ⟨q, hq⟩
  | store v x =>
    obtain ⟨k, -, -, rfl⟩ := store_ok hrun
    refine ⟨q, fun k' hk' => ?_⟩
    obtain ⟨k₀, hk₀, rfl⟩ := List.mem_map.mp hk'
    rw [markWrote_page]
    exact hq k₀ hk₀

/-- The ideal store's variables are the pages that they were made to point to. -/
theorem ideal_ptr {t t' : IdealStore K V} (hrun : idealMachine ids c t = .ok (r, t')) :
    t'.ptr = c.pageAfter t.ptr r := by
  cases c with
  | newPage v =>
    cases hrun
    rfl
  | fetchPage v p =>
    cases hrun
    rfl
  | unpinPage p d =>
    cases hrun
    rfl
  | deletePage p =>
    cases hrun
    rfl
  | latch l =>
    cases hrun
    rfl
  | load v =>
    simp only [idealMachine] at hrun
    split at hrun
    · cases hrun
    · cases hrun
      rfl
  | store v x =>
    simp only [idealMachine] at hrun
    split at hrun
    · cases hrun
    · cases hrun
      rfl

/-- What a pointer variable is mapped to is the latch of a page. -/
theorem page_of_map {frame : Option FrameId} {x : Latch} (h : frame.map Latch.page = some x) : ∃ f, x = .page f := by
  obtain ⟨f, -, rfl⟩ := Option.map_eq_some_iff.mp h
  exact ⟨f, rfl⟩

theorem LatchOp.Takes.onPage {l : LatchOp} {ptr : PtrVar → Option FrameId} {x : Latch} (h : l.Takes)
    (hlatch : l.latch ptr = some x) : ∃ f, x = .page f := by
  cases h with
  | shared | exclusive => exact page_of_map hlatch

theorem LatchOp.Gives.onPage {l : LatchOp} {ptr : PtrVar → Option FrameId} {x : Latch} (h : l.Gives)
    (hlatch : l.latch ptr = some x) : ∃ f, x = .page f := by
  cases h with
  | shared | exclusive => exact page_of_map hlatch

end commands

/-! ## One caller -/

section grip

variable {K V : Type}

/-- The pins of a view. -/
def View.holds : View K V → List Hold
  | .inside _ s => s.holds
  | _ => []

/-- How a view has the table latch. -/
def View.mode : View K V → Option Mode
  | .inside m _ => some m
  | _ => none

theorem View.holds_eq_nil {v : View K V} (h : v.mode = none) : v.holds = [] := by
  cases v with
  | inside m s => cases h
  | _ => rfl

/-- **A caller with the table latch**, whose tokens stand for the frames `frameOf`. -/
structure Grip (dirId : PageId) (P : Pages K V) (frameOf : ℕ → FrameId) (ptr : PtrVar → Option FrameId)
    (page : PtrVar → Option PageId) (m : Mode) (s : CheckedStore K V) : Prop where
  rely : Rely dirId m s.pages P
  fresh : ∀ k ∈ s.holds, k.token < s.tokens
  nodup : (s.holds.map Hold.token).Nodup
  ptr_fresh : ∀ v n, s.ptr v = some n → n < s.tokens
  ptr : ∀ v n, s.ptr v = some n → ptr v = some (frameOf n)
  page : ∀ v, ∀ k ∈ s.holds, s.ptr v = some k.token → page v = some k.page
  few : s.holds.length ≤ 3
  two : m = .shared → ∃ q, ∀ k ∈ s.holds, k.page = dirId ∨ k.page = q

variable {dirId : PageId} {P P' : Pages K V} {frameOf : ℕ → FrameId} {ptr : PtrVar → Option FrameId}
  {page : PtrVar → Option PageId} {m : Mode} {s s' : CheckedStore K V}

theorem Grip.mono (h : Grip dirId P frameOf ptr page m s) (hP : Rely dirId m P P') :
    Grip dirId P' frameOf ptr page m s :=
  { h with rely := h.rely.trans hP }

theorem Grip.entered (dirId : PageId) (P : Pages K V) (frameOf : ℕ → FrameId) (ptr : PtrVar → Option FrameId)
    (page : PtrVar → Option PageId) (m : Mode) : Grip dirId P frameOf ptr page m (entered P) where
  rely := .refl ..
  fresh k hk := by cases hk
  nodup := List.nodup_nil
  ptr_fresh v n hn := by cases hn
  ptr v n hn := by cases hn
  page v k hk := by cases hk
  few := Nat.zero_le 3
  two _ := ⟨dirId, fun k hk => by cases hk⟩

theorem Grip.carried {Disk : Type} [DiskManager Disk (PageData K V)] [LawfulDiskManager Disk] {cfg : PoolConfig}
    {others : List Pin} {pool : BufferPoolManagerInstance Disk (PageData K V)}
    (h : Grip dirId P frameOf ptr page m s) (hbacks : Backs cfg P (s.holds.map (pinOf frameOf) ++ others) pool) :
    CarriedWith cfg frameOf others { s with pages := P } ⟨pool, ptr⟩ :=
  ⟨hbacks, h.fresh, h.nodup, h.ptr_fresh, h.ptr⟩

/-- A command of a caller with the table latch. -/
theorem Grip.access {Disk : Type} [DiskManager Disk (PageData K V)] [LawfulDiskManager Disk] {cfg : PoolConfig}
    {others : List Pin} {c : Cmd K V} {r : Cmd.Res c} {frameOf' : ℕ → FrameId} {t : PoolStore Disk K V}
    (h : Grip dirId P frameOf ptr page m s) (hgentle : m = .shared → Gentle dirId s c)
    (hrun : checkedMachine cfg.idAt 3 c { s with pages := P } = .ok (r, s'))
    (ht : CarriedWith cfg frameOf' others s' t) : Grip dirId s'.pages frameOf' t.ptr (c.pageAfter page r) m s' where
  rely := .refl ..
  fresh := ht.fresh
  nodup := ht.nodup
  ptr_fresh := ht.ptr_fresh
  ptr := ht.ptr
  page := by
    have hmatch : Matches { s with pages := P } (⟨P, page⟩ : IdealStore K V) :=
      ⟨.refl P, h.fresh, h.ptr_fresh, h.page⟩
    obtain ⟨t', hideal, hmatch'⟩ := hmatch.step c _ _ r s' hrun
    have hptr := hmatch'.ptr
    rwa [ideal_ptr hideal] at hptr
  few := checked_holds_le hrun h.few
  two hm := by
    have hgentle' : Gentle dirId { s with pages := P } c := by
      have hg := hgentle hm
      cases c <;> exact hg
    exact gentle_two hgentle' hrun (h.two hm)

end grip

/-! ## All callers -/

/-- What a caller sees, and the frames that its tokens stand for. -/
structure Seat (K V : Type) where
  view : View K V
  frameOf : ℕ → FrameId

/-- The pins of a caller. -/
def Seat.pins {K V : Type} (x : Seat K V) : List Pin := x.view.holds.map (pinOf x.frameOf)

section pins

variable {ι K V : Type} [DecidableEq ι] [Fintype ι] (seat : ι → Seat K V) (i : ι)

/-- The pins of all callers. -/
noncomputable def allPins : List Pin := (∑ i, ((seat i).pins : Multiset Pin)).toList

/-- The pins of all callers but one. -/
noncomputable def otherPins : List Pin := (∑ j ∈ Finset.univ.erase i, ((seat j).pins : Multiset Pin)).toList

theorem allPins_perm : (allPins seat).Perm ((seat i).pins ++ otherPins seat i) := by
  rw [← Multiset.coe_eq_coe, ← Multiset.coe_add, allPins, otherPins, Multiset.coe_toList, Multiset.coe_toList]
  exact (Finset.add_sum_erase _ _ (Finset.mem_univ i)).symm

theorem otherPins_update (x : Seat K V) : otherPins (Function.update seat i x) i = otherPins seat i := by
  refine congrArg Multiset.toList (Finset.sum_congr rfl fun j hj => ?_)
  rw [Function.update_of_ne (Finset.ne_of_mem_erase hj)]

theorem mem_allPins {k : Pin} : k ∈ allPins seat ↔ ∃ i, k ∈ (seat i).pins := by
  simp [allPins, Multiset.mem_sum]

theorem mem_otherPins {k : Pin} : k ∈ otherPins seat i ↔ ∃ j ≠ i, k ∈ (seat j).pins := by
  simp [otherPins, Multiset.mem_sum]

end pins

namespace HashTableType

variable {ι Disk K V : Type} [DecidableEq ι] [Fintype ι] [DiskManager Disk (PageData K V)]
variable [Inhabited K] [Inhabited V] [DecidableEq K] [DecidableEq V]

/-- What a seat says is so of its caller. -/
structure Seated (T : HashTableType K V) (cfg : PoolConfig) (dirId : PageId) (w : World ι Disk K V)
    (P : Pages K V) (i : ι) (x : Seat K V) : Prop where
  alive : x.view ≠ .dead
  idle : w.prog i = none → x.view = .out
  rules : ∀ p, w.prog i = some p → T.KeepsRules cfg.idAt dirId p x.view
  grip : ∀ m s, x.view = .inside m s → Grip dirId P x.frameOf (w.ptr i) (w.page i) m s
  table : w.held .table i = x.view.mode

/-- **The pins of the pool are those of its callers**, who have the table latch as their views say. -/
structure Accounted [LawfulDiskManager Disk] (T : HashTableType K V) (cfg : PoolConfig) (dirId : PageId)
    (w : World ι Disk K V) (P : Pages K V) (seat : ι → Seat K V) : Prop where
  backs : Backs cfg P (allPins seat) w.pool
  count : cfg.idAt P.next < 2 ^ 31
  seated : ∀ i, T.Seated cfg dirId w P i (seat i)
  alone : ∀ i, (seat i).view.mode = some .exclusive → ∀ j, j ≠ i → (seat j).view.mode = none
  layout : (∀ i, (seat i).view.mode ≠ some .exclusive) → ∃ A, T.Layout cfg.idAt P dirId A

variable {T : HashTableType K V} {cfg : PoolConfig} {dirId : PageId} {w w' : World ι Disk K V} {P P' : Pages K V}
  {seat : ι → Seat K V} {i : ι} {x : Seat K V} {e : Act ι K V}

/-- A caller that did nothing sits where it sat. -/
theorem Seated.same (h : T.Seated cfg dirId w P i x) (hsame : SameCaller w w' i)
    (hrely : ∀ m, x.view.mode = some m → Rely dirId m P P') : T.Seated cfg dirId w' P' i x where
  alive := h.alive
  idle hprog := h.idle (hsame.prog ▸ hprog)
  rules p hprog := h.rules p (hsame.prog ▸ hprog)
  grip m s hview := by
    rw [hsame.ptr, hsame.page]
    exact (h.grip m s hview).mono (hrely m (by rw [hview]; rfl))
  table := (hsame.held _).trans h.table

/-- A caller in the middle of a job. -/
theorem Seated.busy {p : JobProg K V} (hprog : w.prog i = some p) (halive : x.view ≠ .dead)
    (hrules : T.KeepsRules cfg.idAt dirId p x.view)
    (hgrip : ∀ m s, x.view = .inside m s → Grip dirId P x.frameOf (w.ptr i) (w.page i) m s)
    (htable : w.held .table i = x.view.mode) : T.Seated cfg dirId w P i x where
  alive := halive
  idle hno := by
    rw [hprog] at hno
    cases hno
  rules p' hp' := by
    obtain rfl : p = p' := Option.some.inj (hprog.symm.trans hp')
    exact hrules
  grip := hgrip
  table := htable

/-- A layout says nothing of what the buckets hold. -/
theorem Layout.rely {ids : ℕ → PageId} {A : HashPartition.Partition PageId} (h : T.Layout ids P dirId A)
    (hP : Rely dirId .shared P P') : T.Layout ids P' dirId A :=
  h.grow (Nat.le_of_eq hP.1.symm) (fun _ hp => hP.2.1 ▸ hp) hP.2.2

/-- After a null page only a failure is left. -/
theorem dead_fails {ids : ℕ → PageId} {α : Type} {p : TableProg K V α} (h : T.KeepsRules ids dirId p .dead) :
    ∃ e, p = .fail e := by
  cases p with
  | ret a => cases h
  | fail e => exact ⟨e, rfl⟩
  | cmd c k =>
    obtain ⟨hmay, -⟩ := h
    cases hmay

variable [LawfulDiskManager Disk]

namespace Accounted

/-- **One caller changes its seat.** -/
theorem change (h : Accounted T cfg dirId w P seat) (hsame : ∀ j, j ≠ i → SameCaller w w' j)
    (hbacks : Backs cfg P' (x.pins ++ otherPins seat i) w'.pool) (hcount : cfg.idAt P'.next < 2 ^ 31)
    (hrely : ∀ j, j ≠ i → ∀ m, (seat j).view.mode = some m → Rely dirId m P P')
    (hseated : T.Seated cfg dirId w' P' i x)
    (halone : ∀ j, j ≠ i → (x.view.mode = some .exclusive → (seat j).view.mode = none) ∧
      ((seat j).view.mode = some .exclusive → x.view.mode = none))
    (hlayout : x.view.mode ≠ some .exclusive → (∀ j, j ≠ i → (seat j).view.mode ≠ some .exclusive) →
      ∃ A, T.Layout cfg.idAt P' dirId A) : Accounted T cfg dirId w' P' (Function.update seat i x) := by
  have hself : Function.update seat i x i = x := Function.update_self ..
  have hother : ∀ j, j ≠ i → Function.update seat i x j = seat j := fun j hj => Function.update_of_ne hj ..
  refine ⟨hbacks.perm ?_, hcount, fun j => ?_, fun j hj k hk => ?_, fun hno => ?_⟩
  · have hperm := allPins_perm (Function.update seat i x) i
    rw [hself, otherPins_update] at hperm
    exact hperm.symm
  · by_cases hji : j = i
    · subst hji
      rw [hself]
      exact hseated
    · rw [hother j hji]
      exact (h.seated j).same (hsame j hji) (hrely j hji)
  · by_cases hji : j = i
    · subst hji
      rw [hself] at hj
      rw [hother k hk]
      exact (halone k hk).1 hj
    · rw [hother j hji] at hj
      by_cases hki : k = i
      · subst hki
        rw [hself]
        exact (halone j hji).2 hj
      · rw [hother k hki]
        exact h.alone j hj k hk
  · refine hlayout (hself ▸ hno i) fun j hj => ?_
    have hnoj := hno j
    rwa [hother j hj] at hnoj

/-- A caller comes to a seat without pins, as far from the table latch as before or further. -/
theorem leave (h : Accounted T cfg dirId w P seat) (hsame : ∀ j, j ≠ i → SameCaller w w' j) (hpool : w'.pool = w.pool)
    (hpins : (seat i).pins = []) (hnone : x.view.mode = none) (hseated : T.Seated cfg dirId w' P i x)
    (hlayout : (seat i).view.mode = some .exclusive → ∃ A, T.Layout cfg.idAt P dirId A) :
    Accounted T cfg dirId w' P (Function.update seat i x) := by
  refine h.change hsame ?_ h.count (fun j hj m hm => .refl ..) hseated (fun j hj => ⟨fun he => ?_, fun _ => hnone⟩)
    fun hno hothers => ?_
  · rw [hpool, Seat.pins, View.holds_eq_nil hnone]
    have hperm := allPins_perm seat i
    rw [hpins] at hperm
    exact h.backs.perm hperm
  · rw [hnone] at he
    cases he
  · by_cases hi : (seat i).view.mode = some .exclusive
    · exact hlayout hi
    · refine h.layout fun j => ?_
      by_cases hj : j = i
      · exact hj ▸ hi
      · exact hothers j hj

/-- A caller between its jobs begins the next one. -/
theorem start (h : Accounted T cfg dirId w P seat) (hnone : (seat i).view.mode = none) (y : Job K V) :
    ∃ seat', Accounted T cfg dirId (w.start i (T.jobProg .debug dirId y)) P seat' := by
  have hseated : T.Seated cfg dirId (w.start i (T.jobProg .debug dirId y)) P i ⟨.out, fun _ => 0⟩ :=
    .busy (w.start_prog i _) nofun (job_views cfg.idAt_injective y) nofun ((h.seated i).table.trans hnone)
  refine ⟨_, h.leave (fun j hj => ⟨Function.update_of_ne hj .., Function.update_of_ne hj ..,
    Function.update_of_ne hj .., fun _ => rfl⟩) rfl ?_ rfl hseated fun he => ?_⟩
  · rw [Seat.pins, View.holds_eq_nil hnone]
    rfl
  · rw [hnone] at he
    cases he

/-- A call returns. -/
theorem finish (h : Accounted T cfg dirId w P seat) (hnone : (seat i).view.mode = none) :
    ∃ seat', Accounted T cfg dirId (w.goOn i none) P seat' := by
  have hseated : T.Seated cfg dirId (w.goOn i none) P i ⟨.out, fun _ => 0⟩ := by
    refine ⟨nofun, fun _ => rfl, fun p hp => ?_, nofun, (h.seated i).table.trans hnone⟩
    rw [w.goOn_prog] at hp
    cases hp
  refine ⟨_, h.leave (fun j hj => ⟨Function.update_of_ne hj .., rfl, rfl, fun _ => rfl⟩) rfl ?_ rfl hseated fun he => ?_⟩
  · rw [Seat.pins, View.holds_eq_nil hnone]
    rfl
  · rw [hnone] at he
    cases he

/-- As long as the pins are accounted for, the process runs. -/
theorem not_aborted (h : Accounted T cfg dirId w P seat) : ¬ w.Aborted := by
  rintro ⟨i, hi⟩
  cases hprog : w.prog i with
  | none =>
    rw [hprog] at hi
    cases hi
  | some p =>
    have hrules := (h.seated i).rules p hprog
    rw [hprog] at hi
    cases p with
    | fail e => exact (h.seated i).alive hrules
    | _ => cases hi

/-- What a caller may do at its seat. -/
theorem may (h : Accounted T cfg dirId w P seat) {c : Cmd K V} {k : Cmd.Res c → JobProg K V}
    (hprog : w.prog i = some (.cmd c k)) : View.May T cfg.idAt dirId c (seat i).view :=
  ((h.seated i).rules _ hprog).1

/-! ### Latches -/

/-- A caller gets the table latch. -/
theorem enter (h : Accounted T cfg dirId w P seat) (hview : (seat i).view = .out) {m : Mode}
    (hgrants : w.Grants .table m) {p : JobProg K V}
    (hsame : ∀ j, j ≠ i → SameCaller w ((w.hold i .table (some m)).goOn i (some p)) j)
    (hrules : ∀ A, T.Layout cfg.idAt P dirId A → T.KeepsRules cfg.idAt dirId p (.inside m (entered P))) :
    ∃ seat', Accounted T cfg dirId ((w.hold i .table (some m)).goOn i (some p)) P seat' := by
  have hnoWriter : ∀ j, (seat j).view.mode ≠ some .exclusive := by
    intro j hj
    rw [← (h.seated j).table] at hj
    cases m with
    | shared => exact hgrants j hj
    | exclusive =>
      rw [hgrants j] at hj
      cases hj
  obtain ⟨A, hA⟩ := h.layout hnoWriter
  have hseated : T.Seated cfg dirId ((w.hold i .table (some m)).goOn i (some p)) P i
      ⟨.inside m (entered P), fun _ => 0⟩ := by
    refine .busy (World.goOn_prog ..) nofun (hrules A hA) (fun m' s hs => ?_) ?_
    · cases hs
      exact Grip.entered ..
    · exact (w.hold_held i .table (some m) .table i).trans (if_pos ⟨rfl, rfl⟩)
  refine ⟨_, h.change hsame ?_ h.count (fun j hj m' hm => .refl ..) hseated
    (fun j hj => ⟨fun he => ?_, fun he => absurd he (hnoWriter j)⟩) fun _ _ => ⟨A, hA⟩⟩
  · have hperm := allPins_perm seat i
    rw [show (seat i).pins = [] by rw [Seat.pins, hview]; rfl] at hperm
    exact h.backs.perm hperm
  · obtain rfl : m = .exclusive := Option.some.inj he
    rw [← (h.seated j).table]
    exact hgrants j

/-- A caller takes a page latch or gives it back, and keeps its seat. -/
theorem stay (h : Accounted T cfg dirId w P seat) {f : FrameId} {m' : Option Mode} {p : JobProg K V}
    (hsame : ∀ j, j ≠ i → SameCaller w ((w.hold i (.page f) m').goOn i (some p)) j)
    (hrules : T.KeepsRules cfg.idAt dirId p (seat i).view) :
    ∃ seat', Accounted T cfg dirId ((w.hold i (.page f) m').goOn i (some p)) P seat' := by
  have hseated : T.Seated cfg dirId ((w.hold i (.page f) m').goOn i (some p)) P i (seat i) := by
    refine .busy (World.goOn_prog ..) (h.seated i).alive hrules (h.seated i).grip ?_
    exact ((w.hold_held i (.page f) m' .table i).trans (if_neg nofun)).trans (h.seated i).table
  refine ⟨_, h.change hsame (h.backs.perm (allPins_perm seat i)) h.count (fun j hj m hm => .refl ..) hseated
    (fun j hj => ⟨fun he => h.alone i he j hj, fun he => h.alone j he i (Ne.symm hj)⟩) fun hno hothers => ?_⟩
  apply h.layout
  intro j
  by_cases hj : j = i
  · exact hj ▸ hno
  · exact hothers j hj

/-- A caller gives the table latch back. -/
theorem exit (h : Accounted T cfg dirId w P seat) {m : Mode} {s : CheckedStore K V} {p : JobProg K V}
    (hview : (seat i).view = .inside m s)
    (hsame : ∀ j, j ≠ i → SameCaller w ((w.hold i .table none).goOn i (some p)) j) (hnone : s.holds = [])
    (hrules : T.KeepsRules cfg.idAt dirId p .done) (hlayout : m = .exclusive → ∃ A, T.Layout cfg.idAt P dirId A) :
    ∃ seat', Accounted T cfg dirId ((w.hold i .table none).goOn i (some p)) P seat' := by
  have hseated : T.Seated cfg dirId ((w.hold i .table none).goOn i (some p)) P i ⟨.done, fun _ => 0⟩ := by
    refine .busy (World.goOn_prog ..) nofun hrules nofun ?_
    exact (w.hold_held i .table none .table i).trans (if_pos ⟨rfl, rfl⟩)
  refine ⟨_, h.leave hsame rfl ?_ rfl hseated fun he => ?_⟩
  · rw [Seat.pins, hview]
    show s.holds.map _ = []
    rw [hnone]
    rfl
  · rw [hview] at he
    exact hlayout (Option.some.inj he)

/-- An operation on a latch. -/
theorem latch (h : Accounted T cfg dirId w P seat) {l : LatchOp} {k : Unit → JobProg K V} {y : Latch}
    (hprog : w.prog i = some (.cmd (.latch l) k)) (hlatch : l.latch (w.ptr i) = some y)
    (hgrants : ∀ m, l.mode = some m → w.Grants y m)
    (hsame : ∀ j, j ≠ i → SameCaller w ((w.hold i y l.mode).goOn i (some (k ()))) j) :
    ∃ seat', Accounted T cfg dirId ((w.hold i y l.mode).goOn i (some (k ()))) P seat' := by
  have hmay := h.may hprog
  have hrules := ((h.seated i).rules _ hprog).2
  cases hview : (seat i).view with
  | out =>
    rw [hview] at hmay hrules
    cases hmay with
    | tableRLock =>
      cases hlatch
      exact h.enter hview (hgrants _ rfl) hsame fun A hA => hrules () _ (.tableRLock hA)
    | tableWLock =>
      cases hlatch
      exact h.enter hview (hgrants _ rfl) hsame fun A hA => hrules () _ (.tableWLock hA)
  | inside m s =>
    rw [hview] at hmay hrules
    cases hmay with
    | tableRUnlock hnone =>
      cases hlatch
      exact h.exit hview hsame hnone (hrules () _ .tableRUnlock) nofun
    | @tableWUnlock _ A hnone hlayout =>
      cases hlatch
      obtain rfl : P = s.pages := ((h.seated i).grip _ s hview).rely
      exact h.exit hview hsame hnone (hrules () _ .tableWUnlock) fun _ => ⟨A, hlayout⟩
    | take hl hk =>
      have hnext := hrules () _ (.take hl)
      obtain ⟨f, rfl⟩ := hl.onPage hlatch
      exact h.stay hsame (hview ▸ hnext)
    | give hl hptr =>
      have hnext := hrules () _ (.give hl)
      obtain ⟨f, rfl⟩ := hl.onPage hlatch
      exact h.stay hsame (hview ▸ hnext)
    | access hc => exact absurd rfl (hc _)
  | done =>
    rw [hview] at hmay
    cases hmay
  | dead =>
    rw [hview] at hmay
    cases hmay

end Accounted

end HashTableType

end BusTub
