/-
  Threads in `ParallelBufferPoolManager::NewPgImp`, one access of `start_idx_` at a time.

  The method takes no latch.  It reads `start_idx_` when it enters the loop, once more for every test of the
  loop condition and once for the bump, and writes it at the end; between any two of these other threads run.

  1. **`advance`** is one such step of one thread; a `NewPage` call on an instance is one step as well, since the
     instance takes its own latch.  Each thread remembers the `start_idx_` it read first and the instances
     that it has called, with whether they gave a page.

  2. `nullptr_tried_all` — **the main result**: as long as every test of a call that has not been round yet finds
     `start_idx_` far enough on (`RoundAhead`), nullptr means that all instances were called and all were full.
     Where a test does not, the call ends with an instance left out.
-/
import BusTub.Buffer.Parallel
import Mathlib.Data.Fintype.Card

set_option linter.unusedSectionVars false

namespace BusTub

namespace ParallelBufferPoolManager

open BufferPoolManagerInstance (Call Return)

variable {cfg : ParallelConfig} {Disk Data ι : Type} [DiskManager Disk Data] [Zero Data] [DecidableEq ι]

/-- A `Page *`. -/
abbrev PagePtr (cfg : ParallelConfig) := Option (Fin cfg.numInstances × FrameId)

/-- What a thread does next in `NewPgImp`, with the local variables it still needs. -/
inductive Point (cfg : ParallelConfig) where
  | idle
  /-- Read `start_idx_` into `idx`. -/
  | entered
  /-- Read `start_idx_` for the test `idx < start_idx_ + num_instances_`. -/
  | testing (idx : Nat)
  /-- Call `NewPage` of `bpm_list_[idx % num_instances_]`. -/
  | calling (idx : Nat)
  /-- Read `start_idx_` for the bump. -/
  | leaving (my_page : PagePtr cfg)
  /-- Write the bumped `start_idx_`. -/
  | bumping (start_idx : Nat) (my_page : PagePtr cfg)
  | returned (my_page : PagePtr cfg)
  deriving DecidableEq

/-- A thread, with the history of its current call. -/
structure Thread (cfg : ParallelConfig) where
  point : Point cfg
  first : Nat
  tried : List (Fin cfg.numInstances × Bool)
  deriving DecidableEq

/-- A pool and the threads that use it. -/
structure Threads (cfg : ParallelConfig) (Disk Data ι : Type) where
  pool : ParallelBufferPoolManager cfg Disk Data
  thread : ι → Thread cfg

namespace Threads

/-- Assign the state of thread `t`. -/
def setThread (s : Threads cfg Disk Data ι) (t : ι) (x : Thread cfg) : Threads cfg Disk Data ι :=
  { s with thread := Function.update s.thread t x }

@[simp] theorem setThread_thread (s : Threads cfg Disk Data ι) (t : ι) (x : Thread cfg) :
    (s.setThread t x).thread = Function.update s.thread t x := rfl
@[simp] theorem setThread_pool (s : Threads cfg Disk Data ι) (t : ι) (x : Thread cfg) :
    (s.setThread t x).pool = s.pool := rfl

/-- **The next step of thread `t`.** -/
def advance (b : Build) (t : ι) (s : Threads cfg Disk Data ι) : Except Fault (Threads cfg Disk Data ι) :=
  let x := s.thread t
  match x.point with
  | .idle => .ok (s.setThread t { x with point := .entered, tried := [] })
  | .entered => .ok (s.setThread t { x with point := .testing s.pool.startIdx, first := s.pool.startIdx })
  | .testing idx =>
    if idx < (s.pool.startIdx + cfg.numInstances) % 2 ^ 32 then .ok (s.setThread t { x with point := .calling idx })
    else .ok (s.setThread t { x with point := .leaving none })
  | .calling idx => do
    let (ret, pool) ← s.pool.onInstance b (slot cfg idx) .newPg
    let s := { s with pool := pool }
    match ret with
    | .page (some my_page) _ =>
      .ok (s.setThread t { x with point := .leaving (some my_page), tried := x.tried ++ [(slot cfg idx, true)] })
    | _ =>
      .ok (s.setThread t
        { x with point := .testing ((idx + 1) % 2 ^ 32), tried := x.tried ++ [(slot cfg idx, false)] })
  | .leaving my_page => .ok (s.setThread t { x with point := .bumping s.pool.startIdx my_page })
  | .bumping start_idx my_page =>
    .ok { s.setThread t { x with point := .returned my_page } with
      pool := { s.pool with startIdx := (start_idx + 1) % 2 ^ 32 % cfg.numInstances } }
  | .returned _ => .ok (s.setThread t { x with point := .entered, tried := [] })

/-- A step of a run: one of a thread in `NewPgImp`, or a call that a thread in another method makes of an
    instance. -/
inductive Move (cfg : ParallelConfig) (ι : Type) where
  | newPg (t : ι)
  | other (i : Fin cfg.numInstances) (c : Call)

/-- **The runs**: any interleaving, from any state of the pool, whose steps meet `ok`. -/
def system (b : Build) (ok : Threads cfg Disk Data ι → Move cfg ι → Prop) :
    StepSystem (Threads cfg Disk Data ι) (Move cfg ι) where
  init s := ∀ t, (s.thread t).point = .idle
  step s e s' := ok s e ∧ match e with
    | .newPg t => s.advance b t = .ok s'
    | .other i c => ∃ ans pool, s.pool.onInstance b i c = .ok (ans, pool) ∧ s' = { s with pool := pool }

/-- If thread `t` tests its loop condition before it has called `num_instances_` instances, the test goes on. -/
def RoundAhead (s : Threads cfg Disk Data ι) : Move cfg ι → Prop
  | .newPg t => ∀ idx, (s.thread t).point = .testing idx → (s.thread t).tried.length < cfg.numInstances →
      (s.thread t).first + (s.thread t).tried.length < (s.pool.startIdx + cfg.numInstances) % 2 ^ 32
  | .other _ _ => True

/-- A call that returned nullptr has called every instance, and none of them gave a page. -/
def NullptrTriedAll (s : Threads cfg Disk Data ι) : Prop :=
  ∀ t, (s.thread t).point = .returned none →
    (∀ i, (i, false) ∈ (s.thread t).tried) ∧ ∀ x ∈ (s.thread t).tried, x.2 = false

/-! ## What a step does -/

/-- Every outcome of a thread's step, for the thread, when `start_idx_` is `start`. -/
inductive Moves (start : Nat) (x : Thread cfg) : Thread cfg → Prop where
  | enter (h : x.point = .idle ∨ ∃ my_page, x.point = .returned my_page) :
      Moves start x { x with point := .entered, tried := [] }
  | read (h : x.point = .entered) : Moves start x { x with point := .testing start, first := start }
  | again {idx : Nat} (h : x.point = .testing idx) (hlt : idx < (start + cfg.numInstances) % 2 ^ 32) :
      Moves start x { x with point := .calling idx }
  | stop {idx : Nat} (h : x.point = .testing idx) (hge : ¬ idx < (start + cfg.numInstances) % 2 ^ 32) :
      Moves start x { x with point := .leaving none }
  | got {idx : Nat} {my_page : Fin cfg.numInstances × FrameId} (h : x.point = .calling idx) :
      Moves start x { x with point := .leaving (some my_page), tried := x.tried ++ [(slot cfg idx, true)] }
  | full {idx : Nat} (h : x.point = .calling idx) :
      Moves start x
        { x with point := .testing ((idx + 1) % 2 ^ 32), tried := x.tried ++ [(slot cfg idx, false)] }
  | leave {my_page : PagePtr cfg} (h : x.point = .leaving my_page) :
      Moves start x { x with point := .bumping start my_page }
  | bump {start_idx : Nat} {my_page : PagePtr cfg} (h : x.point = .bumping start_idx my_page) :
      Moves start x { x with point := .returned my_page }

variable {b : Build} {s s' : Threads cfg Disk Data ι} {t u : ι}

/-- **Inversion**: a step of a thread changes that thread, in one of these ways. -/
theorem advance_moves (h : s.advance b t = .ok s') :
    ∃ x, Moves s.pool.startIdx (s.thread t) x ∧ s'.thread = Function.update s.thread t x := by
  unfold advance at h
  simp only at h
  split at h
  · next hp =>
    cases h
    exact ⟨_, .enter (.inl hp), rfl⟩
  · next hp =>
    cases h
    exact ⟨_, .read hp, rfl⟩
  · next idx hp =>
    split at h
    · next hlt =>
      cases h
      exact ⟨_, .again hp hlt, rfl⟩
    · next hge =>
      cases h
      exact ⟨_, .stop hp hge, rfl⟩
  · next idx hp =>
    obtain ⟨⟨ret, pool⟩, -, h⟩ := except_bind_inv h
    simp only at h
    split at h
    · cases h
      exact ⟨_, .got hp, rfl⟩
    · cases h
      exact ⟨_, .full hp, rfl⟩
  · next my_page hp =>
    cases h
    exact ⟨_, .leave hp, rfl⟩
  · next start_idx my_page hp =>
    cases h
    exact ⟨_, .bump hp, rfl⟩
  · next my_page hp =>
    cases h
    exact ⟨_, .enter (.inr ⟨my_page, hp⟩), rfl⟩

/-! ## The loop -/

/-- The instances called are those from `first` on, and all of them were full. -/
def CalledFrom (x : Thread cfg) : Prop :=
  x.tried = (List.range x.tried.length).map fun j => (slot cfg (x.first + j), false)

/-- Where the loop stands. -/
def InLoop (x : Thread cfg) : Prop :=
  match x.point with
  | .entered => x.tried = []
  | .testing idx => idx = x.first + x.tried.length ∧ CalledFrom x
  | .calling idx => idx = x.first + x.tried.length ∧ idx + 1 < 2 ^ 32 ∧ CalledFrom x
  | .leaving none | .bumping _ none | .returned none => CalledFrom x
  | _ => True

/-- A call without a page has been round. -/
def BeenRound (x : Thread cfg) : Prop :=
  match x.point with
  | .leaving none | .bumping _ none | .returned none => cfg.numInstances ≤ x.tried.length
  | _ => True

/-- One more full instance. -/
theorem CalledFrom.snoc {x : Thread cfg} (h : CalledFrom x) (p : Point cfg) :
    CalledFrom { x with point := p, tried := x.tried ++ [(slot cfg (x.first + x.tried.length), false)] } := by
  show x.tried ++ _ = List.map _ (List.range (x.tried ++ [_]).length)
  rw [List.length_append, List.length_singleton, List.range_succ, List.map_append, ← h, List.map_singleton]

/-- `num_instances_` values of `idx` in a row reach every instance. -/
theorem CalledFrom.all {x : Thread cfg} (h : CalledFrom x) (hlen : cfg.numInstances ≤ x.tried.length)
    (i : Fin cfg.numInstances) : (i, false) ∈ x.tried := by
  have hr := Nat.mod_lt x.first cfg.instances_pos
  have hq := Nat.div_add_mod x.first cfg.numInstances
  have hi := i.isLt
  -- the first of these values that is congruent to `i`
  obtain ⟨j, hj, q, hjq⟩ : ∃ j < cfg.numInstances, ∃ q, x.first + j = i + cfg.numInstances * q := by
    by_cases hle : x.first % cfg.numInstances ≤ i
    · exact ⟨i - x.first % cfg.numInstances, by omega, x.first / cfg.numInstances, by omega⟩
    · refine ⟨i + cfg.numInstances - x.first % cfg.numInstances, by omega, x.first / cfg.numInstances + 1, ?_⟩
      rw [Nat.mul_add]
      omega
  rw [h, List.mem_map]
  refine ⟨j, List.mem_range.mpr (by omega), ?_⟩
  have hslot : slot cfg (i + cfg.numInstances * q) = i := by
    refine Fin.ext ?_
    show (i + cfg.numInstances * q) % cfg.numInstances = i
    rw [Nat.add_mul_mod_self_left, Nat.mod_eq_of_lt hi]
  rw [hjq, hslot]

/-- All instances called so far were full. -/
theorem CalledFrom.failed {x : Thread cfg} (h : CalledFrom x) : ∀ y ∈ x.tried, y.2 = false := by
  intro y hy
  rw [h] at hy
  obtain ⟨j, -, rfl⟩ := List.mem_map.mp hy
  rfl

/-- A call of fewer than `num_instances_` instances leaves one out. -/
theorem exists_untried {x : Thread cfg} (hlen : x.tried.length < cfg.numInstances) : ∃ i, (i, false) ∉ x.tried := by
  by_contra hall
  push Not at hall
  have hsub : (Finset.univ : Finset (Fin cfg.numInstances)) ⊆ (x.tried.map Prod.fst).toFinset := fun i _ =>
    List.mem_toFinset.mpr (List.mem_map.mpr ⟨_, hall i, rfl⟩)
  have hcard := (Finset.card_le_card hsub).trans (List.toFinset_card_le _)
  rw [Finset.card_univ, Fintype.card_fin, List.length_map] at hcard
  omega

/-- A step keeps the place in the loop. -/
theorem InLoop.moves {start : Nat} {x x' : Thread cfg} (h : InLoop x) (hm : Moves start x x') : InLoop x' := by
  unfold InLoop at h
  cases hm with
  | enter hp => rfl
  | read hp =>
    rw [hp] at h
    show start = start + x.tried.length ∧ x.tried = _
    replace h : x.tried = [] := h
    simp [h]
  | again hp hlt =>
    rw [hp] at h
    exact ⟨h.1, by omega, h.2⟩
  | stop hp hge =>
    rw [hp] at h
    exact h.2
  | got hp => trivial
  | @full idx hp =>
    rw [hp] at h
    obtain ⟨hidx, hlt, hcalled⟩ := h
    refine ⟨?_, hidx ▸ hcalled.snoc _⟩
    show (idx + 1) % 2 ^ 32 = x.first + (x.tried ++ [_]).length
    rw [Nat.mod_eq_of_lt hlt, hidx, List.length_append]
    rfl
  | @leave my_page hp =>
    rw [hp] at h
    cases my_page with
    | none => exact h
    | some p => trivial
  | @bump start_idx my_page hp =>
    rw [hp] at h
    cases my_page with
    | none => exact h
    | some p => trivial

/-- A step whose test goes on until the call has been round keeps what a call without a page has done. -/
theorem BeenRound.moves {x x' : Thread cfg} (h : BeenRound x) (hin : InLoop x) (hm : Moves s.pool.startIdx x x')
    (hok : s.RoundAhead (.newPg t)) (hx : s.thread t = x) : BeenRound x' := by
  unfold BeenRound at h
  cases hm with
  | enter hp => trivial
  | read hp => trivial
  | again hp hlt => trivial
  | @stop idx hp hge =>
    unfold InLoop at hin
    rw [hp] at hin
    show cfg.numInstances ≤ x.tried.length
    by_contra hlen
    have hlt := hok idx (by rw [hx, hp]) (by rw [hx]; omega)
    rw [hx, ← hin.1] at hlt
    exact hge hlt
  | got hp => trivial
  | full hp => trivial
  | @leave my_page hp =>
    rw [hp] at h
    cases my_page with
    | none => exact h
    | some p => trivial
  | @bump start_idx my_page hp =>
    rw [hp] at h
    cases my_page with
    | none => exact h
    | some p => trivial

/-! ## Whole runs -/

/-- What holds of every idle thread and is kept by a thread's own steps holds of every thread. -/
theorem threads_invariant {ok : Threads cfg Disk Data ι → Move cfg ι → Prop} {I : Thread cfg → Prop}
    (hidle : ∀ x : Thread cfg, x.point = .idle → I x)
    (hmoves : ∀ (s : Threads cfg Disk Data ι) (t : ι) x, (∀ u, I (s.thread u)) → ok s (.newPg t) →
      Moves s.pool.startIdx (s.thread t) x → I x)
    (h : (system b ok).Reachable s) : ∀ t, I (s.thread t) := by
  refine h.invariant (I := fun s => ∀ t, I (s.thread t)) (fun s hs t => ?_) fun s e s' hs hstep u => ?_
  · replace hs : ∀ t, (s.thread t).point = .idle := hs
    exact hidle _ (hs t)
  obtain ⟨hok, hstep⟩ := hstep
  cases e with
  | newPg t =>
    obtain ⟨x, hm, hs'⟩ := advance_moves hstep
    rw [hs']
    by_cases hu : u = t
    · rw [hu, Function.update_self]
      exact hmoves s t x hs hok hm
    · rw [Function.update_of_ne hu]
      exact hs u
  | other i c =>
    obtain ⟨ans, pool, -, rfl⟩ := hstep
    exact hs u

theorem InLoop.reachable {ok : Threads cfg Disk Data ι → Move cfg ι → Prop} (h : (system b ok).Reachable s) :
    ∀ t, InLoop (s.thread t) := by
  refine threads_invariant (fun x hx => ?_) (fun s t x hs _ hm => (hs t).moves hm) h
  unfold InLoop
  rw [hx]
  trivial

theorem BeenRound.reachable (h : (system b RoundAhead).Reachable s) :
    ∀ t, InLoop (s.thread t) ∧ BeenRound (s.thread t) := by
  refine threads_invariant (I := fun x => InLoop x ∧ BeenRound x) (fun x hx => ?_)
    (fun s t x hs hok hm => ⟨(hs t).1.moves hm, (hs t).2.moves (hs t).1 hm hok rfl⟩) h
  unfold InLoop BeenRound
  rw [hx]
  exact ⟨trivial, trivial⟩

/-- A thread whose test ends the loop returns nullptr two steps later. -/
theorem stop_run {idx : Nat} (hp : (s.thread t).point = .testing idx)
    (hge : ¬ idx < (s.pool.startIdx + cfg.numInstances) % 2 ^ 32) :
    ∃ s', (system b fun _ _ => True).Run s [.newPg t, .newPg t, .newPg t] s' ∧
      (s'.thread t).point = .returned none ∧ (s'.thread t).tried = (s.thread t).tried := by
  let x := s.thread t
  let s₁ := s.setThread t { x with point := .leaving none }
  let s₂ := s₁.setThread t { x with point := .bumping s.pool.startIdx none }
  have h₁ : s.advance b t = .ok s₁ := by
    unfold advance
    simp only [hp, if_neg hge]
    rfl
  have h₂ : s₁.advance b t = .ok s₂ := by
    have hx : s₁.thread t = { x with point := .leaving none } := Function.update_self ..
    unfold advance
    simp only [hx]
    rfl
  have hx : s₂.thread t = { x with point := .bumping s.pool.startIdx none } := Function.update_self ..
  obtain ⟨s₃, h₃⟩ : ∃ s₃, s₂.advance b t = .ok s₃ := by
    unfold advance
    simp only [hx]
    exact ⟨_, rfl⟩
  have hone : (system b fun _ _ => True).Run s [.newPg t] s₁ := .single ⟨trivial, h₁⟩
  have htwo : (system b fun _ _ => True).Run s [.newPg t, .newPg t] s₂ := .snoc hone ⟨trivial, h₂⟩
  refine ⟨s₃, .snoc htwo ⟨trivial, h₃⟩, ?_⟩
  obtain ⟨y, hm, hthread⟩ := advance_moves h₃
  rw [hx] at hm
  rw [hthread, Function.update_self]
  cases hm with
  | bump h =>
    cases h
    exact ⟨rfl, rfl⟩
  | enter h => rcases h with h | ⟨_, h⟩ <;> cases h
  | read h => cases h
  | again h => cases h
  | stop h => cases h
  | got h => cases h
  | full h => cases h
  | leave h => cases h

/-- **nullptr means that every instance was full when asked**, in every run whose tests are `RoundAhead`.  And
    they have to be: where a test is not, the call goes on to return nullptr with an instance left out. -/
theorem nullptr_tried_all (b : Build) (cfg : ParallelConfig) :
    (∀ s : Threads cfg Disk Data ι, (system b RoundAhead).Reachable s → s.NullptrTriedAll) ∧
    ∀ (s : Threads cfg Disk Data ι) (t : ι), (system b fun _ _ => True).Reachable s →
      ¬ s.RoundAhead (.newPg t) →
      ∃ s', (system b fun _ _ => True).Run s [.newPg t, .newPg t, .newPg t] s' ∧ ¬ s'.NullptrTriedAll := by
  refine ⟨fun s h t hp => ?_, fun s t h hbad => ?_⟩
  · obtain ⟨hin, hround⟩ := BeenRound.reachable h t
    unfold InLoop at hin
    unfold BeenRound at hround
    rw [hp] at hin hround
    exact ⟨CalledFrom.all hin hround, CalledFrom.failed hin⟩
  · unfold RoundAhead at hbad
    push Not at hbad
    obtain ⟨idx, hp, hlen, hge⟩ := hbad
    have hin := InLoop.reachable h t
    unfold InLoop at hin
    rw [hp] at hin
    rw [← hin.1] at hge
    obtain ⟨s', hrun, hpoint, htried⟩ := stop_run (b := b) hp (not_lt.mpr hge)
    refine ⟨s', hrun, fun hall => ?_⟩
    obtain ⟨i, hi⟩ := exists_untried hlen
    exact hi (htried ▸ (hall t hpoint).1 i)

/-- The steps of the threads in `ts`, in this order. -/
def advanceAll (b : Build) : List ι → Threads cfg Disk Data ι → Except Fault (Threads cfg Disk Data ι)
  | [], s => .ok s
  | t :: ts, s => do advanceAll b ts (← s.advance b t)

theorem advanceAll_reachable : ∀ (ts : List ι) (s : Threads cfg Disk Data ι),
    (system b fun _ _ => True).Reachable s → s.advanceAll b ts = .ok s' → (system b fun _ _ => True).Reachable s'
  | [], s, h, hrun => by
    cases hrun
    exact h
  | t :: ts, s, h, hrun => by
    obtain ⟨s₁, hone, hrest⟩ := except_bind_inv hrun
    exact advanceAll_reachable ts s₁ (h.step (e := .newPg t) ⟨trivial, hone⟩) hrest

/-- Two instances of two frames each. -/
def twoByTwo : ParallelConfig := { twoInstances with poolSize := 2 }

/-- A fresh pool of these, and any number of threads. -/
def fourFrames : Threads twoByTwo (PageId → Nat) Nat Nat := ⟨create _ fun _ => 0, fun _ => ⟨.idle, 0, []⟩⟩

/-- Thread 0 takes a frame of instance 0.  Threads 1, 2 and 3 all read `start_idx_ = 1`; thread 2 takes a frame of
    instance 1 and bumps `start_idx_` to 0; thread 3 takes the other frame of instance 1.  Then thread 1 finds
    instance 1 full, and 2 is not below 0 + 2. -/
def schedule : List Nat := [0, 0, 0, 0, 0, 0, 1, 1, 3, 3, 2, 2, 2, 2, 2, 2, 3, 3, 1, 1, 1, 1, 1]

/-- Thread 1 returns nullptr although instance 0 has a free frame, which it has not asked for. -/
theorem nullptr_too_early : ∃ s : Threads twoByTwo (PageId → Nat) Nat Nat,
    fourFrames.advanceAll .debug schedule = .ok s ∧ (system .debug fun _ _ => True).Reachable s ∧
    (s.thread 1).point = .returned none ∧ (s.thread 1).tried = [(slot _ 1, false)] ∧
    (s.pool.bpmList (slot _ 0)).freeList = [0] ∧ ¬ s.NullptrTriedAll := by
  have hrun : (fourFrames.advanceAll .debug schedule).toOption.map (fun s =>
      (s.thread 1, (s.pool.bpmList (slot _ 0)).freeList)) = some (⟨.returned none, 1, [(slot _ 1, false)]⟩, [0]) := by
    decide
  obtain ⟨s, hs, hseen⟩ := Option.map_eq_some_iff.mp hrun
  replace hs := eq_ok_of_toOption hs
  obtain ⟨hthread, hfree⟩ := Prod.mk.inj hseen
  refine ⟨s, hs, advanceAll_reachable schedule fourFrames (.init fun t => rfl) hs, by rw [hthread], by rw [hthread],
    hfree, fun hall => ?_⟩
  have hcalled := (hall 1 (by rw [hthread])).1 (slot _ 0)
  rw [hthread] at hcalled
  revert hcalled
  decide

end Threads

end ParallelBufferPoolManager

end BusTub
