/-
  The parallel buffer pool: `src/buffer/parallel_buffer_pool_manager.cpp`.

  `num_instances_` pools of `pool_size_` frames each, over one disk.  A page id belongs to the instance
  `page_id % num_instances_`; a new page comes from the first instance that has room, from `start_idx_` on.

  1. **The disk is shared.**  Every instance holds the same `DiskManager *`.  So the disk is a field of the
     parallel pool, and an instance runs a call on that disk (`onInstance`); the `disk` fields of the
     instances are never read.

  2. **Numbers.**  `num_instances_` is a `uint32_t`, and for more instances than that has values the
     constructor's loop would not end: `ParallelConfig` has the bound.  `page_id % num_instances_` is computed
     on unsigned numbers, and so is the end of the loop of `NewPgImp`, `start_idx_ + num_instances_`.

  3. `instances_separate` — **the main result**: the routing function and the counters of the instances agree in
     every state of every run, whatever ids the callers ask for.
-/
import BusTub.Buffer.Pins
import Mathlib.Data.List.FinRange

set_option linter.unusedSectionVars false

namespace BusTub

open BufferPoolManagerInstance (Call Return)

/-- The members that never change.  There is an instance, and `uint32_t i` counts them. -/
structure ParallelConfig where
  numInstances : Nat
  poolSize : Nat
  instances_pos : 0 < numInstances
  instances_lt : numInstances < 2 ^ 32

/-- The arguments that the constructor passes to instance `i`. -/
def ParallelConfig.forInstance (cfg : ParallelConfig) (i : Fin cfg.numInstances) : PoolConfig :=
  ⟨cfg.poolSize, cfg.numInstances, i, i.isLt, cfg.instances_lt⟩

/-- `ParallelBufferPoolManager`. -/
structure ParallelBufferPoolManager (cfg : ParallelConfig) (Disk Data : Type) where
  startIdx : Nat
  bpmList : Fin cfg.numInstances → BufferPoolManagerInstance Disk Data
  disk : Disk

namespace ParallelBufferPoolManager

variable {cfg : ParallelConfig} {Disk Data : Type} [DiskManager Disk Data] [Zero Data]

/-- What a method returns.  A `Page *` points to a frame of one instance. -/
inductive Answer (cfg : ParallelConfig) where
  | page (frame : Option (Fin cfg.numInstances × FrameId)) (page_id : PageId)
  | flag (res : Bool)
  | void
  deriving DecidableEq

/-- What instance `i` returns. -/
def Answer.ofInstance (i : Fin cfg.numInstances) : Return → Answer cfg
  | .page frame page_id => .page (frame.map fun f => (i, f)) page_id
  | .flag res => .flag res
  | .void => .void

/-- `ParallelBufferPoolManager::ParallelBufferPoolManager`. -/
def create (cfg : ParallelConfig) (disk : Disk) : ParallelBufferPoolManager cfg Disk Data :=
  { startIdx := 0
    bpmList := fun i => BufferPoolManagerInstance.create (cfg.forInstance i) disk
    disk := disk }

/-- `GetPoolSize`. -/
def getPoolSize (_ : ParallelBufferPoolManager cfg Disk Data) : Nat := cfg.numInstances * cfg.poolSize

theorem residue_lt (cfg : ParallelConfig) (page_id : PageId) :
    (uint32 page_id % cfg.numInstances).toNat < cfg.numInstances := by
  have h0 : (0 : Int) < cfg.numInstances := by exact_mod_cast cfg.instances_pos
  have h1 := Int.emod_lt_of_pos (uint32 page_id) h0
  have h2 := Int.emod_nonneg (uint32 page_id) h0.ne'
  omega

/-- `GetBufferPoolManager`: the number of the instance that is responsible for a page id. -/
def getBufferPoolManager (cfg : ParallelConfig) (page_id : PageId) : Fin cfg.numInstances :=
  ⟨(uint32 page_id % cfg.numInstances).toNat, residue_lt cfg page_id⟩

variable (b : Build) (s : ParallelBufferPoolManager cfg Disk Data)

/-- Instance `i` as it is, on the disk as it is. -/
def instanceOn (i : Fin cfg.numInstances) : BufferPoolManagerInstance Disk Data :=
  { s.bpmList i with disk := s.disk }

/-- Call a method of `bpm_list_[i]`. -/
def onInstance (i : Fin cfg.numInstances) (c : Call) :
    Except Fault (Answer cfg × ParallelBufferPoolManager cfg Disk Data) := do
  let (ret, t) ← (s.instanceOn i).exec b c
  .ok (.ofInstance i ret, { s with bpmList := Function.update s.bpmList i t, disk := t.disk })

/-- `FetchPgImp`. -/
def fetchPgImp (page_id : PageId) := s.onInstance b (getBufferPoolManager cfg page_id) (.fetchPg page_id)

/-- `UnpinPgImp`. -/
def unpinPgImp (page_id : PageId) (is_dirty : Bool) :=
  s.onInstance b (getBufferPoolManager cfg page_id) (.unpinPg page_id is_dirty)

/-- `FlushPgImp`. -/
def flushPgImp (page_id : PageId) := s.onInstance b (getBufferPoolManager cfg page_id) (.flushPg page_id)

/-- `DeletePgImp`. -/
def deletePgImp (page_id : PageId) := s.onInstance b (getBufferPoolManager cfg page_id) (.deletePg page_id)

/-- `bpm_list_[idx % num_instances_]`. -/
def slot (cfg : ParallelConfig) (idx : Nat) : Fin cfg.numInstances :=
  ⟨idx % cfg.numInstances, Nat.mod_lt _ cfg.instances_pos⟩

/-- The loop of `NewPgImp` with `remaining` values of `idx` left before the bound. -/
def newPgLoop (b : Build) : (remaining idx : Nat) → ParallelBufferPoolManager cfg Disk Data →
    Except Fault (Answer cfg × ParallelBufferPoolManager cfg Disk Data)
  | 0, _, s => .ok (.page none invalidPageId, s)
  | remaining + 1, idx, s => do
    let (ret, s) ← s.onInstance b (slot cfg idx) .newPg
    match ret with
    | .page none _ => newPgLoop b remaining (idx + 1) s
    | my_page => .ok (my_page, s)

/-- `NewPgImp`.  The bound `start_idx_ + num_instances_` of its loop is an unsigned 32-bit number. -/
def newPgImp : Except Fault (Answer cfg × ParallelBufferPoolManager cfg Disk Data) := do
  let bound := (s.startIdx + cfg.numInstances) % 2 ^ 32
  let (my_page, s) ← newPgLoop b (bound - s.startIdx) s.startIdx s
  .ok (my_page, { s with startIdx := (s.startIdx + 1) % 2 ^ 32 % cfg.numInstances })

/-- The loop of `FlushAllPgsImp`. -/
def flushAllLoop (b : Build) : List (Fin cfg.numInstances) → ParallelBufferPoolManager cfg Disk Data →
    Except Fault (Answer cfg × ParallelBufferPoolManager cfg Disk Data)
  | [], s => .ok (.void, s)
  | it :: rest, s => do
    let (_, s) ← s.onInstance b it .flushAllPgs
    flushAllLoop b rest s

/-- `FlushAllPgsImp`. -/
def flushAllPgsImp := flushAllLoop b (List.finRange cfg.numInstances) s

/-- Run one call. -/
def exec : Call → Except Fault (Answer cfg × ParallelBufferPoolManager cfg Disk Data)
  | .newPg => s.newPgImp b
  | .fetchPg p => s.fetchPgImp b p
  | .unpinPg p d => s.unpinPgImp b p d
  | .flushPg p => s.flushPgImp b p
  | .flushAllPgs => s.flushAllPgsImp b
  | .deletePg p => s.deletePgImp b p

/-! ## One call of one instance -/

variable {b : Build} {s s' : ParallelBufferPoolManager cfg Disk Data} {i : Fin cfg.numInstances} {c : Call}
  {ans : Answer cfg}

/-- **Inversion**: a call of instance `i` is a call of that pool on the shared disk. -/
theorem onInstance_inv (h : s.onInstance b i c = .ok (ans, s')) :
    ∃ ret t, (s.instanceOn i).exec b c = .ok (ret, t) ∧ ans = .ofInstance i ret ∧
      s' = { s with bpmList := Function.update s.bpmList i t, disk := t.disk } := by
  obtain ⟨⟨ret, t⟩, hrun, h⟩ := except_bind_inv h
  cases h
  exact ⟨ret, t, hrun, rfl, rfl⟩

/-- The other instances stay as they are. -/
theorem onInstance_frame (h : s.onInstance b i c = .ok (ans, s')) {j : Fin cfg.numInstances} (hj : j ≠ i) :
    s'.bpmList j = s.bpmList j := by
  obtain ⟨ret, t, -, -, rfl⟩ := onInstance_inv h
  exact Function.update_of_ne hj t s.bpmList

/-- The ids that an answer says are new, each with the instance that created it. -/
def newIds : Call → Answer cfg → List (Fin cfg.numInstances × PageId)
  | .newPg, .page (some (i, _)) p => [(i, p)]
  | _, _ => []

theorem newIds_ofInstance (i : Fin cfg.numInstances) (c : Call) (ret : Return) :
    newIds c (.ofInstance i ret) = (BufferPoolManagerInstance.newIds c ret).map fun p => (i, p) := by
  cases c with
  | newPg =>
    cases ret with
    | page frame p => cases frame <;> rfl
    | flag res => rfl
    | void => rfl
  | _ => rfl

/-- How many of the ids were created by instance `i`. -/
def createdBy (created : List (Fin cfg.numInstances × PageId)) (i : Fin cfg.numInstances) : Nat :=
  created.countP fun x => x.1 = i

/-- The counter of every instance has the value that exact arithmetic gives it, so none has passed
    `2^31 - 1`. -/
def Unwrapped (created : List (Fin cfg.numInstances × PageId)) (s : ParallelBufferPoolManager cfg Disk Data) : Prop :=
  ∀ i, (s.bpmList i).nextPageId = i + cfg.numInstances * createdBy created i

/-- What holds in every state of a run. -/
structure Sound (created : List (Fin cfg.numInstances × PageId)) (s : ParallelBufferPoolManager cfg Disk Data) :
    Prop where
  cfg_eq : ∀ i, (s.bpmList i).cfg = cfg.forInstance i
  consistent : ∀ i, (s.bpmList i).Consistent
  counter_lt : ∀ i, (s.bpmList i).nextPageId < 2 ^ 31
  unwrapped : Unwrapped created s
  routed : ∀ i p f, (s.bpmList i).pageTable p = some f → getBufferPoolManager cfg p = i
  created_lt : ∀ x ∈ created, ∃ j < createdBy created x.1, x.2 = (x.1 + cfg.numInstances * j : Int)
  created_nodup : (created.map Prod.snd).Nodup

/-- An id below `2^31` in the progression of instance `i` is routed to instance `i`. -/
theorem getBufferPoolManager_progression {i : Fin cfg.numInstances} {j : Nat}
    (h : (i + cfg.numInstances * j : Int) < 2 ^ 31) :
    getBufferPoolManager cfg (i + cfg.numInstances * j : Int) = i := by
  refine Fin.ext ?_
  show (uint32 (i + cfg.numInstances * j : Int) % cfg.numInstances).toNat = i
  have h0 : (0 : Int) ≤ i + cfg.numInstances * j := by positivity
  rw [uint32_of_range h0 (by omega), Int.add_mul_emod_self_left]
  exact_mod_cast Nat.mod_eq_of_lt i.isLt

/-- The created ids reach their creator. -/
theorem Sound.creator {created : List (Fin cfg.numInstances × PageId)} (h : s.Sound created) {p : PageId}
    (hp : (i, p) ∈ created) : getBufferPoolManager cfg p = i := by
  obtain ⟨j, hj, hpj⟩ := h.created_lt (i, p) hp
  simp only at hj hpj
  rw [hpj]
  refine getBufferPoolManager_progression (lt_of_le_of_lt ?_ (h.counter_lt i))
  rw [h.unwrapped i]
  have hle : (j : Int) ≤ createdBy created i := by exact_mod_cast hj.le
  gcongr

/-- The next id of an instance is routed to it. -/
theorem Sound.next_routed {created : List (Fin cfg.numInstances × PageId)} (h : s.Sound created)
    (i : Fin cfg.numInstances) : getBufferPoolManager cfg (s.bpmList i).nextPageId = i := by
  have hlt := h.counter_lt i
  rw [h.unwrapped i] at hlt ⊢
  exact getBufferPoolManager_progression hlt

/-- It has not been handed out before. -/
theorem Sound.next_fresh {created : List (Fin cfg.numInstances × PageId)} (h : s.Sound created)
    (i : Fin cfg.numInstances) : (s.bpmList i).nextPageId ∉ created.map Prod.snd := by
  intro hmem
  obtain ⟨⟨k, p⟩, hp, hpi⟩ := List.mem_map.mp hmem
  simp only at hpi
  -- the instance that created it is this one, and its earlier ids are below the counter
  obtain rfl : k = i := by rw [← h.creator hp, hpi, h.next_routed i]
  obtain ⟨j, hj, hpj⟩ := h.created_lt (k, p) hp
  simp only at hj hpj
  have hlt : (j : Int) < createdBy created k := by exact_mod_cast hj
  have hpos : (0 : Int) < cfg.numInstances := by exact_mod_cast cfg.instances_pos
  have hmul := mul_lt_mul_of_pos_left hlt hpos
  have hnext := h.unwrapped k
  rw [← hpi, hpj] at hnext
  linarith

/-! ## Every run -/

/-- An id counter is a 32-bit number at all times. -/
theorem int32_lt (x : Int) : int32 x < 2 ^ 31 := by
  have h := Int.bmod_lt (x := x) (m := 2 ^ 32) (by norm_num)
  unfold int32
  omega

theorem effect_counter_lt {t t' : BufferPoolManagerInstance Disk Data} {ret : Return} (he : t.Effect c ret t')
    (h : t.nextPageId < 2 ^ 31) : t'.nextPageId < 2 ^ 31 := by
  cases he with
  | new hpick hr =>
    rw [BufferPoolManagerInstance.install_nextPageId, hpick.frame.2.2]
    exact int32_lt _
  | fetchMiss hp hpick hr =>
    rw [BufferPoolManagerInstance.install_nextPageId, hpick.frame.2.2]
    exact h
  | _ => exact h

theorem createdBy_append (created new : List (Fin cfg.numInstances × PageId)) (i : Fin cfg.numInstances) :
    createdBy (created ++ new) i = createdBy created i + createdBy new i := List.countP_append

/-- Instance `i` on the shared disk is consistent. -/
theorem Sound.instanceOn {created : List (Fin cfg.numInstances × PageId)} (h : s.Sound created)
    (i : Fin cfg.numInstances) : (s.instanceOn i).Consistent := { h.consistent i with }

/-- What holds of every instance and of the new state of instance `i` holds of every instance after. -/
theorem forall_update {P : Fin cfg.numInstances → BufferPoolManagerInstance Disk Data → Prop}
    {bpmList : Fin cfg.numInstances → BufferPoolManagerInstance Disk Data} (hP : ∀ j, P j (bpmList j))
    {t : BufferPoolManagerInstance Disk Data} (ht : P i t) (j : Fin cfg.numInstances) :
    P j (Function.update bpmList i t j) := by
  by_cases hj : j = i
  · rw [hj, Function.update_self]
    exact ht
  · rw [Function.update_of_ne hj]
    exact hP j

/-- **A call of one instance keeps it**, if a page is fetched from the instance that is responsible for it. -/
theorem Sound.step {created : List (Fin cfg.numInstances × PageId)} (h : s.Sound created)
    (hrun : s.onInstance b i c = .ok (ans, s')) (hroute : ∀ p, c = .fetchPg p → getBufferPoolManager cfg p = i)
    (hu : Unwrapped (created ++ newIds c ans) s') : s'.Sound (created ++ newIds c ans) := by
  obtain ⟨ret, t, hexec, rfl, rfl⟩ := onInstance_inv hrun
  have he := BufferPoolManagerInstance.exec_effect (h.instanceOn i) hexec
  have hnew := newIds_ofInstance i c ret
  -- the call creates no page, or the page of the instance's counter
  have hids : BufferPoolManagerInstance.newIds c ret = [] ∨
      BufferPoolManagerInstance.newIds c ret = [(s.bpmList i).nextPageId] :=
    Session.newIds_eq (s := s.instanceOn i) he
  refine
    { cfg_eq := forall_update (P := fun j t => t.cfg = cfg.forInstance j) h.cfg_eq
        ((Session.effect_cfg he).trans (h.cfg_eq i))
      consistent := forall_update (P := fun _ t => t.Consistent) h.consistent ((h.instanceOn i).step he)
      counter_lt := forall_update (P := fun _ t => t.nextPageId < 2 ^ 31) h.counter_lt
        (effect_counter_lt he (h.counter_lt i))
      unwrapped := hu
      routed := forall_update (P := fun j t => ∀ p f, t.pageTable p = some f → getBufferPoolManager cfg p = j)
        h.routed fun p f hp => ?_
      created_lt := fun x hx => ?_
      created_nodup := ?_ }
  · -- a page comes in by creation or by fetch, and either way where its id belongs
    rcases Session.effect_resident he hp with ⟨g, hg⟩ | hmem | hfetch
    · exact h.routed i p g hg
    · rcases hids with hids | hids
      · rw [hids] at hmem
        cases hmem
      · rw [hids, List.mem_singleton] at hmem
        rw [hmem]
        exact h.next_routed i
    · exact hroute p hfetch
  · -- the pages created so far are those below the counter
    rw [createdBy_append]
    rcases List.mem_append.mp hx with hx | hx
    · obtain ⟨j, hj, hxj⟩ := h.created_lt x hx
      exact ⟨j, by omega, hxj⟩
    · rw [hnew] at hx ⊢
      rcases hids with hids | hids
      · simp [hids] at hx
      · rw [hids, List.map_singleton, List.mem_singleton] at hx
        rw [hids, List.map_singleton, hx]
        refine ⟨createdBy created i, ?_, h.unwrapped i⟩
        simp [createdBy]
  · -- and the counter names one that is new in all instances
    rw [hnew, List.map_append]
    rcases hids with hids | hids
    · simpa [hids] using h.created_nodup
    · rw [hids]
      refine List.Nodup.append h.created_nodup (by simp) fun p hp hp' => ?_
      have hpi : p = (s.bpmList i).nextPageId := by simpa using hp'
      exact h.next_fresh i (hpi ▸ hp)

/-- A call that creates no page leaves the counters alone. -/
theorem Sound.step_kept {created : List (Fin cfg.numInstances × PageId)} (h : s.Sound created)
    (hrun : s.onInstance b i c = .ok (ans, s')) (hroute : ∀ p, c = .fetchPg p → getBufferPoolManager cfg p = i)
    (hnew : newIds c ans = []) : s'.Sound created := by
  have hu : Unwrapped (created ++ newIds c ans) s' := by
    rw [hnew, List.append_nil]
    intro j
    rw [← h.unwrapped j]
    by_cases hj : j = i
    · obtain ⟨ret, t, hexec, rfl, rfl⟩ := onInstance_inv hrun
      have he := BufferPoolManagerInstance.exec_effect (h.instanceOn i) hexec
      rw [newIds_ofInstance, List.map_eq_nil_iff] at hnew
      rw [hj]
      show (Function.update s.bpmList i t i).nextPageId = _
      rw [Function.update_self]
      exact he.counter_kept hnew
    · rw [onInstance_frame hrun hj]
  have hs := h.step hrun hroute hu
  rwa [hnew, List.append_nil] at hs

/-- The loop of `NewPgImp` keeps it: every instance but the last one called was full. -/
theorem Sound.newPgLoop {created : List (Fin cfg.numInstances × PageId)} : ∀ (remaining idx : Nat)
    (s : ParallelBufferPoolManager cfg Disk Data), s.Sound created →
    newPgLoop b remaining idx s = .ok (ans, s') → Unwrapped (created ++ newIds .newPg ans) s' →
    s'.Sound (created ++ newIds .newPg ans)
  | 0, idx, s, h, hrun, hu => by
    cases hrun
    show s'.Sound (created ++ [])
    rwa [List.append_nil]
  | remaining + 1, idx, s, h, hrun, hu => by
    obtain ⟨⟨ans₁, s₁⟩, hone, hrest⟩ := except_bind_inv hrun
    have hroute : ∀ p, Call.newPg = .fetchPg p → getBufferPoolManager cfg p = slot cfg idx := fun p he => by cases he
    cases ans₁ with
    | page frame p =>
      cases frame with
      | none => exact newPgLoop remaining (idx + 1) s₁ (h.step_kept hone hroute rfl) hrest hu
      | some f =>
        cases hrest
        exact h.step hone hroute hu
    | flag res =>
      cases hrest
      exact h.step hone hroute hu
    | void =>
      cases hrest
      exact h.step hone hroute hu

theorem Sound.flushAllLoop {created : List (Fin cfg.numInstances × PageId)} :
    ∀ (its : List (Fin cfg.numInstances)) (s : ParallelBufferPoolManager cfg Disk Data), s.Sound created →
    flushAllLoop b its s = .ok (ans, s') → s'.Sound created
  | [], s, h, hrun => by
    cases hrun
    exact h
  | it :: rest, s, h, hrun => by
    obtain ⟨⟨ans₁, s₁⟩, hone, hrest⟩ := except_bind_inv hrun
    exact flushAllLoop rest s₁ (h.step_kept hone (fun p he => by cases he) rfl) hrest

/-- **A call of the parallel pool keeps it.** -/
theorem Sound.exec {created : List (Fin cfg.numInstances × PageId)} (h : s.Sound created)
    (hrun : s.exec b c = .ok (ans, s')) (hu : Unwrapped (created ++ newIds c ans) s') :
    s'.Sound (created ++ newIds c ans) := by
  cases c with
  | newPg =>
    obtain ⟨⟨my_page, s₁⟩, hloop, hrun⟩ := except_bind_inv hrun
    cases hrun
    exact { newPgLoop _ _ s h hloop hu with }
  | fetchPg p =>
    refine h.step hrun (fun q he => ?_) hu
    cases he
    rfl
  | flushAllPgs =>
    have hs := flushAllLoop _ s h hrun
    show s'.Sound (created ++ [])
    rwa [List.append_nil]
  | unpinPg p d => exact h.step hrun (fun q he => by cases he) hu
  | flushPg p => exact h.step hrun (fun q he => by cases he) hu
  | deletePg p => exact h.step hrun (fun q he => by cases he) hu

/-- Bytes stored into a frame of instance `i`. -/
def store (s : ParallelBufferPoolManager cfg Disk Data) (i : Fin cfg.numInstances) (f : FrameId) (x : Data) :
    ParallelBufferPoolManager cfg Disk Data :=
  { s with
    bpmList := Function.update s.bpmList i ((s.bpmList i).setPage f { (s.bpmList i).pages f with data := x }) }

theorem Sound.store {created : List (Fin cfg.numInstances × PageId)} (h : s.Sound created)
    (i : Fin cfg.numInstances) (f : FrameId) (x : Data) : (s.store i f x).Sound created := by
  exact
    { cfg_eq := forall_update (P := fun j t => t.cfg = cfg.forInstance j) h.cfg_eq (h.cfg_eq i)
      consistent := forall_update (P := fun _ t => t.Consistent) h.consistent ((h.consistent i).store f x)
      counter_lt := forall_update (P := fun _ t => t.nextPageId < 2 ^ 31) h.counter_lt (h.counter_lt i)
      unwrapped := forall_update (P := fun j t => t.nextPageId = j + cfg.numInstances * createdBy created j) h.unwrapped
        (h.unwrapped i)
      routed := forall_update (P := fun j t => ∀ p f, t.pageTable p = some f → getBufferPoolManager cfg p = j)
        h.routed (h.routed i)
      created_lt := h.created_lt
      created_nodup := h.created_nodup }

/-- One step of a run: a call with its answer, or a store into a frame's bytes. -/
inductive Event (cfg : ParallelConfig) (Data : Type) where
  | call (c : Call) (ans : Answer cfg)
  | store (i : Fin cfg.numInstances) (f : FrameId) (x : Data)

/-- **The runs of a parallel pool**: any calls with any arguments, as long as no counter has wrapped.  Beside the
    pool stand the ids it has created, each with its instance. -/
def system (b : Build) (cfg : ParallelConfig) (disk : Disk) :
    StepSystem (List (Fin cfg.numInstances × PageId) × ParallelBufferPoolManager cfg Disk Data) (Event cfg Data) where
  init a := a = ([], create cfg disk) ∧ Unwrapped a.1 a.2
  step a e a' := match e with
    | .call c ans => a.2.exec b c = .ok (ans, a'.2) ∧ a'.1 = a.1 ++ newIds c ans ∧ Unwrapped a'.1 a'.2
    | .store i f x => a' = (a.1, a.2.store i f x)

variable {disk : Disk} {a : List (Fin cfg.numInstances × PageId) × ParallelBufferPoolManager cfg Disk Data}

theorem Sound.reachable (h : (system b cfg disk).Reachable a) : a.2.Sound a.1 := by
  refine h.invariant (I := fun a => a.2.Sound a.1) (fun a ha => ?_) fun a e a' ha hstep => ?_
  · obtain ⟨rfl, hu⟩ := ha
    exact
      { cfg_eq := fun i => rfl
        consistent := fun i => BufferPoolManagerInstance.create_consistent (cfg.forInstance i) disk
        counter_lt := fun i => by
          simp only [create, BufferPoolManagerInstance.create]
          exact int32_lt _
        unwrapped := hu
        routed := fun i p f hp => by cases hp
        created_lt := fun x hx => by cases hx
        created_nodup := List.nodup_nil }
  · cases e with
    | call c ans =>
      obtain ⟨hrun, hcreated, hu⟩ := hstep
      rw [hcreated] at hu ⊢
      exact ha.exec hrun hu
    | store i f x =>
      obtain rfl := hstep
      exact ha.store i f x

/-- The calls that name a page. -/
def Names (p : PageId) : Call → Prop
  | .fetchPg q => q = p
  | .unpinPg q _ => q = p
  | .flushPg q => q = p
  | .deletePg q => q = p
  | _ => False

/-- They go to the instance that is responsible for the page. -/
theorem exec_names {p : PageId} (hc : Names p c) : s.exec b c = s.onInstance b (getBufferPoolManager cfg p) c := by
  cases c with
  | newPg => cases hc
  | flushAllPgs => cases hc
  | _ =>
    cases hc
    rfl

/-- **The instances never get in each other's way.**  In every state of every run a page is resident in the
    instance that its id is congruent to, and in no other; all ids handed out are distinct; and a call that
    names a created page runs on the instance that created it and leaves the others as they are. -/
theorem instances_separate (h : (system b cfg disk).Reachable a) :
    (∀ i p f, (a.2.bpmList i).pageTable p = some f → uint32 p % cfg.numInstances = i) ∧
    (∀ i j p f g, (a.2.bpmList i).pageTable p = some f → (a.2.bpmList j).pageTable p = some g → i = j) ∧
    (a.1.map Prod.snd).Nodup ∧
    (∀ i p c, (i, p) ∈ a.1 → Names p c → a.2.exec b c = a.2.onInstance b i c ∧
      ∀ ans s', a.2.exec b c = .ok (ans, s') → ∀ j, j ≠ i → s'.bpmList j = a.2.bpmList j) := by
  have hs := Sound.reachable h
  refine ⟨fun i p f hp => ?_, fun i j p f g hp hq => ?_, hs.created_nodup, fun i p c hp hc => ?_⟩
  · rw [← hs.routed i p f hp]
    have h0 : (0 : Int) ≤ uint32 p % cfg.numInstances :=
      Int.emod_nonneg _ (by exact_mod_cast cfg.instances_pos.ne')
    exact (Int.toNat_of_nonneg h0).symm
  · rw [← hs.routed i p f hp, hs.routed j p g hq]
  · have he : a.2.exec b c = a.2.onInstance b i c := by rw [exec_names hc, hs.creator hp]
    refine ⟨he, fun ans s' hrun j hj => ?_⟩
    rw [he] at hrun
    exact onInstance_frame hrun hj

/-- What the next call makes of a state, where it returns. -/
def after (b : Build) (a : List (Fin cfg.numInstances × PageId) × ParallelBufferPoolManager cfg Disk Data)
    (c : Call) : List (Fin cfg.numInstances × PageId) × ParallelBufferPoolManager cfg Disk Data :=
  match a.2.exec b c with
  | .ok (ans, s) => (a.1 ++ newIds c ans, s)
  | .error _ => a

/-- It is a step of a run, where the counters allow it. -/
theorem step_after {x : Answer cfg} (h : (a.2.exec b c).toOption.map Prod.fst = some x)
    (hu : Unwrapped (after b a c).1 (after b a c).2) :
    (system b cfg disk).step a (.call c x) (after b a c) := by
  obtain ⟨⟨ans', s⟩, hrun, hans⟩ := Option.map_eq_some_iff.mp h
  replace hrun := eq_ok_of_toOption hrun
  obtain rfl : ans' = x := hans
  have hafter : after b a c = (a.1 ++ newIds c ans', s) := by
    unfold after
    rw [hrun]
  rw [hafter] at hu ⊢
  exact ⟨hrun, rfl, hu⟩

/-- Two instances of one frame each. -/
def twoInstances : ParallelConfig := ⟨2, 1, Nat.two_pos, by decide⟩

/-- Nothing is created yet. -/
def noPages : List (Fin twoInstances.numInstances × PageId) ×
    ParallelBufferPoolManager twoInstances (PageId → Nat) Nat := ([], create twoInstances fun _ => 0)

/-- They have created a page each, 0 and 1. -/
def twoPages : List (Fin twoInstances.numInstances × PageId) ×
    ParallelBufferPoolManager twoInstances (PageId → Nat) Nat := after .debug (after .debug noPages .newPg) .newPg

theorem twoPages_reachable : (system .debug twoInstances (fun _ => 0 : PageId → Nat)).Reachable twoPages := by
  have hinit : (system .debug twoInstances (fun _ => 0 : PageId → Nat)).Reachable noPages :=
    .init ⟨rfl, fun i => by revert i; decide⟩
  have hone : (system .debug twoInstances (fun _ => 0 : PageId → Nat)).Reachable (after .debug noPages .newPg) :=
    hinit.step (step_after (x := .page (some (slot twoInstances 0, 0)) 0) (by decide) fun i => by revert i; decide)
  exact hone.step (step_after (x := .page (some (slot twoInstances 1, 0)) 1) (by decide)
    fun i => by revert i; decide)

/-- The two ids differ, and fetching page 1 leaves instance 0 alone. -/
theorem instances_separate_two : (twoPages.1.map Prod.snd).Nodup ∧
    ∀ ans s', twoPages.2.exec .debug (.fetchPg 1) = .ok (ans, s') →
      s'.bpmList (slot twoInstances 0) = twoPages.2.bpmList (slot twoInstances 0) :=
  have h := instances_separate twoPages_reachable
  ⟨h.2.2.1, fun ans s' hrun => (h.2.2.2 (slot twoInstances 1) 1 (.fetchPg 1) (by decide) rfl).2 ans s' hrun _
    (by decide)⟩

end ParallelBufferPoolManager

end BusTub
