/-
  Where the parallel pool puts a new page.

  `ParallelBufferPoolManager::NewPgImp` asks its instances in turn, from `start_idx_` on, and takes the first page
  that it gets.

  1. **Apart from the disk.**  The disk is shared, and the `disk` field of an instance is never read; so what an
     instance is, and whether a call has changed it, is said by `apartFromDisk`.

  2. **The instances asked.**  The loop is written over the way to ask an instance (`newPgLoopOver`); asking with a
     pencil in hand gives the list of the instances on which `NewPage` was called (`newPgImpNoting`), and changes
     nothing else (`newPgImp_noting`).

  3. `new_in_first_with_room` — **the main result**: a new page comes from the first instance, in cyclic order, that
     has a frame without a pin, and if there is none nothing has changed.  Its run invariant is that every instance
     keeps the invariant of a single pool (`Pooled.reachable`).
-/
import BusTub.Buffer.Parallel
import BusTub.Buffer.Victims
import Mathlib.Data.Nat.ModEq

set_option linter.unusedSectionVars false

namespace BusTub

open BufferPoolManagerInstance (Call Return)

namespace BufferPoolManagerInstance

variable {Disk Data : Type} [DiskManager Disk Data] [Zero Data]

/-- All of an instance but the disk. -/
def apartFromDisk (t : BufferPoolManagerInstance Disk Data) : BufferPoolManagerInstance Unit Data :=
  { cfg := t.cfg
    nextPageId := t.nextPageId
    pages := t.pages
    pageTable := t.pageTable
    replacer := t.replacer
    freeList := t.freeList
    disk := () }

variable {t t' : BufferPoolManagerInstance Disk Data}

/-- On one disk they are the same. -/
theorem eq_of_apartFromDisk (h : t'.apartFromDisk = t.apartFromDisk) (d : Disk) :
    ({ t' with disk := d } : BufferPoolManagerInstance Disk Data) = { t with disk := d } := by
  cases t
  cases t'
  simp only [apartFromDisk, mk.injEq, and_true] at h
  obtain ⟨rfl, rfl, rfl, rfl, rfl, rfl⟩ := h
  rfl

/-- The invariant of an instance does not speak of the disk. -/
theorem Inv.onDisk (h : t.Inv) (d : Disk) : ({ t with disk := d } : BufferPoolManagerInstance Disk Data).Inv :=
  { h.toConsistent with backed := h.backed, past := h.past }

/-- So it passes between two states that differ in the disk only. -/
theorem Inv.of_apartFromDisk (h : t.Inv) (he : t'.apartFromDisk = t.apartFromDisk) : t'.Inv := by
  have hsame : t' = { t with disk := t'.disk } := eq_of_apartFromDisk he t'.disk
  rw [hsame]
  exact h.onDisk _

end BufferPoolManagerInstance

namespace ParallelBufferPoolManager

variable {cfg : ParallelConfig} {Disk Data : Type} [DiskManager Disk Data] [Zero Data]
variable {b : Build} {s s' s₁ : ParallelBufferPoolManager cfg Disk Data} {i : Fin cfg.numInstances} {c : Call}
  {ans : Answer cfg}

/-! ## The instances asked -/

/-- The loop of `NewPgImp` over any way to call `NewPage` on an instance. -/
def newPgLoopOver {σ : Type} (call : Fin cfg.numInstances → σ → Except Fault (Answer cfg × σ)) :
    (remaining idx : ℕ) → σ → Except Fault (Answer cfg × σ)
  | 0, _, s => .ok (.page none invalidPageId, s)
  | remaining + 1, idx, s => do
    let (ret, s) ← call (slot cfg idx) s
    match ret with
    | .page none _ => newPgLoopOver call remaining (idx + 1) s
    | my_page => .ok (my_page, s)

/-- Call `NewPage` on an instance, and note which. -/
def askNoting (b : Build) (i : Fin cfg.numInstances)
    (x : List (Fin cfg.numInstances) × ParallelBufferPoolManager cfg Disk Data) :
    Except Fault (Answer cfg × List (Fin cfg.numInstances) × ParallelBufferPoolManager cfg Disk Data) := do
  let (ret, s) ← x.2.onInstance b i .newPg
  .ok (ret, x.1 ++ [i], s)

/-- `NewPgImp`, with the instances on which it has called `NewPage`. -/
def newPgImpNoting (b : Build) (s : ParallelBufferPoolManager cfg Disk Data) :
    Except Fault (Answer cfg × List (Fin cfg.numInstances) × ParallelBufferPoolManager cfg Disk Data) := do
  let bound := (s.startIdx + cfg.numInstances) % 2 ^ 32
  let (my_page, asked, s) ← newPgLoopOver (askNoting b) (bound - s.startIdx) s.startIdx ([], s)
  .ok (my_page, asked, { s with startIdx := (s.startIdx + 1) % 2 ^ 32 % cfg.numInstances })

/-- Noting changes nothing: the loop is the one of `NewPgImp`, with the list left out. -/
theorem newPgLoop_noting : ∀ (remaining idx : ℕ)
    (x : List (Fin cfg.numInstances) × ParallelBufferPoolManager cfg Disk Data),
    newPgLoop b remaining idx x.2 =
      (newPgLoopOver (askNoting b) remaining idx x).map fun y => (y.1, y.2.2)
  | 0, idx, x => rfl
  | remaining + 1, idx, x => by
    unfold newPgLoop newPgLoopOver askNoting
    cases hone : x.2.onInstance b (slot cfg idx) .newPg with
    | error e => rfl
    | ok y =>
      obtain ⟨ret, s₁⟩ := y
      cases ret with
      | page frame p =>
        cases frame with
        | none => exact newPgLoop_noting remaining (idx + 1) (x.1 ++ [slot cfg idx], s₁)
        | some f => rfl
      | flag res => rfl
      | void => rfl

/-- **The method is the noting one with the list left out.** -/
theorem newPgImp_noting (b : Build) (s : ParallelBufferPoolManager cfg Disk Data) :
    s.newPgImp b = (s.newPgImpNoting b).map fun y => (y.1, y.2.2) := by
  unfold newPgImp newPgImpNoting
  simp only [newPgLoop_noting _ _ ([], s), bind, Except.bind]
  cases newPgLoopOver (askNoting b) ((s.startIdx + cfg.numInstances) % 2 ^ 32 - s.startIdx) s.startIdx ([], s) with
  | error e => rfl
  | ok y => rfl

/-- The loop that notes whom it asks answers and leaves what the loop of the source does. -/
theorem newPgImp_of_noting {asked : List (Fin cfg.numInstances)} (hrun : s.newPgImpNoting b = .ok (ans, asked, s')) :
    s.newPgImp b = .ok (ans, s') := by
  rw [newPgImp_noting, hrun]
  rfl

/-! ## Asking one instance -/

/-- Every frame of instance `i` is pinned. -/
def Full (s : ParallelBufferPoolManager cfg Disk Data) (i : Fin cfg.numInstances) : Prop :=
  ∀ f, (s.bpmList i).inPool f → 0 < ((s.bpmList i).pages f).pinCount

/-- Neither an instance nor the disk is different. -/
structure Unchanged (s s' : ParallelBufferPoolManager cfg Disk Data) : Prop where
  disk : s'.disk = s.disk
  instances : ∀ i, (s'.bpmList i).apartFromDisk = (s.bpmList i).apartFromDisk

/-- `NewPage` of instance `i` has put its next page into frame `f`, and the other instances are as they were. -/
structure CreatedIn (b : Build) (s s' : ParallelBufferPoolManager cfg Disk Data) (i : Fin cfg.numInstances)
    (f : FrameId) : Prop where
  call : ∃ t, (s.instanceOn i).exec b .newPg = .ok (.page (some f) (s.bpmList i).nextPageId, t) ∧
    s'.bpmList i = t ∧ s'.disk = t.disk
  others : ∀ j, j ≠ i → (s'.bpmList j).apartFromDisk = (s.bpmList j).apartFromDisk

/-- Nothing has happened yet. -/
theorem Unchanged.refl (s : ParallelBufferPoolManager cfg Disk Data) : Unchanged s s := ⟨rfl, fun _ => rfl⟩

/-- Two stretches in which nothing happens are one. -/
theorem Unchanged.trans (h : Unchanged s s₁) (h' : Unchanged s₁ s') : Unchanged s s' :=
  ⟨h'.disk.trans h.disk, fun i => (h'.instances i).trans (h.instances i)⟩

/-- Each instance stands as before on the shared disk. -/
theorem Unchanged.instanceOn (h : Unchanged s s₁) (i : Fin cfg.numInstances) : s₁.instanceOn i = s.instanceOn i := by
  unfold ParallelBufferPoolManager.instanceOn
  rw [h.disk]
  exact BufferPoolManagerInstance.eq_of_apartFromDisk (h.instances i) s.disk

/-- Each instance has its parameters, its counter and its frames as before. -/
theorem Unchanged.fields (h : Unchanged s s₁) (i : Fin cfg.numInstances) :
    (s₁.bpmList i).cfg = (s.bpmList i).cfg ∧ (s₁.bpmList i).nextPageId = (s.bpmList i).nextPageId ∧
      (s₁.bpmList i).pages = (s.bpmList i).pages := by
  have hsame := h.instances i
  unfold BufferPoolManagerInstance.apartFromDisk at hsame
  rw [BufferPoolManagerInstance.mk.injEq] at hsame
  exact ⟨hsame.1, hsame.2.1, hsame.2.2.1⟩

/-- An instance is full before when it is after. -/
theorem Unchanged.full_iff (h : Unchanged s s₁) (i : Fin cfg.numInstances) : s₁.Full i ↔ s.Full i := by
  obtain ⟨hcfg, -, hpages⟩ := h.fields i
  unfold Full BufferPoolManagerInstance.inPool
  rw [hcfg, hpages]

/-- A page created after a stretch in which nothing happens is created from its start. -/
theorem Unchanged.createdIn (h : Unchanged s s₁) {f : FrameId} (hc : CreatedIn b s₁ s' i f) : CreatedIn b s s' i f := by
  obtain ⟨t, hexec, hi, hd⟩ := hc.call
  rw [h.instanceOn i, (h.fields i).2.1] at hexec
  exact ⟨⟨t, hexec, hi, hd⟩, fun j hj => (hc.others j hj).trans (h.instances j)⟩

/-- Every instance keeps the invariant of a single pool, and its next id passes the test of `ValidatePageId`. -/
structure Pooled (s : ParallelBufferPoolManager cfg Disk Data) : Prop where
  inv : ∀ i, (s.bpmList i).Inv
  valid : ∀ i, uint32 (s.bpmList i).nextPageId % (s.bpmList i).cfg.numInstances = (s.bpmList i).cfg.instanceIndex

/-- The invariants of the instances pass over such a stretch. -/
theorem Pooled.of_unchanged (h : s.Pooled) (hsame : Unchanged s s₁) : s₁.Pooled := by
  refine ⟨fun i => (h.inv i).of_apartFromDisk (hsame.instances i), fun i => ?_⟩
  obtain ⟨hcfg, hnext, -⟩ := hsame.fields i
  rw [hcfg, hnext]
  exact h.valid i

/-- The other instances are the same after a call of one, apart from the disk. -/
theorem onInstance_others (h : s.onInstance b i c = .ok (ans, s')) {j : Fin cfg.numInstances} (hj : j ≠ i) :
    (s'.bpmList j).apartFromDisk = (s.bpmList j).apartFromDisk := by
  rw [onInstance_frame h hj]

/-- **An instance that is asked for a page** says no if all its frames are pinned, and nothing has changed; else it
    creates the page. -/
theorem Pooled.ask (h : s.Pooled) (b : Build) (i : Fin cfg.numInstances) :
    (s.Full i ∧ ∃ s₁, s.onInstance b i .newPg = .ok (.page none invalidPageId, s₁) ∧ Unchanged s s₁ ∧
      s₁.startIdx = s.startIdx) ∨
    (¬ s.Full i ∧ ∃ f s₁, s.onInstance b i .newPg = .ok (.page (some (i, f)) (s.bpmList i).nextPageId, s₁) ∧
      CreatedIn b s s₁ i f ∧ s₁.startIdx = s.startIdx) := by
  have hinv : (s.instanceOn i).Inv := (h.inv i).onDisk s.disk
  rcases BufferPoolManagerInstance.exec_total (b := b) hinv.toConsistent .newPg with
    ⟨ret, t, hexec, he⟩ | ⟨-, -, hassert⟩
  · have hrun : s.onInstance b i .newPg = .ok (.ofInstance i ret,
        { s with bpmList := Function.update s.bpmList i t, disk := t.disk }) := by
      unfold onInstance
      rw [hexec]
      rfl
    cases ret with
    | page frame p =>
      have hfull := hinv.new_none_iff he
      cases frame with
      | none =>
        cases he with
        | newFull =>
          refine .inl ⟨hfull.mp rfl, _, hrun, ⟨rfl, fun j => ?_⟩, rfl⟩
          by_cases hj : j = i
          · subst hj
            show (Function.update s.bpmList j (s.instanceOn j) j).apartFromDisk = _
            rw [Function.update_self]
            rfl
          · exact onInstance_others hrun hj
      | some f =>
        have hp : p = (s.bpmList i).nextPageId := by
          cases he with
          | new => rfl
        subst hp
        refine .inr ⟨fun hno => ?_, f, _, hrun, ⟨⟨t, hexec, ?_, rfl⟩, fun j => onInstance_others hrun⟩, rfl⟩
        · exact absurd (hfull.mpr hno) (Option.some_ne_none f)
        · exact Function.update_self ..
    | flag res => cases he
    | void => cases he
  · exfalso
    unfold BufferPoolManagerInstance.allocatePage BufferPoolManagerInstance.validatePageId at hassert
    have hvalid : uint32 (s.instanceOn i).nextPageId % (s.instanceOn i).cfg.numInstances =
        (s.instanceOn i).cfg.instanceIndex := h.valid i
    simp [hvalid, bind, Except.bind] at hassert

/-! ## The loop -/

/-- The instances asked by a loop that makes `n` calls from `idx` on. -/
def inTurn (cfg : ParallelConfig) (idx n : ℕ) : List (Fin cfg.numInstances) :=
  (List.range n).map fun k => slot cfg (idx + k)

/-- The instances in turn: the one whose turn it is, then those after it. -/
theorem inTurn_succ (cfg : ParallelConfig) (idx n : ℕ) :
    inTurn cfg idx (n + 1) = slot cfg idx :: inTurn cfg (idx + 1) n := by
  unfold inTurn
  rw [List.range_succ_eq_map, List.map_cons, List.map_map, Nat.add_zero]
  congr 1
  apply List.map_congr_left
  intro k _
  show slot cfg (idx + (k + 1)) = slot cfg (idx + 1 + k)
  congr 1
  omega

/-- Fewer than `num_instances_` steps from each other, two slots are different. -/
theorem slot_inj {idx j k : ℕ} (hj : j < cfg.numInstances) (hk : k < cfg.numInstances)
    (h : slot cfg (idx + j) = slot cfg (idx + k)) : j = k := by
  have hmod : idx + j ≡ idx + k [MOD cfg.numInstances] := congrArg Fin.val h
  have hmod' := Nat.ModEq.add_left_cancel' idx hmod
  unfold Nat.ModEq at hmod'
  rwa [Nat.mod_eq_of_lt hj, Nat.mod_eq_of_lt hk] at hmod'

/-- **No instance is asked twice.** -/
theorem inTurn_nodup {idx n : ℕ} (hn : n ≤ cfg.numInstances) : (inTurn cfg idx n).Nodup := by
  apply List.Nodup.map_on _ List.nodup_range
  intro j hj k hk he
  rw [List.mem_range] at hj hk
  exact slot_inj (by omega) (by omega) he

/-- **Every instance is a slot of the circle.** -/
theorem slot_surj (cfg : ParallelConfig) (idx : ℕ) (i : Fin cfg.numInstances) :
    ∃ k < cfg.numInstances, slot cfg (idx + k) = i := by
  have hn := cfg.instances_pos
  have hi := i.isLt
  have hr := Nat.mod_lt idx hn
  -- as many steps as it takes from the slot of `idx` up to `i`, or around
  refine ⟨(i + (cfg.numInstances - idx % cfg.numInstances)) % cfg.numInstances, Nat.mod_lt _ hn, Fin.ext ?_⟩
  show (idx + (i + (cfg.numInstances - idx % cfg.numInstances)) % cfg.numInstances) % cfg.numInstances = i
  rw [Nat.add_mod_mod, Nat.add_mod, ← Nat.add_mod_mod]
  have hsum : idx % cfg.numInstances + (i + (cfg.numInstances - idx % cfg.numInstances)) =
      i + cfg.numInstances := by omega
  rw [Nat.add_mod_mod, Nat.add_mod_mod, hsum, Nat.add_mod_right]
  exact Nat.mod_eq_of_lt hi

/-- **The loop asks in turn**, until an instance has room; those that had none are as they were. -/
theorem Pooled.newPgLoop_spec (b : Build) : ∀ (remaining idx : ℕ)
    (x : List (Fin cfg.numInstances) × ParallelBufferPoolManager cfg Disk Data), x.2.Pooled →
    ((∀ k < remaining, x.2.Full (slot cfg (idx + k))) ∧
      ∃ s', newPgLoopOver (askNoting b) remaining idx x =
          .ok (.page none invalidPageId, x.1 ++ inTurn cfg idx remaining, s') ∧
        Unchanged x.2 s' ∧ s'.startIdx = x.2.startIdx) ∨
    (∃ k < remaining, (∀ j < k, x.2.Full (slot cfg (idx + j))) ∧ ¬ x.2.Full (slot cfg (idx + k)) ∧
      ∃ f s', newPgLoopOver (askNoting b) remaining idx x =
          .ok (.page (some (slot cfg (idx + k), f)) (x.2.bpmList (slot cfg (idx + k))).nextPageId,
            x.1 ++ inTurn cfg idx (k + 1), s') ∧
        CreatedIn b x.2 s' (slot cfg (idx + k)) f ∧ s'.startIdx = x.2.startIdx)
  | 0, idx, x, h => by
    left
    refine ⟨fun k hk => absurd hk (Nat.not_lt_zero k), x.2, ?_, .refl _, rfl⟩
    unfold inTurn
    rw [List.range_zero, List.map_nil, List.append_nil]
    rfl
  | remaining + 1, idx, x, h => by
    rcases h.ask b (slot cfg idx) with ⟨hfull, s₁, hone, hsame, hstart⟩ | ⟨hroom, f, s₁, hone, hc, hstart⟩
    · -- the loop goes on from a pool that is the same
      have hloop : newPgLoopOver (askNoting b) (remaining + 1) idx x =
          newPgLoopOver (askNoting b) remaining (idx + 1) (x.1 ++ [slot cfg idx], s₁) := by
        rw [newPgLoopOver, askNoting, hone]
        rfl
      -- those asked later were full from the start, since nothing has changed
      have hfrom : ∀ {n : ℕ}, (∀ k < n, s₁.Full (slot cfg (idx + 1 + k))) →
          ∀ k < n + 1, x.2.Full (slot cfg (idx + k)) := by
        intro n hall k hk
        cases k with
        | zero => exact hfull
        | succ k =>
          have hk' := (hsame.full_iff _).mp (hall k (by omega))
          rwa [Nat.add_right_comm] at hk'
      rcases newPgLoop_spec b remaining (idx + 1) (x.1 ++ [slot cfg idx], s₁) (h.of_unchanged hsame) with
        ⟨hall, s', hrun, hsame', hstart'⟩ | ⟨k, hk, hall, hroom, f, s', hrun, hc, hstart'⟩
      · refine .inl ⟨hfrom hall, s', ?_, hsame.trans hsame', hstart'.trans hstart⟩
        rw [hloop, hrun, List.append_assoc, List.singleton_append, inTurn_succ cfg idx]
      · have hslot : slot cfg (idx + 1 + k) = slot cfg (idx + (k + 1)) := by
          congr 1
          omega
        rw [hslot] at hroom hrun hc
        refine .inr ⟨k + 1, by omega, hfrom hall, fun hno => hroom ((hsame.full_iff _).mpr hno), f, s', ?_,
          hsame.createdIn hc, hstart'.trans hstart⟩
        rw [hloop, hrun, List.append_assoc, List.singleton_append, inTurn_succ cfg idx, (hsame.fields _).2.1]
    · refine .inr ⟨0, by omega, fun j hj => absurd hj (Nat.not_lt_zero j), hroom, f, s₁, ?_, hc, hstart⟩
      -- the first one asked gives a page
      have htaken : inTurn cfg idx (0 + 1) = [slot cfg idx] := by
        rw [inTurn_succ]
        rfl
      rw [newPgLoopOver, askNoting, hone, htaken]
      rfl

/-! ## Every run of disciplined callers -/

/-- The runs in which only ids that `NewPgImp` has returned are fetched. -/
def disciplined (b : Build) (cfg : ParallelConfig) (disk : Disk) :
    StepSystem (List (Fin cfg.numInstances × PageId) × ParallelBufferPoolManager cfg Disk Data) (Event cfg Data) where
  init := (system b cfg disk).init
  step a e a' := (system b cfg disk).step a e a' ∧ ∀ p ans, e = .call (.fetchPg p) ans → p ∈ a.1.map Prod.snd

/-- What holds in every state of such a run. -/
structure Disciplined (created : List (Fin cfg.numInstances × PageId)) (s : ParallelBufferPoolManager cfg Disk Data) :
    Prop where
  sound : s.Sound created
  inv : ∀ i, (s.bpmList i).Inv
  start_lt : s.startIdx < cfg.numInstances

variable {created : List (Fin cfg.numInstances × PageId)}

/-- The next id of every instance passes the test of `ValidatePageId`. -/
theorem Disciplined.pooled (h : s.Disciplined created) : s.Pooled := by
  refine ⟨h.inv, fun i => ?_⟩
  have hrouted : (uint32 (s.bpmList i).nextPageId % cfg.numInstances).toNat = i :=
    congrArg Fin.val (h.sound.next_routed i)
  have hpos : (0 : Int) < cfg.numInstances := by exact_mod_cast cfg.instances_pos
  have hnonneg := Int.emod_nonneg (uint32 (s.bpmList i).nextPageId) hpos.ne'
  rw [h.sound.cfg_eq i]
  show uint32 (s.bpmList i).nextPageId % cfg.numInstances = i
  omega

/-- A created page is behind the counter of its instance. -/
theorem Sound.past (h : s.Sound created) {p : PageId} (hp : (i, p) ∈ created) : (s.instanceOn i).Past p := by
  obtain ⟨j, hj, hpj⟩ := h.created_lt (i, p) hp
  simp only at hj hpj
  intro k he
  have hcfg : (s.instanceOn i).cfg.numInstances = cfg.numInstances :=
    congrArg PoolConfig.numInstances (h.cfg_eq i)
  have hnext : (s.instanceOn i).nextPageId = i + cfg.numInstances * createdBy created i := h.unwrapped i
  have hpos : (0 : Int) < cfg.numInstances := by exact_mod_cast cfg.instances_pos
  rw [hcfg, hnext, hpj] at he
  have hmul : (cfg.numInstances : Int) * (createdBy created i + k - j) = 0 := by linarith
  have hlt : (j : Int) < createdBy created i := by exact_mod_cast hj
  rcases Int.mul_eq_zero.mp hmul with h0 | h0 <;> omega

/-- **A call of one instance keeps its invariant**, if the counters do not wrap and only created pages are fetched. -/
theorem Disciplined.inv_call (h : s.Disciplined created) {ret : Return} {t : BufferPoolManagerInstance Disk Data}
    (hexec : (s.instanceOn i).exec b c = .ok (ret, t)) (ht : s'.bpmList i = t)
    (hfetch : ∀ p, c = .fetchPg p → (i, p) ∈ created)
    (hu : Unwrapped (created ++ newIds c (.ofInstance i ret)) s') : t.Inv := by
  have hinv : (s.instanceOn i).Inv := (h.inv i).onDisk s.disk
  have he := BufferPoolManagerInstance.exec_effect hinv.toConsistent hexec
  refine hinv.step he (fun p hp => h.sound.past (hfetch p hp)) ?_
  have hold := h.sound.unwrapped i
  have hnew := hu i
  have hcount : createdBy (newIds c (.ofInstance i ret)) i = (BufferPoolManagerInstance.newIds c ret).length := by
    rw [newIds_ofInstance]
    unfold createdBy
    rw [List.countP_map]
    exact List.countP_eq_length.mpr fun p _ => by simp
  rw [ht, createdBy_append, hcount] at hnew
  show t.nextPageId = (s.bpmList i).nextPageId + (s.bpmList i).cfg.numInstances * _
  rw [hnew, hold, h.sound.cfg_eq i]
  show (i + cfg.numInstances * ((createdBy created i + (BufferPoolManagerInstance.newIds c ret).length : ℕ) : Int) : Int)
    = i + cfg.numInstances * createdBy created i + cfg.numInstances * _
  push_cast
  ring

/-- What the instances are after a call of one of them. -/
theorem inv_others {t : BufferPoolManagerInstance Disk Data} (hinv : ∀ j, (s.bpmList j).Inv) (hi : s'.bpmList i = t)
    (ht : t.Inv) (hothers : ∀ j, j ≠ i → (s'.bpmList j).apartFromDisk = (s.bpmList j).apartFromDisk)
    (j : Fin cfg.numInstances) : (s'.bpmList j).Inv := by
  by_cases hj : j = i
  · rw [hj, hi]
    exact ht
  · exact (hinv j).of_apartFromDisk (hothers j hj)

/-- A call that goes to one instance keeps every instance's invariant. -/
theorem Disciplined.onInstance (h : s.Disciplined created) (hrun : s.onInstance b i c = .ok (ans, s'))
    (hfetch : ∀ p, c = .fetchPg p → (i, p) ∈ created) (hu : Unwrapped (created ++ newIds c ans) s') :
    ∀ j, (s'.bpmList j).Inv := by
  have hothers := fun j (hj : j ≠ i) => onInstance_others hrun hj
  obtain ⟨ret, t, hexec, rfl, rfl⟩ := onInstance_inv hrun
  have hi : (Function.update s.bpmList i t) i = t := Function.update_self ..
  exact inv_others h.inv hi (h.inv_call hexec hi hfetch hu) hothers

/-- Flushing instance after instance changes nothing but the disk. -/
theorem flushAllLoop_kept : ∀ (its : List (Fin cfg.numInstances)) (s : ParallelBufferPoolManager cfg Disk Data),
    flushAllLoop b its s = .ok (ans, s') →
    s'.startIdx = s.startIdx ∧ ∀ i, (s'.bpmList i).apartFromDisk = (s.bpmList i).apartFromDisk
  | [], s, hrun => by
    cases hrun
    exact ⟨rfl, fun _ => rfl⟩
  | it :: rest, s, hrun => by
    obtain ⟨⟨ans₁, s₁⟩, hone, hrest⟩ := except_bind_inv hrun
    obtain ⟨hstart, hsame⟩ := flushAllLoop_kept rest s₁ hrest
    have hothers := fun j (hj : j ≠ it) => onInstance_others hone hj
    obtain ⟨ret, t, hexec, rfl, rfl⟩ := onInstance_inv hone
    cases hexec
    refine ⟨hstart, fun i => (hsame i).trans ?_⟩
    by_cases hi : i = it
    · subst hi
      show (Function.update s.bpmList i _ i).apartFromDisk = _
      rw [Function.update_self]
      rfl
    · exact hothers i hi

/-- A call that goes to one instance leaves `start_idx_`. -/
theorem onInstance_start (hrun : s.onInstance b i c = .ok (ans, s')) : s'.startIdx = s.startIdx := by
  obtain ⟨ret, t, -, -, rfl⟩ := onInstance_inv hrun
  rfl

/-- How many instances the loop may ask. -/
def rounds (s : ParallelBufferPoolManager cfg Disk Data) : ℕ := (s.startIdx + cfg.numInstances) % 2 ^ 32 - s.startIdx

/-- `NewPgImp` returns what its loop returns, and moves `start_idx_` on. -/
theorem newPgImpNoting_eq {asked : List (Fin cfg.numInstances)}
    (hloop : newPgLoopOver (askNoting b) s.rounds s.startIdx ([], s) = .ok (ans, asked, s₁)) :
    s.newPgImpNoting b =
      .ok (ans, asked, { s₁ with startIdx := (s₁.startIdx + 1) % 2 ^ 32 % cfg.numInstances }) := by
  unfold rounds at hloop
  unfold newPgImpNoting
  simp only [hloop, bind, Except.bind]

/-- **A call of the parallel pool keeps the invariant of every instance.** -/
theorem Disciplined.inv_exec (h : s.Disciplined created) (hrun : s.exec b c = .ok (ans, s'))
    (hfetch : ∀ p, c = .fetchPg p → p ∈ created.map Prod.snd) (hu : Unwrapped (created ++ newIds c ans) s') :
    ∀ j, (s'.bpmList j).Inv := by
  cases c with
  | newPg =>
    rcases h.pooled.newPgLoop_spec b s.rounds s.startIdx ([], s) with
      ⟨-, s₁, hloop, hsame, -⟩ | ⟨k, -, -, -, f, s₁, hloop, hc, -⟩
    · have hret := (newPgImp_of_noting (newPgImpNoting_eq hloop)).symm.trans hrun
      rw [Except.ok.injEq, Prod.mk.injEq] at hret
      obtain ⟨rfl, rfl⟩ := hret
      exact (h.pooled.of_unchanged hsame).inv
    · have hret := (newPgImp_of_noting (newPgImpNoting_eq hloop)).symm.trans hrun
      rw [Except.ok.injEq, Prod.mk.injEq] at hret
      obtain ⟨rfl, rfl⟩ := hret
      obtain ⟨t, hexec, hi, -⟩ := hc.call
      exact inv_others h.inv hi (h.inv_call hexec hi (fun p hp => by cases hp) hu) hc.others
  | fetchPg p =>
    refine h.onInstance hrun (fun q hq => ?_) hu
    cases hq
    obtain ⟨⟨j, q⟩, hmem, rfl⟩ := List.mem_map.mp (hfetch p rfl)
    rw [h.sound.creator hmem]
    exact hmem
  | flushAllPgs => exact fun j => (h.inv j).of_apartFromDisk ((flushAllLoop_kept _ s hrun).2 j)
  | unpinPg p d => exact h.onInstance hrun (fun q hq => by cases hq) hu
  | flushPg p => exact h.onInstance hrun (fun q hq => by cases hq) hu
  | deletePg p => exact h.onInstance hrun (fun q hq => by cases hq) hu

/-- `start_idx_` stays below `num_instances_`. -/
theorem exec_start (hrun : s.exec b c = .ok (ans, s')) (h : s.startIdx < cfg.numInstances) :
    s'.startIdx < cfg.numInstances := by
  cases c with
  | newPg =>
    obtain ⟨⟨my_page, s₁⟩, -, hrest⟩ := except_bind_inv hrun
    cases hrest
    exact Nat.mod_lt _ cfg.instances_pos
  | flushAllPgs =>
    rw [(flushAllLoop_kept _ s hrun).1]
    exact h
  | fetchPg p => exact (onInstance_start hrun).symm ▸ h
  | unpinPg p d => exact (onInstance_start hrun).symm ▸ h
  | flushPg p => exact (onInstance_start hrun).symm ▸ h
  | deletePg p => exact (onInstance_start hrun).symm ▸ h

variable {disk : Disk} {a : List (Fin cfg.numInstances × PageId) × ParallelBufferPoolManager cfg Disk Data}

/-- The invariant in every state of the system. -/
theorem Disciplined.reachable (h : (disciplined b cfg disk).Reachable a) : a.2.Disciplined a.1 := by
  refine h.invariant (I := fun a => a.2.Disciplined a.1) ?_ ?_
  · intro a ha
    have hsound := Sound.reachable (.init (M := system b cfg disk) ha)
    obtain ⟨rfl, -⟩ := ha
    exact ⟨hsound, fun i => BufferPoolManagerInstance.create_inv (cfg.forInstance i) disk, cfg.instances_pos⟩
  · rintro a e a' ha ⟨hstep, hfetch⟩
    cases e with
    | call c ans =>
      obtain ⟨hrun, hcreated, hu⟩ := hstep
      rw [hcreated] at hu ⊢
      have hsound := ha.sound.exec hrun hu
      refine ⟨hsound, ha.inv_exec hrun (fun p hp => ?_) hu, exec_start hrun ha.start_lt⟩
      exact hfetch p ans (by rw [hp])
    | store i f x =>
      obtain rfl := hstep
      refine ⟨ha.sound.store i f x, forall_update (P := fun _ t => t.Inv) ha.inv ((ha.inv i).store f x), ha.start_lt⟩

/-! ## The page of a new id -/

/-- **What `NewPgImp` did**: the answer, the instances it called `NewPage` on, and the pool afterwards. -/
structure FirstWithRoom (b : Build) (s s' : ParallelBufferPoolManager cfg Disk Data) (ans : Answer cfg)
    (asked : List (Fin cfg.numInstances)) : Prop where
  nullptr_iff : (∃ p, ans = .page none p) ↔ ∀ i, s.Full i
  unchanged : (∀ i, s.Full i) → Unchanged s s'
  created : ¬ (∀ i, s.Full i) → ∃ k < cfg.numInstances,
    (∀ j < k, s.Full (slot cfg (s.startIdx + j))) ∧ ¬ s.Full (slot cfg (s.startIdx + k)) ∧
    ∃ f, ans = .page (some (slot cfg (s.startIdx + k), f)) (s.bpmList (slot cfg (s.startIdx + k))).nextPageId ∧
      CreatedIn b s s' (slot cfg (s.startIdx + k)) f
  asked_once : asked.Nodup
  start_next : s'.startIdx = (s.startIdx + 1) % cfg.numInstances

/-- **A new page comes from the first instance with room.**  In every state of every run `NewPgImp` returns; it
    returns nullptr exactly when every frame of every instance is pinned, and has changed nothing then; else the page
    is in the first instance, in cyclic order from `start_idx_`, that has a frame without a pin. -/
theorem new_in_first_with_room (hn : cfg.numInstances < 2 ^ 31) (h : (disciplined b cfg disk).Reachable a) :
    ∃ ans asked s', a.2.newPgImpNoting b = .ok (ans, asked, s') ∧ a.2.newPgImp b = .ok (ans, s') ∧
      FirstWithRoom b a.2 s' ans asked := by
  have hd := Disciplined.reachable h
  have hlt := hd.start_lt
  have hrounds : a.2.rounds = cfg.numInstances := by
    unfold rounds
    rw [Nat.mod_eq_of_lt (by omega)]
    omega
  have hnext : ∀ {s₁ : ParallelBufferPoolManager cfg Disk Data}, s₁.startIdx = a.2.startIdx →
      (s₁.startIdx + 1) % 2 ^ 32 % cfg.numInstances = (a.2.startIdx + 1) % cfg.numInstances := by
    intro s₁ hstart
    rw [hstart, Nat.mod_eq_of_lt (show a.2.startIdx + 1 < 2 ^ 32 by omega)]
  rcases hd.pooled.newPgLoop_spec b a.2.rounds a.2.startIdx ([], a.2) with
    ⟨hall, s₁, hrun, hsame, hstart⟩ | ⟨k, hk, hbefore, hroom, f, s₁, hrun, hc, hstart⟩
  · have hnoting := newPgImpNoting_eq hrun
    have hfull : ∀ i, a.2.Full i := by
      intro i
      obtain ⟨k, hk, rfl⟩ := slot_surj cfg a.2.startIdx i
      exact hall k (by omega)
    refine ⟨_, _, _, hnoting, newPgImp_of_noting hnoting, ?_⟩
    exact
      { nullptr_iff := ⟨fun _ => hfull, fun _ => ⟨_, rfl⟩⟩
        unchanged := fun _ => ⟨hsame.disk, hsame.instances⟩
        created := fun hno => absurd hfull hno
        asked_once := by
          rw [List.nil_append, hrounds]
          exact inTurn_nodup (Nat.le_refl _)
        start_next := hnext hstart }
  · rw [hrounds] at hk
    have hnoting := newPgImpNoting_eq hrun
    have hnot : ¬ ∀ i, a.2.Full i := fun hall => hroom (hall _)
    refine ⟨_, _, _, hnoting, newPgImp_of_noting hnoting, ?_⟩
    exact
      { nullptr_iff := ⟨fun ⟨p, hp⟩ => (by cases hp), fun hall => absurd hall hnot⟩
        unchanged := fun hall => absurd hall hnot
        created := fun _ => ⟨k, hk, hbefore, hroom, f, rfl, ⟨hc.call, hc.others⟩⟩
        asked_once := by
          rw [List.nil_append]
          exact inTurn_nodup (by omega)
        start_next := hnext hstart }

/-- A call that fetches nothing is a step. -/
theorem disciplined_after {a : List (Fin cfg.numInstances × PageId) × ParallelBufferPoolManager cfg Disk Data}
    {x : Answer cfg} (h : (disciplined b cfg disk).Reachable a) (hc : ∀ p, c ≠ .fetchPg p)
    (hret : (a.2.exec b c).toOption.map Prod.fst = some x) (hu : Unwrapped (after b a c).1 (after b a c).2) :
    (disciplined b cfg disk).Reachable (after b a c) :=
  h.step (e := .call c x) ⟨step_after hret hu, fun p _ he => absurd (Event.call.inj he).1 (hc p)⟩

private def bothAsked : List (Fin twoInstances.numInstances) := [slot twoInstances 0, slot twoInstances 1]

/-- **Two instances of one frame each, with a page in both.**  There is no room for a third page; when page 1 is
    released, instance 0 is asked first and is full, and instance 1 has room. -/
theorem new_in_first_with_room_two :
    (∃ s', twoPages.2.newPgImpNoting .debug = .ok (.page none invalidPageId, bothAsked, s') ∧
      FirstWithRoom .debug twoPages.2 s' (.page none invalidPageId) bothAsked) ∧
    ∃ s', (after .debug twoPages (.unpinPg 1 false)).2.newPgImpNoting .debug =
        .ok (.page (some (slot twoInstances 1, 0)) 3, bothAsked, s') ∧
      FirstWithRoom .debug (after .debug twoPages (.unpinPg 1 false)).2 s'
        (.page (some (slot twoInstances 1, 0)) 3) bothAsked := by
  have hone : (disciplined .debug twoInstances (fun _ => 0 : PageId → Nat)).Reachable (after .debug noPages .newPg) :=
    disciplined_after (x := .page (some (slot twoInstances 0, 0)) 0) (.init ⟨rfl, fun i => by revert i; decide⟩) nofun
      (by decide) fun i => by revert i; decide
  have htwo : (disciplined .debug twoInstances (fun _ => 0 : PageId → Nat)).Reachable twoPages :=
    disciplined_after (x := .page (some (slot twoInstances 1, 0)) 1) hone nofun (by decide) fun i => by revert i; decide
  have hfree : (disciplined .debug twoInstances (fun _ => 0 : PageId → Nat)).Reachable
      (after .debug twoPages (.unpinPg 1 false)) :=
    disciplined_after (x := .flag true) htwo nofun (by decide +kernel) fun i => by revert i; decide +kernel
  constructor
  · obtain ⟨ans, asked, s', hrun, -, hfirst⟩ := new_in_first_with_room (by decide) htwo
    have hsee : (twoPages.2.newPgImpNoting .debug).toOption.map (fun x => (x.1, x.2.1)) =
        some (.page none invalidPageId, bothAsked) := by decide +kernel
    rw [hrun] at hsee
    obtain ⟨rfl, rfl⟩ := Prod.mk.inj (Option.some.inj hsee)
    exact ⟨s', hrun, hfirst⟩
  · obtain ⟨ans, asked, s', hrun, -, hfirst⟩ := new_in_first_with_room (by decide) hfree
    have hsee : ((after .debug twoPages (.unpinPg 1 false)).2.newPgImpNoting .debug).toOption.map
        (fun x => (x.1, x.2.1)) = some (.page (some (slot twoInstances 1, 0)) 3, bothAsked) := by decide +kernel
    rw [hrun] at hsee
    obtain ⟨rfl, rfl⟩ := Prod.mk.inj (Option.some.inj hsee)
    exact ⟨s', hrun, hfirst⟩

end ParallelBufferPoolManager

end BusTub
