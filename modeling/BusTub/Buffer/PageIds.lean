/-
  The page ids that an instance hands out.

  `next_page_id_` starts at `instance_index_` and advances by `num_instances_`, as a signed 32-bit number; nothing
  looks whether it has run out.  `ValidatePageId` asserts that an id is congruent to the index, where `%` takes it as
  an unsigned 32-bit number.

  1. **`idAt`** is the id that exact arithmetic has for the k-th page.  The ids of every run are these numbers, cut
     to 32 bits (`Numbered.reachable`).

  2. **The first id from `2^31` on is wrong**: it is negative, or, if the stride jumps over the negative numbers as
     well, it fails the assertion, since no number between `2^31` and `2^32` divides `2^32` (`idAt_valid_iff`).

  3. `ids_hold_iff` — **the main result**: in a run of any length all ids are right exactly when all of them are
     below `2^31`.  Every pool that has a frame gets there (`ids_run_out`).
-/
import BusTub.Buffer.AnyCalls

set_option linter.unusedSectionVars false

namespace BusTub

open BufferPoolManagerInstance

/-! ## Cut to 32 bits -/

/-- Advancing a counter that has been cut to 32 bits. -/
theorem int32_step (x : Int) (n : ℕ) : int32 (int32 x + n) = int32 (x + n) := Int.bmod_add_bmod

/-- An unsigned number is not changed by the detour over a signed one. -/
theorem uint32_int32 (x : Int) : uint32 (int32 x) = uint32 x := Int.bmod_emod

theorem int32_negative {x : Int} (h0 : 2 ^ 31 ≤ x) (h1 : x < 2 ^ 32) : int32 x < 0 := by
  have hcut : int32 x = int32 (x - 2 ^ 32) := by
    have hsame : int32 (x - 2 ^ 32 + (2 ^ 32 : ℕ)) = int32 (x - 2 ^ 32) := Int.add_bmod_right _ _
    rw [← hsame]
    congr 1
    omega
  rw [hcut, int32_of_range (by omega) (by omega)]
  omega

/-- The ids that `AllocatePage` hands out, as long as the counter has not wrapped. -/
def PoolConfig.idAt (cfg : PoolConfig) (j : ℕ) : PageId := cfg.instanceIndex + cfg.numInstances * j

theorem PoolConfig.idAt_succ (cfg : PoolConfig) (j : ℕ) : cfg.idAt (j + 1) = cfg.idAt j + cfg.numInstances := by
  unfold idAt
  push_cast
  ring

theorem PoolConfig.idAt_lt (cfg : PoolConfig) {i j : ℕ} (h : i < j) : cfg.idAt i < cfg.idAt j := by
  have hpos : (0 : Int) < cfg.numInstances := Int.ofNat_lt.mpr (Nat.lt_of_le_of_lt (Nat.zero_le _) cfg.index_lt)
  exact Int.add_lt_add_left (Int.mul_lt_mul_of_pos_left (Int.ofNat_lt.mpr h) hpos) _

theorem PoolConfig.idAt_le (cfg : PoolConfig) {i j : ℕ} (h : i ≤ j) : cfg.idAt i ≤ cfg.idAt j := by
  rcases Nat.lt_or_eq_of_le h with hlt | rfl
  · exact Int.le_of_lt (cfg.idAt_lt hlt)
  · exact Int.le_refl _

theorem PoolConfig.idAt_injective (cfg : PoolConfig) : Function.Injective cfg.idAt := by
  intro i j he
  rcases Nat.lt_trichotomy i j with hlt | rfl | hlt
  · exact absurd he (Int.ne_of_lt (cfg.idAt_lt hlt))
  · rfl
  · exact absurd he.symm (Int.ne_of_lt (cfg.idAt_lt hlt))

namespace PoolConfig

variable (cfg : PoolConfig)

@[simp] theorem idAt_zero : cfg.idAt 0 = cfg.instanceIndex := by simp [idAt]

theorem idAt_mod (k : ℕ) : cfg.idAt k % cfg.numInstances = cfg.instanceIndex := by
  unfold idAt
  rw [Int.add_mul_emod_self_left]
  exact Int.emod_eq_of_lt (Int.natCast_nonneg _) (by exact_mod_cast cfg.index_lt)

/-- What an id has to be: not negative, and congruent to the index. -/
def ValidId (p : PageId) : Prop := 0 ≤ p ∧ uint32 p % cfg.numInstances = cfg.instanceIndex

/-- A stride above `2^31` does not divide `2^32`. -/
theorem not_dvd_two_pow {n : ℕ} (h0 : 2 ^ 31 < n) (h1 : n < 2 ^ 32) : ¬ (n : Int) ∣ 2 ^ 32 := by
  rintro ⟨m, hm⟩
  have hpos : (0 : Int) < n := by exact_mod_cast Nat.lt_trans (by decide) h0
  have hlow : (2 ^ 31 : Int) < n := by exact_mod_cast h0
  have hhigh : (n : Int) < 2 ^ 32 := by exact_mod_cast h1
  rcases lt_or_ge m 2 with hlt | hge
  · have hle : (n : Int) * m ≤ n * 1 := Int.mul_le_mul_of_nonneg_left (by omega) hpos.le
    omega
  · have hle : (n : Int) * 2 ≤ n * m := Int.mul_le_mul_of_nonneg_left hge hpos.le
    omega

/-- A number of the progression from `2^31` on is not an id when it is cut, if no earlier one is so large. -/
theorem not_validId {x : Int} (hmod : x % cfg.numInstances = cfg.instanceIndex) (hge : 2 ^ 31 ≤ x)
    (hlt : x < 2 ^ 31 + 2 ^ 32) (hjump : 2 ^ 32 ≤ x → 2 ^ 31 < cfg.numInstances) : ¬ cfg.ValidId (int32 x) := by
  rintro ⟨hnonneg, hsame⟩
  rcases lt_or_ge x (2 ^ 32) with hbelow | hover
  · -- it is negative as a signed number
    exact absurd (int32_negative hge hbelow) (not_lt.mpr hnonneg)
  · -- the stride went over all negative numbers at once, and the cut number has another residue
    have hcut : uint32 x = x - 2 ^ 32 := by
      unfold uint32
      omega
    rw [uint32_int32, hcut, ← hmod, Int.emod_eq_emod_iff_emod_sub_eq_zero] at hsame
    have hdvd := Int.dvd_of_emod_eq_zero hsame
    have hneg : x - 2 ^ 32 - x = -2 ^ 32 := by omega
    rw [hneg, Int.dvd_neg] at hdvd
    exact not_dvd_two_pow (hjump hover) cfg.instances_lt hdvd

/-- **An id is right as long as it is below `2^31`**, and the first one from there on is not. -/
theorem idAt_valid_iff {k : ℕ} (hbefore : ∀ j < k, cfg.idAt j < 2 ^ 31) :
    cfg.ValidId (int32 (cfg.idAt k)) ↔ cfg.idAt k < 2 ^ 31 := by
  have h0 : (0 : Int) ≤ cfg.idAt k := by
    unfold idAt
    positivity
  have hn : (cfg.numInstances : Int) < 2 ^ 32 := by exact_mod_cast cfg.instances_lt
  have hreach : (cfg.idAt k : Int) < 2 ^ 31 + cfg.numInstances := by
    cases k with
    | zero =>
      have hidx : (cfg.instanceIndex : Int) < cfg.numInstances := by exact_mod_cast cfg.index_lt
      rw [idAt_zero]
      linarith
    | succ j =>
      have hprev := hbefore j (Nat.lt_succ_self j)
      rw [idAt_succ]
      linarith
  constructor
  · intro hvalid
    apply Classical.byContradiction
    intro hge
    refine cfg.not_validId (cfg.idAt_mod k) (not_lt.mp hge) (by linarith) (fun hover => ?_) hvalid
    have hstride : (2 ^ 31 : Int) < cfg.numInstances := by linarith
    exact_mod_cast hstride
  · intro hlt
    unfold ValidId
    rw [uint32_int32, int32_of_range (by linarith) hlt, uint32_of_range h0 (by linarith)]
    exact ⟨h0, cfg.idAt_mod k⟩

/-- All ids of a run are right exactly when all of them are below `2^31`. -/
theorem all_valid_iff (n : ℕ) :
    (∀ k < n, cfg.ValidId (int32 (cfg.idAt k))) ↔ ∀ k < n, cfg.idAt k < 2 ^ 31 := by
  induction n with
  | zero => exact ⟨fun _ k hk => by omega, fun _ k hk => by omega⟩
  | succ n ih =>
    constructor
    · intro hall
      have hbefore := ih.mp fun k hk => hall k (by omega)
      intro k hk
      rcases Nat.lt_or_eq_of_le (Nat.le_of_lt_succ hk) with hlt | rfl
      · exact hbefore k hlt
      · exact (cfg.idAt_valid_iff hbefore).mp (hall k hk)
    · intro hall k hk
      exact (cfg.idAt_valid_iff fun j hj => hall j (by omega)).mpr (hall k hk)

end PoolConfig

namespace BufferPoolManagerInstance

variable {Disk Data : Type} [DiskManager Disk Data] [Zero Data]
variable {s s' : BufferPoolManagerInstance Disk Data} {c : Call} {ret : Return}

/-! ## When an id is allocated -/

/-- `NewPgImp` gets as far as `AllocatePage`. -/
def Allocates (s : BufferPoolManagerInstance Disk Data) : Prop :=
  ¬ s.cfg.poolSize ≤ firstUnpinned s.pages s.cfg.poolSize 0 ∧ ¬ (s.replacer.size = 0 ∧ s.freeList = [])

/-- It then does not matter what the caller's variable holds. -/
theorem Allocates.newPgImp_eq (h : s.Allocates) (b : Build) (page_id : PageId) :
    s.newPgImp b page_id = s.newPgImp b invalidPageId := by
  unfold newPgImp
  rw [if_neg h.1, if_neg h.2, if_neg h.1, if_neg h.2]

/-- `NewPgImp` returns the id that it allocates, if `ValidatePageId` lets it. -/
theorem Consistent.new_allocates (h : s.Consistent) (halloc : s.Allocates) (b : Build) (page_id : PageId) :
    (s.allocatePage b = .ok (s.nextPageId, s.bumped) ∧
      ∃ f s', s.newPgImp b page_id = .ok ((some f, s.nextPageId), s') ∧
        s.Effect .newPg (.page (some f) s.nextPageId) s') ∨
    (s.allocatePage b = .error .assertion ∧ s.newPgImp b page_id = .error .assertion) := by
  rw [halloc.newPgImp_eq]
  rcases newPgImp_effect h b with ⟨f, p, s', hrun, he⟩ | ⟨herr, hassert⟩
  · cases he with
    | newFull hfull =>
      -- with every frame pinned, or nothing to evict, the call returns before
      rcases hfull with hall | ⟨ht, hfree⟩
      · exact absurd ((scan_full_iff s).mpr hall) halloc.1
      · exact absurd ⟨by rw [LRUReplacer.size_eq, ht]; rfl, hfree⟩ halloc.2
    | @new f s₁ r hpick hr =>
      refine .inl ⟨?_, _, _, hrun, .new hpick hr⟩
      rcases allocatePage_eq b s with hok | herr
      · exact hok
      · exfalso
        unfold newPgImp at hrun
        rw [if_neg halloc.1, if_neg halloc.2, herr] at hrun
        cases hrun
  · exact .inr ⟨hassert, herr⟩

theorem new_without_allocation (hno : ¬ s.Allocates) (b : Build) (page_id : PageId) :
    s.newPgImp b page_id = .ok ((none, page_id), s) := by
  unfold newPgImp
  by_cases hscan : s.cfg.poolSize ≤ firstUnpinned s.pages s.cfg.poolSize 0
  · exact if_pos hscan
  · rw [if_neg hscan]
    apply if_pos
    apply Classical.byContradiction
    exact fun hempty => hno ⟨hscan, hempty⟩

/-- `ValidatePageId` asserts what it should. -/
theorem allocatePage_debug_iff :
    s.allocatePage .debug = .error .assertion ↔ ¬ uint32 s.nextPageId % s.cfg.numInstances = s.cfg.instanceIndex := by
  unfold allocatePage validatePageId
  by_cases hmod : uint32 s.nextPageId % s.cfg.numInstances = s.cfg.instanceIndex
  · simp [hmod, bind, Except.bind]
  · simp [hmod, assertThat, bind, Except.bind]

/-- A call creates no page, or one with the counter's value. -/
theorem Effect.counter_step (he : s.Effect c ret s') : newIds c ret = [] ∨
    (newIds c ret = [s.nextPageId] ∧ s'.nextPageId = int32 (s.nextPageId + s.cfg.numInstances)) := by
  cases he with
  | new hpick hr => exact .inr ⟨rfl, hpick.frame.2.2⟩
  | _ => exact .inl rfl

/-! ## The ids of a run -/

/-- The next `NewPgImp` hands out a non-negative id, and its assertion holds. -/
structure NextHolds (s : BufferPoolManagerInstance Disk Data) : Prop where
  nonneg : ∀ b page_id f p s', s.newPgImp b page_id = .ok ((some f, p), s') → 0 ≤ p
  asserted : ∀ page_id, s.newPgImp .debug page_id ≠ .error .assertion

/-- It does so exactly when it allocates nothing or the counter is a valid id. -/
theorem Consistent.nextHolds_iff (h : s.Consistent) :
    s.NextHolds ↔ (s.Allocates → s.cfg.ValidId s.nextPageId) := by
  constructor
  · intro hnext halloc
    rcases h.new_allocates halloc .debug invalidPageId with ⟨hok, f, s', hrun, -⟩ | ⟨-, herr⟩
    · refine ⟨hnext.nonneg .debug _ f _ s' hrun, ?_⟩
      apply Classical.byContradiction
      intro hmod
      rw [allocatePage_debug_iff.mpr hmod] at hok
      cases hok
    · exact absurd herr (hnext.asserted invalidPageId)
  · intro hvalid
    by_cases halloc : s.Allocates
    · obtain ⟨hnonneg, hmod⟩ := hvalid halloc
      refine ⟨fun b page_id f p s' hrun => ?_, fun page_id herr => ?_⟩
      · rcases h.new_allocates halloc b page_id with ⟨-, g, t, hrun', -⟩ | ⟨-, herr⟩
        · rw [hrun'] at hrun
          cases hrun
          exact hnonneg
        · rw [herr] at hrun
          cases hrun
      · rcases h.new_allocates halloc .debug page_id with ⟨-, g, t, hrun, -⟩ | ⟨hassert, -⟩
        · rw [hrun] at herr
          cases herr
        · exact allocatePage_debug_iff.mp hassert hmod
    · refine ⟨fun b page_id f p s' hrun => ?_, fun page_id herr => ?_⟩
      · rw [new_without_allocation halloc] at hrun
        cases hrun
      · rw [new_without_allocation halloc] at herr
        cases herr

end BufferPoolManagerInstance

namespace Session

variable {Disk Data : Type} [DiskManager Disk Data] [Zero Data]
variable {b : Build} {cfg : PoolConfig} {disk : Disk} {a a' : Session Disk Data}

/-- The ids of a run are those of exact arithmetic, cut to 32 bits. -/
structure Numbered (cfg : PoolConfig) (a : Session Disk Data) : Prop where
  counter : a.pool.nextPageId = int32 (cfg.idAt a.created.length)
  created : a.created = (List.range a.created.length).map fun k => int32 (cfg.idAt k)

theorem Numbered.step {c : Call} {ret : Return} (hn : Numbered cfg a) (hcfg : a.pool.cfg = cfg)
    (he : a.pool.Effect c ret a'.pool) (hcreated : a'.created = a.created ++ newIds c ret) : Numbered cfg a' := by
  rcases he.counter_step with hnew | ⟨hnew, hnext⟩
  · rw [hnew, List.append_nil] at hcreated
    exact ⟨by rw [he.counter_kept hnew, hcreated]; exact hn.counter, by rw [hcreated]; exact hn.created⟩
  · have hlen : a'.created.length = a.created.length + 1 := by
      rw [hcreated, hnew, List.length_append, List.length_singleton]
    refine ⟨?_, ?_⟩
    · rw [hnext, hlen, PoolConfig.idAt_succ, hn.counter, hcfg, int32_step]
    · rw [hlen, List.range_succ, List.map_append, ← hn.created, hcreated, hnew, hn.counter]
      rfl

theorem Numbered.reachable (h : (anyCalls b cfg disk).Reachable a) : Numbered cfg a := by
  have hsound : Numbered cfg a ∧ a.pool.cfg = cfg ∧ a.pool.Consistent := by
    refine h.invariant (I := fun a => Numbered cfg a ∧ a.pool.cfg = cfg ∧ a.pool.Consistent) ?_ ?_
    · rintro a rfl
      exact ⟨⟨by simp [create], by simp⟩, rfl, create_consistent cfg disk⟩
    · rintro a e a' ⟨hn, hcfg, hcon⟩ hstep
      cases e with
      | store f x =>
        obtain rfl := hstep
        exact ⟨⟨hn.counter, hn.created⟩, hcfg, hcon.store f x⟩
      | call c ret =>
        have he := exec_effect hcon hstep.1
        exact ⟨hn.step hcfg he hstep.2, (effect_cfg he).trans hcfg, hcon.step he⟩
  exact hsound.1

/-- **The ids of a run hold**: those that `NewPgImp` has returned are not negative and pass the test of
    `ValidatePageId`, and so does the one that it allocates next. -/
structure IdsHold (a : Session Disk Data) : Prop where
  returned : ∀ p ∈ a.created, 0 ≤ p ∧ a.pool.validatePageId .debug p = .ok ()
  next : a.pool.NextHolds

/-- **All ids of the run so far and of the next call are below `2^31`** in exact arithmetic: with `k` pages created
    before, the id is `instance_index_ + k * num_instances_`. -/
def InRange (cfg : PoolConfig) (a : Session Disk Data) : Prop :=
  (∀ k < a.created.length, cfg.idAt k < 2 ^ 31) ∧ (a.pool.Allocates → cfg.idAt a.created.length < 2 ^ 31)

/-- **The ids of a run hold exactly as long as they are below `2^31`**: for every pool and every run of any calls,
    of any length. -/
theorem ids_hold_iff (h : (anyCalls b cfg disk).Reachable a) : a.IdsHold ↔ InRange cfg a := by
  have hn := Numbered.reachable h
  obtain ⟨rfl, hcon⟩ := anyCalls_consistent h
  have hpast : (∀ p ∈ a.created, 0 ≤ p ∧ a.pool.validatePageId .debug p = .ok ()) ↔
      ∀ k < a.created.length, a.pool.cfg.idAt k < 2 ^ 31 := by
    rw [← PoolConfig.all_valid_iff]
    have hvalid : ∀ p, (0 ≤ p ∧ a.pool.validatePageId .debug p = .ok ()) ↔ a.pool.cfg.ValidId p := by
      intro p
      refine and_congr_right fun _ => ?_
      unfold validatePageId
      by_cases hmod : uint32 p % a.pool.cfg.numInstances = a.pool.cfg.instanceIndex
      · simp [hmod]
      · simp [hmod, assertThat]
    constructor
    · intro hall k hk
      apply (hvalid _).mp
      apply hall
      rw [hn.created]
      exact List.mem_map_of_mem (List.mem_range.mpr hk)
    · intro hall p hp
      rw [hn.created] at hp
      obtain ⟨k, hk, rfl⟩ := List.mem_map.mp hp
      exact (hvalid _).mpr (hall k (List.mem_range.mp hk))
  have hfuture : (∀ k < a.created.length, a.pool.cfg.idAt k < 2 ^ 31) →
      (a.pool.NextHolds ↔ (a.pool.Allocates → a.pool.cfg.idAt a.created.length < 2 ^ 31)) := by
    intro hbefore
    rw [hcon.nextHolds_iff, hn.counter, PoolConfig.idAt_valid_iff _ hbefore]
  constructor
  · rintro ⟨hreturned, hnext⟩
    have hbefore := hpast.mp hreturned
    exact ⟨hbefore, (hfuture hbefore).mp hnext⟩
  · rintro ⟨hbefore, hnext⟩
    exact ⟨hpast.mpr hbefore, (hfuture hbefore).mpr hnext⟩

/-- Two pages are created, 0 and 1, and the next one is 2. -/
theorem ids_hold_iff_two : secondPage.created = [0, 1] ∧ secondPage.pool.Allocates ∧ secondPage.IdsHold :=
  ⟨by decide +kernel, by unfold Allocates; decide +kernel,
    (ids_hold_iff secondPage_reachable).mpr ⟨by decide +kernel, fun _ => by decide +kernel⟩⟩

/-! ## Every pool runs out of ids -/

/-- A run has created `k` pages, and the pool has a frame for the next one. -/
structure Ready (b : Build) (cfg : PoolConfig) (disk : Disk) (k : ℕ) (a : Session Disk Data) : Prop where
  reachable : (anyCalls b cfg disk).Reachable a
  created_length : a.created.length = k
  allocates : a.pool.Allocates

theorem allocates_of_unpinned {s : BufferPoolManagerInstance Disk Data} {f : FrameId} (hf : s.inPool f)
    (h0 : (s.pages f).pinCount = 0) (hmem : f ∈ s.freeList ∨ f ∈ s.replacer.tracked) : s.Allocates := by
  constructor
  · rw [scan_full_iff]
    exact fun hall => hall f hf h0
  · rw [LRUReplacer.size_eq, List.length_eq_zero_iff]
    rintro ⟨ht, hfree⟩
    rw [ht, hfree] at hmem
    simp at hmem

theorem Ready.init (b : Build) (disk : Disk) (hpool : 0 < cfg.poolSize) :
    Ready b cfg disk 0 (⟨[], create cfg disk⟩ : Session Disk Data) := by
  refine ⟨.init rfl, rfl, allocates_of_unpinned (frame_zero hpool) rfl (.inl ?_)⟩
  exact List.mem_map.mpr ⟨0, List.mem_range.mpr hpool, rfl⟩

/-- With a valid id, one page more can be created, and unpinned. -/
theorem Ready.next {k : ℕ} (h : Ready b cfg disk k a) (hvalid : cfg.ValidId a.pool.nextPageId) :
    ∃ a' : Session Disk Data, Ready b cfg disk (k + 1) a' := by
  obtain ⟨rfl, hcon⟩ := anyCalls_consistent h.reachable
  rcases hcon.new_allocates h.allocates b invalidPageId with ⟨-, f, s, hrun, he⟩ | ⟨hassert, -⟩
  · have hexec : a.pool.exec b .newPg = .ok (.page (some f) a.pool.nextPageId, s) := by
      simp [exec, hrun, bind, Except.bind]
    have hnew : (anyCalls b a.pool.cfg disk).Reachable ⟨a.created ++ [a.pool.nextPageId], s⟩ :=
      h.reachable.step (e := .call .newPg (.page (some f) a.pool.nextPageId)) ⟨hexec, rfl⟩
    have hs : s.Consistent := hcon.step he
    have hinvalid : a.pool.nextPageId ≠ invalidPageId := by
      intro hid
      have hnonneg := hvalid.1
      rw [hid] at hnonneg
      exact absurd hnonneg (by decide)
    -- the new page has its one pin, which is taken back
    have hpage : s.pageTable a.pool.nextPageId = some f ∧ (s.pages f).pinCount = 1 := by
      cases he with
      | new hpick hr => exact ⟨by simp, by simp⟩
    have hpos : 0 < s.pinCountOf a.pool.nextPageId := by
      rw [pinCountOf_some hpage.1, hpage.2]
      exact Int.one_pos
    obtain ⟨s', hunpin, heff⟩ := hs.unpin_succeeds b false hinvalid hpos
    have hback : (anyCalls b a.pool.cfg disk).Reachable ⟨a.created ++ [a.pool.nextPageId] ++ [], s'⟩ :=
      hnew.step (e := .call (.unpinPg a.pool.nextPageId false) (.flag true)) ⟨hunpin, rfl⟩
    refine ⟨_, hback, ?_, ?_⟩
    · rw [List.append_nil, List.length_append, h.created_length, List.length_singleton]
    · have hin := hs.mapped_inPool _ f hpage.1
      cases heff with
      | unpin hp h0 h1 =>
        rw [hpage.1, Option.some.injEq] at hp
        rw [← hp] at h1
        exact absurd hpage.2 h1
      | unpinLast hp h1 hr =>
        rw [hpage.1, Option.some.injEq] at hp
        subst hp
        refine allocates_of_unpinned (f := f) hin (by simp) (.inr ?_)
        show f ∈ LRUReplacer.tracked _
        rw [hr.tracked]
        exact List.mem_cons_self ..
  · exfalso
    cases b with
    | debug => exact allocatePage_debug_iff.mp hassert hvalid.2
    | ndebug => cases hassert

/-- **As long as the ids are below `2^31`, pages can be created.** -/
theorem ready (b : Build) (cfg : PoolConfig) (disk : Disk) (hpool : 0 < cfg.poolSize) (k : ℕ)
    (hbelow : ∀ j < k, cfg.idAt j < 2 ^ 31) : ∃ a : Session Disk Data, Ready b cfg disk k a := by
  induction k with
  | zero => exact ⟨_, Ready.init b disk hpool⟩
  | succ k ih =>
    obtain ⟨a, ha⟩ := ih fun j hj => hbelow j (by omega)
    apply ha.next
    rw [(Numbered.reachable ha.reachable).counter, ha.created_length, PoolConfig.idAt_valid_iff]
    · exact hbelow k (Nat.lt_succ_self k)
    · exact fun j hj => hbelow j (by omega)

/-- **Every pool with a frame runs out of ids**: some run leads to a state in which the next id does not hold. -/
theorem ids_run_out (b : Build) (cfg : PoolConfig) (disk : Disk) (hpool : 0 < cfg.poolSize) :
    ∃ a : Session Disk Data, (anyCalls b cfg disk).Reachable a ∧ ¬ a.IdsHold := by
  have hover : ∃ k, ¬ cfg.idAt k < 2 ^ 31 := by
    refine ⟨2 ^ 31, ?_⟩
    have hstride : (1 : Int) ≤ cfg.numInstances := by
      exact_mod_cast Nat.lt_of_le_of_lt (Nat.zero_le _) cfg.index_lt
    have hidx : (0 : Int) ≤ cfg.instanceIndex := Int.natCast_nonneg _
    unfold PoolConfig.idAt
    push_cast
    linarith
  classical
  have hbelow : ∀ j < Nat.find hover, cfg.idAt j < 2 ^ 31 := by
    intro j hj
    by_contra hno
    exact Nat.find_min hover hj hno
  obtain ⟨a, ha⟩ : ∃ a : Session Disk Data, Ready b cfg disk (Nat.find hover) a := ready b cfg disk hpool _ hbelow
  refine ⟨a, ha.reachable, fun hhold => ?_⟩
  have hrange := (ids_hold_iff ha.reachable).mp hhold
  have hlt := hrange.2 ha.allocates
  rw [ha.created_length] at hlt
  exact Nat.find_spec hover hlt

/-- A pool of one frame that belongs to no parallel pool: after `2^31` times `NewPgImp` and `UnpinPgImp`, the next
    `NewPgImp` returns the id `-2^31`. -/
theorem ids_not_hold : ∃ a : Session (PageId → ℕ) ℕ,
    (anyCalls .debug ⟨1, 1, 0, by decide, by decide⟩ fun _ => 0).Reachable a ∧ a.created.length = 2 ^ 31 ∧
      (∃ f s', a.pool.newPgImp .debug invalidPageId = .ok ((some f, -2 ^ 31), s')) ∧ ¬ a.IdsHold := by
  have hid : ∀ j : ℕ, PoolConfig.idAt ⟨1, 1, 0, by decide, by decide⟩ j = (j : Int) := by
    intro j
    simp [PoolConfig.idAt]
  obtain ⟨a, ha⟩ : ∃ a : Session (PageId → ℕ) ℕ,
      Ready .debug ⟨1, 1, 0, by decide, by decide⟩ (fun _ => 0) (2 ^ 31) a := by
    apply ready _ _ _ Nat.one_pos
    intro j hj
    rw [hid]
    exact_mod_cast hj
  obtain ⟨hcfg, hcon⟩ := anyCalls_consistent ha.reachable
  have hcounter : a.pool.nextPageId = -2 ^ 31 := by
    rw [(Numbered.reachable ha.reachable).counter, ha.created_length, hid]
    decide
  have hrun : ∃ f s', a.pool.newPgImp .debug invalidPageId = .ok ((some f, -2 ^ 31), s') := by
    rcases hcon.new_allocates ha.allocates .debug invalidPageId with ⟨-, f, s', hrun, -⟩ | ⟨hassert, -⟩
    · rw [hcounter] at hrun
      exact ⟨f, s', hrun⟩
    · refine absurd ?_ (allocatePage_debug_iff.mp hassert)
      rw [hcounter, hcfg]
      decide
  refine ⟨a, ha.reachable, ha.created_length, hrun, fun hhold => ?_⟩
  obtain ⟨f, s', hrun⟩ := hrun
  exact absurd (hhold.next.nonneg .debug invalidPageId f _ s' hrun) (by decide)

end Session

end BusTub
