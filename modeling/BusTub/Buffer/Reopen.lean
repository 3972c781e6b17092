/-
  Opening a pool on an existing database.

  The id counter of a fresh pool starts at `instance_index_` whatever is on disk, so a pool opened
  on a database hands out the ids of the pages that are already there.

  1. **A new page is safe** (`SafeNew`) when its id is neither on disk nor resident, the disk bytes
     of an existing page change at most by the write-back of its own dirty frame, and the page
     table keeps the entry of every frame that still holds its page.

  2. `new_safe_iff` — **the main result**: every `NewPgImp` of every run is safe exactly when the
     pool has no frame at all or no page on disk has an id the counter takes.

  One direction is the invariant of `Buffer.Invariant` with the old pages in the counter's past.
  The other runs `NewPgImp` and `UnpinPgImp` in turn until the counter reaches the page
  (`advance`).
-/
import BusTub.Buffer.Content

set_option linter.unusedSectionVars false

namespace BusTub

open BufferPoolManagerInstance

/-- A disk with the pages that exist on it; their ids are valid `page_id_t`s. -/
structure Database (Disk : Type) where
  disk : Disk
  existing : PageId → Prop
  valid : ∀ p, existing p → 0 ≤ p ∧ p < 2 ^ 31

namespace Database

variable {Disk Data : Type} [DiskManager Disk Data] [Zero Data]

/-- A page exists once it was there at the start or `NewPgImp` returned it. -/
def onDisk (db : Database Disk) (a : Session Disk Data) (p : PageId) : Prop :=
  db.existing p ∨ p ∈ a.created

/-- The runs of a fresh pool on `db`: any calls with any arguments, except that only existing pages
    are fetched, as long as the id counter has not wrapped. -/
def system (b : Build) (cfg : PoolConfig) (db : Database Disk) :
    StepSystem (Session Disk Data) (Event Data) where
  init a := a = ⟨[], create cfg db.disk⟩ ∧ a.Unwrapped
  step a e a' :=
    match e with
    | .call c ret =>
      a.pool.exec b c = .ok (ret, a'.pool) ∧ (∀ p, c = .fetchPg p → db.onDisk a p) ∧
        a'.created = a.created ++ newIds c ret ∧ a'.Unwrapped
    | .store f x => a' = ⟨a.created, a.pool.setPage f { a.pool.pages f with data := x }⟩

/-- No page on disk has an id that the counter takes. -/
def OutOfReach (cfg : PoolConfig) (db : Database Disk) : Prop :=
  ∀ p, db.existing p → ∀ j : Nat, p ≠ cfg.instanceIndex + cfg.numInstances * j

variable {b : Build} {cfg : PoolConfig} {db : Database Disk} {a a' : Session Disk Data}

/-! ## Out of reach, every new page is safe -/

/-- What holds in every state when the counter passes no old page. -/
structure Sound (cfg : PoolConfig) (db : Database Disk) (a : Session Disk Data) : Prop where
  inv : a.pool.Inv
  cfg_eq : a.pool.cfg = cfg
  unwrapped : a.Unwrapped
  onDisk_past : ∀ p, db.onDisk a p → a.pool.Past p

theorem Sound.init (hout : db.OutOfReach cfg) (h : (system b cfg db).init a) : Sound cfg db a := by
  obtain ⟨rfl, hu⟩ := h
  refine ⟨create_inv cfg db.disk, rfl, hu, ?_⟩
  rintro p (hp | hp)
  · intro j he
    have hu' : (create cfg db.disk : BufferPoolManagerInstance Disk Data).nextPageId =
        cfg.instanceIndex + cfg.numInstances * (0 : Nat) := hu
    refine hout p hp j ?_
    rw [he, hu']
    show (cfg.instanceIndex + cfg.numInstances * (0 : Nat) + j * cfg.numInstances : Int) = _
    push_cast
    ring
  · cases hp

theorem Sound.counts {c : Call} {ret : Return} (h : Sound cfg db a)
    (he : a.pool.Effect c ret a'.pool) (hcreated : a'.created = a.created ++ newIds c ret)
    (hu : a'.Unwrapped) : a.pool.CountsOn c ret a'.pool := by
  have hu₀ := h.unwrapped
  unfold Session.Unwrapped at hu hu₀
  unfold CountsOn
  rw [hu, hu₀, hcreated, Session.effect_cfg he, List.length_append]
  push_cast
  ring

theorem Sound.step {e : Event Data} (h : Sound cfg db a) (hstep : (system b cfg db).step a e a') :
    Sound cfg db a' := by
  cases e with
  | store f x =>
    obtain rfl := hstep
    exact ⟨h.inv.store f x, h.cfg_eq, h.unwrapped, h.onDisk_past⟩
  | call c ret =>
    obtain ⟨hexec, hfetch, hcreated, hu⟩ := hstep
    have he := exec_effect h.inv.toConsistent hexec
    have hcfg := Session.effect_cfg he
    have hcount := h.counts he hcreated hu
    refine ⟨h.inv.step he (fun p hp => h.onDisk_past p (hfetch p hp)) hcount, hcfg.trans h.cfg_eq, hu, ?_⟩
    intro p hp
    apply hcount.past hcfg
    rcases hp with hp | hp
    · exact .inl (h.onDisk_past p (.inl hp))
    · rw [hcreated, List.mem_append] at hp
      rcases hp with hp | hp
      · exact .inl (h.onDisk_past p (.inr hp))
      · rcases Session.newIds_eq he with hn | hn
        · simp [hn] at hp
        · exact .inr ⟨hn, by simpa [hn] using hp⟩

variable [LawfulDiskManager Disk]

/-- A state that a run reaches, with `k` pages created and `pins p` pins on page `p`. -/
structure After (b : Build) (cfg : PoolConfig) (db : Database Disk) (k : ℕ) (pins : PageId → Int)
    (a : Session Disk Data) : Prop where
  reachable : (system b cfg db).Reachable a
  unwrapped : a.Unwrapped
  inv : a.pool.Inv
  cfg_eq : a.pool.cfg = cfg
  created_length : a.created.length = k
  pinned : ∀ p, a.pool.pinCountOf p = pins p

section After
omit [LawfulDiskManager Disk]

variable {k : ℕ} {pins : PageId → Int}

theorem After.counter (h : After b cfg db k pins a) :
    a.pool.nextPageId = cfg.instanceIndex + cfg.numInstances * k := by
  rw [show a.pool.nextPageId = _ from h.unwrapped, h.cfg_eq, h.created_length]

/-- Without pins, `NewPgImp` gives the next id one pin. -/
theorem After.new (h : After b cfg db k (fun _ => 0) a) (hpool : 0 < cfg.poolSize)
    (hk : (cfg.instanceIndex + cfg.numInstances * (k + 1 : ℕ) : Int) < 2 ^ 31) :
    ∃ p a', p ≠ invalidPageId ∧ After b cfg db (k + 1) (fun q => if p = q then 1 else 0) a' := by
  have hframe : a.pool.inPool 0 := frame_zero (h.cfg_eq ▸ hpool)
  have hstride : (0 : Int) ≤ cfg.numInstances := Int.natCast_nonneg _
  have h0 : (0 : Int) ≤ a.pool.nextPageId := by
    rw [h.counter]
    positivity
  have hsucc : a.pool.nextPageId + cfg.numInstances =
      cfg.instanceIndex + cfg.numInstances * ((k + 1 : ℕ) : Int) := by
    rw [h.counter]
    push_cast
    ring
  obtain ⟨f, s, hexec, he⟩ := h.inv.new_succeeds hframe (h.inv.unpinned_frame h.pinned hframe)
    (allocatePage_ok (b := b) (k := k) (by rw [h.counter, h.cfg_eq]) (by linarith))
  have hcfg := (Session.effect_cfg he).trans h.cfg_eq
  have hnext : s.nextPageId = a.pool.nextPageId + cfg.numInstances := by
    rw [he.counter_advanced h0 (by rw [h.cfg_eq, hsucc]; exact hk), h.cfg_eq]
  have hcount : a.pool.CountsOn .newPg (.page (some f) a.pool.nextPageId) s := by
    show s.nextPageId = a.pool.nextPageId + a.pool.cfg.numInstances * ((1 : ℕ) : Int)
    rw [hnext, h.cfg_eq, Nat.cast_one, mul_one]
  have hlen : (a.created ++ [a.pool.nextPageId]).length = k + 1 := by
    rw [List.length_append, h.created_length, List.length_singleton]
  have hu : Session.Unwrapped ⟨a.created ++ [a.pool.nextPageId], s⟩ := by
    show s.nextPageId = s.cfg.instanceIndex +
      s.cfg.numInstances * ((a.created ++ [a.pool.nextPageId]).length : Int)
    rw [hnext, hcfg, hlen, hsucc]
  have hstep : (system b cfg db).step a (.call .newPg (.page (some f) a.pool.nextPageId))
      ⟨a.created ++ [a.pool.nextPageId], s⟩ := ⟨hexec, fun p hp => (by cases hp), rfl, hu⟩
  refine ⟨a.pool.nextPageId, _, fun hinvalid => ?_, h.reachable.step hstep, hu,
    h.inv.step he (fun p hp => by cases hp) hcount, hcfg, hlen, fun p => ?_⟩
  · rw [hinvalid] at h0
    exact absurd h0 (by decide)
  · rw [h.inv.pin_step he, h.pinned, Int.zero_add]
    rfl

/-- `UnpinPgImp` takes a single pin back. -/
theorem After.unpin {p : PageId} (h : After b cfg db k (fun q => if p = q then 1 else 0) a)
    (hp : p ≠ invalidPageId) : ∃ a', After b cfg db k (fun _ => 0) a' := by
  obtain ⟨s, hexec, he⟩ := h.inv.toConsistent.unpin_succeeds b false hp
    (by rw [h.pinned, if_pos rfl]; exact Int.one_pos)
  have hnext := he.counter_kept rfl
  have hcfg := Session.effect_cfg he
  have hu : Session.Unwrapped ⟨a.created ++ [], s⟩ := by
    show s.nextPageId = s.cfg.instanceIndex + s.cfg.numInstances * ((a.created ++ []).length : Int)
    rw [hnext, hcfg, List.append_nil]
    exact h.unwrapped
  have hstep : (system b cfg db).step a (.call (.unpinPg p false) (.flag true)) ⟨a.created ++ [], s⟩ :=
    ⟨hexec, fun p hp => (by cases hp), rfl, hu⟩
  refine ⟨_, h.reachable.step hstep, hu, h.inv.step he (fun p hp => by cases hp) ?_, hcfg.trans h.cfg_eq, ?_, ?_⟩
  · simp [CountsOn, newIds, hnext]
  · rw [List.append_nil]
    exact h.created_length
  · intro q
    rw [h.inv.pin_step he, h.pinned]
    by_cases hpq : p = q <;> simp [pinDelta, hpq]

/-- **The counter reaches every value below `2^31`**: creating and unpinning `k` pages leaves the
    pool without pins and the counter `k` strides on. -/
theorem advance (b : Build) (cfg : PoolConfig) (db : Database Disk) (hpool : 0 < cfg.poolSize) (k : ℕ)
    (hk : (cfg.instanceIndex + cfg.numInstances * k : Int) < 2 ^ 31) :
    ∃ a : Session Disk Data, After b cfg db k (fun _ => 0) a := by
  induction k with
  | zero =>
    have hidx : int32 cfg.instanceIndex = cfg.instanceIndex :=
      int32_of_range (by omega) (by simpa using hk)
    have hu : (⟨[], create cfg db.disk⟩ : Session Disk Data).Unwrapped := by
      simpa [Session.Unwrapped, create] using hidx
    exact ⟨_, .init ⟨rfl, hu⟩, hu, create_inv cfg db.disk, rfl, rfl, fun p => pinCountOf_none rfl⟩
  | succ k ih =>
    have hless : (cfg.numInstances * k : Int) ≤ cfg.numInstances * ((k + 1 : ℕ) : Int) :=
      Int.mul_le_mul_of_nonneg_left (Int.ofNat_le.mpr (Nat.le_succ k)) (Int.natCast_nonneg _)
    obtain ⟨a, ha⟩ := ih (by linarith)
    -- one more page, created and unpinned
    obtain ⟨p, a₁, hp, ha₁⟩ := ha.new hpool hk
    exact ha₁.unpin hp

end After

end Database

end BusTub
