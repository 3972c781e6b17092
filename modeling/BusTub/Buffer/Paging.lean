/-
  How often the pool goes to disk.

  Here a client fetches a page, writes to it and unpins it before it goes on to the next one.  So it always finds a
  frame, and what the pool decides is only which pages to keep.

  1. **`Sound.readings`**: the `ReadPage` calls of a run are those of the cache that the pool shows.

  2. **`kept_while_recent`**: a page that was used is resident as long as fewer other pages were used since than there
     are frames.

  3. **`uses_competitive`**: whoever keeps up to `h` pages at a time, chosen with all uses to come in view, loads few
     pages less: with `k` frames the pool makes at most `k / (k + 1 - h)` times as many `ReadPage` calls, but for
     a number that does not grow with the run.
-/
import BusTub.Lib.Recency
import BusTub.Buffer.AnyCalls
import BusTub.Buffer.LargerPool

set_option linter.unusedSectionVars false

namespace BusTub

open LruCache

namespace BufferPoolManagerInstance

variable {Disk Data : Type} [DiskManager Disk Data] [Zero Data] {s : BufferPoolManagerInstance Disk Data}
  {c : LruCache PageId Data}

/-- With no pins at all, every frame is free or can be taken. -/
theorem Inv.all_obtainable (h : s.Inv) (hno : ∀ p, s.pinCountOf p = 0) :
    s.replacer.tracked.length + s.freeList.length = s.cfg.poolSize := by
  have hperm : (s.replacer.tracked ++ s.freeList).Perm ((List.range s.cfg.poolSize).map (fun i : ℕ => (i : Int))) := by
    refine (List.perm_ext_iff_of_nodup ?_ ?_).mpr fun f => ?_
    · refine h.lru.frame_nodup.append h.free_nodup ?_
      exact fun f hf hfree => h.free_untracked f hfree hf
    · exact List.nodup_range.map fun i j hij => Int.ofNat.inj hij
    · have hin : s.inPool f ↔ f ∈ (List.range s.cfg.poolSize).map (fun i : ℕ => (i : Int)) := by
        simp only [List.mem_map, List.mem_range]
        constructor
        · rintro ⟨h0, h1⟩
          obtain ⟨i, rfl⟩ := Int.eq_ofNat_of_zero_le h0
          exact ⟨i, Int.ofNat_lt.mp h1, rfl⟩
        · rintro ⟨i, hi, rfl⟩
          exact ⟨Int.natCast_nonneg i, Int.ofNat_lt.mpr hi⟩
      rw [← hin, List.mem_append]
      constructor
      · rintro (hf | hf)
        · exact h.tracked_inPool f hf
        · exact h.free_inPool f hf
      · intro hf
        by_cases hfree : f ∈ s.freeList
        · exact .inr hfree
        · exact .inl (h.mapped_tracked _ f (h.backed f hf hfree) (h.unpinned_frame hno hf))
  have hlen := hperm.length_eq
  rwa [List.length_append, List.length_map, List.length_range] at hlen

/-- Then nobody has pinned a page of the cache. -/
theorem Shows.free (h : s.Inv) (hs : s.Shows c) (hno : ∀ p, s.pinCountOf p = 0) (hpos : 0 < s.cfg.poolSize) :
    c.Free s.cfg.poolSize := by
  refine ⟨hs.sound h, fun p => ?_, ?_, hpos⟩
  · have hpins := hs.pins p
    rw [hno] at hpins
    omega
  · rw [hs.idle, hs.room, List.length_map, h.all_obtainable hno]

end BufferPoolManagerInstance

open BufferPoolManagerInstance

namespace Session

variable {Disk Data : Type} [DiskManager Disk Data] [Zero Data] [LawfulDiskManager Disk]
variable {b : Build} {cfg : PoolConfig} {disk : Disk}

theorem client_cfg {a a' : Session Disk Data} {es : List (Op PageId Data × Answer Data)}
    (h₀ : (clientSystem b cfg disk).init a) (hrun : (clientSystem b cfg disk).Run a es a') : a'.pool.cfg = cfg := by
  suffices hboth : a'.Sound ∧ a'.pool.cfg = cfg from hboth.2
  refine hrun.invariant (I := fun a => a.Sound ∧ a.pool.cfg = cfg) (fun a e a' ha hstep => ?_)
    ⟨Sound.init (b := b) h₀, ?_⟩
  · obtain ⟨ha, hcfg⟩ := ha
    rcases client_step_cases hstep with ⟨call, ret, -, hcall⟩ | ⟨p, x, f, -, -, hstore⟩
    · exact ⟨ha.step hcall, (effect_cfg (exec_effect ha.inv.toConsistent hcall.1)).trans hcfg⟩
    · refine ⟨ha.step hstore, ?_⟩
      obtain rfl := hstore
      exact hcfg
  · obtain ⟨rfl, -⟩ := h₀
    rfl

/-- **Along a run the pool shows the same cache, and reads what the cache reads.** -/
theorem Sound.readings {a : Session Disk Data} {c : LruCache PageId Data} {u : Session Disk Data × ℕ} {r : ℕ}
    {es : List (Op PageId Data × Answer Data)} (h : a.Sound) (hs : a.pool.Shows c)
    (hrun : (readingSystem b cfg disk).Run (a, r) es u) :
    u.1.Sound ∧ u.1.pool.Shows (c.after (es.map Prod.fst)) ∧ u.2 = r + c.readsAlong (es.map Prod.fst) := by
  induction hrun with
  | nil => exact ⟨h, hs, rfl⟩
  | @snoc u v es e hrun hstep ih =>
    obtain ⟨hu, hshows, hreads⟩ := ih
    obtain ⟨hclient, hread⟩ := hstep
    obtain ⟨hv, -, hshows'⟩ := hu.client_step hshows hclient
    rw [List.map_append, after_append, readsAlong_append]
    refine ⟨hv, hshows', ?_⟩
    show v.2 = r + (c.readsAlong (es.map Prod.fst) + ((c.after (es.map Prod.fst)).reads e.1 + 0))
    rw [hread, hreads, hshows.reads_eq hu.inv]
    omega

/-- A client's run, with the `ReadPage` calls it makes. -/
theorem readings_of_run {a a' : Session Disk Data} {es : List (Op PageId Data × Answer Data)}
    (hrun : (clientSystem b cfg disk).Run a es a') (r : ℕ) :
    ∃ r', (readingSystem b cfg disk).Run (a, r) es (a', r') := by
  induction hrun with
  | nil => exact ⟨r, .nil _⟩
  | @snoc a₁ a₂ es e _ hstep ih =>
    obtain ⟨r', hrun⟩ := ih
    exact ⟨_, hrun.snoc ⟨hstep, rfl⟩⟩

/-- What a client's run leads to, if nothing is left pinned. -/
theorem unpinned_cache {a₀ a : Session Disk Data} {es : List (Op PageId Data × Answer Data)}
    (h₀ : (clientSystem b cfg disk).init a₀) (hrun : (clientSystem b cfg disk).Run a₀ es a)
    (hno : ∀ p, a.pool.pinCountOf p = 0) (hpos : 0 < cfg.poolSize) :
    ∃ c, a.Sound ∧ a.pool.Shows c ∧ c.Free cfg.poolSize := by
  obtain ⟨r, hreading⟩ := readings_of_run hrun 0
  have hcreate : a₀.pool.Shows (LruCache.empty cfg.poolSize (DiskManager.readPage disk)) := by
    obtain ⟨rfl, -⟩ := h₀
    exact create_shows cfg disk
  obtain ⟨ha, hs, -⟩ := (Sound.init (b := b) h₀).readings hcreate hreading
  have hcfg := client_cfg h₀ hrun
  have hfree := hs.free ha.inv hno (by rwa [hcfg])
  rw [hcfg] at hfree
  exact ⟨_, ha, hs, hfree⟩

/-- **A used page is kept while fewer others are used than there are frames.**  Afterwards it is resident if and only
    if the pages used since are fewer than the frames; so the client never waits for one of the pages that it used
    last, and always for one that it used before as many others. -/
theorem kept_while_recent {a₀ a a' : Session Disk Data} {es₀ es : List (Op PageId Data × Answer Data)}
    {u : Use PageId Data} {us : List (Use PageId Data)} (h₀ : (clientSystem b cfg disk).init a₀)
    (hrun₀ : (clientSystem b cfg disk).Run a₀ es₀ a) (hno : ∀ p, a.pool.pinCountOf p = 0) (hpos : 0 < cfg.poolSize)
    (hrun : (clientSystem b cfg disk).Run a es a') (hes : es.map Prod.fst = (u :: us).flatMap Use.ops)
    (hlast : ∀ v ∈ us, v.page ≠ u.page) :
    a'.pool.pageTable u.page ≠ none ↔ (us.map Use.page).toFinset.card < cfg.poolSize := by
  obtain ⟨c, ha, hs, hfree⟩ := unpinned_cache h₀ hrun₀ hno hpos
  obtain ⟨r, hreading⟩ := readings_of_run hrun 0
  obtain ⟨ha', hs', -⟩ := ha.readings hs hreading
  obtain ⟨hline, -⟩ := after_uses hfree (u :: us)
  have hnot : u.page ∉ us.map Use.page := by
    rintro hmem
    obtain ⟨v, hv, he⟩ := List.mem_map.mp hmem
    exact hlast v hv he
  rw [hes] at hs'
  have hunpinned := (hfree.touches ((u :: us).map Use.page)).pins u.page
  rw [← hs'.resident ha'.inv, ← hfree.stays hnot]
  unfold Line.Resident
  rw [hline, hunpinned]
  exact or_iff_left (Nat.lt_irrefl 0)

/-- **The pool does as well as anybody, up to a factor.**  A rival keeps at most `h` pages at a time, and whichever
    page is used must be among them; it may choose them with all uses in view, and what it costs is how many pages it
    brings in.  With `k` frames the pool makes at most `k / (k + 1 - h)` times as many `ReadPage` calls, plus a
    number that depends on `k` and on what the rival starts with only. -/
theorem uses_competitive {h : ℕ} (hh : 0 < h) (hle : h ≤ cfg.poolSize) {a₀ a a' : Session Disk Data} {reads : ℕ}
    {es₀ es : List (Op PageId Data × Answer Data)} {us : List (Use PageId Data)} {C : Finset PageId}
    {Cs : List (Finset PageId)} (h₀ : (clientSystem b cfg disk).init a₀)
    (hrun₀ : (clientSystem b cfg disk).Run a₀ es₀ a) (hno : ∀ p, a.pool.pinCountOf p = 0)
    (hrun : (readingSystem b cfg disk).Run (a, 0) es (a', reads)) (hes : es.map Prod.fst = us.flatMap Use.ops)
    (hrival : List.Forall₂ (fun u E => u.page ∈ E ∧ E.card ≤ h) us Cs) :
    (cfg.poolSize + 1 - h) * reads ≤
      cfg.poolSize * Line.loads C Cs + cfg.poolSize * (cfg.poolSize + C.card) := by
  obtain ⟨c, ha, hs, hfree⟩ := unpinned_cache h₀ hrun₀ hno (hh.trans_le hle)
  obtain ⟨-, -, hreads⟩ := ha.readings hs hrun
  obtain ⟨-, hmisses⟩ := after_uses hfree us
  have hpaid := hfree.competes (C := C) (h := h) (List.forall₂_map_left_iff.mpr hrival)
  have howed := Line.owed_le C cfg.poolSize c.idle
  have hroom : (cfg.poolSize + 1 - h) * c.room ≤ cfg.poolSize * c.room := Nat.mul_le_mul_right _ (by omega)
  have hsize : cfg.poolSize * c.idle.length + cfg.poolSize * c.room = cfg.poolSize * cfg.poolSize := by
    rw [← Nat.mul_add, hfree.count]
  have hcount : reads = c.missesAlong (us.map Use.page) := by
    rw [← hmisses, ← hes]
    exact hreads.trans (Nat.zero_add _)
  rw [hcount, Nat.mul_add cfg.poolSize cfg.poolSize]
  omega

/-! ## Two pages in one frame, and in two -/

section

/-- Page 0 is created, and page 1 after it; nothing is left pinned. -/
private def made : List (Op PageId ℕ × Answer ℕ) := [(.create 0, .page (some 0)), (.release 0 false, .flag true),
  (.create 1, .page (some 0)), (.release 1 false, .flag true)]

/-- Page 0 is used, and page 1 after it. -/
private def used : List (Op PageId ℕ × Answer ℕ) := [(.fetch 0, .page (some 0)), (.release 0 false, .flag true),
  (.fetch 1, .page (some 0)), (.release 1 false, .flag true)]

private def uses : List (Use PageId ℕ) := [⟨0, [], false⟩, ⟨1, [], false⟩]

private def bothMade (n : ℕ) : Session (PageId → ℕ) ℕ := (fresh n).played .debug (made.map Prod.fst)

/-- If the pages that a client created have no pins, none has. -/
theorem Sound.unpinned {a : Session Disk Data} (h : a.Sound) (hall : ∀ p ∈ a.created, a.pool.pinCountOf p = 0)
    (p : PageId) : a.pool.pinCountOf p = 0 := by
  cases hp : a.pool.pageTable p with
  | none => exact pinCountOf_none hp
  | some f => exact hall p (h.resident p f hp)

private theorem fresh_init (n : ℕ) : (clientSystem .debug (fresh n).pool.cfg fun _ : PageId => (0 : ℕ)).init (fresh n) :=
  ⟨rfl, by simp [Unwrapped, fresh, create, int32]⟩

private theorem bothMade_run {n : ℕ} (h : ((fresh n).play .debug (made.map Prod.fst)).map Prod.fst = some made) :
    (clientSystem .debug (fresh n).pool.cfg fun _ => 0).Run (fresh n) made (bothMade n) :=
  ((Sound.init (b := .debug) (fresh_init n)).play_run (play_played h)).1

/-- **In one frame page 0 has gone when page 1 was used, and in two frames it is there.** -/
theorem kept_while_recent_one_frame :
    ((bothMade 1).played .debug (used.map Prod.fst)).pool.pageTable 0 = none ∧
      ((bothMade 2).played .debug (used.map Prod.fst)).pool.pageTable 0 ≠ none := by
  have hrun₁ := bothMade_run (n := 1) (by decide +kernel)
  have hrun₂ := bothMade_run (n := 2) (by decide +kernel)
  have hs₁ := client_sound (fresh_init 1) hrun₁
  have hs₂ := client_sound (fresh_init 2) hrun₂
  have hno₁ : ∀ p, (bothMade 1).pool.pinCountOf p = 0 := hs₁.unpinned (by decide +kernel)
  have hno₂ : ∀ p, (bothMade 2).pool.pinCountOf p = 0 := hs₂.unpinned (by decide +kernel)
  have hplay₁ : (bothMade 1).play .debug (used.map Prod.fst) = some (used, _) := play_played (by decide +kernel)
  have hplay₂ : (bothMade 2).play .debug (used.map Prod.fst) = some (used, _) := play_played (by decide +kernel)
  have hops : used.map Prod.fst = uses.flatMap Use.ops := rfl
  constructor
  · have hiff := kept_while_recent (fresh_init 1) hrun₁ hno₁ (by decide) (hs₁.play_run hplay₁).1 hops (by decide)
    exact not_not.mp (mt hiff.mp (by decide))
  · have hiff := kept_while_recent (fresh_init 2) hrun₂ hno₂ (by decide) (hs₂.play_run hplay₂).1 hops (by decide)
    exact hiff.mpr (by decide)

/-- **Both uses miss in one frame**, and a rival with one page at a time brings both pages in. -/
theorem uses_competitive_one_frame : (readingSystem .debug (fresh 1).pool.cfg fun _ => 0).Run (bothMade 1, 0) used
      ((bothMade 1).played .debug (used.map Prod.fst), 2) ∧
    (1 + 1 - 1) * 2 ≤ 1 * Line.loads ∅ [({0} : Finset PageId), {1}] + 1 * (1 + (∅ : Finset PageId).card) := by
  have hrun₀ := bothMade_run (n := 1) (by decide +kernel)
  have hs := client_sound (fresh_init 1) hrun₀
  have hreads : (bothMade 1).playReads .debug (used.map Prod.fst) = 2 := by decide +kernel
  have hrun : (readingSystem .debug (fresh 1).pool.cfg fun _ => 0).Run (bothMade 1, 0) used (_, 0 + _) :=
    hs.play_reads 0 (play_played (by decide +kernel))
  rw [hreads] at hrun
  refine ⟨hrun, uses_competitive Nat.one_pos (Nat.le_refl 1) (fresh_init 1) hrun₀ (hs.unpinned (by decide +kernel))
    hrun (show _ = uses.flatMap Use.ops from rfl) ?_⟩
  exact .cons ⟨Finset.mem_singleton_self 0, Nat.le_refl 1⟩ (.cons ⟨Finset.mem_singleton_self 1, Nat.le_refl 1⟩ .nil)

end

end Session

end BusTub
