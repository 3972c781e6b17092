/-
  More frames never hurt.

  With some replacement policies a larger pool can read more pages from disk than a smaller one for the same
  calls.  The pool's own cannot, whatever its clients pin, create and delete in between.

  1. **`readsOf`** counts the `ReadPage` calls of an operation: those of `FetchPgImp` with a tally kept
     (`fetchPgImp_noting`).  `readingSystem` adds them up along a run.

  2. **`ShowSame`**: both pools keep one account of a page.  They do as long as its clients say when it is dirty;
     else a write can be lost in the smaller pool, which had to let the page go, and not in the larger one.

  3. **`larger_pool`**: whatever a client does with a pool that never refuses it a page, it can do with a larger one.
     The same calls succeed, they show the same contents of the pages that are kept account of, every page resident
     in the smaller pool is resident in the larger one, and the larger one has made no more `ReadPage` calls.
-/
import BusTub.Buffer.PageCache
import BusTub.Lib.Account

set_option linter.unusedSectionVars false

namespace BusTub

open LruCache

/-- The same pool with `n` frames. -/
def PoolConfig.resized (cfg : PoolConfig) (n : ℕ) : PoolConfig := { cfg with poolSize := n }

namespace BufferPoolManagerInstance

variable {Disk Data : Type} [DiskManager Disk Data] [Zero Data]
variable {s s' : BufferPoolManagerInstance Disk Data} {c : LruCache PageId Data} {call : Call} {ret : Return}

/-- The `ReadPage` calls that an operation makes: `FetchPgImp` reads a page that is not resident once it has a frame
    for it. -/
def readsOf (s : BufferPoolManagerInstance Disk Data) : Op PageId Data → ℕ
  | .fetch p => if s.pageTable p ≠ none ∨ s.replacer.size = 0 ∧ s.freeList = [] then 0 else 1
  | _ => 0

/-- `FetchPgImp`, with how often it has called `ReadPage`. -/
def fetchPgImpNoting (page_id : PageId) (s : BufferPoolManagerInstance Disk Data) :
    Except Fault ((Option FrameId × ℕ) × BufferPoolManagerInstance Disk Data) :=
  match s.pageTable page_id with
  | some frame_id => do
    let pg := s.pages frame_id
    let s := s.setPage frame_id { pg with pinCount := pg.pinCount + 1 }
    let r ← s.replacer.pin frame_id
    .ok ((some frame_id, 0), { s with replacer := r })
  | none =>
    if s.replacer.size = 0 ∧ s.freeList = [] then .ok ((none, 0), s)
    else do
      let (frame_id, s) ← s.pickFrame
      let s := { s with pageTable := Function.update s.pageTable page_id (some frame_id) }
      let s := s.setPage frame_id
        { data := DiskManager.readPage s.disk page_id, pageId := page_id, pinCount := 1, isDirty := false }
      let r ← s.replacer.pin frame_id
      .ok ((some frame_id, 1), { s with replacer := r })

/-- **The count is that of the method**, which otherwise does the same. -/
theorem fetchPgImp_noting (p : PageId) (s : BufferPoolManagerInstance Disk Data) :
    s.fetchPgImpNoting p = (s.fetchPgImp p).map fun x => ((x.1, s.readsOf (.fetch p)), x.2) := by
  unfold fetchPgImpNoting fetchPgImp
  cases hp : s.pageTable p with
  | some f =>
    have hread : s.readsOf (.fetch p) = 0 := if_pos (.inl (by rw [hp]; exact Option.some_ne_none f))
    rw [hread]
    simp only [bind, Except.bind]
    cases (s.setPage f { s.pages f with pinCount := (s.pages f).pinCount + 1 }).replacer.pin f <;> rfl
  | none =>
    by_cases hfull : s.replacer.size = 0 ∧ s.freeList = []
    · have hread : s.readsOf (.fetch p) = 0 := if_pos (.inr hfull)
      rw [hread]
      simp only [if_pos hfull]
      rfl
    · have hread : s.readsOf (.fetch p) = 1 := if_neg (not_or.mpr ⟨not_not.mpr hp, hfull⟩)
      rw [hread]
      simp only [if_neg hfull, bind, Except.bind]
      cases s.pickFrame with
      | error e => rfl
      | ok x =>
        simp only []
        split <;> rfl

theorem Shows.reads_eq (h : s.Inv) (hs : s.Shows c) (op : Op PageId Data) : c.reads op = s.readsOf op := by
  cases op with
  | fetch p =>
    refine if_congr (or_congr (hs.resident h) ?_) rfl rfl
    rw [hs.full h, LRUReplacer.size_eq, List.length_eq_zero_iff]
  | _ => rfl

/-- Whether a call created a page is to be seen of its answer. -/
theorem Effect.newIds_iff (he : s.Effect call ret s') (t : BufferPoolManagerInstance Disk Data) :
    newIds call ret = if call = .newPg ∧ Op.seen (s.opOf call) (t.answerOf ret) = some true then [s.nextPageId]
      else [] := by
  cases he with
  | newFull => exact (if_neg fun hc => Bool.noConfusion (Option.some.inj hc.2)).symm
  | new => exact (if_pos ⟨rfl, rfl⟩).symm
  | _ => exact (if_neg fun hc => by cases hc.1).symm

theorem Effect.new_created (he : s.Effect .newPg ret s') (hok : s'.answerOf ret ≠ .page none) :
    newIds .newPg ret = [s.nextPageId] := by
  cases he with
  | newFull => exact absurd rfl hok
  | new => rfl

end BufferPoolManagerInstance

open BufferPoolManagerInstance

namespace Session

variable {Disk Data : Type} [DiskManager Disk Data] [Zero Data]
variable {b : Build} {cfg : PoolConfig} {disk : Disk} {n : ℕ}

/-- The runs of a pool as a client sees them, with the `ReadPage` calls made so far. -/
def readingSystem (b : Build) (cfg : PoolConfig) (disk : Disk) :
    StepSystem (Session Disk Data × ℕ) (Op PageId Data × Answer Data) where
  init a := (clientSystem b cfg disk).init a.1 ∧ a.2 = 0
  step a e a' := (clientSystem b cfg disk).step a.1 e a'.1 ∧ a'.2 = a.2 + a.1.pool.readsOf e.1

/-- A session with a smaller pool and one with a larger pool whose clients did the same. -/
structure Alike (a a' : Session Disk Data) : Prop where
  sound : a.Sound
  sound' : a'.Sound
  counter_lt : a.pool.nextPageId < 2 ^ 31
  created : a'.created = a.created
  stride : a'.pool.cfg.numInstances = a.pool.cfg.numInstances
  index : a'.pool.cfg.instanceIndex = a.pool.cfg.instanceIndex
  caches : ∃ c c', a.pool.Shows c ∧ a'.pool.Shows c' ∧ c.Included c'.toLine

section

variable {a a' t : Session Disk Data} {call : Call} {ret : Return}

/-- The counter had room for the page that a call created. -/
theorem Sound.had_room (h : a.Sound) (h' : t.Sound) (hlt : t.pool.nextPageId < 2 ^ 31)
    (he : a.pool.Effect call ret t.pool) (hcreated : t.created = a.created ++ newIds call ret) {q : PageId}
    (hnew : newIds call ret = [q]) : a.pool.nextPageId + (a.pool.cfg.numInstances : Int) < 2 ^ 31 := by
  have hu := h.unwrapped
  have hu' := h'.unwrapped
  unfold Unwrapped at hu hu'
  rw [effect_cfg he, hcreated, hnew, List.length_append, List.length_singleton] at hu'
  have hnext : t.pool.nextPageId = a.pool.nextPageId + (a.pool.cfg.numInstances : Int) := by
    rw [hu', hu]
    push_cast
    ring
  rwa [← hnext]

/-- Both counters are exact. -/
theorem Alike.next (h : Alike a a') : a'.pool.nextPageId = a.pool.nextPageId := by
  have hu := h.sound.unwrapped
  have hu' := h.sound'.unwrapped
  unfold Unwrapped at hu hu'
  rw [hu', hu, h.stride, h.index, h.created]

theorem Alike.opOf_eq (h : Alike a a') (call : Call) : a'.pool.opOf call = a.pool.opOf call := by
  cases call with
  | newPg => exact congrArg Op.create h.next
  | _ => rfl

/-- **The larger pool can do what the smaller one did.** -/
theorem Alike.follows [LawfulDiskManager Disk] (h : Alike a a')
    (hstep : (system b cfg disk).step a (.call call ret) t) (hok : t.pool.answerOf ret ≠ .page none) :
    ∃ ret' t', (system b (cfg.resized n) disk).step a' (.call call ret') t' ∧ Alike t t' ∧
      (a.pool.opOf call).seen (t'.pool.answerOf ret') = (a.pool.opOf call).seen (t.pool.answerOf ret) ∧
      a'.pool.readsOf (a.pool.opOf call) ≤ a.pool.readsOf (a.pool.opOf call) := by
  obtain ⟨c, c', hs, hs', hinc⟩ := h.caches
  have he := exec_effect h.sound.inv.toConsistent hstep.1
  have ht := h.sound.step hstep
  have hlt := he.counter_lt h.counter_lt
  obtain ⟨hans, hshows⟩ := h.sound.cache_step hs he hstep.2.1
  have hop := h.opOf_eq call
  -- the larger pool returns, too
  have hallowed : a'.Allowed (a'.pool.opOf call) := by
    cases call with
    | newPg =>
      refine ⟨rfl, ?_⟩
      rw [h.next, h.stride]
      exact h.sound.had_room ht hlt he hstep.2.2.1 (he.new_created hok)
    | fetchPg p =>
      show p ∈ a'.created
      rw [h.created]
      exact hstep.2.1 p rfl
    | _ => exact trivial
  obtain ⟨ret', t', hstep'⟩ := h.sound'.returns b (cfg.resized n) disk call hallowed
  have he' := exec_effect h.sound'.inv.toConsistent hstep'.1
  obtain ⟨hans', hshows'⟩ := h.sound'.cache_step hs' he' hstep'.2.1
  rw [hop] at hans' hshows'
  have hfresh : ∀ p, a.pool.opOf call = .create p → ¬ c'.Resident p := by
    intro p hp hres
    cases call with
    | newPg =>
      obtain rfl := Op.create.inj hp
      rw [← h.next] at hres
      exact (hs'.resident h.sound'.inv).mp hres h.sound'.inv.next_absent
    | _ => cases hp
  obtain ⟨hinc', hseen, hreads⟩ := included_step hinc (hs.sound h.sound.inv) (hs'.sound h.sound'.inv) _ hfresh
    (hans ▸ hok)
  rw [hans, hans'] at hseen
  rw [hs.reads_eq h.sound.inv, hs'.reads_eq h.sound'.inv] at hreads
  -- and it created the same pages
  have hnew : newIds call ret' = newIds call ret := by
    rw [he.newIds_iff t.pool, he'.newIds_iff t'.pool, hop, hseen, h.next]
  have hcreated : t'.created = t.created := by
    rw [hstep.2.2.1, hstep'.2.2.1, h.created, hnew]
  have ht' := h.sound'.step hstep'
  refine ⟨ret', t', hstep', ⟨ht, ht', hlt, hcreated, ?_, ?_, _, _, hshows, hshows', hinc'⟩, hseen.symm, hreads⟩
  · rw [effect_cfg he, effect_cfg he', h.stride]
  · rw [effect_cfg he, effect_cfg he', h.index]

/-- A client that writes to a page of the smaller pool finds it in the larger one. -/
theorem Alike.store [LawfulDiskManager Disk] (h : Alike a a') {p : PageId} {f : FrameId}
    (hp : a.pool.pageTable p = some f) (x : Data) : ∃ f', a'.pool.pageTable p = some f' ∧
      Alike ⟨a.created, a.pool.setPage f { a.pool.pages f with data := x }⟩
        ⟨a'.created, a'.pool.setPage f' { a'.pool.pages f' with data := x }⟩ := by
  obtain ⟨c, c', hs, hs', hinc⟩ := h.caches
  have hres : c'.Resident p :=
    hinc.resident ((hs.resident h.sound.inv).mpr (by rw [hp]; exact Option.some_ne_none f))
  obtain ⟨f', hp'⟩ := Option.ne_none_iff_exists'.mp ((hs'.resident h.sound'.inv).mp hres)
  refine ⟨f', hp', ⟨?_, ?_, h.counter_lt, h.created, h.stride, h.index, _, _, h.sound.cache_write hs hp x,
    h.sound'.cache_write hs' hp' x, hinc⟩⟩
  · exact ⟨h.sound.inv.store f x, h.sound.unwrapped, h.sound.created_lt, h.sound.resident⟩
  · exact ⟨h.sound'.inv.store f' x, h.sound'.unwrapped, h.sound'.created_lt, h.sound'.resident⟩

/-- **The step lemma**: an operation that succeeded on the smaller pool is answered alike by the larger one. -/
theorem Alike.client [LawfulDiskManager Disk] {e : Op PageId Data × Answer Data} (h : Alike a a')
    (hstep : (clientSystem b cfg disk).step a e t) (hok : e.2 ≠ .page none) :
    ∃ ans' t', (clientSystem b (cfg.resized n) disk).step a' (e.1, ans') t' ∧ Alike t t' ∧
      e.1.seen ans' = e.1.seen e.2 ∧ a'.pool.readsOf e.1 ≤ a.pool.readsOf e.1 := by
  rcases client_step_cases hstep with ⟨call, ret, rfl, hcall⟩ | ⟨p, x, f, rfl, hp, hstore⟩
  · obtain ⟨ret', t', hcall', halike', hseen, hreads⟩ := h.follows hcall hok
    refine ⟨_, t', ?_, halike', hseen, hreads⟩
    rw [← h.opOf_eq]
    exact client_call hcall'
  · obtain ⟨f', hp', halike'⟩ := h.store hp x
    obtain rfl := hstore
    exact ⟨.done, _, ⟨rfl, f', hp', rfl⟩, halike', rfl, Nat.le_refl 0⟩

theorem Alike.fresh {cfg : PoolConfig} {n : ℕ} (hle : cfg.poolSize ≤ n)
    (h₀ : (clientSystem b cfg disk).init a) : (clientSystem b (cfg.resized n) disk).init
      ⟨[], create (cfg.resized n) disk⟩ ∧ Alike a ⟨[], create (cfg.resized n) disk⟩ := by
  have hs := Sound.init (b := b) h₀
  obtain ⟨rfl, hu⟩ := h₀
  have hinit : (clientSystem b (cfg.resized n) disk).init
      (⟨[], create (cfg.resized n) disk⟩ : Session Disk Data) := ⟨rfl, hu⟩
  have hlt : (create cfg disk : BufferPoolManagerInstance Disk Data).nextPageId < 2 ^ 31 := by
    simp only [create]
    exact int32_lt _
  exact ⟨hinit, hs, Sound.init (b := b) hinit, hlt, rfl, rfl, rfl, _, _, create_shows cfg disk,
    create_shows _ disk, Line.included_empty hle⟩

theorem Alike.resident (h : Alike a a') {p : PageId} (hp : a.pool.pageTable p ≠ none) :
    a'.pool.pageTable p ≠ none := by
  obtain ⟨c, c', hs, hs', hinc⟩ := h.caches
  exact (hs'.resident h.sound'.inv).mp (hinc.resident ((hs.resident h.sound.inv).mpr hp))

theorem Alike.pinCountOf_eq (h : Alike a a') (p : PageId) : a'.pool.pinCountOf p = a.pool.pinCountOf p := by
  obtain ⟨c, c', hs, hs', hinc⟩ := h.caches
  rw [← hs.pins, ← hs'.pins, hinc.pins]

end

/-- The `ReadPage` calls of a client's operations, one after another. -/
def playReads (b : Build) : Session Disk Data → List (Op PageId Data) → ℕ
  | _, [] => 0
  | a, op :: ops => a.pool.readsOf op + ((a.serve b op).map fun x => playReads b x.2 ops).getD 0

theorem Sound.play_reads [LawfulDiskManager Disk] : ∀ {ops : List (Op PageId Data)} {a t : Session Disk Data}
    {es : List (Op PageId Data × Answer Data)} (r : ℕ), a.Sound → a.play b ops = some (es, t) →
    (readingSystem b cfg disk).Run (a, r) es (t, r + a.playReads b ops)
  | [], a, t, es, r, h, hplay => by
    obtain ⟨rfl, rfl⟩ := Prod.mk.inj (Option.some.inj hplay)
    exact .nil _
  | op :: ops, a, t, es, r, h, hplay => by
    obtain ⟨⟨ans, u⟩, hserve, hrest⟩ := Option.bind_eq_some_iff.mp hplay
    obtain ⟨⟨es', t'⟩, hplay', hdone⟩ := Option.map_eq_some_iff.mp hrest
    obtain ⟨rfl, rfl⟩ := Prod.mk.inj hdone
    have hstep : (clientSystem b cfg disk).step a (op, ans) u := h.serve_step hserve
    have hfirst : (readingSystem b cfg disk).Run (a, r) [(op, ans)] (u, r + a.pool.readsOf op) := .single ⟨hstep, rfl⟩
    have hrun := Sound.play_reads (r + a.pool.readsOf op) (h.kept_client hstep) hplay'
    have hsum : a.playReads b (op :: ops) = a.pool.readsOf op + u.playReads b ops := by
      rw [playReads, hserve, Option.map_some, Option.getD_some]
    rw [hsum, ← Nat.add_assoc]
    exact hfirst.append hrun

/-! ## What the pages show -/

/-- The clients have done with page `p` what they may: who wrote to it had it pinned, and who gave back the last pin of
    the written page said that it is dirty. -/
def Obeyed (disk : Disk) (p : PageId) (es : List (Op PageId Data × Answer Data)) : Prop :=
  (⟨DiskManager.readPage disk p, 0, false⟩ : Account Data).Obeyed p es

/-- Both pools keep one account of page `p`. -/
def ShowSame (p : PageId) (g : Account Data) (a a' : Session Disk Data) : Prop :=
  ∃ c c', a.pool.Shows c ∧ a'.pool.Shows c' ∧ c.Kept p g ∧ c'.Kept p g

section

variable {a a' t t' : Session Disk Data} {p : PageId} {g : Account Data} {op : Op PageId Data} {ans ans' : Answer Data}

theorem ShowSame.fresh (cfg : PoolConfig) (n : ℕ) (disk : Disk) (p : PageId) :
    ShowSame p ⟨DiskManager.readPage disk p, 0, false⟩ ⟨[], create cfg disk⟩
      (⟨[], create (cfg.resized n) disk⟩ : Session Disk Data) :=
  ⟨_, _, create_shows cfg disk, create_shows _ disk, kept_empty _ _ p, kept_empty _ _ p⟩

/-- **The step lemma**: an operation that both pools were seen to answer alike leaves them with one account, and what
    they answered about page `p` is the same. -/
theorem ShowSame.step [LawfulDiskManager Disk] {cfg' : PoolConfig} (h : ShowSame p g a a') (ha : a.Sound)
    (ha' : a'.Sound) (hstep : (clientSystem b cfg disk).step a (op, ans) t)
    (hstep' : (clientSystem b cfg' disk).step a' (op, ans') t') (hseen : op.seen ans' = op.seen ans)
    (hallow : op.subject = some p → g.Allows op) :
    ShowSame p (if op.subject = some p then g.after op ans else g) t t' ∧
      (op.subject = some p → op ≠ .flush p → ans' = ans) := by
  obtain ⟨c, c', hs, hs', hkept, hkept'⟩ := h
  obtain ⟨-, hans, ht⟩ := ha.client_step hs hstep
  obtain ⟨-, hans', ht'⟩ := ha'.client_step hs' hstep'
  replace hans : (c.step op).1 = ans := hans
  replace hans' : (c'.step op).1 = ans' := hans'
  subst hans hans'
  have hcache := hs.sound ha.inv
  have hcache' := hs'.sound ha'.inv
  refine ⟨⟨_, _, ht, ht', ?_⟩, fun hp hflush => hkept.answers hcache hkept' hcache' hp hflush hseen⟩
  split
  · next hp =>
    have hself' := hkept'.self hcache' hp (hallow hp)
    rw [Account.after_seen g hseen] at hself'
    exact ⟨hkept.self hcache hp (hallow hp), hself'⟩
  · next hp => exact ⟨hkept.other hcache hp, hkept'.other hcache' hp⟩

/-- The same contents lie behind the two pointers. -/
theorem ShowSame.data (h : ShowSame p g a a') (ha : a.Sound) (ha' : a'.Sound) {f f' : FrameId}
    (hp : a.pool.pageTable p = some f) (hp' : a'.pool.pageTable p = some f') :
    (a'.pool.pages f').data = (a.pool.pages f).data := by
  obtain ⟨c, c', hs, hs', hkept, hkept'⟩ := h
  have hres : c.Resident p := (hs.resident ha.inv).mpr (by rw [hp]; exact Option.some_ne_none f)
  have hres' : c'.Resident p := (hs'.resident ha'.inv).mpr (by rw [hp']; exact Option.some_ne_none f')
  rw [← hs.data p f hp, ← hs'.data p f' hp', hkept.shown hres, hkept'.shown hres']

end

/-- The two answers to one operation, as far as page `p` is concerned. -/
def SameFor (p : PageId) (e e' : Op PageId Data × Answer Data) : Prop :=
  e.1.subject = some p → e.1 ≠ .flush p → e'.2 = e.2

/-- **More frames never hurt.**  What a client did with a pool that always had a frame for it can be done with a larger
    pool: the operations are the same, and so are the flags of the answers, up to whether a page was there to be
    flushed.  Every page that is resident in the smaller pool is resident in the larger one, all pin counts are the
    same, and the larger one has read no more pages from disk.  Contents are the same for each page whose clients say
    when it is dirty: in every answer about it, and behind the pointers in the end. -/
theorem larger_pool [LawfulDiskManager Disk] (hle : cfg.poolSize ≤ n) {a₀ a : Session Disk Data} {reads : ℕ}
    {es : List (Op PageId Data × Answer Data)} (h₀ : (clientSystem b cfg disk).init a₀)
    (hrun : (readingSystem b cfg disk).Run (a₀, 0) es (a, reads)) (hok : ∀ e ∈ es, e.2 ≠ .page none) :
    ∃ a₀' es' a' reads', (clientSystem b (cfg.resized n) disk).init a₀' ∧
      (readingSystem b (cfg.resized n) disk).Run (a₀', 0) es' (a', reads') ∧
      List.Forall₂ (fun e e' => e'.1 = e.1 ∧ e.1.seen e'.2 = e.1.seen e.2) es es' ∧
      (∀ p, a.pool.pageTable p ≠ none → a'.pool.pageTable p ≠ none) ∧
      (∀ p, a'.pool.pinCountOf p = a.pool.pinCountOf p) ∧ reads' ≤ reads ∧
      ∀ p, Obeyed disk p es → List.Forall₂ (SameFor p) es es' ∧ ∀ f, a.pool.pageTable p = some f →
        ∃ f', a'.pool.pageTable p = some f' ∧ (a'.pool.pages f').data = (a.pool.pages f).data := by
  obtain ⟨hinit, halike₀⟩ := Alike.fresh (n := n) hle h₀
  obtain rfl : a₀ = ⟨[], create cfg disk⟩ := h₀.1
  suffices hmain : ∀ u, (readingSystem b cfg disk).Run (⟨[], create cfg disk⟩, 0) es u → ∃ es' u',
      (readingSystem b (cfg.resized n) disk).Run (⟨[], create (cfg.resized n) disk⟩, 0) es' u' ∧
      List.Forall₂ (fun e e' => e'.1 = e.1 ∧ e.1.seen e'.2 = e.1.seen e.2) es es' ∧
      Alike u.1 u'.1 ∧ u'.2 ≤ u.2 ∧ ∀ p, Obeyed disk p es → List.Forall₂ (SameFor p) es es' ∧
        ShowSame p (Account.along ⟨DiskManager.readPage disk p, 0, false⟩ p es) u.1 u'.1 by
    obtain ⟨es', u', hrun', hes, halike, hreads, hsame⟩ := hmain _ hrun
    refine ⟨_, es', u'.1, u'.2, hinit, hrun', hes, fun p => halike.resident, halike.pinCountOf_eq, hreads,
      fun p hob => ⟨(hsame p hob).1, fun f hp => ?_⟩⟩
    have hres : u'.1.pool.pageTable p ≠ none := halike.resident (by rw [hp]; exact Option.some_ne_none f)
    obtain ⟨f', hp'⟩ := Option.ne_none_iff_exists'.mp hres
    exact ⟨f', hp', (hsame p hob).2.data halike.sound halike.sound' hp hp'⟩
  clear hrun
  intro u hu
  induction hu with
  | nil => exact ⟨[], _, .nil _, .nil, halike₀, Nat.le_refl 0, fun p _ => ⟨.nil, .fresh cfg n disk p⟩⟩
  | @snoc u v es e hu hstep ih =>
    obtain ⟨es', u', hrun', hes, halike, hreads, hsame⟩ := ih fun e' he' => hok e' (List.mem_append_left _ he')
    have hlast : e.2 ≠ .page none := hok e (List.mem_append_right _ (List.mem_singleton_self e))
    obtain ⟨hclient, hread⟩ := hstep
    -- one more operation that both answer alike, whichever it is
    obtain ⟨ans', t', hclient', halike', hseen, hle'⟩ := halike.client hclient hlast
    refine ⟨es' ++ [(e.1, ans')], (t', u'.2 + u'.1.pool.readsOf e.1), hrun'.snoc ⟨hclient', rfl⟩,
      List.rel_append hes (.cons ⟨rfl, hseen⟩ .nil), halike', ?_, fun p hob => ?_⟩
    · have hread' : v.2 = u.2 + u.1.pool.readsOf e.1 := hread
      show u'.2 + u'.1.pool.readsOf e.1 ≤ v.2
      omega
    · obtain ⟨hanswers, hshow⟩ := hsame p hob.before
      obtain ⟨hshow', hlast'⟩ := hshow.step halike.sound halike.sound' hclient hclient' hseen hob.last
      refine ⟨List.rel_append hanswers (.cons hlast' .nil), ?_⟩
      by_cases hp : e.1.subject = some p
      · rw [if_pos hp] at hshow'
        rwa [Account.along_same hp]
      · rw [if_neg hp] at hshow'
        rwa [Account.along_other hp]

/-- **Two pages in one frame, and in two.**  In one frame page 0 gives way to page 1 and is read again.  With two frames
    it stays; the client, who said that it was dirty, is shown the same. -/
theorem larger_pool_two_frames : ∃ (es es' : List (Op PageId ℕ × Answer ℕ)) (a a' : Session (PageId → ℕ) ℕ)
    (reads' : ℕ), (readingSystem .debug (fresh 1).pool.cfg fun _ => 0).Run (fresh 1, 0) es (a, 1) ∧
    (readingSystem .debug ((fresh 1).pool.cfg.resized 2) fun _ => 0).Run (fresh 2, 0) es' (a', reads') ∧
    es.getLast? = some (.fetch 0, .page (some 7)) ∧ List.Forall₂ (SameFor 0) es es' ∧
    a'.pool.pageTable 0 ≠ none ∧ reads' ≤ 1 := by
  let es : List (Op PageId ℕ × Answer ℕ) := [(.create 0, .page (some 0)), (.write 0 7, .done),
    (.release 0 true, .flag true), (.create 1, .page (some 0)), (.release 1 false, .flag true),
    (.fetch 0, .page (some 7))]
  have hinit : (clientSystem .debug (fresh 1).pool.cfg fun _ : PageId => (0 : ℕ)).init (fresh 1) := ⟨rfl, by decide⟩
  have hplay : (fresh 1).play .debug (es.map Prod.fst) = some (es, (fresh 1).played .debug (es.map Prod.fst)) :=
    play_played (by decide +kernel)
  have hreads : (fresh 1).playReads .debug (es.map Prod.fst) = 1 := by decide +kernel
  have hrun : (readingSystem .debug (fresh 1).pool.cfg fun _ => 0).Run (fresh 1, 0) es (_, 0 + _) :=
    (Sound.init (b := .debug) hinit).play_reads 0 hplay
  rw [hreads] at hrun
  obtain ⟨a₀', es', a', reads', hinit', hrun', -, hres, -, hle, hsame⟩ :=
    larger_pool (n := 2) (by decide) hinit hrun (by decide +kernel)
  obtain rfl : a₀' = fresh 2 := hinit'.1
  have hob : Obeyed (fun _ => 0 : PageId → ℕ) 0 es := by
    unfold Obeyed
    decide +kernel
  exact ⟨es, es', _, a', reads', hrun, hrun', rfl, (hsame 0 hob).1, hres 0 (by decide +kernel), hle⟩

end Session

end BusTub
