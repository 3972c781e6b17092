/-
  The parallel buffer pool is as many LRU caches as it has instances.

  The instances share one disk, and threads call them in any order: a thread in `NewPgImp` asks one instance after
  the other, with everybody else's calls in between, and so does one in `FlushAllPgsImp`.

  1. **`Works`** is one step of the pool and its threads.  It says which instance was asked what, and what it answered.

  2. **`Alone`**: an instance as if the disk were its own.  A call of the instance is a call of a pool on its own
     disk (`Alone.call`), and the calls of the others are not to be seen there (`Alone.other`): the page ids are
     split among the instances, and so are the pages on disk.

  3. `instances_are_caches` — **the main result**: in every run, whatever an instance was asked and whatever it
     answered is a run of an LRU cache of its own.
-/
import BusTub.Buffer.OtherDisk
import BusTub.Buffer.PageCache
import BusTub.Buffer.ParallelNew
import BusTub.Buffer.ParallelThreads

set_option linter.unusedSectionVars false

namespace BusTub

namespace ParallelBufferPoolManager

open BufferPoolManagerInstance (Call Return)
open LruCache (Op)

variable {cfg : ParallelConfig} {Disk Data ι : Type} [DiskManager Disk Data] [Zero Data] [DecidableEq ι]

/-! ## The pool at work -/

/-- An instance, with what it was asked and what it answered. -/
abbrev Heard (cfg : ParallelConfig) (Data : Type) := Fin cfg.numInstances × Op PageId Data × LruCache.Answer Data

/-- The pool and its threads, with the ids created so far. -/
structure AtWork (cfg : ParallelConfig) (Disk Data ι : Type) where
  created : List (Fin cfg.numInstances × PageId)
  threads : Threads cfg Disk Data ι

/-- The pool. -/
def AtWork.pool (a : AtWork cfg Disk Data ι) : ParallelBufferPoolManager cfg Disk Data := a.threads.pool

/-- Which instances the methods other than `NewPgImp` call. -/
def GoesTo (cfg : ParallelConfig) (i : Fin cfg.numInstances) : Call → Prop
  | .newPg => False
  | .flushAllPgs => True
  | .fetchPg p | .unpinPg p _ | .flushPg p | .deletePg p => i = getBufferPoolManager cfg p

/-- **One step.**  Threads other than those in `NewPgImp` fetch only pages that were created. -/
inductive Works (b : Build) (a : AtWork cfg Disk Data ι) : Option (Heard cfg Data) → AtWork cfg Disk Data ι → Prop where
  /-- A thread in `NewPgImp` moves on, and calls no instance. -/
  | between {t : ι} {threads : Threads cfg Disk Data ι} (hpoint : ∀ idx, (a.threads.thread t).point ≠ .calling idx)
      (h : a.threads.advance b t = .ok threads) : Works b a none ⟨a.created, threads⟩
  /-- A thread in `NewPgImp` asks an instance for a page. -/
  | newPg {t : ι} {idx : ℕ} {ret : Return} {pool : ParallelBufferPoolManager cfg Disk Data}
      {threads : Threads cfg Disk Data ι} (hpoint : (a.threads.thread t).point = .calling idx)
      (hask : a.pool.onInstance b (slot cfg idx) .newPg = .ok (.ofInstance (slot cfg idx) ret, pool))
      (h : a.threads.advance b t = .ok threads) :
      Works b a (some (slot cfg idx, (a.pool.instanceOn (slot cfg idx)).opOf .newPg,
          (pool.instanceOn (slot cfg idx)).answerOf ret))
        ⟨a.created ++ newIds .newPg (.ofInstance (slot cfg idx) ret), threads⟩
  /-- A thread in another method calls an instance. -/
  | call {i : Fin cfg.numInstances} {c : Call} {ret : Return} {pool : ParallelBufferPoolManager cfg Disk Data}
      (hi : GoesTo cfg i c) (hfetch : ∀ p, c = .fetchPg p → p ∈ a.created.map Prod.snd)
      (h : a.pool.onInstance b i c = .ok (.ofInstance i ret, pool)) :
      Works b a (some (i, (a.pool.instanceOn i).opOf c, (pool.instanceOn i).answerOf ret))
        ⟨a.created, { a.threads with pool := pool }⟩
  /-- Somebody writes through a pointer. -/
  | write {i : Fin cfg.numInstances} {p : PageId} {f : FrameId} (x : Data)
      (hp : (a.pool.bpmList i).pageTable p = some f) :
      Works b a (some (i, .write p x, .done)) ⟨a.created, { a.threads with pool := a.pool.store i f x }⟩

/-- **The runs** of a fresh pool, as long as no counter has wrapped. -/
def working (b : Build) (cfg : ParallelConfig) (disk : Disk) :
    StepSystem (AtWork cfg Disk Data ι) (Option (Heard cfg Data)) where
  init a := a.created = [] ∧ a.pool = create cfg disk ∧ (∀ t, (a.threads.thread t).point = .idle) ∧
    Unwrapped a.created a.pool
  step a e a' := Works b a e a' ∧ Unwrapped a'.created a'.pool

/-- What instance `i` hears of a step. -/
def heardBy (i : Fin cfg.numInstances) : Option (Heard cfg Data) → Option (Op PageId Data × LruCache.Answer Data)
  | some x => if x.1 = i then some x.2 else none
  | none => none

/-- Instance `i` shows the cache `c`: on some disk of its own, on which its pages are what they are on the
    shared one. -/
def ShowsAt (s : ParallelBufferPoolManager cfg Disk Data) (i : Fin cfg.numInstances) (c : LruCache PageId Data) : Prop :=
  (∃ d, ((s.bpmList i).withDisk d).Shows c) ∧
    ∀ p ≠ invalidPageId, getBufferPoolManager cfg p = i → c.stored p = DiskManager.readPage s.disk p

/-! ## The steps of a thread -/

section advance

variable {b : Build} {t : ι} {s s' : Threads cfg Disk Data ι}

/-- Between two calls a thread touches no instance. -/
theorem Threads.advance_between (hpoint : ∀ idx, (s.thread t).point ≠ .calling idx) (h : s.advance b t = .ok s') :
    s'.pool.bpmList = s.pool.bpmList ∧ s'.pool.disk = s.pool.disk := by
  unfold advance at h
  simp only at h
  split at h
  · cases h
    exact ⟨rfl, rfl⟩
  · cases h
    exact ⟨rfl, rfl⟩
  · split at h
    · cases h
      exact ⟨rfl, rfl⟩
    · cases h
      exact ⟨rfl, rfl⟩
  · next idx hp => exact absurd hp (hpoint idx)
  · cases h
    exact ⟨rfl, rfl⟩
  · cases h
    exact ⟨rfl, rfl⟩
  · cases h
    exact ⟨rfl, rfl⟩

/-- A thread that asks an instance leaves the pool as the instance does. -/
theorem Threads.advance_calling {idx : ℕ} {ans : Answer cfg} {pool : ParallelBufferPoolManager cfg Disk Data}
    (hpoint : (s.thread t).point = .calling idx) (hask : s.pool.onInstance b (slot cfg idx) .newPg = .ok (ans, pool))
    (h : s.advance b t = .ok s') : s'.pool = pool := by
  unfold advance at h
  simp only [hpoint, hask, bind, Except.bind] at h
  split at h
  · cases h
    rfl
  · cases h
    rfl

end advance

/-! ## One instance -/

/-- The answers of an instance are told apart. -/
theorem Answer.ofInstance_inj {i : Fin cfg.numInstances} {ret ret' : Return}
    (h : (Answer.ofInstance i ret : Answer cfg) = .ofInstance i ret') : ret = ret' := by
  cases ret with
  | page frame p =>
    cases ret' with
    | page frame' p' =>
      obtain ⟨hframe, rfl⟩ := Answer.page.inj h
      have hpair : Function.Injective fun f : FrameId => (i, f) := fun f g he => (Prod.mk.inj he).2
      rw [Option.map_injective hpair hframe]
    | _ => cases h
  | flag res =>
    cases ret' with
    | flag res' => rw [Answer.flag.inj h]
    | _ => cases h
  | void =>
    cases ret' with
    | void => rfl
    | _ => cases h

section alone

variable {created : List (Fin cfg.numInstances × PageId)} {s s' : ParallelBufferPoolManager cfg Disk Data}
  {i j : Fin cfg.numInstances} {c : LruCache PageId Data} {d : Disk} {b : Build} {m : Call} {ret : Return}

/-- The ids that instance `i` has created. -/
def createdIn (created : List (Fin cfg.numInstances × PageId)) (i : Fin cfg.numInstances) : List PageId :=
  (created.filter fun x => x.1 = i).map Prod.snd

/-- The pages that an instance created, out of the list of all of them. -/
theorem mem_createdIn {p : PageId} : p ∈ createdIn created i ↔ (i, p) ∈ created := by
  simp [createdIn]

/-- There are as many as are counted for the instance. -/
theorem length_createdIn : (createdIn created i).length = createdBy created i := by
  rw [createdIn, List.length_map, ← List.countP_eq_length_filter]
  rfl

/-- Pages created in the instance come behind its own. -/
theorem createdIn_append_self (ps : List PageId) :
    createdIn (created ++ ps.map fun p => (i, p)) i = createdIn created i ++ ps := by
  unfold createdIn
  have hall : (ps.map fun p => (i, p)).filter (fun x => x.1 = i) = ps.map fun p => (i, p) := by
    refine List.filter_eq_self.mpr fun x hx => ?_
    obtain ⟨p, -, rfl⟩ := List.mem_map.mp hx
    simp
  rw [List.filter_append, List.map_append, hall, List.map_map]
  congr 1
  exact List.map_id ps

/-- Pages created elsewhere do not. -/
theorem createdIn_append_other (hj : j ≠ i) (ps : List PageId) :
    createdIn (created ++ ps.map fun p => (i, p)) j = createdIn created j := by
  unfold createdIn
  have hnone : (ps.map fun p => (i, p)).filter (fun x => x.1 = j) = [] := by
    refine List.filter_eq_nil_iff.mpr fun x hx => ?_
    obtain ⟨p, -, rfl⟩ := List.mem_map.mp hx
    simpa using hj.symm
  rw [List.filter_append, hnone, List.append_nil]

/-- **Instance `i` as if the disk were its own**: `d` is what the disk would be if nobody else had written to it. -/
structure Alone (created : List (Fin cfg.numInstances × PageId)) (s : ParallelBufferPoolManager cfg Disk Data)
    (i : Fin cfg.numInstances) (c : LruCache PageId Data) (d : Disk) : Prop where
  sound : Session.Sound ⟨createdIn created i, (s.bpmList i).withDisk d⟩
  showing : ((s.bpmList i).withDisk d).Shows c
  own : ∀ p ≠ invalidPageId, getBufferPoolManager cfg p = i → DiskManager.readPage d p = DiskManager.readPage s.disk p

/-- An instance that stands as alone on the disk shows the cache that it shows alone. -/
theorem Alone.showsAt (h : Alone created s i c d) : s.ShowsAt i c :=
  ⟨⟨d, h.showing⟩, fun p hp hi => (h.showing.stored p hp).trans (h.own p hp hi)⟩

/-- Where neither the instance nor its pages on disk have changed. -/
theorem Alone.kept (h : Alone created s i c d) {created' : List (Fin cfg.numInstances × PageId)}
    (hcreated : createdIn created' i = createdIn created i) (hi : s'.bpmList i = s.bpmList i)
    (hdisk : ∀ p ≠ invalidPageId, getBufferPoolManager cfg p = i →
      DiskManager.readPage s'.disk p = DiskManager.readPage s.disk p) : Alone created' s' i c d := by
  constructor
  · rw [hcreated, hi]
    exact h.sound
  · rw [hi]
    exact h.showing
  · intro p hp hroute
    rw [hdisk p hp hroute]
    exact h.own p hp hroute

variable [LawfulDiskManager Disk]

/-- **A call of the instance** is one of a pool on a disk of its own. -/
theorem Alone.call (h : Alone created s i c d) (hs : s.Sound created)
    (hrun : s.onInstance b i m = .ok (.ofInstance i ret, s')) (hfetch : ∀ p, m = .fetchPg p → (i, p) ∈ created)
    (hu : Unwrapped (created ++ newIds m (.ofInstance i ret)) s') :
    (c.step ((s.instanceOn i).opOf m)).1 = (s'.instanceOn i).answerOf ret ∧
    ∃ d', Alone (created ++ newIds m (.ofInstance i ret)) s' i (c.step ((s.instanceOn i).opOf m)).2 d' := by
  obtain ⟨ret', t, hexec, hret, rfl⟩ := onInstance_inv hrun
  obtain rfl := Answer.ofInstance_inj hret
  have hread : ∀ p, m = .fetchPg p → DiskManager.readPage d p = DiskManager.readPage (s.instanceOn i).disk p := by
    intro p hp
    have hmem := hfetch p hp
    exact h.own p (h.sound.created_ne_invalid (mem_createdIn.mpr hmem)) (hs.creator hmem)
  have halone := BufferPoolManagerInstance.exec_withDisk hexec hread
  -- the call on the disk of its own
  have hi : Function.update s.bpmList i t i = t := Function.update_self ..
  have hids : createdIn (created ++ newIds m (.ofInstance i ret)) i =
      createdIn created i ++ BufferPoolManagerInstance.newIds m ret := by
    rw [newIds_ofInstance, createdIn_append_self]
  have hstep : (Session.system b (cfg.forInstance i) d).step ⟨createdIn created i, (s.bpmList i).withDisk d⟩
      (.call m ret) ⟨createdIn created i ++ BufferPoolManagerInstance.newIds m ret,
        t.withDisk (((s.instanceOn i).writes b m).foldl WriteCall.on d)⟩ := by
    refine ⟨halone, fun p hp => mem_createdIn.mpr (hfetch p hp), rfl, ?_⟩
    have hcfg : t.cfg = cfg.forInstance i :=
      (Session.effect_cfg (BufferPoolManagerInstance.exec_effect (hs.instanceOn i) hexec)).trans (hs.cfg_eq i)
    have hnext := hu i
    rw [← length_createdIn, hids] at hnext
    show t.nextPageId = t.cfg.instanceIndex + t.cfg.numInstances * _
    rw [hcfg, ← hi]
    exact hnext
  obtain ⟨hsound, hans, hshows⟩ := h.sound.client_step h.showing (Session.client_call hstep)
  refine ⟨hans.trans ?_, ((s.instanceOn i).writes b m).foldl WriteCall.on d, ?_⟩
  · show t.answerOf ret = (Function.update s.bpmList i t i).answerOf ret
    rw [hi]
  · constructor
    · show Session.Sound ⟨_, (Function.update s.bpmList i t i).withDisk _⟩
      rw [hids, hi]
      exact hsound
    · show ((Function.update s.bpmList i t i).withDisk _).Shows _
      rw [hi]
      exact hshows
    · intro p hp hroute
      show _ = DiskManager.readPage t.disk p
      rw [BufferPoolManagerInstance.exec_disk hexec]
      exact BufferPoolManagerInstance.read_writes_congr (h.own p hp hroute)

/-- **A call of another instance** is not to be seen. -/
theorem Alone.other (h : Alone created s j c d) (hs : s.Sound created) (hinv : (s.bpmList i).Inv) (hj : j ≠ i)
    (hrun : s.onInstance b i m = .ok (.ofInstance i ret, s')) :
    Alone (created ++ newIds m (.ofInstance i ret)) s' j c d := by
  have hframe := onInstance_frame hrun hj
  obtain ⟨ret', t, hexec, -, rfl⟩ := onInstance_inv hrun
  refine h.kept ?_ hframe fun p hp hroute => ?_
  · rw [newIds_ofInstance]
    exact createdIn_append_other hj _
  · show DiskManager.readPage t.disk p = _
    rw [BufferPoolManagerInstance.exec_disk hexec]
    refine BufferPoolManagerInstance.read_writes_of_ne fun w hw => ?_
    -- instance `i` writes pages of its own
    rintro rfl
    rcases (hinv.onDisk s.disk).writes_own hexec w hw with hinvalid | hnext | hres
    · exact hp hinvalid
    · rw [hnext] at hroute
      exact hj (hroute.symm.trans (hs.next_routed i))
    · obtain ⟨f, hf⟩ := Option.ne_none_iff_exists'.mp hres
      exact hj (hroute.symm.trans (hs.routed i _ f hf))

/-- Somebody writes through a pointer into the instance. -/
theorem Alone.write (h : Alone created s i c d) {p : PageId} {f : FrameId} (hp : (s.bpmList i).pageTable p = some f)
    (x : Data) : Alone created (s.store i f x) i (c.step (.write p x)).2 d := by
  have hi : (s.store i f x).bpmList i = (s.bpmList i).setPage f { (s.bpmList i).pages f with data := x } :=
    Function.update_self ..
  have hstep : (Session.clientSystem .debug (s.bpmList i).cfg d).step ⟨createdIn created i, (s.bpmList i).withDisk d⟩
      (.write p x, .done) ⟨createdIn created i,
        ((s.bpmList i).withDisk d).setPage f { (s.bpmList i).pages f with data := x }⟩ := ⟨rfl, f, hp, rfl⟩
  obtain ⟨hsound, -, hshows⟩ := h.sound.client_step h.showing hstep
  constructor
  · rw [hi]
    exact hsound
  · rw [hi]
    exact hshows
  · exact h.own

/-- A write through the pointer of another instance goes to another frame table. -/
theorem Alone.write_other (h : Alone created s j c d) (hj : j ≠ i) (f : FrameId) (x : Data) :
    Alone created (s.store i f x) j c d :=
  h.kept rfl (Function.update_of_ne hj _ _) fun _ _ _ => rfl

end alone

/-! ## Runs -/

section runs

variable {b : Build} {disk : Disk} {a a' a₀ : AtWork cfg Disk Data ι} {e : Option (Heard cfg Data)}
  {i : Fin cfg.numInstances} {c : LruCache PageId Data}

/-- What holds in every state of a run: every instance is a pool on a disk of its own. -/
structure AtWork.Sound (a : AtWork cfg Disk Data ι) : Prop where
  pool : a.pool.Sound a.created
  alone : ∀ i, ∃ c d, Alone a.created a.pool i c d

/-- Each instance keeps its own invariant. -/
theorem AtWork.Sound.inv (h : a.Sound) (i : Fin cfg.numInstances) : (a.pool.bpmList i).Inv := by
  obtain ⟨c, d, hc⟩ := h.alone i
  exact hc.sound.inv.onDisk (a.pool.bpmList i).disk

/-- A fetched page was created by the instance that it is fetched from. -/
theorem AtWork.Sound.fetched (h : a.Sound) {m : Call} (hi : GoesTo cfg i m)
    (hfetch : ∀ p, m = .fetchPg p → p ∈ a.created.map Prod.snd) : ∀ p, m = .fetchPg p → (i, p) ∈ a.created := by
  rintro p rfl
  obtain ⟨⟨j, q⟩, hmem, rfl⟩ := List.mem_map.mp (hfetch p rfl)
  obtain rfl : i = j := hi.trans (h.pool.creator hmem)
  exact hmem

/-- Other methods than `NewPgImp` create nothing. -/
theorem newIds_of_goesTo {m : Call} (hi : GoesTo cfg i m) (ans : Answer cfg) : newIds m ans = [] := by
  cases m with
  | newPg => exact hi.elim
  | _ => rfl

/-- The cache of instance `i` has followed what the instance heard. -/
def Followed (i : Fin cfg.numInstances) (c : LruCache PageId Data) (e : Option (Heard cfg Data))
    (created : List (Fin cfg.numInstances × PageId)) (s : ParallelBufferPoolManager cfg Disk Data) : Prop :=
  match heardBy i e with
  | some x => (c.step x.1).1 = x.2 ∧ ∃ d, Alone created s i (c.step x.1).2 d
  | none => ∃ d, Alone created s i c d

/-- What an event asks of the instance that it goes to. -/
theorem followed_self {op : Op PageId Data} {ans : LruCache.Answer Data} {created : List (Fin cfg.numInstances × PageId)}
    {s : ParallelBufferPoolManager cfg Disk Data} :
    Followed i c (some (i, op, ans)) created s ↔ (c.step op).1 = ans ∧ ∃ d, Alone created s i (c.step op).2 d := by
  simp [Followed, heardBy]

/-- The other instances need only stand as before. -/
theorem followed_other {j : Fin cfg.numInstances} (hj : j ≠ i) {x : Op PageId Data × LruCache.Answer Data}
    {created : List (Fin cfg.numInstances × PageId)} {s : ParallelBufferPoolManager cfg Disk Data} :
    Followed j c (some (i, x)) created s ↔ ∃ d, Alone created s j c d := by
  simp [Followed, heardBy, hj.symm]

/-- The counters and the page tables are all that matters. -/
theorem Sound.of_bpmList {created : List (Fin cfg.numInstances × PageId)} {s s' : ParallelBufferPoolManager cfg Disk Data}
    (h : s.Sound created) (hi : s'.bpmList = s.bpmList) : s'.Sound created := by
  obtain ⟨start, bpmList, d⟩ := s'
  obtain rfl : bpmList = s.bpmList := hi
  exact { h with }

variable [LawfulDiskManager Disk]

/-- **An instance is called**: its cache follows, and the other caches stay. -/
theorem AtWork.Sound.asked (h : a.Sound) {m : Call} {ret : Return} {pool : ParallelBufferPoolManager cfg Disk Data}
    (hrun : a.pool.onInstance b i m = .ok (.ofInstance i ret, pool)) (hfetch : ∀ p, m = .fetchPg p → (i, p) ∈ a.created)
    (hu : Unwrapped (a.created ++ newIds m (.ofInstance i ret)) pool) :
    pool.Sound (a.created ++ newIds m (.ofInstance i ret)) ∧ ∀ j c d, Alone a.created a.pool j c d →
      Followed j c (some (i, (a.pool.instanceOn i).opOf m, (pool.instanceOn i).answerOf ret))
        (a.created ++ newIds m (.ofInstance i ret)) pool := by
  refine ⟨h.pool.step hrun (fun p hp => h.pool.creator (hfetch p hp)) hu, fun j c d hc => ?_⟩
  by_cases hj : j = i
  · subst hj
    exact followed_self.mpr (hc.call h.pool hrun hfetch hu)
  · exact (followed_other hj).mpr ⟨d, hc.other h.pool (h.inv i) hj hrun⟩

/-- **The step lemma**: whatever an instance hears, its cache follows. -/
theorem AtWork.Sound.step (h : a.Sound) (hstep : (working b cfg disk).step a e a') :
    a'.pool.Sound a'.created ∧ ∀ i c d, Alone a.created a.pool i c d → Followed i c e a'.created a'.pool := by
  obtain ⟨hworks, hu⟩ := hstep
  cases hworks with
  | between hpoint hadv =>
    obtain ⟨hi, hd⟩ := Threads.advance_between hpoint hadv
    refine ⟨h.pool.of_bpmList hi, fun i c d hc => ⟨d, hc.kept rfl (congrFun hi i) fun p _ _ => ?_⟩⟩
    exact congrArg (DiskManager.readPage · p) hd
  | newPg hpoint hask hadv =>
    obtain rfl := Threads.advance_calling hpoint hask hadv
    exact h.asked hask (fun p hp => by cases hp) hu
  | @call i m ret pool hi hfetch hrun =>
    have hasked := h.asked hrun (h.fetched hi hfetch)
    rw [newIds_of_goesTo hi, List.append_nil] at hasked
    exact hasked hu
  | @write i p f x hp =>
    refine ⟨h.pool.store i f x, fun j c d hc => ?_⟩
    by_cases hj : j = i
    · subst hj
      exact followed_self.mpr ⟨rfl, d, hc.write hp x⟩
    · exact (followed_other hj).mpr ⟨d, hc.write_other hj f x⟩

/-- Either way the instance stands for a cache afterwards. -/
theorem Followed.alone {j : Fin cfg.numInstances} {created : List (Fin cfg.numInstances × PageId)}
    {s : ParallelBufferPoolManager cfg Disk Data} (h : Followed j c e created s) : ∃ c' d, Alone created s j c' d := by
  unfold Followed at h
  split at h
  · exact ⟨_, h.2⟩
  · exact ⟨c, h⟩

/-- A step of any thread keeps the invariant. -/
theorem AtWork.Sound.next (h : a.Sound) (hstep : (working b cfg disk).step a e a') : a'.Sound := by
  obtain ⟨hpool, hfollow⟩ := h.step hstep
  refine ⟨hpool, fun i => ?_⟩
  obtain ⟨c, d, hc⟩ := h.alone i
  exact (hfollow i c d hc).alone

/-- A fresh instance is an empty cache. -/
theorem alone_create (hinit : (working b cfg disk).init a) (i : Fin cfg.numInstances) :
    Alone a.created a.pool i (LruCache.empty cfg.poolSize (DiskManager.readPage disk)) disk := by
  obtain ⟨hcreated, hpool, -, hu⟩ := hinit
  rw [hcreated, hpool] at hu ⊢
  have hfresh : (⟨[], BufferPoolManagerInstance.create (cfg.forInstance i) disk⟩ : Session Disk Data).Unwrapped := by
    have hnext := hu i
    have hcount : createdBy ([] : List (Fin cfg.numInstances × PageId)) i = 0 := rfl
    rw [hcount] at hnext
    exact hnext
  have hsound : (⟨[], BufferPoolManagerInstance.create (cfg.forInstance i) disk⟩ : Session Disk Data).Sound := by
    have hinit : (Session.system b (cfg.forInstance i) disk).init _ := ⟨rfl, hfresh⟩
    exact Session.Sound.init hinit
  have hi : ((create cfg disk : ParallelBufferPoolManager cfg Disk Data).bpmList i).withDisk disk =
      BufferPoolManagerInstance.create (cfg.forInstance i) disk := BufferPoolManagerInstance.withDisk_self rfl
  constructor
  · rw [hi]
    exact hsound
  · rw [hi]
    exact Session.create_shows (cfg.forInstance i) disk
  · exact fun _ _ _ => rfl

/-- It holds of a fresh pool with every thread idle. -/
theorem AtWork.Sound.init (hinit : (working b cfg disk).init a) : a.Sound := by
  refine ⟨?_, fun i => ⟨_, disk, alone_create hinit i⟩⟩
  obtain ⟨hcreated, hpool, -, hu⟩ := hinit
  have hsystem : (system b cfg disk).init (a.created, a.pool) := ⟨Prod.ext hcreated hpool, hu⟩
  exact Sound.reachable (.init hsystem)

/-- So it holds along every run. -/
theorem AtWork.Sound.reached {es : List (Option (Heard cfg Data))} (h₀ : (working b cfg disk).init a₀)
    (hrun : (working b cfg disk).Run a₀ es a) : a.Sound :=
  hrun.invariant (I := AtWork.Sound) (fun _ _ _ ha hs => ha.next hs) (AtWork.Sound.init h₀)

/-- What an instance hears is a run of its cache. -/
theorem caches_run {es : List (Option (Heard cfg Data))} (h₀ : (working b cfg disk).init a₀)
    (hrun : (working b cfg disk).Run a₀ es a) (i : Fin cfg.numInstances) :
    ∃ c d, (LruCache.system cfg.poolSize (DiskManager.readPage disk)).Run
      (LruCache.empty cfg.poolSize (DiskManager.readPage disk)) (es.filterMap (heardBy i)) c ∧
      Alone a.created a.pool i c d := by
  induction hrun with
  | nil => exact ⟨_, disk, .nil _, alone_create h₀ i⟩
  | @snoc a₁ a₂ es e hrun hstep ih =>
    obtain ⟨c, d, hcache, hc⟩ := ih
    have hfollow := ((AtWork.Sound.reached h₀ hrun).step hstep).2 i c d hc
    rw [List.filterMap_append]
    unfold Followed at hfollow
    split at hfollow
    · next x hx =>
      obtain ⟨hans, d', hc'⟩ := hfollow
      have hone : [e].filterMap (heardBy i) = [x] := by simp [hx]
      rw [hone]
      exact ⟨_, d', hcache.snoc (Prod.ext hans rfl), hc'⟩
    · next hx =>
      obtain ⟨d', hc'⟩ := hfollow
      have hnone : [e].filterMap (heardBy i) = [] := by simp [hx]
      rw [hnone, List.append_nil]
      exact ⟨c, d', hcache, hc'⟩

/-- No call of an instance fails, as long as its counter has room. -/
theorem AtWork.Sound.returns (h : a.Sound) (b : Build) {m : Call} (hfetch : ∀ p, m = .fetchPg p → (i, p) ∈ a.created)
    (hroom : m = .newPg → (a.pool.bpmList i).nextPageId + (cfg.numInstances : Int) < 2 ^ 31) :
    ∃ ret pool, a.pool.onInstance b i m = .ok (.ofInstance i ret, pool) := by
  obtain ⟨c, d, hc⟩ := h.alone i
  have hallowed : Session.Allowed ⟨createdIn a.created i, (a.pool.bpmList i).withDisk d⟩
      (((a.pool.bpmList i).withDisk d).opOf m) := by
    cases m with
    | newPg =>
      refine ⟨rfl, ?_⟩
      show (a.pool.bpmList i).nextPageId + ((a.pool.bpmList i).cfg.numInstances : Int) < 2 ^ 31
      rw [h.pool.cfg_eq i]
      exact hroom rfl
    | fetchPg p => exact mem_createdIn.mpr (hfetch p rfl)
    | _ => trivial
  obtain ⟨ret, a', hstep⟩ := hc.sound.returns b (cfg.forInstance i) d m hallowed
  have hread : ∀ p, m = .fetchPg p → DiskManager.readPage a.pool.disk p = DiskManager.readPage d p := by
    intro p hp
    have hmem := hfetch p hp
    exact (hc.own p (hc.sound.created_ne_invalid (mem_createdIn.mpr hmem)) (h.pool.creator hmem)).symm
  have hexec := BufferPoolManagerInstance.exec_withDisk hstep.1 hread
  exact ⟨ret, _, BufferPoolManagerInstance.bind_of_ok hexec rfl⟩

/-- Neither does a thread in `NewPgImp`. -/
theorem AtWork.Sound.advances (h : a.Sound) (b : Build) (t : ι)
    (hroom : ∀ i, (a.pool.bpmList i).nextPageId + (cfg.numInstances : Int) < 2 ^ 31) :
    ∃ threads, a.threads.advance b t = .ok threads := by
  unfold Threads.advance
  simp only
  split
  · exact ⟨_, rfl⟩
  · exact ⟨_, rfl⟩
  · split
    · exact ⟨_, rfl⟩
    · exact ⟨_, rfl⟩
  · next idx hpoint =>
    obtain ⟨ret, pool, hask⟩ := h.returns b (m := .newPg) (fun p hp => by cases hp) fun _ => hroom (slot cfg idx)
    replace hask : a.threads.pool.onInstance b (slot cfg idx) .newPg = .ok (.ofInstance (slot cfg idx) ret, pool) := hask
    rw [hask]
    simp only [bind, Except.bind]
    split
    · exact ⟨_, rfl⟩
    · exact ⟨_, rfl⟩
  · exact ⟨_, rfl⟩
  · exact ⟨_, rfl⟩
  · exact ⟨_, rfl⟩

/-- **Every instance is an LRU cache of its own**, whatever the threads do: what an instance was asked and what it
    answered is a run of a fresh cache over the store, and the instance shows that cache.  And as long as the
    counters have room, nobody's next step fails. -/
theorem instances_are_caches {es : List (Option (Heard cfg Data))} (h₀ : (working b cfg disk).init a₀)
    (hrun : (working b cfg disk).Run a₀ es a) :
    (∀ i, ∃ c, (LruCache.system cfg.poolSize (DiskManager.readPage disk)).Run
      (LruCache.empty cfg.poolSize (DiskManager.readPage disk)) (es.filterMap (heardBy i)) c ∧ a.pool.ShowsAt i c) ∧
    ((∀ i, (a.pool.bpmList i).nextPageId + (cfg.numInstances : Int) < 2 ^ 31) →
      (∀ t, ∃ threads, a.threads.advance b t = .ok threads) ∧
      ∀ i m, GoesTo cfg i m → (∀ p, m = .fetchPg p → p ∈ a.created.map Prod.snd) →
        ∃ ret pool, a.pool.onInstance b i m = .ok (.ofInstance i ret, pool)) := by
  have hsound := AtWork.Sound.reached h₀ hrun
  refine ⟨fun i => ?_, fun hroom => ⟨fun t => hsound.advances b t hroom, fun i m hi hfetch => ?_⟩⟩
  · obtain ⟨c, d, hcache, hc⟩ := caches_run h₀ hrun i
    exact ⟨c, hcache, hc.showsAt⟩
  · refine hsound.returns b (hsound.fetched hi hfetch) ?_
    rintro rfl
    exact hi.elim

/-- A fresh pool of two instances, and a thread that has got so far in `NewPgImp`. -/
def oneThread (point : Point twoInstances) : AtWork twoInstances (PageId → Nat) Nat Unit :=
  ⟨[], ⟨create _ fun _ => 0, fun _ => ⟨point, 0, []⟩⟩⟩

theorem oneThread_unwrapped (x : Point twoInstances) : Unwrapped (oneThread x).created (oneThread x).pool := by
  have hfresh : Unwrapped noPages.1 noPages.2 := fun i => by revert i; decide
  exact hfresh

theorem oneThread_between {x y : Point twoInstances} (hx : ∀ idx, x ≠ .calling idx)
    (h : (oneThread x).threads.advance .debug () = .ok (oneThread y).threads) :
    (working .debug twoInstances (fun _ => 0 : PageId → Nat)).step (oneThread x) none (oneThread y) :=
  ⟨.between (t := ()) hx h, oneThread_unwrapped y⟩

/-- The thread gets the frame of instance 0, and somebody writes to the page. -/
def twoHeard : List (Option (Heard twoInstances Nat)) :=
  [none, none, none, some (slot _ 0, .create 0, .page (some 0)), some (slot _ 0, .write 0 7, .done)]

theorem twoHeard_run : (working .debug twoInstances (fun _ => 0 : PageId → Nat)).init (oneThread .idle) ∧
    ∃ a : AtWork twoInstances (PageId → Nat) Nat Unit,
      (working .debug twoInstances (fun _ => 0 : PageId → Nat)).Run (oneThread .idle) twoHeard a := by
  have h₁ := oneThread_between (x := .idle) (y := .entered) (fun _ => nofun) rfl
  have h₂ := oneThread_between (x := .entered) (y := .testing 0) (fun _ => nofun) rfl
  have h₃ := oneThread_between (x := .testing 0) (y := .calling 0) (fun _ => nofun) rfl
  have hinit : (working .debug twoInstances (fun _ => 0 : PageId → Nat)).init (oneThread .idle) :=
    ⟨rfl, rfl, fun _ => rfl, oneThread_unwrapped _⟩
  -- the call of instance 0
  have hobserved : (((oneThread (.calling 0)).pool.onInstance .debug (slot _ 0) .newPg).toOption.map fun x =>
      (x.1, ((x.2.bpmList (slot _ 0)).pages 0).data, (x.2.bpmList (slot _ 0)).pageTable 0,
        (x.2.bpmList (slot _ 0)).nextPageId, (x.2.bpmList (slot _ 1)).nextPageId)) =
      some (.ofInstance (slot _ 0) (.page (some 0) 0), 0, some 0, 2, 1) := by decide +kernel
  obtain ⟨⟨ans, pool⟩, hask, hseen⟩ := Option.map_eq_some_iff.mp hobserved
  simp only [Prod.mk.injEq] at hseen
  obtain ⟨rfl, hdata, htable, hnext, hnext'⟩ := hseen
  replace hask := eq_ok_of_toOption hask
  have hbefore := StepSystem.Run.snoc (.snoc (.snoc (.nil (oneThread .idle)) h₁) h₂) h₃
  have hroom : ∀ i, ((oneThread (.calling 0)).pool.bpmList i).nextPageId + (twoInstances.numInstances : Int) < 2 ^ 31 :=
    fun i => by revert i; decide
  obtain ⟨threads, hadv⟩ := (AtWork.Sound.reached hinit hbefore).advances .debug () hroom
  obtain rfl : threads.pool = pool := Threads.advance_calling rfl hask hadv
  have hu : Unwrapped [(slot twoInstances 0, 0)] threads.pool := by
    have hboth : ∀ i : Fin twoInstances.numInstances, i = slot _ 0 ∨ i = slot _ 1 := by decide
    intro i
    rcases hboth i with rfl | rfl
    · rw [hnext]
      decide
    · rw [hnext']
      decide
  have h₄ : (working .debug twoInstances (fun _ => 0 : PageId → Nat)).step (oneThread (.calling 0)) _
      ⟨[(slot _ 0, 0)], threads⟩ := ⟨.newPg (t := ()) rfl hask hadv, hu⟩
  have hbefore' := StepSystem.Run.snoc hbefore h₄
  have h₅ : (working .debug twoInstances (fun _ => 0 : PageId → Nat)).step ⟨[(slot _ 0, 0)], threads⟩ _
      ⟨[(slot _ 0, 0)], { threads with pool := threads.pool.store (slot _ 0) 0 7 }⟩ :=
    ⟨.write 7 htable, ((AtWork.Sound.reached hinit hbefore').pool.store (slot _ 0) 0 7).unwrapped⟩
  have hrun := StepSystem.Run.snoc hbefore' h₅
  have hanswer : (threads.pool.instanceOn (slot twoInstances 0)).answerOf (.page (some 0) 0) = .page (some 0) :=
    congrArg (fun x => LruCache.Answer.page (some x)) hdata
  have hop : ((oneThread (.calling 0)).pool.instanceOn (slot twoInstances 0)).opOf .newPg = .create 0 :=
    congrArg Op.create (by decide +kernel)
  rw [hanswer, hop] at hrun
  exact ⟨hinit, _, hrun⟩

theorem instances_are_caches_two : ∃ (a : AtWork twoInstances (PageId → Nat) Nat Unit) (c : LruCache PageId Nat),
    (LruCache.system 1 fun _ => 0).Run (LruCache.empty 1 fun _ => 0)
      [(.create 0, .page (some 0)), (.write 0 7, .done)] c ∧ a.pool.ShowsAt (slot _ 0) c := by
  obtain ⟨hinit, a, hrun⟩ := twoHeard_run
  obtain ⟨c, hcache, hshows⟩ := (instances_are_caches hinit hrun).1 (slot _ 0)
  exact ⟨a, c, hcache, hshows⟩

end runs

end ParallelBufferPoolManager

end BusTub
