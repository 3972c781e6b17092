/-
  The buffer pool: `src/buffer/buffer_pool_manager_instance.cpp`.

  A pool holds `pool_size_` frames (`pages_`).  `page_table_` sends a resident page id to its frame,
  `free_list_` holds the frames without a page, `replacer_` the frames whose page nobody has pinned.
  Every method takes the pool's mutex for its whole body, so a method is one function on the state.

  1. **Parameters.**  The bytes of a page are an abstract type `Data` whose `0` is what
     `ResetMemory` leaves.  The disk manager is not part of these sources: `DiskManager` gives its
     two functions on an abstract disk state, and `LawfulDiskManager` states the two facts that the
     pool relies on.

  2. **Frames.**  `pages_` is a function on frame ids with an explicit bounds check where a frame id
     comes out of the free list or the replacer: `Victim` may fail and leave `frame_id = -1`, and
     the code does not look at its result.  `new Page[pool_size_]` bounds `pool_size_` far below
     `2^31`, so the casts of `pool_size_` to `int32_t` are the identity here, and `pin_count_`,
     whose overflow is undefined behaviour in C++, is an unbounded integer.

  3. **Page ids.**  `next_page_id_` is a 32-bit signed counter that advances by the unsigned
     `num_instances_`; `allocatePage` wraps it as the C++ does, and the `%` in `validatePageId` is
     taken on unsigned numbers.
-/
import BusTub.Buffer.LRUReplacer
import Mathlib.Data.List.Range

namespace BusTub

/-- `Page`: one frame of the pool with its metadata. -/
structure Page (Data : Type) where
  data : Data
  pageId : PageId
  pinCount : Int
  isDirty : Bool
  deriving DecidableEq

/-- The functions of `DiskManager` that the pool calls, on an abstract state of the disk. -/
class DiskManager (Disk : Type) (Data : outParam Type) where
  readPage : Disk → PageId → Data
  writePage : Disk → PageId → Data → Disk

/-- What the pool relies on: reading a page gives the bytes last written to it, and writing one page
    changes no other. -/
class LawfulDiskManager (Disk : Type) {Data : Type} [DiskManager Disk Data] : Prop where
  read_write_self : ∀ (d : Disk) (p : PageId) (x : Data),
    DiskManager.readPage (DiskManager.writePage d p x) p = x
  read_write_of_ne : ∀ (d : Disk) {p q : PageId} (x : Data), q ≠ p →
    DiskManager.readPage (DiskManager.writePage d p x) q = DiskManager.readPage d q

/-- A disk that is an array of pages. -/
instance arrayDisk (Data : Type) : DiskManager (PageId → Data) Data where
  readPage d p := d p
  writePage d p x := Function.update d p x

instance (Data : Type) : LawfulDiskManager (PageId → Data) where
  read_write_self d p x := Function.update_self p x d
  read_write_of_ne d _ _ x hne := Function.update_of_ne hne x d

/-- The constructor's arguments that never change, with what its two `BUSTUB_ASSERT`s check and the
    range of `uint32_t`. -/
structure PoolConfig where
  poolSize : Nat
  numInstances : Nat
  instanceIndex : Nat
  index_lt : instanceIndex < numInstances
  instances_lt : numInstances < 2 ^ 32

/-- `BufferPoolManagerInstance`. -/
structure BufferPoolManagerInstance (Disk Data : Type) where
  cfg : PoolConfig
  nextPageId : PageId
  pages : FrameId → Page Data
  pageTable : PageId → Option FrameId
  replacer : LRUReplacer
  freeList : List FrameId
  disk : Disk

namespace BufferPoolManagerInstance

variable {Disk Data : Type} [DiskManager Disk Data] [Zero Data]

/-- A frame without a page: what `Page`'s member initialisers and `DeletePgImp` leave. -/
def blankPage : Page Data := { data := 0, pageId := invalidPageId, pinCount := 0, isDirty := false }

/-- `BufferPoolManagerInstance::BufferPoolManagerInstance`: every frame is in the free list. -/
def create (cfg : PoolConfig) (disk : Disk) : BufferPoolManagerInstance Disk Data :=
  { cfg := cfg
    nextPageId := int32 cfg.instanceIndex
    pages := fun _ => blankPage
    pageTable := fun _ => none
    replacer := LRUReplacer.create cfg.poolSize
    freeList := (List.range cfg.poolSize).map Int.ofNat
    disk := disk }

/-- `f` is an index into `pages_`. -/
def inPool (s : BufferPoolManagerInstance Disk Data) (f : FrameId) : Prop :=
  0 ≤ f ∧ f < s.cfg.poolSize

instance (s : BufferPoolManagerInstance Disk Data) (f : FrameId) : Decidable (s.inPool f) := by
  unfold inPool; infer_instance

/-- Assign a frame of `pages_`. -/
def setPage (s : BufferPoolManagerInstance Disk Data) (f : FrameId) (pg : Page Data) :
    BufferPoolManagerInstance Disk Data :=
  { s with pages := Function.update s.pages f pg }

section setPage
omit [DiskManager Disk Data] [Zero Data]
variable (s : BufferPoolManagerInstance Disk Data) (f : FrameId) (pg : Page Data)

@[simp] theorem setPage_pages : (s.setPage f pg).pages = Function.update s.pages f pg := rfl
@[simp] theorem setPage_cfg : (s.setPage f pg).cfg = s.cfg := rfl
@[simp] theorem setPage_nextPageId : (s.setPage f pg).nextPageId = s.nextPageId := rfl
@[simp] theorem setPage_pageTable : (s.setPage f pg).pageTable = s.pageTable := rfl
@[simp] theorem setPage_replacer : (s.setPage f pg).replacer = s.replacer := rfl
@[simp] theorem setPage_freeList : (s.setPage f pg).freeList = s.freeList := rfl
@[simp] theorem setPage_disk : (s.setPage f pg).disk = s.disk := rfl

end setPage

/-- The disk after frame `f` is written back if it is dirty. -/
def writeBack (s : BufferPoolManagerInstance Disk Data) (f : FrameId) : Disk :=
  if (s.pages f).isDirty then DiskManager.writePage s.disk (s.pages f).pageId (s.pages f).data
  else s.disk

/-- `ValidatePageId`: `page_id % num_instances_` is computed on unsigned 32-bit numbers. -/
def validatePageId (b : Build) (page_id : PageId) (s : BufferPoolManagerInstance Disk Data) :
    Except Fault Unit :=
  assertThat b (uint32 page_id % s.cfg.numInstances = s.cfg.instanceIndex)

/-- `AllocatePage`. -/
def allocatePage (b : Build) (s : BufferPoolManagerInstance Disk Data) :
    Except Fault (PageId × BufferPoolManagerInstance Disk Data) := do
  let next_page_id := s.nextPageId
  let s := { s with nextPageId := int32 (s.nextPageId + s.cfg.numInstances) }
  s.validatePageId b next_page_id
  .ok (next_page_id, s)

/-- The loop at the head of `NewPgImp`: the first frame at or after `tmp` with pin count 0, with
    `remaining` frames left to look at; `pool_size_` if there is none. -/
def firstUnpinned (pages : FrameId → Page Data) : (remaining tmp : Nat) → Nat
  | 0, tmp => tmp
  | remaining + 1, tmp =>
    if (pages tmp).pinCount = 0 then tmp else firstUnpinned pages remaining (tmp + 1)

/-- The part that `NewPgImp` and `FetchPgImp` share: take the last frame of the free list, or else
    a victim, which is written back if dirty and whose page leaves the page table. -/
def pickFrame (s : BufferPoolManagerInstance Disk Data) :
    Except Fault (FrameId × BufferPoolManagerInstance Disk Data) :=
  match s.freeList.getLast? with
  | some frame_id =>
    if s.inPool frame_id then .ok (frame_id, { s with freeList := s.freeList.dropLast })
    else .error .outOfBounds
  | none => do
    let (_, frame_id, r) ← s.replacer.victim (-1)
    if s.inPool frame_id then
      .ok (frame_id, { s with
        replacer := r
        disk := s.writeBack frame_id
        pageTable := Function.update s.pageTable (s.pages frame_id).pageId none })
    else .error .outOfBounds

/-- `NewPgImp`.  The out parameter `*page_id` is passed in and returned with the frame. -/
def newPgImp (b : Build) (page_id : PageId) (s : BufferPoolManagerInstance Disk Data) :
    Except Fault ((Option FrameId × PageId) × BufferPoolManagerInstance Disk Data) :=
  if s.cfg.poolSize ≤ firstUnpinned s.pages s.cfg.poolSize 0 then .ok ((none, page_id), s)
  else if s.replacer.size = 0 ∧ s.freeList = [] then .ok ((none, page_id), s)
  else do
    let (page_id, s) ← s.allocatePage b
    let (frame_id, s) ← s.pickFrame
    let s := s.setPage frame_id { data := 0, pageId := page_id, pinCount := 1, isDirty := false }
    let r ← s.replacer.pin frame_id
    .ok ((some frame_id, page_id), { s with
      replacer := r
      pageTable := Function.update s.pageTable page_id (some frame_id)
      disk := DiskManager.writePage s.disk page_id (s.pages frame_id).data })

/-- `FetchPgImp`. -/
def fetchPgImp (page_id : PageId) (s : BufferPoolManagerInstance Disk Data) :
    Except Fault (Option FrameId × BufferPoolManagerInstance Disk Data) :=
  match s.pageTable page_id with
  | some frame_id => do
    let pg := s.pages frame_id
    let s := s.setPage frame_id { pg with pinCount := pg.pinCount + 1 }
    let r ← s.replacer.pin frame_id
    .ok (some frame_id, { s with replacer := r })
  | none =>
    if s.replacer.size = 0 ∧ s.freeList = [] then .ok (none, s)
    else do
      let (frame_id, s) ← s.pickFrame
      let s := { s with pageTable := Function.update s.pageTable page_id (some frame_id) }
      let s := s.setPage frame_id
        { data := DiskManager.readPage s.disk page_id, pageId := page_id, pinCount := 1, isDirty := false }
      let r ← s.replacer.pin frame_id
      .ok (some frame_id, { s with replacer := r })

/-- `DeletePgImp`.  `DeallocatePage` is a no-op. -/
def deletePgImp (page_id : PageId) (s : BufferPoolManagerInstance Disk Data) :
    Except Fault (Bool × BufferPoolManagerInstance Disk Data) :=
  match s.pageTable page_id with
  | none => .ok (true, s)
  | some frame_id =>
    if (s.pages frame_id).pinCount > 0 then .ok (false, s)
    else do
      let s := { s with disk := s.writeBack frame_id }
      let s := s.setPage frame_id blankPage
      let r ← s.replacer.pin frame_id
      .ok (true, { s with
        replacer := r
        freeList := s.freeList ++ [frame_id]
        pageTable := Function.update s.pageTable page_id none })

/-- `UnpinPgImp`. -/
def unpinPgImp (page_id : PageId) (is_dirty : Bool) (s : BufferPoolManagerInstance Disk Data) :
    Except Fault (Bool × BufferPoolManagerInstance Disk Data) :=
  if page_id = invalidPageId then .ok (false, s)
  else match s.pageTable page_id with
  | none => .ok (false, s)
  | some frame_id =>
    let pg := s.pages frame_id
    let s := if is_dirty then s.setPage frame_id { pg with isDirty := is_dirty } else s
    let pg := s.pages frame_id
    if pg.pinCount = 0 then .ok (false, s)
    else
      let s := s.setPage frame_id { pg with pinCount := pg.pinCount - 1 }
      if (s.pages frame_id).pinCount = 0 then do
        let r ← s.replacer.unpin frame_id
        .ok (true, { s with replacer := r })
      else .ok (true, s)

/-- `FlushPgImp`. -/
def flushPgImp (page_id : PageId) (s : BufferPoolManagerInstance Disk Data) :
    Except Fault (Bool × BufferPoolManagerInstance Disk Data) :=
  if page_id = invalidPageId then .ok (false, s)
  else match s.pageTable page_id with
  | none => .ok (false, s)
  | some frame_id =>
    .ok (true, { s with disk := DiskManager.writePage s.disk page_id (s.pages frame_id).data })

/-- The loop of `FlushAllPgsImp`: every frame from `tmp` on is written under its `page_id_`, the
    frames without a page included. -/
def flushFrames (pages : FrameId → Page Data) : (remaining tmp : Nat) → Disk → Disk
  | 0, _, d => d
  | remaining + 1, tmp, d =>
    flushFrames pages remaining (tmp + 1)
      (DiskManager.writePage d (pages tmp).pageId (pages tmp).data)

/-- `FlushAllPgsImp`. -/
def flushAllPgsImp (s : BufferPoolManagerInstance Disk Data) : BufferPoolManagerInstance Disk Data :=
  { s with disk := flushFrames s.pages s.cfg.poolSize 0 s.disk }

/-! ## The methods as one step function -/

/-- A call of a public method of the pool. -/
inductive Call where
  | newPg
  | fetchPg (page_id : PageId)
  | unpinPg (page_id : PageId) (is_dirty : Bool)
  | flushPg (page_id : PageId)
  | flushAllPgs
  | deletePg (page_id : PageId)
  deriving DecidableEq, Repr

/-- What a call returns: a frame or nullptr together with the page it was asked for, a flag, or
    nothing. -/
inductive Return where
  | page (frame : Option FrameId) (page_id : PageId)
  | flag (res : Bool)
  | void
  deriving DecidableEq, Repr

/-- Run one call.  The caller's `page_id` variable of `NewPage` starts as `INVALID_PAGE_ID`. -/
def exec (b : Build) (s : BufferPoolManagerInstance Disk Data) :
    Call → Except Fault (Return × BufferPoolManagerInstance Disk Data)
  | .newPg => do let ((f, p), s) ← s.newPgImp b invalidPageId; .ok (.page f p, s)
  | .fetchPg p => do let (f, s) ← s.fetchPgImp p; .ok (.page f p, s)
  | .unpinPg p d => do let (res, s) ← s.unpinPgImp p d; .ok (.flag res, s)
  | .flushPg p => do let (res, s) ← s.flushPgImp p; .ok (.flag res, s)
  | .flushAllPgs => .ok (.void, s.flushAllPgsImp)
  | .deletePg p => do let (res, s) ← s.deletePgImp p; .ok (.flag res, s)

end BufferPoolManagerInstance

end BusTub
