/-
  The replacement policy: `src/buffer/lru_replacer.cpp`.

  `replacer_` is a `std::list<frame_id_t>` used front-in, back-out, and `lru_map_` sends a tracked
  frame to an ITERATOR into that list, so that `Pin` can unlink a frame from the middle.  An
  iterator is the identity of a list node; a node is therefore a frame together with the address
  the allocator gave it (`Node`), and `lru_map_` holds addresses.  `latch_` is a `std::mutex`: it is
  not recursive, and locking it twice on one thread never returns, which is `Fault.selfDeadlock`.

  What the rest of the development uses is `tracked`, the frames from the most to the least
  recently unpinned, and one specification lemma for each method (`victim_spec`, `pin_spec`,
  `unpin_spec`) under the invariant `LRUReplacer.Inv` that the list and the map agree.
-/
import BusTub.Common
import Mathlib.Logic.Function.Basic
import Mathlib.Data.List.Nodup
import Mathlib.Data.List.Basic

namespace BusTub

/-- A node of `std::list<frame_id_t>`; an iterator to it holds `addr`. -/
structure Node where
  addr : Nat
  frame : FrameId
  deriving DecidableEq, Repr

/-- `LRUReplacer`.  `nextAddr` is the address the allocator hands out next. -/
structure LRUReplacer where
  /-- `latch_` is held. -/
  latch : Bool
  /-- `replacer_`, front first. -/
  replacer : List Node
  /-- `lru_map_`. -/
  lruMap : FrameId → Option Nat
  /-- `num_pages_`. -/
  numPages : Nat
  nextAddr : Nat

namespace LRUReplacer

/-- `LRUReplacer::LRUReplacer`. -/
def create (num_pages : Nat) : LRUReplacer :=
  { latch := false, replacer := [], lruMap := fun _ => none, numPages := num_pages, nextAddr := 0 }

/-- `latch_.lock()`. -/
def lock (r : LRUReplacer) : Except Fault LRUReplacer :=
  if r.latch then .error .selfDeadlock else .ok { r with latch := true }

/-- `latch_.unlock()`. -/
def unlock (r : LRUReplacer) : LRUReplacer := { r with latch := false }

/-- `LRUReplacer::Size`. -/
def size (r : LRUReplacer) : Nat := r.replacer.length

/-- `LRUReplacer::Victim`.  The out parameter `*frame_id` is passed in and returned. -/
def victim (frame_id : FrameId) (r : LRUReplacer) : Except Fault (Bool × FrameId × LRUReplacer) := do
  let r ← r.lock
  match r.replacer.getLast? with
  | none => .ok (false, frame_id, r.unlock)
  | some nd =>
    let r := { r with
      replacer := r.replacer.dropLast
      lruMap := Function.update r.lruMap nd.frame none }
    .ok (true, nd.frame, r.unlock)

/-- `LRUReplacer::Pin`. -/
def pin (frame_id : FrameId) (r : LRUReplacer) : Except Fault LRUReplacer := do
  let r ← r.lock
  match r.lruMap frame_id with
  | some it =>
    let r := { r with
      replacer := r.replacer.filter (fun nd => nd.addr ≠ it)
      lruMap := Function.update r.lruMap frame_id none }
    .ok r.unlock
  | none => .ok r.unlock

/-- `LRUReplacer::Unpin`.  A full replacer calls `Victim` on itself with the latch held. -/
def unpin (frame_id : FrameId) (r : LRUReplacer) : Except Fault LRUReplacer := do
  let r ← r.lock
  -- The local `tmp` that receives the victim is never read, so its initial value does not matter.
  let r ← if r.size = r.numPages then (do let (_, _, r) ← r.victim 0; pure r) else pure r
  if (r.lruMap frame_id).isSome then .ok r.unlock
  else
    let r := { r with
      replacer := ⟨r.nextAddr, frame_id⟩ :: r.replacer
      lruMap := Function.update r.lruMap frame_id (some r.nextAddr)
      nextAddr := r.nextAddr + 1 }
    .ok r.unlock

/-! ## The tracked frames and the agreement of list and map -/

/-- The tracked frames, the one that will be evicted last first. -/
def tracked (r : LRUReplacer) : List FrameId := r.replacer.map Node.frame

/-- No latch is held, nodes have distinct addresses and distinct frames, and `lru_map_` sends
    exactly the tracked frames to their own nodes. -/
structure Inv (r : LRUReplacer) : Prop where
  unlatched : r.latch = false
  fresh : ∀ nd ∈ r.replacer, nd.addr < r.nextAddr
  addr_nodup : (r.replacer.map Node.addr).Nodup
  frame_nodup : r.tracked.Nodup
  map_iff : ∀ f a, r.lruMap f = some a ↔ (⟨a, f⟩ : Node) ∈ r.replacer

@[simp] theorem tracked_create (n : Nat) : (create n).tracked = [] := rfl

@[simp] theorem size_eq (r : LRUReplacer) : r.size = r.tracked.length := by
  simp [size, tracked]

theorem create_inv (n : Nat) : (create n).Inv where
  unlatched := rfl
  fresh := by simp [create]
  addr_nodup := by simp [create]
  frame_nodup := by simp [create, tracked]
  map_iff := by simp [create]

theorem mem_tracked {r : LRUReplacer} {f : FrameId} :
    f ∈ r.tracked ↔ ∃ a, (⟨a, f⟩ : Node) ∈ r.replacer := by
  constructor
  · intro h
    obtain ⟨⟨a, g⟩, hnd, rfl⟩ := List.mem_map.mp h
    exact ⟨a, hnd⟩
  · rintro ⟨a, ha⟩
    exact List.mem_map.mpr ⟨_, ha, rfl⟩

/-- The map has exactly the tracked frames as keys. -/
theorem Inv.mem_iff {r : LRUReplacer} (h : r.Inv) (f : FrameId) :
    f ∈ r.tracked ↔ (r.lruMap f).isSome := by
  rw [mem_tracked, Option.isSome_iff_exists]
  exact exists_congr fun a => (h.map_iff f a).symm

theorem Inv.map_none {r : LRUReplacer} (h : r.Inv) {f : FrameId} (hf : f ∉ r.tracked) :
    r.lruMap f = none := by
  rw [h.mem_iff] at hf
  simpa using hf

/-- Two nodes with one frame are one node. -/
theorem Inv.node_eq {r : LRUReplacer} (h : r.Inv) {nd nd' : Node} (hm : nd ∈ r.replacer)
    (hm' : nd' ∈ r.replacer) (hf : nd.frame = nd'.frame) : nd = nd' :=
  List.inj_on_of_nodup_map h.frame_nodup hm hm' hf

/-- Unlinking some nodes and dropping the one key they had keeps list and map in step. -/
theorem Inv.unlink {r : LRUReplacer} (h : r.Inv) {f : FrameId} {l : List Node}
    (hsub : l.Sublist r.replacer) (hl : ∀ nd, nd ∈ l ↔ nd ∈ r.replacer ∧ nd.frame ≠ f) :
    Inv { r with replacer := l, lruMap := Function.update r.lruMap f none } where
  unlatched := h.unlatched
  fresh nd hnd := h.fresh nd (hsub.subset hnd)
  addr_nodup := h.addr_nodup.sublist (hsub.map _)
  frame_nodup := h.frame_nodup.sublist (hsub.map _)
  map_iff g a := by
    rw [hl]
    by_cases hg : g = f
    · simp [hg]
    · simp [h.map_iff, hg]

/-! ## One specification for each method -/

/-- `Victim` on an empty replacer returns false and changes nothing. -/
theorem victim_nil {r : LRUReplacer} (h : r.Inv) (ht : r.tracked = []) (frame_id : FrameId) :
    r.victim frame_id = .ok (false, frame_id, r) := by
  have hnil : r.replacer = [] := by simpa [tracked] using ht
  have hu := h.unlatched
  cases r
  simp_all [victim, lock, unlock, bind, Except.bind]

/-- `Victim` returns and removes the frame that was unpinned the longest ago. -/
theorem victim_spec {r : LRUReplacer} (h : r.Inv) {l : List FrameId} {f : FrameId}
    (ht : r.tracked = l ++ [f]) (frame_id : FrameId) :
    ∃ r', r.victim frame_id = .ok (true, f, r') ∧ r'.Inv ∧ r'.tracked = l ∧
      r'.numPages = r.numPages := by
  obtain ⟨nds, last, hr, hl, hf⟩ : ∃ nds last, r.replacer = nds ++ [last] ∧
      nds.map Node.frame = l ∧ last.frame = f := by
    obtain ⟨nds, tl, hr, hl, htl⟩ := List.map_eq_append_iff.mp ht
    obtain ⟨last, rfl, hf⟩ := List.map_eq_singleton_iff.mp htl
    exact ⟨nds, last, hr, hl, hf⟩
  have hlast : r.replacer.getLast? = some last := by simp [hr]
  have hdrop : r.replacer.dropLast = nds := by simp [hr]
  refine ⟨{ r with replacer := nds, lruMap := Function.update r.lruMap f none }, ?_, ?_, hl, rfl⟩
  · simp [victim, lock, unlock, h.unlatched, bind, Except.bind, hlast, hdrop, hf]
  · refine h.unlink (by simp [hr]) fun nd => ?_
    have hnd := h.frame_nodup
    rw [ht, List.nodup_append] at hnd
    constructor
    · intro hm
      refine ⟨by simp [hr, hm], fun he => ?_⟩
      exact hnd.2.2 nd.frame (hl ▸ List.mem_map_of_mem hm) f (by simp) he
    · rintro ⟨hm, hne⟩
      rw [hr, List.mem_append, List.mem_singleton] at hm
      exact hm.resolve_right fun he => hne (he ▸ hf)

/-- `Pin` removes the frame if it is tracked. -/
theorem pin_spec {r : LRUReplacer} (h : r.Inv) (f : FrameId) :
    ∃ r', r.pin f = .ok r' ∧ r'.Inv ∧ r'.tracked = r.tracked.filter (· ≠ f) ∧
      r'.numPages = r.numPages := by
  cases hm : r.lruMap f with
  | none =>
    have hf : f ∉ r.tracked := fun hf => by simp [h.mem_iff, hm] at hf
    have hfilter : r.tracked.filter (· ≠ f) = r.tracked :=
      List.filter_eq_self.mpr fun g hg => by simpa using fun he : g = f => hf (he ▸ hg)
    refine ⟨r, ?_, h, hfilter.symm, rfl⟩
    have hu := h.unlatched
    cases r
    simp_all [pin, lock, unlock, bind, Except.bind]
  | some a =>
    have ha : (⟨a, f⟩ : Node) ∈ r.replacer := (h.map_iff f a).mp hm
    -- The iterator in the map designates the node of `f` and no other.
    have hp : ∀ nd ∈ r.replacer, nd.addr = a ↔ nd.frame = f := by
      intro nd hnd
      constructor
      · intro he
        exact congrArg Node.frame (List.inj_on_of_nodup_map h.addr_nodup hnd ha he)
      · intro he
        exact congrArg Node.addr (h.node_eq hnd ha he)
    have hfilter : r.replacer.filter (fun nd => nd.addr ≠ a)
        = r.replacer.filter (fun nd => nd.frame ≠ f) :=
      List.filter_congr fun nd hnd => by simp [hp nd hnd]
    refine ⟨{ r with
      replacer := r.replacer.filter (fun nd => nd.frame ≠ f)
      lruMap := Function.update r.lruMap f none }, ?_, ?_, ?_, rfl⟩
    · simp only [ne_eq, decide_not] at hfilter
      simp [pin, lock, unlock, h.unlatched, bind, Except.bind, hm, hfilter]
    · exact h.unlink List.filter_sublist fun nd => by simp
    · simp [tracked, List.filter_map, Function.comp_def]

/-- `Unpin` of a new frame with room left puts it in front. -/
theorem unpin_spec {r : LRUReplacer} (h : r.Inv) {f : FrameId} (hf : f ∉ r.tracked)
    (hroom : r.tracked.length < r.numPages) :
    ∃ r', r.unpin f = .ok r' ∧ r'.Inv ∧ r'.tracked = f :: r.tracked ∧
      r'.numPages = r.numPages := by
  have hne : r.replacer.length ≠ r.numPages := by simp [tracked] at hroom; omega
  refine ⟨{ r with
    replacer := ⟨r.nextAddr, f⟩ :: r.replacer
    lruMap := Function.update r.lruMap f (some r.nextAddr)
    nextAddr := r.nextAddr + 1 }, ?_, ?_, rfl, rfl⟩
  · simp [unpin, lock, unlock, h.unlatched, bind, Except.bind, pure, Except.pure, size, hne,
      h.map_none hf]
  · have hfresh : r.nextAddr ∉ r.replacer.map Node.addr := by
      intro hm
      obtain ⟨nd, hnd, he⟩ := List.mem_map.mp hm
      have := h.fresh nd hnd
      omega
    refine ⟨h.unlatched, fun nd hnd => ?_, ?_, ?_, fun g a => ?_⟩
    · rcases List.mem_cons.mp hnd with rfl | hnd
      · exact Nat.lt_succ_self _
      · exact Nat.lt_succ_of_lt (h.fresh nd hnd)
    · exact List.nodup_cons.mpr ⟨hfresh, h.addr_nodup⟩
    · exact List.nodup_cons.mpr ⟨hf, h.frame_nodup⟩
    · by_cases hg : g = f
      · subst hg
        have hnot : (⟨a, g⟩ : Node) ∉ r.replacer := fun hm => hf (mem_tracked.mpr ⟨a, hm⟩)
        simp [hnot, eq_comm]
      · simp [h.map_iff, hg]

/-- `Unpin` of a full replacer locks the latch a second time. -/
theorem unpin_full {r : LRUReplacer} (h : r.Inv) (hfull : r.tracked.length = r.numPages)
    (f : FrameId) : r.unpin f = .error .selfDeadlock := by
  have hlen : r.replacer.length = r.numPages := by simpa [tracked] using hfull
  simp [unpin, victim, lock, h.unlatched, bind, Except.bind, size, hlen]

end LRUReplacer

end BusTub
