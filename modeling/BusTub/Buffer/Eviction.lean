/-
  The replacer's eviction order, told by the history of its calls.

  1. **A history** is the list of the calls of a replacer with what they returned.  A frame is kept by a
     history if its last `Unpin` came after its last `Pin` and after the last time `Victim` returned it
     (`History.Kept`), and its keeping began with the `Unpin` that found it not kept (`History.BeganAt`).

  2. **`Told`** ties the replacer's list to that: the tracked frames are those that are kept, and the list
     has them in the order in which their keepings began, the latest in front.

  3. `evicts_oldest` — **the main result**: as long as nobody unpins into a full replacer, `Victim` returns
     the frame whose keeping began first.

  4. **A full replacer**: `Unpin` calls `Victim` with the latch held, whichever frame it is given, so the
     calls are served exactly as long as no `Unpin` finds the replacer full (`served_iff_neverFull`).
-/
import BusTub.Buffer.LRUReplacer
import BusTub.Lib.History
import BusTub.Lib.StepSystem

namespace BusTub

namespace LRUReplacer

open History

/-! ## Calls and events -/

/-- A call of one of the methods; `Victim` gets the value of `*frame_id`. -/
inductive Call where
  | victim (frame_id : FrameId)
  | pin (frame_id : FrameId)
  | unpin (frame_id : FrameId)
  deriving DecidableEq, Repr

/-- A call that returned, with the result of `Victim` and what it left in `*frame_id`. -/
inductive Event where
  | victim (res : Bool) (frame_id : FrameId)
  | pin (frame_id : FrameId)
  | unpin (frame_id : FrameId)
  deriving DecidableEq, Repr

/-- Run one call. -/
def exec (r : LRUReplacer) : Call → Except Fault (Event × LRUReplacer)
  | .victim f => do let (res, f, r) ← r.victim f; .ok (.victim res f, r)
  | .pin f => do let r ← r.pin f; .ok (.pin f, r)
  | .unpin f => do let r ← r.unpin f; .ok (.unpin f, r)

/-- `Unpin` takes a frame up. -/
def Takes (f : FrameId) (e : Event) : Prop := e = .unpin f

/-- `Pin` drops a frame, and so does `Victim` when it returns it. -/
def Drops (f : FrameId) (e : Event) : Prop := e = .pin f ∨ e = .victim true f

theorem takes_not_drops (f : FrameId) (e : Event) (h : Takes f e) : ¬ Drops f e := by
  obtain rfl : e = .unpin f := h
  rintro (h' | h') <;> cases h'

/-- An `Unpin` is not called while `num_pages_` frames are tracked. -/
def Allowed (r : LRUReplacer) (c : Call) : Prop := ∀ f, c = .unpin f → r.size ≠ r.numPages

/-- The runs of a replacer in which no `Unpin` finds it full. -/
def system (n : Nat) : StepSystem LRUReplacer Event where
  init r := r = create n
  step r e r' := ∃ c, r.Allowed c ∧ r.exec c = .ok (e, r')

/-! ## One call more -/

/-- `Unpin` of a tracked frame, with room left, changes nothing. -/
theorem unpin_tracked {r : LRUReplacer} (h : r.Inv) {f : FrameId} (hf : f ∈ r.tracked)
    (hroom : r.tracked.length ≠ r.numPages) : r.unpin f = .ok r := by
  have hsome := (h.mem_iff f).mp hf
  have hu := h.unlatched
  have hlen : r.replacer.length ≠ r.numPages := by simpa [tracked] using hroom
  cases r
  simp_all [unpin, lock, unlock, bind, Except.bind, pure, Except.pure, size]

/-- What a call with room left can do. -/
inductive Effect (r : LRUReplacer) : Call → Event → LRUReplacer → Prop where
  | victimNone {x : FrameId} (ht : r.tracked = []) : Effect r (.victim x) (.victim false x) r
  | victim {x f : FrameId} {l : List FrameId} {r' : LRUReplacer} (ht : r.tracked = l ++ [f])
      (ht' : r'.tracked = l) : Effect r (.victim x) (.victim true f) r'
  | pin {f : FrameId} {r' : LRUReplacer} (ht' : r'.tracked = r.tracked.filter (· ≠ f)) :
      Effect r (.pin f) (.pin f) r'
  | unpin {f : FrameId} {r' : LRUReplacer} (hf : f ∉ r.tracked) (hroom : r.tracked.length < r.numPages)
      (ht' : r'.tracked = f :: r.tracked) : Effect r (.unpin f) (.unpin f) r'
  | unpinAgain {f : FrameId} (hf : f ∈ r.tracked) : Effect r (.unpin f) (.unpin f) r

/-- **Every allowed call returns**, with one of the outcomes of `Effect`. -/
theorem exec_total {r : LRUReplacer} (h : r.Inv) (hle : r.tracked.length ≤ r.numPages) {c : Call}
    (hc : r.Allowed c) : ∃ e r', r.exec c = .ok (e, r') ∧ r'.Inv ∧ r'.numPages = r.numPages ∧
      r.Effect c e r' := by
  cases c with
  | victim x =>
    rcases List.eq_nil_or_concat' r.tracked with hnil | ⟨l, f, hl⟩
    · exact ⟨_, r, by simp [exec, victim_nil h hnil, bind, Except.bind], h, rfl, .victimNone hnil⟩
    · obtain ⟨r', hv, hinv, ht, hn⟩ := victim_spec h hl x
      exact ⟨_, r', by simp [exec, hv, bind, Except.bind], hinv, hn, .victim hl ht⟩
  | pin f =>
    obtain ⟨r', hp, hinv, ht, hn⟩ := pin_spec h f
    exact ⟨_, r', by simp [exec, hp, bind, Except.bind], hinv, hn, .pin ht⟩
  | unpin f =>
    have hne : r.tracked.length ≠ r.numPages := size_eq r ▸ hc f rfl
    by_cases hf : f ∈ r.tracked
    · exact ⟨_, r, by simp [exec, unpin_tracked h hf hne, bind, Except.bind], h, rfl, .unpinAgain hf⟩
    · have hroom : r.tracked.length < r.numPages := Nat.lt_of_le_of_ne hle hne
      obtain ⟨r', hu, hinv, ht, hn⟩ := unpin_spec h hf hroom
      exact ⟨_, r', by simp [exec, hu, bind, Except.bind], hinv, hn, .unpin hf hroom ht⟩

/-- The frames tracked never outnumber `num_pages_`. -/
theorem Effect.length_le {r r' : LRUReplacer} {c : Call} {e : Event} (he : r.Effect c e r')
    (hle : r.tracked.length ≤ r.numPages) : r'.tracked.length ≤ r.numPages := by
  cases he with
  | victimNone ht => exact hle
  | victim ht ht' =>
    rw [ht, List.length_append] at hle
    rw [ht']
    omega
  | pin ht' =>
    rw [ht']
    exact (List.length_filter_le ..).trans hle
  | unpin hf hroom ht' =>
    rw [ht']
    exact hroom
  | unpinAgain hf => exact hle

/-! ## The history told by the list -/

/-- The replacer tracks what the history keeps, in the order in which the keepings began. -/
structure Told (n : Nat) (es : List Event) (r : LRUReplacer) : Prop where
  inv : r.Inv
  capacity : r.numPages = n
  length_le : r.tracked.length ≤ r.numPages
  kept : ∀ f, f ∈ r.tracked ↔ Kept (Takes f) (Drops f) es
  order : r.tracked.Pairwise fun f g =>
    ∀ i j, BeganAt (Takes f) (Drops f) es i → BeganAt (Takes g) (Drops g) es j → j < i

variable {n : Nat} {es : List Event} {r r' : LRUReplacer}

theorem told_create (n : Nat) : Told n [] (create n) where
  inv := create_inv n
  capacity := rfl
  length_le := Nat.zero_le n
  kept f := by
    refine ⟨fun hf => (by cases hf), fun h => absurd h not_kept_nil⟩
  order := List.Pairwise.nil

/-- Frames that were tracked before keep their order. -/
theorem Told.order_snoc (h : Told n es r) {l : List FrameId} (hsub : l.Sublist r.tracked) (e : Event) :
    l.Pairwise fun f g => ∀ i j, BeganAt (Takes f) (Drops f) (es ++ [e]) i →
      BeganAt (Takes g) (Drops g) (es ++ [e]) j → j < i := by
  -- a keeping that was there before began where it did
  have hold : ∀ f ∈ l, ∀ i, BeganAt (Takes f) (Drops f) (es ++ [e]) i → BeganAt (Takes f) (Drops f) es i := by
    intro f hf i hi
    have hkept := (h.kept f).mp (hsub.subset hf)
    exact ((beganAt_snoc (takes_not_drops f)).mp hi).2.resolve_right fun h' => h'.2.1 hkept
  refine (h.order.sublist hsub).imp_of_mem fun {f g} hf hg hfg i j hi hj => ?_
  exact hfg i j (hold f hf i hi) (hold g hg j hj)

/-- An event that drops `f` and concerns no other frame. -/
theorem Told.drop (h : Told n es r) (hinv : r'.Inv) (hn : r'.numPages = r.numPages) {f : FrameId} {e : Event}
    (ht : r'.tracked = r.tracked.filter (· ≠ f)) (hdrop : Drops f e)
    (hother : ∀ g, g ≠ f → ¬ Takes g e ∧ ¬ Drops g e) : Told n (es ++ [e]) r' where
  inv := hinv
  capacity := hn.trans h.capacity
  length_le := by
    rw [ht, hn]
    exact (List.length_filter_le ..).trans h.length_le
  kept g := by
    rw [ht, List.mem_filter, kept_snoc (takes_not_drops g), h.kept g]
    by_cases hg : g = f
    · subst hg
      simp [hdrop]
    · simp [hg, hother g hg]
  order := by
    rw [ht]
    exact h.order_snoc List.filter_sublist e

/-- **Every allowed call keeps list and history together.** -/
theorem Told.step (h : Told n es r) {e : Event} (hstep : (system n).step r e r') : Told n (es ++ [e]) r' := by
  obtain ⟨c, hc, hexec⟩ := hstep
  obtain ⟨e', r'', hexec', hinv, hn, he⟩ := exec_total h.inv h.length_le hc
  rw [hexec] at hexec'
  cases hexec'
  cases he with
  | @victimNone x ht =>
    -- `Victim` found nothing, and no frame is concerned
    refine ⟨hinv, h.capacity, h.length_le, fun g => ?_, h.order_snoc (List.Sublist.refl _) _⟩
    rw [h.kept g, kept_snoc (takes_not_drops g)]
    simp [Takes, Drops]
  | @victim x f l _ ht ht' =>
    have hnd := h.inv.frame_nodup
    have hfilter : l = r.tracked.filter (· ≠ f) := by
      rw [ht, List.nodup_append] at hnd
      rw [ht, List.filter_append, List.filter_eq_self.mpr fun g hg => ?_]
      · simp
      · simpa using hnd.2.2 g hg f (by simp)
    refine h.drop hinv hn (ht'.trans hfilter) (.inr rfl) fun g hg => ⟨fun h' => (by cases h'), ?_⟩
    rintro (h' | h')
    · cases h'
    · cases h'
      exact hg rfl
  | @pin f _ ht' =>
    refine h.drop hinv hn ht' (.inl rfl) fun g hg => ⟨fun h' => (by cases h'), ?_⟩
    rintro (h' | h')
    · cases h'
      exact hg rfl
    · cases h'
  | @unpin f _ hf hroom ht' =>
    have hno : ¬ Kept (Takes f) (Drops f) es := fun hk => hf ((h.kept f).mpr hk)
    refine ⟨hinv, hn.trans h.capacity, by rw [ht', hn]; exact hroom, fun g => ?_, ?_⟩
    · rw [ht', List.mem_cons, h.kept g, kept_snoc (takes_not_drops g)]
      simp [Takes, Drops, eq_comm]
    · rw [ht']
      refine List.pairwise_cons.mpr ⟨fun g hg i j hi hj => ?_, h.order_snoc (List.Sublist.refl _) _⟩
      -- the new keeping begins with the event itself
      have hi' := ((beganAt_snoc (takes_not_drops f)).mp hi).2.resolve_left fun h' => hno h'.kept
      have hj' := ((beganAt_snoc (takes_not_drops g)).mp hj).2.resolve_right
        fun h' => h'.2.1 ((h.kept g).mp hg)
      rw [hi'.2.2]
      exact hj'.lt_length
  | @unpinAgain f hf =>
    refine ⟨hinv, h.capacity, h.length_le, fun g => ?_, h.order_snoc (List.Sublist.refl _) _⟩
    rw [h.kept g, kept_snoc (takes_not_drops g)]
    constructor
    · exact fun hk => ⟨by simp [Drops], .inr hk⟩
    · rintro ⟨-, htake | hk⟩
      · cases htake
        exact (h.kept f).mp hf
      · exact hk

/-- List and history agree in every state of every run. -/
theorem told_run (hrun : (system n).Run (create n) es r) : Told n es r := by
  generalize hstart : create n = r₀ at hrun
  induction hrun with
  | nil => exact hstart ▸ told_create n
  | snoc _ hstep ih => exact ih.step hstep

/-- **`Victim` returns the frame whose current tracking began first**, and it fails only if none is tracked.
    A frame is tracked if its last `Unpin` came after its last `Pin` and after `Victim` last returned it; the
    list holds no frame twice, and the map sends exactly its frames to their own nodes. -/
theorem evicts_oldest (hrun : (system n).Run (create n) es r) :
    r.tracked.Nodup ∧ (r.replacer.map Node.addr).Nodup ∧
    (∀ f a, r.lruMap f = some a ↔ (⟨a, f⟩ : Node) ∈ r.replacer) ∧
    (∀ f, f ∈ r.tracked ↔ Kept (Takes f) (Drops f) es) ∧
    (∀ c, r.Allowed c → ∃ e r', r.exec c = .ok (e, r')) ∧
    (∀ x, (r.tracked = [] ∧ r.victim x = .ok (false, x, r)) ∨
      ∃ f r' i, r.victim x = .ok (true, f, r') ∧ f ∈ r.tracked ∧ r'.tracked = r.tracked.filter (· ≠ f) ∧
        BeganAt (Takes f) (Drops f) es i ∧
        ∀ g ∈ r.tracked, g ≠ f → ∀ j, BeganAt (Takes g) (Drops g) es j → i < j) := by
  have h := told_run hrun
  refine ⟨h.inv.frame_nodup, h.inv.addr_nodup, h.inv.map_iff, h.kept, fun c hc => ?_, fun x => ?_⟩
  · obtain ⟨e, r', hexec, -⟩ := exec_total h.inv h.length_le hc
    exact ⟨e, r', hexec⟩
  · rcases List.eq_nil_or_concat' r.tracked with hnil | ⟨l, f, hl⟩
    · exact .inl ⟨hnil, victim_nil h.inv hnil x⟩
    · obtain ⟨r', hv, -, ht, -⟩ := victim_spec h.inv hl x
      have hf : f ∈ r.tracked := by simp [hl]
      obtain ⟨i, hi⟩ := (kept_iff_began (takes_not_drops f)).mp ((h.kept f).mp hf)
      have hnd := h.inv.frame_nodup
      have horder := h.order
      rw [hl, List.nodup_append] at hnd
      rw [hl, List.pairwise_append] at horder
      have hfilter : l = r.tracked.filter (· ≠ f) := by
        rw [hl, List.filter_append, List.filter_eq_self.mpr fun g hg => ?_]
        · simp
        · simpa using hnd.2.2 g hg f (by simp)
      refine .inr ⟨f, r', i, hv, hf, ht.trans hfilter, hi, fun g hg hne j hj => ?_⟩
      have hgl : g ∈ l := by
        rw [hl, List.mem_append, List.mem_singleton] at hg
        exact hg.resolve_right hne
      exact horder.2.2 g hgl f (by simp) j i hj hi

/-- The replacer after one more call, where it returns. -/
def after (r : LRUReplacer) (c : Call) : LRUReplacer :=
  match r.exec c with
  | .ok (_, r') => r'
  | .error _ => r

/-- Three frames, with the first one unpinned a second time: some frame is evicted, and its keeping began
    before that of the other. -/
theorem evicts_oldest_three : ∃ r f r' i,
    (system 3).Run (create 3) [.unpin 1, .unpin 2, .unpin 1] r ∧ r.victim 0 = .ok (true, f, r') ∧
    BeganAt (Takes f) (Drops f) [.unpin 1, .unpin 2, .unpin 1] i ∧
    ∀ g ∈ r.tracked, g ≠ f → ∀ j, BeganAt (Takes g) (Drops g) [.unpin 1, .unpin 2, .unpin 1] j → i < j := by
  have h₁ : (system 3).step (create 3) (.unpin 1) ((create 3).after (.unpin 1)) :=
    ⟨.unpin 1, fun _ _ => (by decide), rfl⟩
  have h₂ : (system 3).step ((create 3).after (.unpin 1)) (.unpin 2)
      (((create 3).after (.unpin 1)).after (.unpin 2)) := ⟨.unpin 2, fun _ _ => (by decide), rfl⟩
  have h₃ : (system 3).step (((create 3).after (.unpin 1)).after (.unpin 2)) (.unpin 1)
      ((((create 3).after (.unpin 1)).after (.unpin 2)).after (.unpin 1)) :=
    ⟨.unpin 1, fun _ _ => (by decide), rfl⟩
  have hrun := ((StepSystem.Run.single h₁).snoc h₂).snoc h₃
  obtain ⟨-, -, -, -, -, hvictim⟩ := evicts_oldest hrun
  rcases hvictim 0 with ⟨hnil, -⟩ | ⟨f, r', i, hv, -, -, hi, hfirst⟩
  · cases hnil
  · exact ⟨_, f, r', i, hrun, hv, hi, hfirst⟩

/-! ## A full replacer -/

/-- Run calls one after another. -/
def runCalls : List Call → LRUReplacer → Except Fault LRUReplacer
  | [], r => .ok r
  | c :: cs, r => do
    let (_, r) ← r.exec c
    runCalls cs r

theorem runCalls_append (cs cs' : List Call) (r : LRUReplacer) :
    runCalls (cs ++ cs') r = runCalls cs r >>= runCalls cs' := by
  induction cs generalizing r with
  | nil => rfl
  | cons c cs ih =>
    show (r.exec c >>= fun x => runCalls (cs ++ cs') x.2) = (r.exec c >>= fun x => runCalls cs x.2) >>= _
    cases hc : r.exec c with
    | error e => rfl
    | ok x => exact ih x.2

/-- **The calls are served**: each of them returns, at most `num_pages_` frames are tracked afterwards, and an
    `Unpin` of a frame that was tracked changes nothing. -/
def Served (n : Nat) (cs : List Call) : Prop :=
  ∀ pre c post, cs = pre ++ c :: post → ∃ r e r', runCalls pre (create n) = .ok r ∧ r.exec c = .ok (e, r') ∧
    r'.tracked.length ≤ n ∧ ∀ f, c = .unpin f → f ∈ r.tracked → r' = r

/-- No `Unpin` is called while `num_pages_` frames are tracked. -/
def NeverFull (n : Nat) (cs : List Call) : Prop :=
  ∀ pre c post r, cs = pre ++ c :: post → runCalls pre (create n) = .ok r → r.Allowed c

/-- A call that returned was allowed. -/
theorem Allowed.of_exec {r r' : LRUReplacer} {c : Call} {e : Event} (h : r.Inv) (hexec : r.exec c = .ok (e, r')) :
    r.Allowed c := by
  rintro f rfl hfull
  have hdead : r.exec (.unpin f) = .error .selfDeadlock := by
    show (r.unpin f >>= _) = _
    rw [unpin_full h (size_eq r ▸ hfull)]
    rfl
  rw [hdead] at hexec
  cases hexec

/-- What holds after any calls that returned. -/
theorem runCalls_sound {n : Nat} {cs : List Call} :
    ∀ r, runCalls cs (create n) = .ok r → r.Inv ∧ r.numPages = n ∧ r.tracked.length ≤ n := by
  -- from the end, so that the replacer before the last call is known
  induction cs using List.reverseRecOn with
  | nil =>
    intro r hr
    cases hr
    exact ⟨create_inv n, rfl, Nat.zero_le n⟩
  | append_singleton cs c ih =>
    intro r hr
    rw [runCalls_append] at hr
    obtain ⟨r₁, hr₁, hr⟩ := except_bind_inv hr
    obtain ⟨⟨e, r₂⟩, hexec, hr⟩ := except_bind_inv hr
    cases hr
    obtain ⟨hinv, hn, hle⟩ := ih r₁ hr₁
    obtain ⟨e', r', hexec', hinv', hn', he⟩ := exec_total hinv (hn ▸ hle) (.of_exec hinv hexec)
    rw [hexec] at hexec'
    cases hexec'
    exact ⟨hinv', hn'.trans hn, hn ▸ he.length_le (hn ▸ hle)⟩

/-- Calls that never find the replacer full return. -/
theorem NeverFull.runs {n : Nat} {cs : List Call} (h : NeverFull n cs) :
    ∀ pre post, cs = pre ++ post → ∃ r, runCalls pre (create n) = .ok r := by
  intro pre
  induction pre using List.reverseRecOn with
  | nil => exact fun post _ => ⟨create n, rfl⟩
  | append_singleton pre c ih =>
    intro post hcs
    rw [List.append_assoc] at hcs
    obtain ⟨r, hr⟩ := ih _ hcs
    obtain ⟨hinv, hn, hle⟩ := runCalls_sound r hr
    obtain ⟨e, r', hexec, -⟩ := exec_total hinv (hn ▸ hle) (h pre c post r hcs hr)
    refine ⟨r', ?_⟩
    rw [runCalls_append, hr]
    show (r.exec c >>= fun x => runCalls [] x.2) = _
    rw [hexec]
    rfl

/-- **The calls of a replacer are served exactly as long as no `Unpin` finds it full**, whatever the frame. -/
theorem served_iff_neverFull (n : Nat) (cs : List Call) : Served n cs ↔ NeverFull n cs := by
  constructor
  · intro h pre c post r hcs hr
    obtain ⟨r', e, r'', hr', hexec, -⟩ := h pre c post hcs
    rw [hr] at hr'
    cases hr'
    exact .of_exec (runCalls_sound r hr).1 hexec
  · intro h pre c post hcs
    obtain ⟨r, hr⟩ := h.runs pre (c :: post) hcs
    obtain ⟨hinv, hn, hle⟩ := runCalls_sound r hr
    obtain ⟨e, r', hexec, -, -, he⟩ := exec_total hinv (hn ▸ hle) (h pre c post r hcs hr)
    refine ⟨r, e, r', hr, hexec, hn ▸ he.length_le (hn ▸ hle), ?_⟩
    rintro f rfl hf
    cases he with
    | unpin hnot => exact absurd hf hnot
    | unpinAgain => rfl

/-- A replacer of one frame that tracks it: the second `Unpin` of that very frame locks the latch twice. -/
theorem served_fails : runCalls [.unpin 0, .unpin 0] (create 1) = .error .selfDeadlock ∧
    ¬ Served 1 [.unpin 0, .unpin 0] := by
  refine ⟨rfl, fun h => ?_⟩
  obtain ⟨r, e, r', hr, hexec, -⟩ := h [.unpin 0] (.unpin 0) [] rfl
  have hdead : (runCalls [.unpin 0] (create 1) >>= fun r => r.exec (.unpin 0)) = .error .selfDeadlock := rfl
  rw [hr] at hdead
  replace hdead : r.exec (.unpin 0) = .error .selfDeadlock := hdead
  rw [hexec] at hdead
  cases hdead

end LRUReplacer

end BusTub
