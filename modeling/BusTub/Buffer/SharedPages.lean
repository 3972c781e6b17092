/-
  No write is lost.

  Threads create, fetch, write, release, flush and delete pages of a parallel buffer pool in any order, and the pages
  go to the shared disk and come back as the instances need their frames.

  1. **`accountOf`** is what one knows of a page from what the instances were asked and answered: above all, what was
     written to it last.

  2. `no_write_lost` — **the main result**: if only those write to a page who have it pinned, and who gives back the
     last pin of a written page says that it is dirty, then everybody who fetches the page or still has a pointer
     to it sees what was written last, and a flush puts that on disk.  It does not matter what is done with other pages.
-/
import BusTub.Buffer.Shards
import BusTub.Lib.Account

set_option linter.unusedSectionVars false

namespace BusTub

namespace ParallelBufferPoolManager

open BufferPoolManagerInstance (Call Return)
open LruCache (Op Account)

variable {cfg : ParallelConfig} {Disk Data ι : Type} [DiskManager Disk Data] [Zero Data] [DecidableEq ι]

/-- What the instances were asked, and what they answered. -/
def heard (es : List (Option (Heard cfg Data))) : List (Op PageId Data × LruCache.Answer Data) :=
  es.filterMap fun e => e.map Prod.snd

/-- Nobody has done anything with a page yet. -/
def untouched (disk : Disk) (p : PageId) : Account Data := ⟨DiskManager.readPage disk p, 0, false⟩

/-- What is known of page `p` after the steps `es`. -/
def accountOf (disk : Disk) (p : PageId) (es : List (Option (Heard cfg Data))) : Account Data :=
  (untouched disk p).along p (heard es)

/-- The clients have done with page `p` what they may. -/
def Obeyed (disk : Disk) (p : PageId) (es : List (Option (Heard cfg Data))) : Prop :=
  (untouched disk p).Obeyed p (heard es)

variable {b : Build} {disk : Disk} {a a' a₀ : AtWork cfg Disk Data ι} {e : Option (Heard cfg Data)}
  {es : List (Option (Heard cfg Data))} {i : Fin cfg.numInstances} {op : Op PageId Data} {ans : LruCache.Answer Data}
  {p : PageId}

theorem heard_none : heard (es ++ [none]) = heard es := by simp [heard]

theorem heard_some : heard (es ++ [some (i, op, ans)]) = heard es ++ [(op, ans)] := by simp [heard]

/-- Whatever is done with a page is done by the instance that is responsible for it. -/
theorem AtWork.Sound.routed (h : a.Sound) (hstep : Works b a (some (i, op, ans)) a') (hp : op.subject = some p) :
    getBufferPoolManager cfg p = i := by
  cases hstep with
  | newPg hpoint hask hadv =>
    obtain rfl := Option.some.inj hp
    exact h.pool.next_routed _
  | @call i m ret pool hi hfetch hrun =>
    cases m with
    | newPg => exact hi.elim
    | flushAllPgs => cases hp
    | _ =>
      obtain rfl := Option.some.inj hp
      exact hi.symm
  | write x hq =>
    obtain rfl := Option.some.inj hp
    exact h.pool.routed _ _ _ hq

variable [LawfulDiskManager Disk]

/-- **The run lemma**: the cache of the responsible instance agrees with the account. -/
theorem kept_run (h₀ : (working b cfg disk).init a₀) (hrun : (working b cfg disk).Run a₀ es a) (hob : Obeyed disk p es) :
    ∃ c d, Alone a.created a.pool (getBufferPoolManager cfg p) c d ∧ c.Kept p (accountOf disk p es) := by
  induction hrun with
  | nil => exact ⟨_, disk, alone_create h₀ _, LruCache.kept_empty cfg.poolSize (DiskManager.readPage disk) p⟩
  | @snoc a₁ a₂ es e hrun hstep ih =>
    have hsound := AtWork.Sound.reached h₀ hrun
    cases e with
    | none =>
      unfold Obeyed at hob
      rw [heard_none] at hob
      obtain ⟨c, d, hc, hkept⟩ := ih hob
      obtain ⟨d', hc'⟩ := (hsound.step hstep).2 _ c d hc
      refine ⟨c, d', hc', ?_⟩
      unfold accountOf
      rw [heard_none]
      exact hkept
    | some x =>
      obtain ⟨j, op, ans⟩ := x
      unfold Obeyed at hob
      rw [heard_some] at hob
      obtain ⟨c, d, hc, hkept⟩ := ih hob.before
      have hcache := hc.showing.sound hc.sound.inv
      have hfollow := (hsound.step hstep).2 _ c d hc
      unfold accountOf
      rw [heard_some]
      by_cases hp : op.subject = some p
      · obtain rfl := hsound.routed hstep.1 hp
        obtain ⟨rfl, d', hc'⟩ := followed_self.mp hfollow
        rw [Account.along_same hp]
        exact ⟨_, d', hc', hkept.self hcache hp (hob.last hp)⟩
      · rw [Account.along_other hp]
        by_cases hj : getBufferPoolManager cfg p = j
        · subst hj
          obtain ⟨-, d', hc'⟩ := followed_self.mp hfollow
          exact ⟨_, d', hc', hkept.other hcache hp⟩
        · obtain ⟨d', hc'⟩ := (followed_other hj).mp hfollow
          exact ⟨c, d', hc', hkept⟩

/-- **No write is lost**, however the threads' calls fall: who fetches the page next is shown what was written to it
    last, a flush puts that on disk, and it is what lies behind every pointer to the page. -/
theorem no_write_lost (h₀ : (working b cfg disk).init a₀) (hrun : (working b cfg disk).Run a₀ es a)
    (hob : Obeyed disk p es) :
    (∀ i x a', (working b cfg disk).step a (some (i, .fetch p, .page (some x))) a' →
      x = (accountOf disk p es).contents) ∧
    (∀ i a', (working b cfg disk).step a (some (i, .flush p, .flag true)) a' →
      DiskManager.readPage a'.pool.disk p = (accountOf disk p es).contents) ∧
    ∀ i f, (a.pool.bpmList i).pageTable p = some f →
      ((a.pool.bpmList i).pages f).data = (accountOf disk p es).contents := by
  obtain ⟨c, d, hc, hkept⟩ := kept_run h₀ hrun hob
  have hsound := AtWork.Sound.reached h₀ hrun
  have hcache := hc.showing.sound hc.sound.inv
  refine ⟨fun i x a' hstep => ?_, fun i a' hstep => ?_, fun i f hp => ?_⟩
  · obtain rfl := hsound.routed hstep.1 rfl
    obtain ⟨hans, -⟩ := followed_self.mp ((hsound.step hstep).2 _ c d hc)
    exact hkept.fetch_shows hcache hans
  · obtain rfl := hsound.routed hstep.1 rfl
    obtain ⟨hans, d', hc'⟩ := followed_self.mp ((hsound.step hstep).2 _ c d hc)
    have hres := LruCache.flush_resident hans
    obtain ⟨f, hp⟩ := Option.ne_none_iff_exists'.mp ((hc.showing.resident hc.sound.inv).mp hres)
    exact (hc'.showsAt.2 p (hc.sound.resident_ne_invalid hp) rfl).symm.trans (hkept.flush_stores hres)
  · obtain rfl := hsound.pool.routed i p f hp
    refine (hc.showing.data p f hp).symm.trans (hkept.shown ?_)
    exact (hc.showing.resident hc.sound.inv).mpr (ne_of_eq_of_ne hp (Option.some_ne_none f))

/-- Page 0 is created and written; whoever fetches it next is shown that. -/
theorem no_write_lost_two : ∃ a : AtWork twoInstances (PageId → Nat) Nat Unit,
    (working .debug twoInstances (fun _ => 0 : PageId → Nat)).Run (oneThread .idle) twoHeard a ∧
    ∀ i x a', (working .debug twoInstances (fun _ => 0 : PageId → Nat)).step a (some (i, .fetch 0, .page (some x))) a' →
      x = 7 := by
  obtain ⟨hinit, a, hrun⟩ := twoHeard_run
  have hob : Obeyed (fun _ => 0 : PageId → Nat) 0 twoHeard := by
    have hheard : heard twoHeard = [(.create 0, .page (some 0)), (.write 0 7, .done)] := rfl
    unfold Obeyed
    rw [hheard]
    decide +kernel
  exact ⟨a, hrun, (no_write_lost hinit hrun hob).1⟩

end ParallelBufferPoolManager

end BusTub
