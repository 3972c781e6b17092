/-
  What the table does to the entries of the directory.

  `deepen` and `repoint` together split a cell of the partition that the directory shows,
  `joinEntries` merges a cell with its sibling, and `shrink` leaves the partition alone while it
  halves the directory as often as it can.  The strided loops are read with the collecting rule: the
  entries visited are a residue class, and the state in between is the old directory with the entries
  of a set repainted.
-/
import BusTub.Table.HashTable
import BusTub.Page.DirectorySpec

set_option linter.unusedSectionVars false

namespace BusTub

open HashPartition HashTableDirectoryPage

namespace HashTableType

variable {b : Build} {d : HashTableDirectoryPage} {A : Partition PageId} {i e : ℕ}

/-! ## One entry -/

theorem setLocalDepth_ok {j x : ℕ} (h : x ≤ d.globalDepth) :
    d.setLocalDepth b j x = .ok { d with localDepths := Function.update d.localDepths j x } := by
  simp only [setLocalDepth, h, decide_true, assertThat_true, bind, Except.bind]

theorem incrLocalDepth_ok {j x : ℕ} (hx : d.localDepths j = x) (h : x < d.globalDepth)
    (hd : d.globalDepth ≤ 9) : d.incrLocalDepth b j =
      .ok { d with localDepths := Function.update d.localDepths j (x + 1) } := by
  have hmod : (x + 1) % 2 ^ 8 = x + 1 := Nat.mod_eq_of_lt (by omega)
  simp only [incrLocalDepth, hx, h, decide_true, assertThat_true, bind, Except.bind, hmod]

theorem decrLocalDepth_ok {j x : ℕ} (hx : d.localDepths j = x + 1) (h : x ≤ 9) :
    d.decrLocalDepth b j = .ok { d with localDepths := Function.update d.localDepths j x } := by
  have hpos : x + 1 > 0 := Nat.succ_pos x
  have hmod : (x + 1 + (2 ^ 8 - 1)) % 2 ^ 8 = x := by omega
  simp only [decrLocalDepth, hx, hpos, decide_true, assertThat_true, bind, Except.bind, hmod]

/-! ## Splitting -/

/-- The directory `d` with one more bit at entry `i`, of depth `e`. -/
def deepened (d : HashTableDirectoryPage) (i e : ℕ) : HashTableDirectoryPage :=
  { d with localDepths := Function.update d.localDepths i (e + 1) }

/-- **`deepen` finds room for one more bit**, doubling the directory if it has to, unless the entry
    has 9 bits already. -/
theorem deepen_spec (h : d.Shows A) (hd : d.globalDepth ≤ 9) (hi : i < 2 ^ d.globalDepth)
    (he : A.depth i = e) : (deepen b d i = .ok none ∧ e = 9) ∨
      ∃ d', deepen b d i = .ok (some (deepened d' i e)) ∧ d'.Shows A ∧ e < d'.globalDepth ∧
        d'.globalDepth ≤ 9 ∧ i < 2 ^ d'.globalDepth ∧ d'.pageId = d.pageId ∧
        (d'.globalDepth = d.globalDepth ∨ d'.globalDepth = e + 1) := by
  have hei : d.localDepths i = e := (h.depth i hi).trans he
  have hle : e ≤ d.globalDepth := he ▸ h.depth_le i
  unfold deepen getLocalDepth HashTableDirectoryPage.getGlobalDepth
  rw [hei]
  by_cases hlt : e < d.globalDepth
  · refine .inr ⟨d, ?_, h, hlt, hd, hi, rfl, .inl rfl⟩
    rw [if_pos hlt, incrLocalDepth_ok hei hlt hd]
    rfl
  · have heq : e = d.globalDepth := by omega
    rw [if_neg hlt]
    by_cases hfull : d.globalDepth = 9
    · refine .inl ⟨?_, by omega⟩
      rw [if_pos]
      rw [size_eq, hfull]
      decide
    · have hroom : ¬ d.size > directoryArraySize >>> 1 := by
        rw [size_eq, Nat.not_lt]
        exact Nat.pow_le_pow_right (by omega) (by omega : d.globalDepth ≤ 8)
      have hhalf : d.doubled.localDepths i = e := by
        rw [(h.doubled).depth i, he]
        exact lt_of_lt_of_le hi (Nat.pow_le_pow_right (by omega) (Nat.le_succ _))
      refine .inr ⟨d.doubled, ?_, h.doubled, ?_, ?_, ?_, rfl, .inr ?_⟩
      · rw [if_neg hroom, incrGlobalDepth_eq (by omega)]
        show d.doubled.incrLocalDepth b i >>= _ = _
        rw [incrLocalDepth_ok hhalf (by show e < d.globalDepth + 1; omega)
          (by show d.globalDepth + 1 ≤ 9; omega)]
        rfl
      · show e < d.globalDepth + 1
        omega
      · show d.globalDepth + 1 ≤ 9
        omega
      · exact lt_of_lt_of_le hi (Nat.pow_le_pow_right (by omega) (Nat.le_succ _))
      · show d.globalDepth + 1 = e + 1
        omega

open Classical in
/-- The split image's page `q` and depth `e + 1` on the entries `X` and on `s`, and depth `e + 1` on
    `i` and the entries `Y`. -/
noncomputable def painted (d : HashTableDirectoryPage) (i s e : ℕ) (q : PageId) (X Y : Set ℕ) :
    HashTableDirectoryPage :=
  { d with
    bucketPageIds := fun j => if j = s ∨ j ∈ X then q else d.bucketPageIds j
    localDepths := fun j => if j = i ∨ j = s ∨ j ∈ X ∨ j ∈ Y then e + 1 else d.localDepths j }

section painted

variable {s : ℕ} {q : PageId} {X Y : Set ℕ}

theorem painted_depth {j : ℕ} (hj : j = i ∨ j = s ∨ j ∈ X ∨ j ∈ Y) :
    (painted d i s e q X Y).localDepths j = e + 1 := if_pos hj

theorem painted_mask {j : ℕ} (hj : j = i ∨ j = s ∨ j ∈ X ∨ j ∈ Y) :
    (painted d i s e q X Y).getLocalDepthMask j = 2 ^ (e + 1) - 1 := by
  rw [getLocalDepthMask_eq, painted_depth hj]

/-- Before the loops only `s` and `i` are painted. -/
theorem painted_empty : painted d i s e q ∅ ∅ = { deepened d i e with
    bucketPageIds := Function.update d.bucketPageIds s q
    localDepths := Function.update (Function.update d.localDepths i (e + 1)) s (e + 1) } := by
  unfold painted deepened
  congr 1
  · funext j
    by_cases hs : j = s
    · simp [hs]
    · rw [Function.update_of_ne hs]
      by_cases hi : j = i <;> simp [hs, hi]
  · funext j
    by_cases hs : j = s <;> simp [hs]

theorem mem_insert_ne {c j : ℕ} (hj : j ≠ c) : j ∈ Insert.insert c X ↔ j ∈ X := by
  rw [Set.mem_insert_iff]
  exact or_iff_right hj

/-- The body of the first loop paints entry `c` with page and depth. -/
theorem painted_insert_left {c : ℕ} (hlt : e < d.globalDepth) :
    ((painted d i s e q X Y).setBucketPageId c q).setLocalDepth b c
      (((painted d i s e q X Y).setBucketPageId c q).getLocalDepth s) =
      .ok (painted d i s e q (Insert.insert c X) Y) := by
  classical
  have hs : ((painted d i s e q X Y).setBucketPageId c q).getLocalDepth s = e + 1 :=
    painted_depth (q := q) (.inr (.inl rfl))
  rw [hs, setLocalDepth_ok (by exact hlt)]
  unfold painted setBucketPageId
  congr 2
  · refine Function.update_eq_iff.mpr ⟨by simp, fun j hj => ?_⟩
    simp only [mem_insert_ne hj]
  · refine Function.update_eq_iff.mpr ⟨by simp, fun j hj => ?_⟩
    simp only [mem_insert_ne hj]

/-- The body of the second loop paints entry `c` with the depth. -/
theorem painted_insert_right {c : ℕ} (hlt : e < d.globalDepth) :
    (painted d i s e q X Y).setLocalDepth b c ((painted d i s e q X Y).getLocalDepth i) =
      .ok (painted d i s e q X (Insert.insert c Y)) := by
  classical
  have hi : (painted d i s e q X Y).getLocalDepth i = e + 1 := painted_depth (.inl rfl)
  rw [hi, setLocalDepth_ok (by exact hlt)]
  unfold painted
  congr 2
  refine Function.update_eq_iff.mpr ⟨by simp, fun j hj => ?_⟩
  simp only [mem_insert_ne hj]

end painted

/-- **Painted over the classes of `s` and of `i`**, the directory shows the cell of `i` halved, with `q` as the page of
    the upper half. -/
theorem painted_shows (h : d.Shows A) (he : A.depth i = e) (hlt : e < d.globalDepth) {s : ℕ}
    (hsib : s ≡ i + 2 ^ e [MOD 2 ^ (e + 1)]) {q : PageId} (hq : ∀ x, A.page x ≠ q) {X Y : Set ℕ}
    (hX : {j | j < 2 ^ d.globalDepth ∧ j ≡ s [MOD 2 ^ (e + 1)]} = X)
    (hY : {j | j < 2 ^ d.globalDepth ∧ j ≡ i [MOD 2 ^ (e + 1)]} = Y) :
    (painted d i s e q X Y).Shows (A.split i q hq) := by
  classical
  refine ⟨fun j hj => ?_, fun j hj => ?_, fun x => ?_⟩
  · have hmem : (j = s ∨ j ∈ X) ↔ j ≡ i + 2 ^ e [MOD 2 ^ (e + 1)] := by
      rw [← hX]
      constructor
      · rintro (rfl | ⟨-, hj⟩)
        · exact hsib
        · exact hj.trans hsib
      · exact fun hm => .inr ⟨hj, hm.trans hsib.symm⟩
    exact if_congr (he ▸ hmem) rfl (h.page j hj)
  · have hmem : (j = i ∨ j = s ∨ j ∈ X ∨ j ∈ Y) ↔ j ≡ i [MOD 2 ^ e] := by
      rw [← hX, ← hY]
      constructor
      · rintro (rfl | rfl | ⟨-, hj⟩ | ⟨-, hj⟩)
        · rfl
        · exact sibling_modEq hsib
        · exact (modEq_of_le (Nat.le_succ e) hj).trans (sibling_modEq hsib)
        · exact modEq_of_le (Nat.le_succ e) hj
      · intro hm
        rcases modEq_pow_succ_iff.mp hm with hlow | hup
        · exact .inr (.inr (.inr ⟨hj, hlow⟩))
        · exact .inr (.inr (.inl ⟨hj, hup.trans hsib.symm⟩))
    exact if_congr (he ▸ hmem) (by rw [he]) (h.depth j hj)
  · show (if x ≡ i [MOD 2 ^ A.depth i] then A.depth i + 1 else A.depth x) ≤ d.globalDepth
    split
    · omega
    · exact h.depth_le x

/-- **`repoint` completes the split**: the directory shows the partition with the cell of `i` halved
    and `q` as the page of the upper half. -/
theorem repoint_spec (h : d.Shows A) (hi : i < 2 ^ d.globalDepth)
    (he : A.depth i = e) (hlt : e < d.globalDepth) {q : PageId} (hq : ∀ x, A.page x ≠ q) :
    ∃ d', repoint b (deepened d i e) i ((deepened d i e).getSplitImageIndex i) q = .ok d' ∧
      d'.Shows (A.split i q hq) ∧ d'.globalDepth = d.globalDepth ∧ d'.pageId = d.pageId := by
  classical
  -- the split image
  have hhigh : (deepened d i e).getLocalHighBit i = 2 ^ e :=
    getLocalHighBit_succ (by simp [deepened])
  unfold getSplitImageIndex
  rw [hhigh]
  generalize hs : i ^^^ 2 ^ e = s
  have hsib : s ≡ i + 2 ^ e [MOD 2 ^ (e + 1)] := hs ▸ xor_two_pow_modEq i e
  have hslt : s < 2 ^ d.globalDepth :=
    hs ▸ Nat.xor_lt_two_pow hi (Nat.pow_lt_pow_right (by omega) hlt)
  -- the loops run over the classes of `s` and of `i` modulo the doubled step
  have hstep : ∀ X Y, (painted d i s e q X Y).getLocalHighBit s <<< 1 = 2 ^ (e + 1) := by
    intro X Y
    rw [getLocalHighBit_succ (painted_depth (.inr (.inl rfl))), Nat.shiftLeft_eq, ← pow_add]
  have hfirst := @Loop.forStride_collect _ _ Fault.diverges (2 ^ d.globalDepth) (2 ^ (e + 1)) s
    (fun curr_idx (dir : HashTableDirectoryPage) => do
      let dir := dir.setBucketPageId curr_idx q
      dir.setLocalDepth b curr_idx (dir.getLocalDepth s))
    (fun X => painted d i s e q X ∅) (Nat.two_pow_pos _) (fun c X _ _ _ => painted_insert_left hlt)
  generalize hX : {j | j < 2 ^ d.globalDepth ∧ j ≡ s [MOD 2 ^ (e + 1)]} = X at hfirst
  have hsecond := @Loop.forStride_collect _ _ Fault.diverges (2 ^ d.globalDepth) (2 ^ (e + 1)) i
    (fun curr_idx (dir : HashTableDirectoryPage) =>
      dir.setLocalDepth b curr_idx (dir.getLocalDepth i))
    (fun Y => painted d i s e q X Y) (Nat.two_pow_pos _) (fun c Y _ _ _ => painted_insert_right hlt)
  generalize hY : {j | j < 2 ^ d.globalDepth ∧ j ≡ i [MOD 2 ^ (e + 1)]} = Y at hsecond
  refine ⟨painted d i s e q X Y, ?_, painted_shows h he hlt hsib hq hX hY, rfl, rfl⟩
  · have hset : ((deepened d i e).setBucketPageId s q).setLocalDepth b s
        (((deepened d i e).setBucketPageId s q).getLocalDepth i) = .ok (painted d i s e q ∅ ∅) := by
      have hdi : ((deepened d i e).setBucketPageId s q).getLocalDepth i = e + 1 := by
        simp [deepened, setBucketPageId, getLocalDepth]
      rw [hdi, setLocalDepth_ok (by exact hlt), painted_empty]
      rfl
    have hmaskS : ∀ X Y, (painted d i s e q X Y).getLocalDepthMask s = 2 ^ (e + 1) - 1 :=
      fun X Y => painted_mask (.inr (.inl rfl))
    have hmaskI : ∀ X Y, (painted d i s e q X Y).getLocalDepthMask i = 2 ^ (e + 1) - 1 :=
      fun X Y => painted_mask (.inl rfl)
    have hsize : ∀ X Y, (painted d i s e q X Y).size = 2 ^ d.globalDepth := fun X Y => size_eq
    unfold repoint
    simp only [hset, hmaskS, hmaskI, hstep, hsize, Nat.and_two_pow_sub_one_eq_mod, decide_true,
      assertThat_true, bind, Except.bind]
    rw [hfirst]
    simp only [hsize, hmaskI, Nat.and_two_pow_sub_one_eq_mod]
    rw [hsecond]
    simp only [hmaskS, hmaskI, decide_true, assertThat_true]

/-! ## Joining -/

open Classical in
/-- The page `q` on the entries `X`, and depth `e` on `X` and `Y`. -/
noncomputable def joined (d : HashTableDirectoryPage) (e : ℕ) (q : PageId) (X Y : Set ℕ) :
    HashTableDirectoryPage :=
  { d with
    bucketPageIds := fun j => if j ∈ X then q else d.bucketPageIds j
    localDepths := fun j => if j ∈ X ∨ j ∈ Y then e else d.localDepths j }

section joined

variable {q : PageId} {X Y : Set ℕ}

theorem joined_empty : joined d e q ∅ ∅ = d := by
  simp [joined]

theorem joined_mask {j : ℕ} (hj : j ∈ X ∨ j ∈ Y) : (joined d e q X Y).getLocalDepthMask j = 2 ^ e - 1 := by
  have hdepth : (joined d e q X Y).localDepths j = e := if_pos hj
  rw [getLocalDepthMask_eq, hdepth]

theorem joined_depth {j : ℕ} (hX : j ∉ X) (hY : j ∉ Y) :
    (joined d e q X Y).localDepths j = d.localDepths j := if_neg (not_or.mpr ⟨hX, hY⟩)

/-- The body of the first loop joins entry `c`. -/
theorem joined_insert_left {c : ℕ} (hc : d.localDepths c = e + 1) (he : e ≤ 9) (hX : c ∉ X)
    (hY : c ∉ Y) : ((joined d e q X Y).setBucketPageId c q).decrLocalDepth b c =
      .ok (joined d e q (Insert.insert c X) Y) := by
  classical
  have hdepth : ((joined d e q X Y).setBucketPageId c q).localDepths c = e + 1 :=
    (joined_depth (q := q) hX hY).trans hc
  rw [decrLocalDepth_ok hdepth he]
  unfold joined setBucketPageId
  congr 2
  · refine Function.update_eq_iff.mpr ⟨by simp, fun j hj => ?_⟩
    simp only [mem_insert_ne hj]
  · refine Function.update_eq_iff.mpr ⟨by simp, fun j hj => ?_⟩
    simp only [mem_insert_ne hj]

/-- The body of the second loop takes a bit off entry `c`. -/
theorem joined_insert_right {c : ℕ} (hc : d.localDepths c = e + 1) (he : e ≤ 9) (hX : c ∉ X)
    (hY : c ∉ Y) : (joined d e q X Y).decrLocalDepth b c =
      .ok (joined d e q X (Insert.insert c Y)) := by
  classical
  rw [decrLocalDepth_ok ((joined_depth hX hY).trans hc) he]
  unfold joined
  congr 2
  refine Function.update_eq_iff.mpr ⟨by simp, fun j hj => ?_⟩
  simp only [mem_insert_ne hj]

end joined

/-- **Joined over the classes of `i` and of `s`**, the directory shows the two cells as one. -/
theorem joined_shows (h : d.Shows A) {s : ℕ} (hdi : A.depth i = e + 1) (hds : A.depth s = e + 1)
    (hsib : s ≡ i + 2 ^ e [MOD 2 ^ (e + 1)]) {X Y : Set ℕ}
    (hX : {j | j < 2 ^ d.globalDepth ∧ j ≡ i [MOD 2 ^ (e + 1)]} = X)
    (hY : {j | j < 2 ^ d.globalDepth ∧ j ≡ s [MOD 2 ^ (e + 1)]} = Y) :
    (joined d e (A.page s) X Y).Shows (A.merge i s e hdi hds hsib) := by
  classical
  refine ⟨fun j hj => ?_, fun j hj => ?_, fun x => ?_⟩
  · have hmem : j ∈ X ↔ j ≡ i [MOD 2 ^ (e + 1)] := by
      rw [← hX]
      exact ⟨fun hm => hm.2, fun hm => ⟨hj, hm⟩⟩
    exact if_congr hmem rfl (h.page j hj)
  · have hmem : (j ∈ X ∨ j ∈ Y) ↔ j ≡ i [MOD 2 ^ e] := by
      rw [← hX, ← hY, modEq_pow_succ_iff]
      constructor
      · rintro (⟨-, hm⟩ | ⟨-, hm⟩)
        · exact .inl hm
        · exact .inr (hm.trans hsib)
      · rintro (hm | hm)
        · exact .inl ⟨hj, hm⟩
        · exact .inr ⟨hj, hm.trans hsib.symm⟩
    exact if_congr hmem rfl (h.depth j hj)
  · have hle := hdi ▸ h.depth_le i
    show (if x ≡ i [MOD 2 ^ e] then e else A.depth x) ≤ d.globalDepth
    split
    · omega
    · exact h.depth_le x

/-- **`joinEntries` merges a cell with its sibling.** -/
theorem joinEntries_spec (h : d.Shows A) (hd : d.globalDepth ≤ 9) (hi : i < 2 ^ d.globalDepth) {s : ℕ}
    (hs : s < 2 ^ d.globalDepth) (hdi : A.depth i = e + 1) (hds : A.depth s = e + 1)
    (hsib : s ≡ i + 2 ^ e [MOD 2 ^ (e + 1)]) :
    ∃ d', joinEntries b d i s (A.page s) = .ok d' ∧ d'.Shows (A.merge i s e hdi hds hsib) ∧
      d'.globalDepth = d.globalDepth ∧ d'.pageId = d.pageId := by
  classical
  have hle : e + 1 ≤ d.globalDepth := hdi ▸ h.depth_le i
  have hldi : d.localDepths i = e + 1 := (h.depth i hi).trans hdi
  have hlds : d.localDepths s = e + 1 := (h.depth s hs).trans hds
  -- the entries of either half still have the full depth when their turn comes
  have hclass : ∀ {c r : ℕ}, c < 2 ^ d.globalDepth → A.depth r = e + 1 → c ≡ r [MOD 2 ^ (e + 1)] →
      d.localDepths c = e + 1 := by
    intro c r hc hr hm
    rw [h.depth c hc, ← A.depth_congr (h := r) (hr ▸ hm.symm), hr]
  have hapart : ∀ {c : ℕ}, c ≡ s [MOD 2 ^ (e + 1)] → ¬ c ≡ i [MOD 2 ^ (e + 1)] :=
    fun hcs hci => not_modEq_pow_both hci (hcs.trans hsib)
  have hfirst := @Loop.forStride_collect _ _ Fault.diverges (2 ^ d.globalDepth) (2 ^ (e + 1)) i
    (fun curr_idx (dir : HashTableDirectoryPage) =>
      (dir.setBucketPageId curr_idx (A.page s)).decrLocalDepth b curr_idx)
    (fun X => joined d e (A.page s) X ∅) (Nat.two_pow_pos _)
    (fun c X hc hm hX => joined_insert_left (hclass hc hdi hm) (by omega) hX (Set.notMem_empty c))
  generalize hX : {j | j < 2 ^ d.globalDepth ∧ j ≡ i [MOD 2 ^ (e + 1)]} = X at hfirst
  have hsecond := @Loop.forStride_collect _ _ Fault.diverges (2 ^ d.globalDepth) (2 ^ (e + 1)) s
    (fun curr_idx (dir : HashTableDirectoryPage) => dir.decrLocalDepth b curr_idx)
    (fun Y => joined d e (A.page s) X Y) (Nat.two_pow_pos _)
    (fun c Y hc hm hY => joined_insert_right (hclass hc hds hm) (by omega)
      (hX ▸ fun hmem => hapart hm hmem.2) hY)
  generalize hY : {j | j < 2 ^ d.globalDepth ∧ j ≡ s [MOD 2 ^ (e + 1)]} = Y at hsecond
  have hiX : i ∈ X := hX ▸ ⟨hi, rfl⟩
  have hsY : s ∈ Y := hY ▸ ⟨hs, rfl⟩
  have hsX : s ∉ X := hX ▸ fun hmem => hapart rfl hmem.2
  refine ⟨joined d e (A.page s) X Y, ?_, joined_shows h hdi hds hsib hX hY, rfl, rfl⟩
  · have hmasks : d.getLocalDepthMask i = 2 ^ (e + 1) - 1 ∧ d.getLocalDepthMask s = 2 ^ (e + 1) - 1 := by
      rw [getLocalDepthMask_eq, getLocalDepthMask_eq, hldi, hlds]
      exact ⟨rfl, rfl⟩
    have hmid : (joined d e (A.page s) X ∅).getLocalDepthMask s = 2 ^ (e + 1) - 1 := by
      rw [getLocalDepthMask_eq, joined_depth hsX (Set.notMem_empty s), hlds]
    have hend : ∀ j, j ∈ X ∨ j ∈ Y →
        (joined d e (A.page s) X Y).getLocalDepthMask j = 2 ^ e - 1 := fun j => joined_mask
    have hstep : d.getLocalHighBit i <<< 1 = 2 ^ (e + 1) := by
      rw [getLocalHighBit_succ hldi, Nat.shiftLeft_eq, ← pow_add]
    have hsize : ∀ X Y, (joined d e (A.page s) X Y).size = 2 ^ d.globalDepth := fun X Y => size_eq
    have hsize' : d.size = 2 ^ d.globalDepth := size_eq
    unfold joinEntries
    simp only [hmasks.1, hmasks.2, hstep, hsize', Nat.and_two_pow_sub_one_eq_mod, decide_true,
      assertThat_true, bind, Except.bind]
    rw [joined_empty] at hfirst
    rw [hfirst]
    simp only [hsize, hmid, Nat.and_two_pow_sub_one_eq_mod]
    rw [hsecond]
    simp only [hend i (.inl hiX), hend s (.inr hsY), decide_true, assertThat_true]

/-! ## Shrinking -/

/-- `shrink` changes the global depth and nothing else. -/
theorem shrink_eq : ∀ (fuel : ℕ) (d d' : HashTableDirectoryPage), shrink b d fuel = .ok d' →
    d' = { d with globalDepth := d'.globalDepth } := by
  intro fuel
  induction fuel with
  | zero =>
    intro d d' hrun
    cases hrun
  | succ fuel ih =>
    intro d d' hrun
    unfold shrink at hrun
    by_cases hcan : d.canShrink = true
    · rw [if_pos hcan] at hrun
      obtain ⟨d₁, hdecr, hrest⟩ := except_bind_inv hrun
      unfold decrGlobalDepth at hdecr
      obtain ⟨-, -, hd₁⟩ := except_bind_inv hdecr
      generalize (d.globalDepth + (2 ^ 32 - 1)) % 2 ^ 32 = g at hd₁
      cases hd₁
      have h := ih _ d' hrest
      exact h
    · rw [if_neg hcan] at hrun
      cases hrun
      rfl

/-- **`shrink` halves the directory until it is tight** and leaves what it shows alone. -/
theorem shrink_spec : ∀ (fuel : ℕ) (d : HashTableDirectoryPage), d.Shows A → d.globalDepth ≤ 9 →
    d.globalDepth < fuel → ∃ d', shrink b d fuel = .ok d' ∧ d'.Shows A ∧
      d'.globalDepth ≤ d.globalDepth ∧ Tight d'.globalDepth A ∧ d'.pageId = d.pageId := by
  intro fuel
  induction fuel with
  | zero =>
    intro d _ _ hfuel
    omega
  | succ fuel ih =>
    intro d h hd hfuel
    unfold shrink
    by_cases hcan : d.canShrink = true
    · obtain ⟨d₁, hrun₁, h₁, hg₁, hp₁⟩ := h.halve hd (h.canShrink_iff.mp hcan)
      obtain ⟨d', hrun, h', hg', ht, hp⟩ := ih d₁ h₁ (by omega) (by omega)
      refine ⟨d', ?_, h', by omega, ht, hp.trans hp₁⟩
      rw [if_pos hcan, hrun₁]
      exact hrun
    · refine ⟨d, if_neg hcan, h, Nat.le_refl _, ?_, rfl⟩
      rw [h.canShrink_iff] at hcan
      push Not at hcan
      obtain ⟨x, hx⟩ := hcan
      exact .inr ⟨x, Nat.le_antisymm (h.depth_le x) hx⟩

end HashTableType

end BusTub
