import Elfboot.MemblockRuns

/-!
The elements of the region arrays that the boot-time memory map reads and writes.

Nothing looks at `max`. Each function has a list of the indices it uses; a move uses those it
reads, and then those it writes.
-/

namespace Elfboot.MemblockBounds

open Elfboot.Run Elfboot.Word Elfboot.Mm Elfboot.Memblock Elfboot.MemblockTable

/-! ### What is used -/

def memmoveUses (dst src n : ℕ) : List ℕ := List.range' src n ++ List.range' dst n

def fusionPrevUses (t : MemblockType) (index : ℕ) : List ℕ :=
  if index = 0 then []
  else
    [index - 1, index] ++
      if (t.regions (index - 1)).stop = (t.regions index).base then
        index :: memmoveUses (index - 1) index (t.cnt - index)
      else []

def fusionNextUses (t : MemblockType) (index : ℕ) : List ℕ :=
  if index < t.cnt then
    [index, index + 1] ++
      if (t.regions index).stop = (t.regions (index + 1)).base then
        (index + 1) :: memmoveUses index (index + 1) (t.cnt - (index + 1))
      else []
  else []

def memblockFusionRegionUses (t : MemblockType) (index : ℕ) : List ℕ :=
  if t.cnt = 1 then [] else fusionPrevUses t index ++ fusionNextUses (fusionPrev t index) index

def memblockInsertRegionUses (t : MemblockType) (index : ℕ) : List ℕ :=
  memmoveUses (index + 1) index (t.cnt - index) ++ [index]

/-- What the turns of `addLoop` use. -/
def addLoopUses (nend : ℕ) : ℕ → MemblockType → ℕ → ℕ → List ℕ
  | 0, _, _, _ => []
  | n + 1, t, i, base =>
    if i < t.cnt then
      let rbeg := (t.regions i).base
      let rend := (t.regions i).stop
      i ::
        if nend ≤ rbeg then []
        else if rend ≤ base then addLoopUses nend n t (i + 1) base
        else if base ≤ rbeg then
          memblockInsertRegionUses t i ++
            addLoopUses nend n (memblockInsertRegion t i base (sub32 rbeg base)) (i + 2)
              (min rend nend)
        else addLoopUses nend n t (i + 1) (min rend nend)
    else []

def memblockAddRegionUses (t : MemblockType) (base size : ℕ) : List ℕ :=
  let (base, _, nend) := memblockAdjustRegion base size
  0 ::
    if (t.regions 0).size = 0 then [0]
    else
      let uses := addLoopUses nend t.cnt t 0 base
      let (t, i, base) := addLoop nend t.cnt t 0 base
      if base < nend then
        uses ++ memblockInsertRegionUses t i ++
          memblockFusionRegionUses (memblockInsertRegion t i base (sub32 nend base)) i
      else uses ++ memblockFusionRegionUses t i

/-- What the turns of `delLoop` use. -/
def delLoopUses (nend : ℕ) : ℕ → MemblockType → ℕ → ℕ → List ℕ
  | 0, _, _, _ => []
  | n + 1, t, i, base =>
    if i < t.cnt then
      let rbeg := (t.regions i).base
      let rend := (t.regions i).stop
      i ::
        if nend ≤ rbeg then []
        else if rend ≤ base then delLoopUses nend n t (i + 1) base
        else
          let mbeg := max rbeg base
          let mend := min rend nend
          if rbeg < base ∧ nend < rend then
            memblockInsertRegionUses (t.setRegion i ⟨rbeg, sub32 base rbeg⟩) (i + 1)
          else
            let size := sub32 (t.regions i).size (sub32 mend mbeg)
            let t := { t.setRegion i ⟨rbeg, size⟩ with
              totalSize := sub32 t.totalSize (sub32 mend mbeg) }
            if size = 0 then
              memmoveUses i (i + 1) (t.cnt - (i + 1)) ++
                delLoopUses nend n { t with
                  cnt := t.cnt - 1
                  regions := memmove t.regions i (i + 1) (t.cnt - (i + 1)) } i base
            else if base ≤ rbeg then [i]
            else if rend ≤ nend then delLoopUses nend n t (i + 1) rend
            else delLoopUses nend n t (i + 1) base
    else []

def memblockDelRegionUses (t : MemblockType) (base size : ℕ) : List ℕ :=
  let (base, _, nend) := memblockAdjustRegion base size
  delLoopUses nend t.cnt t 0 base

/-- `memblock_reserve` in `memblock_alloc_range`. -/
def memblockAllocRangeUses (t : MemblockType) (size align start stop : ℕ) : List ℕ :=
  let base := memblockFindInRange t size align start stop
  if base = 0 then [] else memblockDelRegionUses t base size

/-! ### When there is room -/

/-- The indices are those of elements that there are. -/
def InBounds (uses : List ℕ) : Prop := ∀ j ∈ uses, j < memblockMaxRegions

/-- How many gaps between the entries a range fills, and how many entries there are then before
the place that it ends at. -/
def gaps (nend : ℕ) : ℕ → List Region → ℕ × ℕ
  | base, [] => (if base < nend then 1 else 0, 0)
  | base, r :: l =>
    if nend ≤ r.base then (if base < nend then 1 else 0, 0)
    else if r.stop ≤ base then ((gaps nend base l).1, (gaps nend base l).2 + 1)
    else if base ≤ r.base then
      ((gaps nend (min r.stop nend) l).1 + 1, (gaps nend (min r.stop nend) l).2 + 2)
    else ((gaps nend (min r.stop nend) l).1, (gaps nend (min r.stop nend) l).2 + 1)

/-- There is an element for each gap that the range fills, and one more behind the place that it
ends at: that is where fusing looks. -/
def AddFits (t : MemblockType) (base size : ℕ) : Prop :=
  let (base, _, nend) := memblockAdjustRegion base size
  (t.regions 0).size = 0 ∨ t.cnt + (gaps nend base (entries t)).1 < memblockMaxRegions ∨
    t.cnt + (gaps nend base (entries t)).1 = memblockMaxRegions ∧
      (gaps nend base (entries t)).2 + 1 < memblockMaxRegions

/-- A range is taken out of the middle of an entry, before any other entry is gone. -/
def Splits (nend : ℕ) : ℕ → List Region → Prop
  | _, [] => False
  | base, r :: l =>
    if nend ≤ r.base then False
    else if r.stop ≤ base then Splits nend base l
    else if r.base < base ∧ nend < r.stop then True
    else if sub32 r.size (sub32 (min r.stop nend) (max r.base base)) = 0 then False
    else if base ≤ r.base then False
    else if r.stop ≤ nend then Splits nend r.stop l
    else Splits nend base l

/-- A full table has no entry that is split. -/
def DelFits (t : MemblockType) (base size : ℕ) : Prop :=
  let (base, _, nend) := memblockAdjustRegion base size
  t.cnt = memblockMaxRegions → ¬ Splits nend base (entries t)

def AllocFits (t : MemblockType) (size align start stop : ℕ) : Prop :=
  let base := memblockFindInRange t size align start stop
  base ≠ 0 → DelFits t base size

variable {t : MemblockType} {A l : List Region} {uses uses' : List ℕ} {i n base nend : ℕ}

/-! ### Moves -/

lemma inBounds_nil : InBounds [] := List.forall_mem_nil _

lemma inBounds_cons {j : ℕ} :
    InBounds (j :: uses) ↔ j < memblockMaxRegions ∧ InBounds uses := List.forall_mem_cons

lemma inBounds_append : InBounds (uses ++ uses') ↔ InBounds uses ∧ InBounds uses' :=
  List.forall_mem_append

lemma inBounds_memmove {dst src : ℕ} (hsrc : src + n ≤ memblockMaxRegions)
    (hdst : dst + n ≤ memblockMaxRegions) : InBounds (memmoveUses dst src n) := by
  refine inBounds_append.2 ⟨fun j hj => ?_, fun j hj => ?_⟩ <;>
  · have := List.mem_range'_1.1 hj
    omega

/-- An entry is inserted in bounds where there is an element behind the last entry. -/
lemma inBounds_insert (hi : i ≤ t.cnt) :
    InBounds (memblockInsertRegionUses t i) ↔ t.cnt < memblockMaxRegions := by
  unfold memblockInsertRegionUses
  rw [inBounds_append, inBounds_cons]
  constructor
  · rintro ⟨hmove, hlt, -⟩
    rcases Nat.eq_or_lt_of_le hi with rfl | hi
    · exact hlt
    · exact (inBounds_append.1 hmove).2 _ (List.mem_range'_1.2 (by omega))
  · intro hlt
    exact ⟨inBounds_memmove (by omega) (by omega), by omega, inBounds_nil⟩

lemma inBounds_fusionPrev (hi : i ≤ t.cnt) (hc : t.cnt ≤ memblockMaxRegions) :
    InBounds (fusionPrevUses t i) ↔ i < memblockMaxRegions := by
  unfold fusionPrevUses
  by_cases h0 : i = 0
  · subst h0
    rw [if_pos rfl]
    exact iff_of_true inBounds_nil (by decide)
  · rw [if_neg h0, inBounds_append, inBounds_cons, inBounds_cons]
    refine ⟨fun h => h.1.2.1, fun hlt => ⟨⟨by omega, hlt, inBounds_nil⟩, ?_⟩⟩
    split_ifs
    · exact inBounds_cons.2 ⟨hlt, inBounds_memmove (by omega) (by omega)⟩
    · exact inBounds_nil

lemma inBounds_fusionNext (hc : t.cnt ≤ memblockMaxRegions) :
    InBounds (fusionNextUses t i) ↔ (i < t.cnt → i + 1 < memblockMaxRegions) := by
  unfold fusionNextUses
  by_cases hi : i < t.cnt
  · rw [if_pos hi, inBounds_append, inBounds_cons, inBounds_cons]
    refine ⟨fun h _ => h.1.2.1, fun h => ⟨⟨by omega, h hi, inBounds_nil⟩, ?_⟩⟩
    split_ifs
    · exact inBounds_cons.2 ⟨h hi, inBounds_memmove (by omega) (by omega)⟩
    · exact inBounds_nil
  · rw [if_neg hi]
    exact iff_of_true inBounds_nil fun h => absurd h hi

/-- Fusing looks behind the entry, even in a full table. -/
lemma inBounds_fusion (hi : i ≤ t.cnt) (hc : t.cnt ≤ memblockMaxRegions) :
    InBounds (memblockFusionRegionUses t i) ↔
      t.cnt < memblockMaxRegions ∨ i + 1 < memblockMaxRegions := by
  unfold memblockFusionRegionUses
  by_cases h1 : t.cnt = 1
  · rw [if_pos h1]
    exact iff_of_true inBounds_nil (Or.inl (h1.trans_lt (by decide)))
  · rw [if_neg h1, inBounds_append, inBounds_fusionPrev hi hc,
      inBounds_fusionNext (by rwa [fusionPrev_cnt]), fusionPrev_cnt]
    omega

/-! ### Adding -/

/-- The loop of an add, with what is to go. -/
structure Filled (nend base : ℕ) (t : MemblockType) (A l : List Region) (uses : List ℕ)
    (res : MemblockType × ℕ × ℕ) : Prop where
  cnt : res.1.cnt + (if res.2.2 < nend then 1 else 0) = t.cnt + (gaps nend base l).1
  place : res.2.1 = A.length + (gaps nend base l).2
  le : res.2.1 ≤ res.1.cnt
  grows : t.cnt ≤ res.1.cnt
  uses : t.cnt ≤ memblockMaxRegions → (InBounds uses ↔ res.1.cnt ≤ memblockMaxRegions)

lemma filled_stop (hg : gaps nend base l = (if base < nend then 1 else 0, 0))
    (hA : A.length ≤ t.cnt) (hu : t.cnt ≤ memblockMaxRegions → InBounds uses) :
    Filled nend base t A l uses (t, A.length, base) where
  cnt := by rw [hg]
  place := by rw [hg]; rfl
  le := hA
  grows := le_rfl
  uses hc := iff_of_true (hu hc) hc

/-- The loop goes on behind an entry. -/
lemma Filled.skip {base' : ℕ} {r : Region} {res : MemblockType × ℕ × ℕ}
    (hf : Filled nend base' t (A ++ [r]) l uses res) (hlt : A.length < t.cnt)
    (hg : gaps nend base (r :: l) = ((gaps nend base' l).1, (gaps nend base' l).2 + 1)) :
    Filled nend base t A (r :: l) (A.length :: uses) res where
  cnt := by rw [hg]; exact hf.cnt
  place := by
    rw [hg, hf.place, List.length_append, List.length_singleton]
    omega
  le := hf.le
  grows := hf.grows
  uses hc := (inBounds_cons.trans (and_iff_right (hlt.trans_le hc))).trans (hf.uses hc)

/-- The loop goes on behind an entry, with a new one before it. -/
lemma Filled.insert {base' size : ℕ} {r x : Region} {res : MemblockType × ℕ × ℕ}
    (hf : Filled nend base' (memblockInsertRegion t A.length base size) (A ++ [x, r]) l uses res)
    (hlt : A.length < t.cnt)
    (hg : gaps nend base (r :: l) = ((gaps nend base' l).1 + 1, (gaps nend base' l).2 + 2)) :
    Filled nend base t A (r :: l)
      (A.length :: (memblockInsertRegionUses t A.length ++ uses)) res := by
  have hcnt : (memblockInsertRegion t A.length base size).cnt = t.cnt + 1 := rfl
  have hgrows := hf.grows
  rw [hcnt] at hgrows
  refine ⟨?_, ?_, hf.le, by omega, fun hc => ?_⟩
  · rw [hg, hf.cnt, hcnt]
    omega
  · rw [hg, hf.place, List.length_append]
    show A.length + 2 + (gaps nend base' l).2 = A.length + ((gaps nend base' l).2 + 2)
    omega
  · rw [inBounds_cons, and_iff_right (hlt.trans_le hc), inBounds_append, inBounds_insert hlt.le]
    rcases Nat.eq_or_lt_of_le hc with heq | hroom
    · exact iff_of_false (fun h => absurd h.1 (by omega)) (by omega)
    · exact (and_iff_right hroom).trans (hf.uses hroom)

lemma addLoop_filled (h : entries t = A ++ l) (hn : l.length ≤ n) :
    Filled nend base t A l (addLoopUses nend n t A.length base)
      (addLoop nend n t A.length base) := by
  induction n generalizing t A l base with
  | zero =>
    obtain rfl : l = [] := List.length_eq_zero_iff.1 (Nat.le_zero.1 hn)
    exact filled_stop rfl (by rw [cnt_of h]; omega) fun _ => inBounds_nil
  | succ n ih =>
    cases l with
    | nil =>
      have hend : ¬ A.length < t.cnt := by
        rw [cnt_of h]
        exact lt_irrefl _
      unfold addLoop addLoopUses
      rw [if_neg hend, if_neg hend]
      exact filled_stop rfl (by rw [cnt_of h]; omega) fun _ => inBounds_nil
    | cons r l =>
      obtain ⟨hlt, hr⟩ := region_at h
      have hlen : l.length ≤ n := Nat.le_of_succ_le_succ hn
      have hskip : entries t = (A ++ [r]) ++ l := h.trans (List.append_cons A r l)
      have hplace : (A ++ [r]).length = A.length + 1 := List.length_append
      unfold addLoop addLoopUses
      rw [if_pos hlt, if_pos hlt]
      dsimp only
      rw [hr]
      by_cases hbeg : nend ≤ r.base
      · rw [if_pos hbeg, if_pos hbeg]
        exact filled_stop (if_pos hbeg) hlt.le fun hc =>
          inBounds_cons.2 ⟨hlt.trans_le hc, inBounds_nil⟩
      rw [if_neg hbeg, if_neg hbeg]
      by_cases hend : r.stop ≤ base
      · rw [if_pos hend, if_pos hend]
        have hrest : Filled nend base t (A ++ [r]) l _ _ := ih hskip hlen
        rw [hplace] at hrest
        exact hrest.skip hlt ((if_neg hbeg).trans (if_pos hend))
      rw [if_neg hend, if_neg hend]
      by_cases hgap : base ≤ r.base
      · rw [if_pos hgap, if_pos hgap]
        have hins := entries_insert h base (sub32 r.base base)
        have hrest : Filled nend (min r.stop nend) _ (A ++ [⟨base, sub32 r.base base⟩, r]) l _ _ :=
          ih (by rw [hins]; simp) hlen
        rw [List.length_append] at hrest
        exact hrest.insert hlt (((if_neg hbeg).trans (if_neg hend)).trans (if_pos hgap))
      · rw [if_neg hgap, if_neg hgap]
        have hrest : Filled nend (min r.stop nend) t (A ++ [r]) l _ _ := ih hskip hlen
        rw [hplace] at hrest
        exact hrest.skip hlt (((if_neg hbeg).trans (if_neg hend)).trans (if_neg hgap))

lemma fusion_cnt (t : MemblockType) (i : ℕ) : (memblockFusionRegion t i).cnt = t.cnt := by
  unfold memblockFusionRegion
  split_ifs
  · rfl
  · rw [fusionNext_cnt, fusionPrev_cnt]

/-- **An add** keeps to the array where the range fits. -/
lemma add_inBounds (hc : t.cnt ≤ memblockMaxRegions) (base size : ℕ) :
    (InBounds (memblockAddRegionUses t base size) ↔ AddFits t base size) ∧
      (AddFits t base size → (memblockAddRegion t base size).cnt ≤ memblockMaxRegions) := by
  unfold memblockAddRegionUses AddFits memblockAddRegion
  obtain ⟨beg, size', nend⟩ := memblockAdjustRegion base size
  dsimp only
  by_cases h0 : (t.regions 0).size = 0
  · rw [if_pos h0, if_pos h0]
    refine ⟨iff_of_true ?_ (Or.inl h0), fun _ => hc⟩
    exact inBounds_cons.2 ⟨by decide, inBounds_cons.2 ⟨by decide, inBounds_nil⟩⟩
  · have hf : Filled nend beg t [] (entries t) (addLoopUses nend t.cnt t 0 beg)
        (addLoop nend t.cnt t 0 beg) := addLoop_filled rfl (Nat.le_of_eq (length_entries t))
    rw [if_neg h0, if_neg h0, or_iff_right h0, inBounds_cons,
      and_iff_right (by decide : 0 < memblockMaxRegions)]
    generalize addLoopUses nend t.cnt t 0 beg = uses at hf ⊢
    generalize addLoop nend t.cnt t 0 beg = res at hf ⊢
    obtain ⟨t', i, b⟩ := res
    obtain ⟨hcnt, hplace, hle, -, huses⟩ := hf
    dsimp only at hcnt hplace hle huses ⊢
    rw [List.length_nil, Nat.zero_add] at hplace
    rw [← hcnt, ← hplace]
    by_cases hb : b < nend
    · have hins : (memblockInsertRegion t' i b (sub32 nend b)).cnt = t'.cnt + 1 := rfl
      rw [if_pos hb, if_pos hb, if_pos hb, fusion_cnt, hins, inBounds_append, inBounds_append,
        huses hc, inBounds_insert hle]
      rcases Nat.lt_or_ge t'.cnt memblockMaxRegions with hroom | hfull
      · have hfuse := inBounds_fusion (hle.trans (Nat.le_succ _) : i ≤ _) (hins.trans_le hroom)
        rw [hfuse, hins]
        omega
      · exact ⟨iff_of_false (fun h => by omega) (by omega), fun h => by omega⟩
    · rw [if_neg hb, if_neg hb, if_neg hb, fusion_cnt, inBounds_append, huses hc, Nat.add_zero]
      rcases Nat.lt_or_ge memblockMaxRegions t'.cnt with hover | hfits
      · exact ⟨iff_of_false (fun h => by omega) (by omega), fun h => by omega⟩
      · rw [inBounds_fusion hle hfits]
        omega

/-! ### Removing -/

/-- The split is in bounds where there is an element behind the last entry. -/
lemma split_bounds (hlt : i < t.cnt) (hc : t.cnt ≤ memblockMaxRegions) (x : Region) (b s : ℕ) :
    (InBounds (memblockInsertRegionUses (t.setRegion i x) (i + 1)) ↔
        t.cnt ≠ memblockMaxRegions) ∧
      (t.cnt ≠ memblockMaxRegions →
        (memblockInsertRegion (t.setRegion i x) (i + 1) b s).cnt ≤ memblockMaxRegions) := by
  have hset : (t.setRegion i x).cnt = t.cnt := rfl
  have hins : (memblockInsertRegion (t.setRegion i x) (i + 1) b s).cnt = t.cnt + 1 := rfl
  have hle : i + 1 ≤ (t.setRegion i x).cnt := hlt
  rw [inBounds_insert hle, hset, hins]
  omega

/-- What the loop of a removal keeps to. -/
def DelBounds (nend n : ℕ) (t : MemblockType) (i base dbeg : ℕ) (l : List Region) : Prop :=
  (InBounds (delLoopUses nend n t i base) ↔
      (t.cnt = memblockMaxRegions → ¬ Splits nend base l)) ∧
    ((t.cnt = memblockMaxRegions → ¬ Splits nend base l) →
      (delLoop nend n t i base dbeg).1.cnt ≤ memblockMaxRegions)

lemma delLoop_bounds (h : entries t = A ++ l) (hn : l.length ≤ n)
    (hc : t.cnt ≤ memblockMaxRegions) (dbeg : ℕ) :
    DelBounds nend n t A.length base dbeg l := by
  induction n generalizing t A l base dbeg with
  | zero =>
    obtain rfl : l = [] := List.length_eq_zero_iff.1 (Nat.le_zero.1 hn)
    exact ⟨iff_of_true inBounds_nil fun _ h => h, fun _ => hc⟩
  | succ n ih =>
    cases l with
    | nil =>
      have hend : ¬ A.length < t.cnt := by
        rw [cnt_of h]
        exact lt_irrefl _
      unfold DelBounds delLoop delLoopUses
      rw [if_neg hend, if_neg hend]
      exact ⟨iff_of_true inBounds_nil fun _ h => h, fun _ => hc⟩
    | cons r l =>
      obtain ⟨hlt, hr⟩ := region_at h
      have hlen : l.length ≤ n := Nat.le_of_succ_le_succ hn
      -- the loop goes on behind the entry, which may be another one now
      have hnext : ∀ (x : Region) (t' : MemblockType), entries t' = A ++ x :: l →
          t'.cnt = t.cnt → ∀ b d, DelBounds nend n t' (A.length + 1) b d l := by
        intro x t' ht' hcnt b d
        have : DelBounds nend n t' (A ++ [x]).length b d l :=
          ih (ht'.trans (List.append_cons A x l)) hlen (hcnt.trans_le hc) d
        rwa [List.length_append, List.length_singleton] at this
      unfold DelBounds delLoop delLoopUses Splits
      rw [if_pos hlt, if_pos hlt]
      dsimp only
      rw [hr, inBounds_cons, and_iff_right (hlt.trans_le hc)]
      by_cases hbeg : nend ≤ r.base
      · simp only [if_pos hbeg]
        exact ⟨iff_of_true inBounds_nil fun _ h => h, fun _ => hc⟩
      simp only [if_neg hbeg]
      by_cases hend : r.stop ≤ base
      · simp only [if_pos hend]
        exact hnext r t h rfl base dbeg
      simp only [if_neg hend]
      by_cases hsplit : r.base < base ∧ nend < r.stop
      · simp only [if_pos hsplit, not_true, imp_false]
        exact split_bounds hlt hc _ _ _
      simp only [if_neg hsplit]
      obtain ⟨size, hsize⟩ : ∃ size,
        size = sub32 r.size (sub32 (min r.stop nend) (max r.base base)) := ⟨_, rfl⟩
      obtain ⟨total, htotal⟩ : ∃ total,
        total = sub32 t.totalSize (sub32 (min r.stop nend) (max r.base base)) := ⟨_, rfl⟩
      rw [← hsize, ← htotal]
      have hset : entries ⟨t.cnt, total, (t.setRegion A.length ⟨r.base, size⟩).regions⟩ =
          A ++ ⟨r.base, size⟩ :: l := entries_set h _
      by_cases hgone : size = 0
      · simp only [if_pos hgone]
        have hrest : DelBounds nend n _ _ base _ _ := ih (entries_remove hset total) hlen
          ((Nat.sub_le _ 1).trans hc) (if dbeg = 0 then max r.base base else dbeg)
        have hroom : t.cnt - 1 ≠ memblockMaxRegions := by omega
        have hmove : InBounds (memmoveUses A.length (A.length + 1) (t.cnt - (A.length + 1))) :=
          inBounds_memmove (by omega) (by omega)
        refine ⟨iff_of_true (inBounds_append.2 ⟨hmove, ?_⟩) fun _ h => h, fun _ => ?_⟩
        · exact hrest.1.2 fun heq => absurd heq hroom
        · exact hrest.2 fun heq => absurd heq hroom
      simp only [if_neg hgone]
      by_cases hleft : base ≤ r.base
      · simp only [if_pos hleft]
        refine ⟨iff_of_true (inBounds_cons.2 ⟨hlt.trans_le hc, inBounds_nil⟩) fun _ h => h, ?_⟩
        exact fun _ => hc
      simp only [if_neg hleft]
      by_cases hright : r.stop ≤ nend
      · simp only [if_pos hright]
        exact hnext _ _ hset rfl _ _
      · simp only [if_neg hright]
        exact hnext _ _ hset rfl _ _

/-- **A removal** keeps to the array where it splits no entry of a full table. -/
lemma del_inBounds (hc : t.cnt ≤ memblockMaxRegions) (base size : ℕ) :
    (InBounds (memblockDelRegionUses t base size) ↔ DelFits t base size) ∧
      (DelFits t base size → (memblockDelRegion t base size).1.cnt ≤ memblockMaxRegions) := by
  unfold memblockDelRegionUses DelFits memblockDelRegion
  obtain ⟨beg, size', nend⟩ := memblockAdjustRegion base size
  exact delLoop_bounds (A := []) rfl (Nat.le_of_eq (length_entries t)) hc memblockInvld

lemma alloc_inBounds (hc : t.cnt ≤ memblockMaxRegions) (size align start stop : ℕ) :
    (InBounds (memblockAllocRangeUses t size align start stop) ↔
        AllocFits t size align start stop) ∧
      (AllocFits t size align start stop →
        (memblockAllocRange t size align start stop).1.cnt ≤ memblockMaxRegions) := by
  unfold memblockAllocRangeUses AllocFits memblockAllocRange memblockReserve
  generalize memblockFindInRange t size align start stop = base
  by_cases h0 : base = 0
  · simp only [if_pos h0]
    exact ⟨iff_of_true inBounds_nil fun h => absurd h0 h, fun _ => hc⟩
  · simp only [ne_eq, h0, not_false_eq_true, forall_const]
    exact del_inBounds hc base size

/-! ### Runs -/

/-- The two tables, and every index used so far. -/
structure State where
  bootmem : MemblockType
  kernmem : MemblockType
  uses : List ℕ

inductive Op
  | add (base size : ℕ)
  | addKernel (base size : ℕ)
  | reserve (base size : ℕ)
  | alloc (size align : ℕ)
  | allocKernel (size align : ℕ)

def memblockAllocKernel (t : MemblockType) (size align : ℕ) : MemblockType × ℕ :=
  memblockAllocRange t size align memoryLimit memblockInvld

def step (s : State) : Op → State
  | .add base size =>
    { s with
      bootmem := memblockAdd s.bootmem base size
      uses := s.uses ++ memblockAddRegionUses s.bootmem base size }
  | .addKernel base size =>
    { s with
      kernmem := memblockAdd s.kernmem base size
      uses := s.uses ++ memblockAddRegionUses s.kernmem base size }
  | .reserve base size =>
    { s with
      bootmem := (memblockReserve s.bootmem base size).1
      uses := s.uses ++ memblockDelRegionUses s.bootmem base size }
  | .alloc size align =>
    { s with
      bootmem := (memblockAlloc s.bootmem size align).1
      uses := s.uses ++ memblockAllocRangeUses s.bootmem size align memoryStart memoryLimit }
  | .allocKernel size align =>
    { s with
      kernmem := (memblockAllocKernel s.kernmem size align).1
      uses := s.uses ++ memblockAllocRangeUses s.kernmem size align memoryLimit memblockInvld }

/-- The boot-time memory map, with any arguments. -/
def memblocks : System State Op where
  init s := ∃ behind behind', s = ⟨emptyTable behind, emptyTable behind', []⟩
  pre _ _ := True
  step := step

/-- Neither array has overflown, and nothing has been read or written behind one. -/
structure Safe (s : State) : Prop where
  bootmem : s.bootmem.cnt ≤ memblockMaxRegions
  kernmem : s.kernmem.cnt ≤ memblockMaxRegions
  uses : InBounds s.uses

/-- The call finds room in its table. -/
def StepFits (s : State) : Op → Prop
  | .add base size => AddFits s.bootmem base size
  | .addKernel base size => AddFits s.kernmem base size
  | .reserve base size => DelFits s.bootmem base size
  | .alloc size align => AllocFits s.bootmem size align memoryStart memoryLimit
  | .allocKernel size align => AllocFits s.kernmem size align memoryLimit memblockInvld

/-- What one call does: its uses are in bounds if and only if there is room for it, and then
no table has overflown. -/
lemma step_bounds {s : State} (h : Safe s) (op : Op) :
    (InBounds (step s op).uses ↔ StepFits s op) ∧
      (StepFits s op → (step s op).bootmem.cnt ≤ memblockMaxRegions ∧
        (step s op).kernmem.cnt ≤ memblockMaxRegions) := by
  cases op with
  | add base size =>
    have hadd := add_inBounds h.bootmem base size
    exact ⟨(inBounds_append.trans (and_iff_right h.uses)).trans hadd.1,
      fun hf => ⟨hadd.2 hf, h.kernmem⟩⟩
  | addKernel base size =>
    have hadd := add_inBounds h.kernmem base size
    exact ⟨(inBounds_append.trans (and_iff_right h.uses)).trans hadd.1,
      fun hf => ⟨h.bootmem, hadd.2 hf⟩⟩
  | reserve base size =>
    have hdel := del_inBounds h.bootmem base size
    exact ⟨(inBounds_append.trans (and_iff_right h.uses)).trans hdel.1,
      fun hf => ⟨hdel.2 hf, h.kernmem⟩⟩
  | alloc size align =>
    have halloc := alloc_inBounds h.bootmem size align memoryStart memoryLimit
    exact ⟨(inBounds_append.trans (and_iff_right h.uses)).trans halloc.1,
      fun hf => ⟨halloc.2 hf, h.kernmem⟩⟩
  | allocKernel size align =>
    have halloc := alloc_inBounds h.kernmem size align memoryLimit memblockInvld
    exact ⟨(inBounds_append.trans (and_iff_right h.uses)).trans halloc.1,
      fun hf => ⟨h.bootmem, halloc.2 hf⟩⟩

lemma uses_back (s : State) (op : Op) (h : InBounds (step s op).uses) : InBounds s.uses := by
  cases op <;> exact (inBounds_append.1 h).1

lemma safe_init {s : State} (h : memblocks.init s) : Safe s := by
  obtain ⟨behind, behind', rfl⟩ := h
  exact ⟨(by decide : 1 ≤ memblockMaxRegions), (by decide : 1 ≤ memblockMaxRegions), inBounds_nil⟩

/-- **A run stays within the arrays** if and only if every call finds room. -/
theorem safe_iff {s : State} (h : memblocks.init s) (ops : List Op) :
    Safe (memblocks.run s ops) ↔ (memblocks.restrict StepFits).Takes s ops := by
  refine System.holds_run_iff (P := Safe) (Q := fun s => InBounds s.uses) (fun _ hs => hs.uses)
    uses_back (fun s op hs hu => ?_) (fun s op hs _ hf => ?_) (safe_init h)
  · exact ⟨trivial, (step_bounds hs op).1.1 hu⟩
  · obtain ⟨hboot, hkern⟩ := (step_bounds hs op).2 hf
    exact ⟨hboot, hkern, (step_bounds hs op).1.2 hf⟩

/-- Nothing has been added yet, and there are zeros behind the arrays. -/
abbrev start : State := ⟨emptyTable fun _ => ⟨0, 0⟩, emptyTable fun _ => ⟨0, 0⟩, []⟩

/-- A number of ranges of one page, with a page between each and the next. -/
def scattered (n : ℕ) : List Op :=
  (List.range n).map fun k => .add ((2 * k + 1) * pageSize) pageSize

lemma init_start : memblocks.init start := ⟨_, _, rfl⟩

lemma safe_iff_scattered : Safe (memblocks.run start (scattered 7)) ↔
    (memblocks.restrict StepFits).Takes start (scattered 7) :=
  safe_iff init_start _

/-- The eighth range looks behind the array, and the ninth writes there. -/
lemma not_safe_scattered : 8 ∈ (memblocks.run start (scattered 8)).uses ∧
    (memblocks.run start (scattered 9)).bootmem.cnt = 9 ∧
      ¬ Safe (memblocks.run start (scattered 8)) ∧ ¬ Safe (memblocks.run start (scattered 9)) := by
  have hlook : 8 ∈ (memblocks.run start (scattered 8)).uses := by decide +kernel
  have hcnt : (memblocks.run start (scattered 9)).bootmem.cnt = 9 := by decide +kernel
  refine ⟨hlook, hcnt, fun h => absurd (h.uses 8 hlook) (by decide), fun h => ?_⟩
  exact absurd (hcnt ▸ h.bootmem) (by decide)

end Elfboot.MemblockBounds
