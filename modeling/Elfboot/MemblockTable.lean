import Elfboot.Memblock
import Elfboot.RegionOrder

/-!
The array of the boot-time memory map against the list of its entries.

The loops of the source are `fill` and `carve` on the list. Fusing two entries is not a
join on the list: the count stays, and the last entry is there twice afterwards.
-/

namespace Elfboot.MemblockTable

open Elfboot.Word Elfboot.Mm Elfboot.Memblock Elfboot.RegionList Elfboot.RegionOrder

/-- `regions[0..cnt)`. -/
def entries (t : MemblockType) : List Region := (List.range t.cnt).map t.regions

/-- No entry wraps. -/
def Valid (l : List Region) : Prop := ∀ r ∈ l, r.base + r.size < 2 ^ 32

/-- Every region ends before `c`. -/
def Below (c : ℕ) (l : List Region) : Prop := ∀ r ∈ l, r.base + r.size < c

variable {t : MemblockType} {A B l : List Region} {x y r : Region} {e b n i : ℕ}

@[simp] lemma length_entries (t : MemblockType) : (entries t).length = t.cnt := by simp [entries]

lemma entries_eq_iff : entries t = l ↔
    t.cnt = l.length ∧ ∀ j < l.length, l[j]? = some (t.regions j) := by
  constructor
  · rintro rfl
    refine ⟨by simp, fun j hj => ?_⟩
    rw [length_entries] at hj
    simp [entries, hj]
  · rintro ⟨hc, hl⟩
    refine List.ext_getElem? fun j => ?_
    rcases Nat.lt_or_ge j l.length with hj | hj
    · rw [hl j hj]
      simp [entries, hc, hj]
    · rw [List.getElem?_eq_none hj, List.getElem?_eq_none (by rw [length_entries, hc]; exact hj)]

/-- The total is not part of the entries. -/
lemma entries_total (t : MemblockType) (n : ℕ) : entries { t with totalSize := n } = entries t :=
  rfl

lemma stop_of_lt (h : r.base + r.size < 2 ^ 32) : r.stop = r.base + r.size := u32_of_lt h

lemma valid_append : Valid (A ++ B) ↔ Valid A ∧ Valid B := List.forall_mem_append

lemma valid_cons : Valid (x :: l) ↔ x.base + x.size < 2 ^ 32 ∧ Valid l := List.forall_mem_cons

lemma below_append {c : ℕ} : Below c (A ++ B) ↔ Below c A ∧ Below c B := List.forall_mem_append

lemma below_cons {c : ℕ} : Below c (x :: l) ↔ x.base + x.size < c ∧ Below c l :=
  List.forall_mem_cons

/-! ### The array operations on the list -/

lemma cnt_of (h : entries t = A ++ B) : t.cnt = A.length + B.length := by
  rw [← length_entries t, h, List.length_append]

lemma left_at (h : entries t = A ++ B) {j : ℕ} (hj : j < A.length) :
    A[j]? = some (t.regions j) := by
  have := (entries_eq_iff.mp h).2 j (by rw [List.length_append]; omega)
  rwa [List.getElem?_append_left hj] at this

lemma right_at (h : entries t = A ++ B) {j : ℕ} (hj : j < B.length) :
    B[j]? = some (t.regions (A.length + j)) := by
  have := (entries_eq_iff.mp h).2 (A.length + j) (by rw [List.length_append]; omega)
  rwa [List.getElem?_append_right (by omega), Nat.add_sub_cancel_left] at this

lemma entries_of_parts (hc : t.cnt = A.length + B.length)
    (hA : ∀ j < A.length, A[j]? = some (t.regions j))
    (hB : ∀ j < B.length, B[j]? = some (t.regions (A.length + j))) : entries t = A ++ B := by
  refine entries_eq_iff.mpr ⟨by rw [hc, List.length_append], fun j hj => ?_⟩
  rw [List.length_append] at hj
  rcases Nat.lt_or_ge j A.length with hlt | hge
  · rw [List.getElem?_append_left hlt]
    exact hA j hlt
  · obtain ⟨d, rfl⟩ := Nat.exists_eq_add_of_le hge
    rw [List.getElem?_append_right hge, Nat.add_sub_cancel_left]
    exact hB d (by omega)

lemma region_at (h : entries t = A ++ x :: B) : A.length < t.cnt ∧ t.regions A.length = x := by
  have hx := right_at h (j := 0) (by simp)
  rw [List.getElem?_cons_zero] at hx
  exact ⟨by rw [cnt_of h, List.length_cons]; omega, (Option.some.inj hx).symm⟩

lemma entries_set (h : entries t = A ++ x :: B) (r : Region) :
    entries (t.setRegion A.length r) = A ++ r :: B := by
  refine entries_of_parts ((cnt_of h).trans (by simp)) (fun j hj => ?_) fun j hj => ?_
  · rw [left_at h hj]
    simp [MemblockType.setRegion, hj.ne]
  · cases j with
    | zero => simp [MemblockType.setRegion]
    | succ j =>
        have := right_at h hj
        rw [List.getElem?_cons_succ] at this ⊢
        rw [this]
        simp [MemblockType.setRegion]

lemma entries_insert (h : entries t = A ++ B) (base size : ℕ) :
    entries (memblockInsertRegion t A.length base size) = A ++ ⟨base, size⟩ :: B := by
  have hc := cnt_of h
  refine entries_of_parts ?_ (fun j hj => ?_) fun j hj => ?_
  · simp only [memblockInsertRegion, hc, List.length_cons]
    omega
  · have hne : ¬ (A.length + 1 ≤ j ∧ j < A.length + 1 + (t.cnt - A.length)) := by omega
    rw [left_at h hj]
    simp only [memblockInsertRegion, memmove, if_neg hne, if_neg hj.ne]
  · cases j with
    | zero => simp [memblockInsertRegion]
    | succ j =>
        rw [List.length_cons] at hj
        have hin : A.length + 1 ≤ A.length + (j + 1) ∧
            A.length + (j + 1) < A.length + 1 + (t.cnt - A.length) := by omega
        rw [List.getElem?_cons_succ, right_at h (by omega)]
        simp only [memblockInsertRegion, memmove, if_pos hin]
        rw [if_neg (by omega)]
        congr 2; omega

lemma entries_remove (h : entries t = A ++ x :: B) (n : ℕ) :
    entries ⟨t.cnt - 1, n,
      memmove t.regions A.length (A.length + 1) (t.cnt - (A.length + 1))⟩ = A ++ B := by
  have hc := cnt_of h
  rw [List.length_cons] at hc
  refine entries_of_parts ?_ (fun j hj => ?_) fun j hj => ?_
  · dsimp only; omega
  · have hne : ¬ (A.length ≤ j ∧ j < A.length + (t.cnt - (A.length + 1))) := by omega
    rw [left_at h hj]
    simp [memmove, hne]
  · have hin : A.length ≤ A.length + j ∧
        A.length + j < A.length + (t.cnt - (A.length + 1)) := by omega
    have := right_at h (j := j + 1) (by rw [List.length_cons]; omega)
    rw [List.getElem?_cons_succ] at this
    rw [this]
    simp only [memmove, if_pos hin]
    congr 2; omega

/-! ### Fusing -/

/-- The entries behind `x` move up; the last of them stays where it was as well. -/
lemma entries_shift {L : List Region} (h : entries t = A ++ x :: L) (hL : L ≠ []) :
    entries { t with
      regions := memmove t.regions A.length (A.length + 1) (t.cnt - (A.length + 1)) } =
      A ++ (L ++ [L.getLast hL]) := by
  have hc := cnt_of h
  rw [List.length_cons] at hc
  refine entries_of_parts (by simpa using hc) (fun j hj => ?_) fun j hj => ?_
  · have hne : ¬ (A.length ≤ j ∧ j < A.length + (t.cnt - (A.length + 1))) := by omega
    rw [left_at h hj]
    simp only [memmove, if_neg hne]
  · rw [List.length_append, List.length_singleton] at hj
    rcases Nat.lt_or_ge j L.length with hlt | hge
    · have hin : A.length ≤ A.length + j ∧
          A.length + j < A.length + (t.cnt - (A.length + 1)) := by omega
      have := right_at h (j := j + 1) (by rw [List.length_cons]; omega)
      rw [List.getElem?_cons_succ] at this
      rw [List.getElem?_append_left hlt, this]
      simp only [memmove, if_pos hin]
      congr 2; omega
    · obtain rfl : j = L.length := by omega
      have hne : ¬ (A.length ≤ A.length + L.length ∧
          A.length + L.length < A.length + (t.cnt - (A.length + 1))) := by omega
      have := right_at h (j := L.length) (by simp)
      simp only [memmove, if_neg hne]
      rw [← this, List.getElem?_append_right le_rfl, Nat.sub_self]
      have hlast : (x :: L).getLast? = (x :: L)[L.length]? := by
        rw [List.getLast?_eq_getElem?]; rfl
      rw [← hlast, List.getLast?_eq_some_getLast (List.cons_ne_nil x L), List.getLast_cons hL]
      rfl

/-- The list that fusing leaves: `x` and `y` as one, and the last entry twice. -/
def fused (A : List Region) (x y : Region) (B : List Region) : List Region :=
  let m : Region := ⟨x.base, x.size + y.size⟩
  A ++ (m :: B ++ [(m :: B).getLast (List.cons_ne_nil m B)])

/-- What fusing at one side may do to the entries. -/
def Fuses (l l' : List Region) : Prop :=
  l' = l ∨ ∃ A x y B, l = A ++ x :: y :: B ∧ x.base + x.size = y.base ∧ l' = fused A x y B

lemma Fuses.length_eq {l' : List Region} (h : Fuses l l') : l'.length = l.length := by
  rcases h with rfl | ⟨A, x, y, B, rfl, -, rfl⟩
  · rfl
  · simp [fused]

lemma Fuses.below {l' : List Region} {c : ℕ} (h : Fuses l l') (hv : Below c l) : Below c l' := by
  rcases h with rfl | ⟨A, x, y, B, rfl, hxy, rfl⟩
  · exact hv
  · simp only [below_append, below_cons] at hv
    have hm : Below c ((⟨x.base, x.size + y.size⟩ : Region) :: B) :=
      below_cons.mpr ⟨by dsimp only; omega, hv.2.2.2⟩
    refine below_append.mpr ⟨hv.1, below_append.mpr ⟨hm, ?_⟩⟩
    rintro r hr
    rw [List.mem_singleton.mp hr]
    exact hm _ (List.getLast_mem _)

lemma Fuses.valid {l' : List Region} (h : Fuses l l') (hv : Valid l) : Valid l' := h.below hv

/-- **Fusing** does not change what is covered. -/
lemma Fuses.covered_eq {l' : List Region} (h : Fuses l l') : covered l' = covered l := by
  rcases h with rfl | ⟨A, x, y, B, rfl, hxy, rfl⟩
  · rfl
  · have hm : (⟨x.base, x.size + y.size⟩ : Region).addrs = x.addrs ∪ y.addrs := by
      ext a
      simp only [mem_addrs, Set.mem_union]
      omega
    have hlast : ∀ m : Region, covered [(m :: B).getLast (List.cons_ne_nil m B)] ⊆
        covered (m :: B) := by
      intro m a ha
      simp only [covered_cons, covered_nil, Set.union_empty] at ha
      exact ⟨_, List.getLast_mem _, ha⟩
    simp only [fused]
    rw [covered_append, covered_append, Set.union_eq_self_of_subset_right (hlast _), covered_cons,
      hm, covered_append, covered_cons, covered_cons, Set.union_assoc x.addrs]

/-- An entry at or behind the count is not one of the entries. -/
lemma entries_behind {t' : MemblockType} (hc : t'.cnt = t.cnt)
    (hf : ∀ j < t.cnt, t'.regions j = t.regions j) : entries t' = entries t := by
  unfold entries
  rw [hc]
  exact List.map_congr_left fun j hj => hf j (List.mem_range.mp hj)

lemma fusionPrev_cnt (t : MemblockType) (i : ℕ) : (fusionPrev t i).cnt = t.cnt := by
  unfold fusionPrev
  split_ifs
  · rfl
  · dsimp only
    split <;> rfl

lemma fusionNext_cnt (t : MemblockType) (i : ℕ) : (fusionNext t i).cnt = t.cnt := by
  unfold fusionNext
  split_ifs
  · dsimp only
    split <;> rfl
  · rfl

lemma fusionPrev_behind (h : t.cnt ≤ i) : entries (fusionPrev t i) = entries t := by
  refine entries_behind (fusionPrev_cnt t i) fun j hj => ?_
  unfold fusionPrev
  split_ifs with h0
  · rfl
  · dsimp only
    split
    · have hne : ¬ (i - 1 ≤ j ∧ j < i - 1 + (t.cnt - i)) := by omega
      simp only [memmove, MemblockType.setRegion, if_neg hne, if_neg (by omega : j ≠ i)]
    · rfl

lemma fusionNext_behind (h : t.cnt ≤ i + 1) : entries (fusionNext t i) = entries t := by
  refine entries_behind (fusionNext_cnt t i) fun j hj => ?_
  unfold fusionNext
  split_ifs
  · dsimp only
    split
    · have hne : ¬ (i ≤ j ∧ j < i + (t.cnt - (i + 1))) := by omega
      simp only [memmove, MemblockType.setRegion, if_neg hne, if_neg (by omega : j ≠ i + 1)]
    · rfl
  · rfl

lemma parts_at (h : i + 1 < t.cnt) : ∃ A B, A.length = i ∧
    entries t = A ++ t.regions i :: t.regions (i + 1) :: B := by
  have hlen := length_entries t
  refine ⟨(entries t).take i, (entries t).drop (i + 1 + 1), ?_, ?_⟩
  · rw [List.length_take, hlen]; omega
  · have h1 := List.drop_eq_getElem_cons (i := i) (l := entries t) (by omega)
    have h2 := List.drop_eq_getElem_cons (i := i + 1) (l := entries t) (by omega)
    have h3 := List.take_append_drop i (entries t)
    rw [h1, h2] at h3
    simpa [entries] using h3.symm

lemma entries_fused {y : Region} {m : Region} (h : entries t = A ++ x :: y :: B)
    (hm : m = ⟨x.base, x.size + y.size⟩) :
    entries { t.setRegion (A.length + 1) m with
      regions := memmove (t.setRegion (A.length + 1) m).regions A.length (A.length + 1)
        (t.cnt - (A.length + 1)) } = fused A x y B := by
  have hy : entries t = (A ++ [x]) ++ y :: B := by simpa using h
  have hset : entries (t.setRegion (A.length + 1) m) = A ++ x :: m :: B := by
    simpa using entries_set hy m
  rw [fused, ← hm]
  exact entries_shift hset (List.cons_ne_nil m B)

lemma entries_fuse (h : i + 1 < t.cnt) (hv : Valid (entries t))
    (ht : (t.regions i).stop = (t.regions (i + 1)).base) {m : Region}
    (hm : m = ⟨(t.regions i).base, (t.regions i).size + (t.regions (i + 1)).size⟩) :
    Fuses (entries t) (entries { t.setRegion (i + 1) m with
      regions := memmove (t.setRegion (i + 1) m).regions i (i + 1) (t.cnt - (i + 1)) }) := by
  obtain ⟨A, B, rfl, hl⟩ := parts_at h
  generalize t.regions A.length = x at *
  generalize t.regions (A.length + 1) = y at *
  have hfused := entries_fused hl hm
  rw [hl] at hv ⊢
  simp only [valid_append, valid_cons] at hv
  rw [stop_of_lt hv.2.1] at ht
  exact Or.inr ⟨A, x, y, B, rfl, ht, hfused⟩

lemma fused_size (h : i + 1 < t.cnt) (hv : Valid (entries t))
    (ht : (t.regions i).stop = (t.regions (i + 1)).base) :
    (t.regions i).size + (t.regions (i + 1)).size < 2 ^ 32 := by
  obtain ⟨A, B, -, hl⟩ := parts_at h
  rw [hl] at hv
  simp only [valid_append, valid_cons] at hv
  rw [stop_of_lt hv.2.1] at ht
  omega

lemma fusionNext_spec (hv : Valid (entries t)) :
    Fuses (entries t) (entries (fusionNext t i)) := by
  rcases Nat.lt_or_ge (i + 1) t.cnt with hlt | hge
  · unfold fusionNext
    rw [if_pos (by omega)]
    dsimp only
    split
    · next ht =>
      refine entries_fuse hlt hv ht ?_
      rw [u32_of_lt (by have := fused_size hlt hv ht; omega), Nat.add_comm]
    · exact Or.inl rfl
  · exact Or.inl (fusionNext_behind hge)

/-- An entry is fused with the one before it as that one is with the entry behind it. -/
lemma fusionPrev_succ (h : i < t.cnt) : fusionPrev t (i + 1) = fusionNext t i := by
  unfold fusionPrev fusionNext
  rw [if_neg (Nat.succ_ne_zero i), if_pos h, Nat.add_sub_cancel]

lemma fusionPrev_spec (hv : Valid (entries t)) :
    Fuses (entries t) (entries (fusionPrev t i)) := by
  rcases Nat.lt_or_ge i t.cnt with hlt | hge
  · cases i with
    | zero => exact Or.inl rfl
    | succ k =>
      rw [fusionPrev_succ (Nat.lt_of_succ_lt hlt)]
      exact fusionNext_spec hv
  · exact Or.inl (fusionPrev_behind hge)

/-- Fusion fuses at one side, and then at the other. -/
lemma fusion_fuses (hv : Valid (entries t)) : ∃ l, Fuses (entries t) l ∧
    Fuses l (entries (memblockFusionRegion t i)) := by
  unfold memblockFusionRegion
  split
  · exact ⟨entries t, Or.inl rfl, Or.inl rfl⟩
  · have h1 := fusionPrev_spec (i := i) hv
    exact ⟨_, h1, fusionNext_spec (i := i) (h1.valid hv)⟩

lemma fusion_below {c : ℕ} (hv : Valid (entries t)) (hb : Below c (entries t)) :
    Below c (entries (memblockFusionRegion t i)) := by
  obtain ⟨l, h1, h2⟩ := fusion_fuses (i := i) hv
  exact h2.below (h1.below hb)

/-- **Fusion** keeps the validity of the entries and what they cover. -/
lemma fusion_spec (hv : Valid (entries t)) :
    Valid (entries (memblockFusionRegion t i)) ∧
      covered (entries (memblockFusionRegion t i)) = covered (entries t) := by
  obtain ⟨l, h1, h2⟩ := fusion_fuses (i := i) hv
  exact ⟨h2.valid (h1.valid hv), h2.covered_eq.trans h1.covered_eq⟩

/-- Where there is nothing to fuse, fusion leaves the entries as they are. -/
lemma fusion_seam (hv : Valid (entries t)) (h : entries t = A ++ B) (hs : Seam A B) :
    entries (memblockFusionRegion t A.length) = entries t := by
  have hc := cnt_of h
  unfold memblockFusionRegion
  split
  · rfl
  rcases B with _ | ⟨y, B⟩
  · -- the place is behind the entries
    have hge : t.cnt ≤ A.length := by simp [hc]
    have hle : (fusionPrev t A.length).cnt ≤ A.length + 1 := by rw [fusionPrev_cnt]; omega
    rw [fusionNext_behind hle, fusionPrev_behind hge]
  · obtain ⟨hlt, hy⟩ := region_at h
    rw [h, valid_append, valid_cons] at hv
    have hprev : fusionPrev t A.length = t := by
      unfold fusionPrev
      split_ifs with h0
      · rfl
      · have hx : A[A.length - 1]? = some (t.regions (A.length - 1)) := left_at h (by omega)
        have hxA := List.mem_of_getElem? hx
        have hne := hs.1 _ hxA y rfl
        dsimp only
        rw [stop_of_lt (hv.1 _ hxA), hy, if_neg hne]
    rw [hprev]
    rcases B with _ | ⟨z, B⟩
    · exact fusionNext_behind (by simp [hc])
    · have hz : entries t = (A ++ [y]) ++ z :: B := by simpa using h
      have hz' := (region_at hz).2
      rw [List.length_append, List.length_singleton] at hz'
      unfold fusionNext
      dsimp only
      rw [if_pos hlt, hy, hz', stop_of_lt hv.2.1, if_neg (hs.2 y z B rfl)]

/-! ### Adding -/

lemma addLoop_spec : ∀ {n b : ℕ} {t : MemblockType} {A l : List Region},
    entries t = A ++ l → Valid l → b < 2 ^ 32 → l.length ≤ n →
    ∃ t', addLoop e n t A.length b =
        (t', A.length + (fill e b l).1.length, (fill e b l).2.2) ∧
      entries t' = A ++ ((fill e b l).1 ++ (fill e b l).2.1)
  | 0, b, t, A, l, h, _, _, hn => by
    obtain rfl : l = [] := List.length_eq_zero_iff.mp (by omega)
    exact ⟨t, by simp [addLoop, fill], by simpa [fill] using h⟩
  | n + 1, b, t, A, [], h, _, _, _ => by
    have hc := cnt_of h
    exact ⟨t, by simp [addLoop, fill, hc], by simpa [fill] using h⟩
  | n + 1, b, t, A, x :: l, h, hv, hb, hn => by
    obtain ⟨hlt, hx⟩ := region_at h
    obtain ⟨hx', hl⟩ := valid_cons.mp hv
    rw [List.length_cons] at hn
    have hsplit : entries t = (A ++ [x]) ++ l := by simpa using h
    unfold addLoop
    simp only [if_pos hlt, hx, stop_of_lt hx']
    rcases fill_cons e b x l with ⟨h1, hf⟩ | ⟨h1, h2, hf⟩ | ⟨g, h1, h2, hg, hf⟩
    · rw [if_pos h1, hf]
      exact ⟨t, by simp, h⟩
    · obtain ⟨t', h3, h4⟩ := addLoop_spec hsplit hl hb (by omega : l.length ≤ n)
      rw [if_neg (by omega), if_pos h2, hf]
      rw [List.length_append, List.length_singleton] at h3
      exact ⟨t', by rw [h3]; simp; omega, by simpa using h4⟩
    · rw [if_neg (by omega), if_neg (by omega), hf]
      have hmin : min (x.base + x.size) e < 2 ^ 32 := by omega
      rcases hg with ⟨rfl, hg⟩ | ⟨rfl, hg⟩
      · have hsub : sub32 x.base b = x.base - b := sub32_of_le hg (by omega)
        have hins := entries_insert h b (x.base - b)
        have hins' : entries (memblockInsertRegion t A.length b (x.base - b)) =
            (A ++ [⟨b, x.base - b⟩, x]) ++ l := by simpa using hins
        obtain ⟨t', h3, h4⟩ := addLoop_spec hins' hl hmin (by omega : l.length ≤ n)
        rw [if_pos hg, hsub]
        rw [List.length_append, List.length_cons, List.length_singleton] at h3
        exact ⟨t', by rw [h3]; simp; omega, by simpa using h4⟩
      · obtain ⟨t', h3, h4⟩ := addLoop_spec hsplit hl hmin (by omega : l.length ≤ n)
        rw [if_neg (by omega)]
        rw [List.length_append, List.length_singleton] at h3
        exact ⟨t', by rw [h3]; simp; omega, by simpa using h4⟩

/-! ### Page ranges -/

def pageBeg (base : ℕ) : ℕ := base / pageSize * pageSize

def pageEnd (base size : ℕ) : ℕ := (base + size + (pageSize - 1)) / pageSize * pageSize

/-- The pages of a range, as the addresses in them. -/
def pageRange (base size : ℕ) : Set ℕ := Set.Ico (pageBeg base) (pageEnd base size)

lemma pageBeg_dvd (base : ℕ) : pageSize ∣ pageBeg base := Nat.dvd_mul_left _ _

lemma pageEnd_dvd (base size : ℕ) : pageSize ∣ pageEnd base size := Nat.dvd_mul_left _ _

lemma pageBeg_le_pageEnd (base size : ℕ) : pageBeg base ≤ pageEnd base size :=
  Nat.mul_le_mul_right _ (Nat.div_le_div_right (by omega))

/-- The rounding of `memblock_adjust_region`. -/
lemma adjust_eq {base size : ℕ} (h : pageEnd base size < 2 ^ 32) :
    memblockAdjustRegion base size =
      (pageBeg base, pageEnd base size - pageBeg base, pageEnd base size) := by
  have hle := pageBeg_le_pageEnd base size
  have hsum : base + size < 2 ^ 32 := by
    simp only [pageEnd, pageSize] at h; omega
  have hbeg : roundDown base pageSize = pageBeg base :=
    roundDown_pow (by omega) (by decide)
  have hend : roundUp (base + size) pageSize = pageEnd base size := by
    rcases Nat.eq_zero_or_pos (base + size) with h0 | hpos
    · rw [h0, pageEnd, h0]; decide
    · have hup : (base + size - 1) / 2 ^ 12 * 2 ^ 12 + 2 ^ 12 = pageEnd base size := by
        simp only [pageEnd, pageSize]; omega
      rw [roundUp_pow hpos hsum (by decide), hup, u32_of_lt h]
  unfold memblockAdjustRegion
  simp only [u32_of_lt hsum, hbeg, hend, sub32_of_le hle h, Nat.add_sub_cancel' hle, u32_of_lt h]

/-! ### Adding and removing -/

/-- The table with the first entry replaced, where that entry is empty. -/
lemma add_placeholder {base size : ℕ} (h : pageEnd base size < 2 ^ 32)
    (h0 : (t.regions 0).size = 0) :
    (t.cnt = 0 ∧ entries (memblockAdd t base size) = []) ∨
      ∃ x l, entries t = x :: l ∧ x.size = 0 ∧ entries (memblockAdd t base size) =
        ⟨pageBeg base, pageEnd base size - pageBeg base⟩ :: l := by
  unfold memblockAdd memblockAddRegion
  simp only [adjust_eq h, if_pos h0]
  rcases hl : entries t with _ | ⟨x, l⟩
  · left
    have hc : t.cnt = 0 := by rw [← length_entries t, hl]; rfl
    exact ⟨hc, by simp [entries, MemblockType.setRegion, hc]⟩
  · right
    have hx := (region_at (A := []) hl).2
    refine ⟨x, l, rfl, by rw [← hx]; exact h0, ?_⟩
    exact entries_set (A := []) hl _

/-- Otherwise the range is filled in, what is missing is put behind, and that is fused. -/
lemma add_loop {base size : ℕ} (h : pageEnd base size < 2 ^ 32) (hv : Valid (entries t))
    (h0 : (t.regions 0).size ≠ 0) :
    let f := fill (pageEnd base size) (pageBeg base) (entries t)
    let t1 := (addLoop (pageEnd base size) t.cnt t 0 (pageBeg base)).1
    entries t1 = f.1 ++ f.2.1 ∧ memblockAdd t base size = memblockFusionRegion
      (if f.2.2 < pageEnd base size then
        memblockInsertRegion t1 f.1.length f.2.2 (pageEnd base size - f.2.2) else t1)
      f.1.length := by
  intro f t1
  have hle := pageBeg_le_pageEnd base size
  have hsplit : entries t = [] ++ entries t := rfl
  obtain ⟨t2, h1, h2⟩ := addLoop_spec (n := t.cnt) (e := pageEnd base size) hsplit hv
    (show pageBeg base < 2 ^ 32 by omega) (by simp)
  simp only [List.length_nil, Nat.zero_add, List.nil_append] at h1 h2
  rw [show fill (pageEnd base size) (pageBeg base) (entries t) = f from rfl] at h1 h2
  have ht : t1 = t2 := congrArg Prod.fst h1
  have h4 : f.2.2 ≤ pageEnd base size := (fill_covered hle).2.1
  refine ⟨by rw [ht, h2], ?_⟩
  unfold memblockAdd memblockAddRegion
  simp only [adjust_eq h, if_neg h0, h1, ht, sub32_of_le h4 h]

lemma add_fill {base size : ℕ} (h : pageEnd base size < 2 ^ 32) (hv : Valid (entries t))
    (h0 : (t.regions 0).size ≠ 0) :
    let f := fill (pageEnd base size) (pageBeg base) (entries t)
    ∃ t', memblockAdd t base size = memblockFusionRegion t' f.1.length ∧
      entries t' = f.1 ++ (missing f.2.2 (pageEnd base size) ++ f.2.1) := by
  intro f
  obtain ⟨h1, h2⟩ := add_loop h hv h0
  refine ⟨_, h2, ?_⟩
  split
  · next hlt =>
    rw [entries_insert h1, missing, if_pos hlt]
    rfl
  · next hge =>
    rw [h1, missing, if_neg hge]
    rfl

/-! The turns of a removal, as those of `carve_cons`. -/

section Turn

variable {d : ℕ} (h : entries t = A ++ x :: l)
include h

lemma delLoop_before (hx : e ≤ x.base) : delLoop e (n + 1) t A.length b d = (t, d) := by
  obtain ⟨hlt, hreg⟩ := region_at h
  rw [delLoop, if_pos hlt, hreg, if_pos hx]

variable (hlast : x.base + x.size < 2 ^ 32)
include hlast

lemma delLoop_behind (h1 : x.base < e) (h2 : x.base + x.size ≤ b) :
    delLoop e (n + 1) t A.length b d = delLoop e n t (A.length + 1) b d := by
  obtain ⟨hlt, hreg⟩ := region_at h
  rw [delLoop, if_pos hlt, hreg, stop_of_lt hlast, if_neg (Nat.not_le.mpr h1), if_pos h2]

lemma delLoop_split (h1 : x.base < b) (hbe : b ≤ e) (h2 : e < x.base + x.size) :
    delLoop e (n + 1) t A.length b d =
      (memblockInsertRegion (t.setRegion A.length ⟨x.base, b - x.base⟩) (A.length + 1) e
        (x.base + x.size - e), b) := by
  obtain ⟨hlt, hreg⟩ := region_at h
  rw [delLoop, if_pos hlt, hreg, stop_of_lt hlast, if_neg (by omega), if_neg (by omega)]
  dsimp only
  rw [if_pos ⟨h1, h2⟩, sub32_of_le h1.le (by omega), sub32_of_le h2.le hlast]

lemma delLoop_right (h1 : x.base < b) (h2 : b < x.base + x.size) (h3 : x.base + x.size ≤ e) :
    delLoop e (n + 1) t A.length b d =
      delLoop e n { t.setRegion A.length ⟨x.base, b - x.base⟩ with
        totalSize := sub32 t.totalSize (x.base + x.size - b) } (A.length + 1) (x.base + x.size)
        (if d = 0 then b else d) := by
  obtain ⟨hlt, hreg⟩ := region_at h
  have hcut : sub32 (min (x.base + x.size) e) (max x.base b) = x.base + x.size - b := by
    rw [min_eq_left h3, max_eq_right h1.le, sub32_of_le h2.le hlast]
  have hsz : sub32 x.size (x.base + x.size - b) = b - x.base := by
    rw [sub32_of_le (by omega) (by omega)]
    omega
  rw [delLoop, if_pos hlt, hreg, stop_of_lt hlast, if_neg (by omega), if_neg (by omega)]
  dsimp only
  rw [if_neg (by omega), hcut, hsz, if_neg (by omega), if_neg (by omega), if_pos h3,
    max_eq_right h1.le]

lemma delLoop_left (h1 : b ≤ x.base) (h2 : x.base < e) (h3 : e < x.base + x.size) :
    delLoop e (n + 1) t A.length b d =
      (MemblockType.setRegion { t.setRegion A.length ⟨x.base, x.base + x.size - e⟩ with
        totalSize := sub32 t.totalSize (e - x.base) } A.length ⟨e, x.base + x.size - e⟩, b) := by
  obtain ⟨hlt, hreg⟩ := region_at h
  have hcut : sub32 (min (x.base + x.size) e) (max x.base b) = e - x.base := by
    rw [min_eq_right h3.le, max_eq_left h1, sub32_of_le h2.le (by omega)]
  have hsz : sub32 x.size (e - x.base) = x.base + x.size - e := by
    rw [sub32_of_le (by omega) (by omega)]
    omega
  rw [delLoop, if_pos hlt, hreg, stop_of_lt hlast, if_neg (by omega), if_neg (by omega)]
  dsimp only
  rw [if_neg (by omega), hcut, hsz, if_neg (by omega), if_pos h1]

lemma delLoop_all (h1 : b ≤ x.base) (h2 : x.base < e) (h3 : b < x.base + x.size)
    (h4 : x.base + x.size ≤ e) :
    delLoop e (n + 1) t A.length b d =
      delLoop e n ⟨t.cnt - 1, sub32 t.totalSize x.size,
        memmove (t.setRegion A.length ⟨x.base, 0⟩).regions A.length (A.length + 1)
          (t.cnt - (A.length + 1))⟩ A.length b (if d = 0 then x.base else d) := by
  obtain ⟨hlt, hreg⟩ := region_at h
  have hcut : sub32 (min (x.base + x.size) e) (max x.base b) = x.size := by
    rw [min_eq_left h4, max_eq_left h1, sub32_of_le (by omega) hlast, Nat.add_sub_cancel_left]
  have hsz : sub32 x.size x.size = 0 := by
    rw [sub32_of_le le_rfl (by omega), Nat.sub_self]
  rw [delLoop, if_pos hlt, hreg, stop_of_lt hlast, if_neg (by omega), if_neg (by omega)]
  dsimp only
  rw [if_neg (by omega), hcut, hsz, if_pos rfl, max_eq_left h1]
  rfl

end Turn

/-- Only entries that begin before the end of the range are looked at further. -/
lemma delLoop_spec : ∀ {n b d : ℕ} {t : MemblockType} {A l : List Region},
    entries t = A ++ l → (∀ r ∈ l, r.base < e → r.base + r.size < 2 ^ 32) → b ≤ e →
    e < 2 ^ 32 → l.length ≤ n →
    entries (delLoop e n t A.length b d).1 = A ++ carve e b l
  | 0, b, d, t, A, l, h, _, _, _, hn => by
    obtain rfl : l = [] := List.length_eq_zero_iff.mp (by omega)
    simpa [delLoop, carve] using h
  | n + 1, b, d, t, A, [], h, _, _, _, _ => by
    have hc := cnt_of h
    simpa [delLoop, carve, hc] using h
  | n + 1, b, d, t, A, x :: l, h, hv, hbe, he, hn => by
    obtain ⟨hx, hl⟩ := List.forall_mem_cons.mp hv
    rw [List.length_cons] at hn
    have hnext : ∀ {u : MemblockType} {r : Region} {c d : ℕ}, entries u = A ++ r :: l → c ≤ e →
        entries (delLoop e n u (A.length + 1) c d).1 = A ++ r :: carve e c l := by
      intro u r c d hu hc
      have hu' : entries u = (A ++ [r]) ++ l := by simpa using hu
      have := delLoop_spec (d := d) hu' hl hc he (by omega : l.length ≤ n)
      rw [List.length_append, List.length_singleton] at this
      simpa using this
    rcases carve_cons e b x l with ⟨h1, hc⟩ | ⟨h1, h2, hc⟩ | ⟨h1, h2, h3, h4, hc⟩ |
      ⟨h1, h2, h3, h4, hc⟩ | ⟨h1, h2, h3, hc⟩ | ⟨h1, h2, h3, h4, hc⟩ <;> rw [hc]
    · rwa [delLoop_before h h1]
    · rw [delLoop_behind h (hx h1) h1 h2]
      exact hnext h hbe
    · -- split in two
      rw [delLoop_split h (hx h1) h2 hbe h4]
      have hset : entries (t.setRegion A.length ⟨x.base, b - x.base⟩) =
          (A ++ [⟨x.base, b - x.base⟩]) ++ l := by
        simpa using entries_set h ⟨x.base, b - x.base⟩
      have hins := entries_insert hset e (x.base + x.size - e)
      simpa using hins
    · -- the right part goes
      rw [delLoop_right h (hx h1) h2 h3 h4]
      exact hnext ((entries_total _ _).trans (entries_set h ⟨x.base, b - x.base⟩)) h4
    · -- the left part goes
      rw [delLoop_left h (hx h1) h2 h1 h3]
      have hset := (entries_total _ (sub32 t.totalSize (e - x.base))).trans
        (entries_set h ⟨x.base, x.base + x.size - e⟩)
      exact entries_set hset ⟨e, x.base + x.size - e⟩
    · -- all of it goes
      rw [delLoop_all h (hx h1) h2 h1 h3 h4]
      exact delLoop_spec (entries_remove (entries_set h ⟨x.base, 0⟩) _) hl hbe he (by omega)

/-- **Removing** a range is carving it out. -/
lemma reserve_carve {base size : ℕ} (h : pageEnd base size < 2 ^ 32)
    (hv : ∀ r ∈ entries t, r.base < pageEnd base size → r.base + r.size < 2 ^ 32) :
    entries (memblockReserve t base size).1 =
      carve (pageEnd base size) (pageBeg base) (entries t) := by
  unfold memblockReserve memblockDelRegion
  simp only [adjust_eq h]
  have hsplit : entries t = [] ++ entries t := rfl
  exact delLoop_spec hsplit hv (pageBeg_le_pageEnd base size) h (by simp)

lemma del_carve {base size : ℕ} (h : pageEnd base size < 2 ^ 32) (hv : Valid (entries t)) :
    entries (memblockReserve t base size).1 =
      carve (pageEnd base size) (pageBeg base) (entries t) :=
  reserve_carve h fun r hr _ => hv r hr

/-! ### What is kept -/

lemma carve_below {c : ℕ} (hbe : b ≤ e) (hv : Below c l) : Below c (carve e b l) := by
  induction l generalizing b with
  | nil => simpa [carve] using hv
  | cons x l ih =>
      obtain ⟨hx, hl⟩ := below_cons.mp hv
      rcases carve_cons e b x l with ⟨-, h⟩ | ⟨-, -, h⟩ | ⟨-, h1, h2, h3, h⟩ |
        ⟨-, h1, h2, h3, h⟩ | ⟨-, -, h1, h⟩ | ⟨-, -, -, -, h⟩ <;> rw [h]
      · exact hv
      · exact below_cons.mpr ⟨hx, ih hbe hl⟩
      · exact below_cons.mpr ⟨by dsimp only; omega, below_cons.mpr ⟨by dsimp only; omega, hl⟩⟩
      · exact below_cons.mpr ⟨by dsimp only; omega, ih h3 hl⟩
      · exact below_cons.mpr ⟨by dsimp only; omega, hl⟩
      · exact ih hbe hl

lemma carve_valid (hbe : b ≤ e) (hv : Valid l) : Valid (carve e b l) := carve_below hbe hv

lemma fill_below {c : ℕ} (hbe : b ≤ e) (he : e < c) (hv : Below c l) :
    Below c ((fill e b l).1 ++ (missing (fill e b l).2.2 e ++ (fill e b l).2.1)) := by
  obtain ⟨-, h2, -⟩ := fill_covered (l := l) hbe
  refine below_append.mpr ⟨fun r hr => ?_, below_append.mpr ⟨?_, fun r hr => hv r (mem_rest hr)⟩⟩
  · rcases fill_done r hr with h | h
    · exact hv r h
    · omega
  · unfold missing
    split
    · exact below_cons.mpr ⟨by dsimp only; omega, by simp [Below]⟩
    · simp [Below]

lemma fill_valid (hbe : b ≤ e) (he : e < 2 ^ 32) (hv : Valid l) :
    Valid ((fill e b l).1 ++ (missing (fill e b l).2.2 e ++ (fill e b l).2.1)) :=
  fill_below hbe he hv

lemma add_below {base size c : ℕ} (h : pageEnd base size < 2 ^ 32) (hc : pageEnd base size < c)
    (hv : Valid (entries t)) (hb : Below c (entries t)) :
    Below c (entries (memblockAdd t base size)) := by
  have hle := pageBeg_le_pageEnd base size
  by_cases h0 : (t.regions 0).size = 0
  · rcases add_placeholder h h0 with ⟨-, h1⟩ | ⟨x, l, h1, -, h2⟩
    · rw [h1]; simp [Below]
    · rw [h1, below_cons] at hb
      rw [h2]
      exact below_cons.mpr ⟨by dsimp only; omega, hb.2⟩
  · obtain ⟨t', h1, h2⟩ := add_fill h hv h0
    rw [h1]
    refine fusion_below ?_ ?_
    · rw [h2]; exact fill_valid hle h hv
    · rw [h2]; exact fill_below hle hc hb

lemma add_valid {base size : ℕ} (h : pageEnd base size < 2 ^ 32) (hv : Valid (entries t)) :
    Valid (entries (memblockAdd t base size)) :=
  add_below h h hv hv

lemma reserve_valid {base size : ℕ} (h : pageEnd base size < 2 ^ 32) (hv : Valid (entries t)) :
    Valid (entries (memblockReserve t base size).1) := by
  rw [del_carve h hv]
  exact carve_valid (pageBeg_le_pageEnd base size) hv

/-! ### Finding a place -/

lemma findLoop_spec {size align start stop : ℕ} (hs : stop < 2 ^ 32) : ∀ {n i : ℕ},
    findLoop t size align start stop n i = 0 ∨
      findLoop t size align start stop n i + size ≤ stop
  | 0, _ => Or.inl rfl
  | n + 1, i => by
    unfold findLoop
    dsimp only
    split
    · next h =>
      have hclamp : clamp (t.regions i).stop start stop ≤ stop := min_le_right _ _
      rw [sub32_of_le h.1.le (by omega)] at h
      right; omega
    · exact findLoop_spec hs

/-- A place that is found ends below the limit. -/
lemma find_spec (t : MemblockType) (size align : ℕ) :
    memblockFindInRange t size align memoryStart memoryLimit = 0 ∨
      memblockFindInRange t size align memoryStart memoryLimit + size ≤ memoryLimit := by
  unfold memblockFindInRange
  exact findLoop_spec (t := t) (n := t.cnt) (i := 0) (by decide)

end Elfboot.MemblockTable
