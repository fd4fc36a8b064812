import Elfboot.MemblockRuns

/-!
The total of the boot-time memory map against the sizes of its entries.

Filling the gaps of a range adds to both, taking a range out of the ends of entries takes from
both. Three calls change only one of them: a reserve that cuts an entry in two adds the right half
and leaves the left one counted whole, an add that fuses leaves the last entry there twice, and an
add to a table that has become empty counts a range that is not there.
-/

namespace Elfboot.MemblockTotal

open Elfboot.Run Elfboot.Word Elfboot.Mm Elfboot.Memblock Elfboot.RegionList Elfboot.RegionOrder
open Elfboot.MemblockTable Elfboot.MemblockRuns

/-- The sizes of the regions, added up. -/
def bytes (l : List Region) : ℕ := (l.map Region.size).sum

/-- `total_size` is the sum of the sizes of `regions[0..cnt)`. -/
def Balanced (t : MemblockType) : Prop := t.totalSize = bytes (entries t)

variable {t : MemblockType} {A B l : List Region} {x y : Region} {b e : ℕ}

@[simp] lemma bytes_nil : bytes [] = 0 := rfl

@[simp] lemma bytes_cons : bytes (x :: l) = x.size + bytes l := by simp [bytes]

@[simp] lemma bytes_append : bytes (A ++ B) = bytes A + bytes B := by simp [bytes]

/-! ### Filling -/

/-- How much of `[b, e)` is put in. -/
def gaps (e : ℕ) : ℕ → List Region → ℕ
  | b, [] => e - b
  | b, x :: xs =>
    if e ≤ x.base then e - b
    else if x.base + x.size ≤ b then gaps e b xs
    else (x.base - b) + gaps e (min (x.base + x.size) e) xs

lemma bytes_missing (b e : ℕ) : bytes (missing b e) = e - b := by
  unfold missing
  split
  · simp
  · rw [bytes_nil]; omega

lemma bytes_fill (e b : ℕ) (l : List Region) :
    bytes ((fill e b l).1 ++ (missing (fill e b l).2.2 e ++ (fill e b l).2.1)) =
      bytes l + gaps e b l := by
  simp only [bytes_append, bytes_missing]
  induction l generalizing b with
  | nil => simp [fill, gaps]
  | cons x l ih =>
      rcases fill_cons e b x l with ⟨h1, hf⟩ | ⟨h1, h2, hf⟩ | ⟨g, h1, h2, hg, hf⟩
      · rw [hf, gaps, if_pos h1, bytes_nil]
        dsimp only
        omega
      · have := ih b
        rw [hf, gaps, if_neg (by omega), if_pos h2]
        simp only [bytes_cons]
        omega
      · have := ih (min (x.base + x.size) e)
        have hgap : bytes g = x.base - b := by
          rcases hg with ⟨rfl, hg⟩ | ⟨rfl, hg⟩
          · simp
          · rw [bytes_nil]; omega
        rw [hf, gaps, if_neg (by omega), if_neg (by omega)]
        simp only [bytes_append, bytes_cons, hgap]
        omega

/-! ### Fusing -/

/-- If `x` is fused with the first of the regions behind it, what is there twice is empty. -/
def Even (x : Region) : List Region → Prop
  | [] => True
  | y :: B => x.base + x.size = y.base →
      (((⟨x.base, x.size + y.size⟩ : Region) :: B).getLast (List.cons_ne_nil _ B)).size = 0

/-- The same at both sides of a place: `p` is in front of it, the list behind. -/
def FusesEvenly : Option Region → List Region → Prop
  | _, [] => True
  | none, y :: B => Even y B
  | some x, y :: B => if x.base + x.size = y.base then Even x (y :: B) else Even y B

/-- The same at the place where an add of `[b, e)` gets to. -/
def AddsEvenly (e : ℕ) : ℕ → Option Region → List Region → Prop
  | b, p, [] => FusesEvenly p (missing b e)
  | b, p, x :: xs =>
    if e ≤ x.base then FusesEvenly p (missing b e ++ x :: xs)
    else AddsEvenly e (if x.base + x.size ≤ b then b else min (x.base + x.size) e) (some x) xs

instance (x : Region) : ∀ l : List Region, Decidable (Even x l)
  | [] => isTrue trivial
  | _ :: _ => inferInstanceAs (Decidable (_ → _))

instance : ∀ (p : Option Region) (l : List Region), Decidable (FusesEvenly p l)
  | none, [] => isTrue trivial
  | some _, [] => isTrue trivial
  | none, y :: B => inferInstanceAs (Decidable (Even y B))
  | some x, y :: B => inferInstanceAs (Decidable
      (if x.base + x.size = y.base then Even x (y :: B) else Even y B))

instance addsEvenlyDecidable (e : ℕ) : ∀ (b : ℕ) (p : Option Region) (l : List Region),
    Decidable (AddsEvenly e b p l)
  | b, p, [] => inferInstanceAs (Decidable (FusesEvenly p (missing b e)))
  | b, p, x :: xs =>
    have := addsEvenlyDecidable e
      (if x.base + x.size ≤ b then b else min (x.base + x.size) e) (some x) xs
    inferInstanceAs (Decidable (if e ≤ x.base then FusesEvenly p (missing b e ++ x :: xs)
      else AddsEvenly e (if x.base + x.size ≤ b then b else min (x.base + x.size) e) (some x) xs))

lemma getLast?_cons_or (x : Region) (l : List Region) (p : Option Region) :
    (x :: l).getLast?.or p = l.getLast?.or (some x) := by
  rw [List.getLast?_cons]
  cases l.getLast? <;> rfl

lemma addsEvenly_iff (e b : ℕ) (p : Option Region) (l : List Region) : AddsEvenly e b p l ↔
    FusesEvenly ((fill e b l).1.getLast?.or p)
      (missing (fill e b l).2.2 e ++ (fill e b l).2.1) := by
  induction l generalizing b p with
  | nil => simp [AddsEvenly, fill]
  | cons x l ih =>
      rcases fill_cons e b x l with ⟨h1, hf⟩ | ⟨h1, h2, hf⟩ | ⟨g, h1, h2, -, hf⟩
      · rw [hf, AddsEvenly, if_pos h1]
        rfl
      · rw [hf, AddsEvenly, if_neg (by omega), if_pos h2, ih, getLast?_cons_or]
      · have hlast : ∀ L : List Region, (g ++ x :: L).getLast? = (x :: L).getLast? := by
          intro L
          rw [List.getLast?_append, List.getLast?_cons]
          rfl
        rw [hf, AddsEvenly, if_neg (by omega), if_neg (by omega), ih, hlast, getLast?_cons_or]

lemma bytes_fused (A : List Region) (x y : Region) (B : List Region) :
    bytes (fused A x y B) = bytes (A ++ x :: y :: B) +
      (((⟨x.base, x.size + y.size⟩ : Region) :: B).getLast (List.cons_ne_nil _ B)).size := by
  simp only [fused, bytes_append, bytes_cons, bytes_nil]
  omega

lemma Fuses.bytes_le {l' : List Region} (h : Fuses l l') : bytes l ≤ bytes l' := by
  rcases h with rfl | ⟨A, x, y, B, rfl, -, rfl⟩
  · exact le_rfl
  · rw [bytes_fused]
    exact Nat.le_add_right _ _

lemma pair_at (hv : Valid (entries t)) (h : entries t = A ++ x :: y :: B) :
    A.length < t.cnt ∧ t.regions A.length = x ∧ t.regions (A.length + 1) = y ∧
      x.stop = x.base + x.size ∧ y.base + y.size < 2 ^ 32 := by
  obtain ⟨hlt, hx⟩ := region_at h
  have hy := (region_at (A := A ++ [x]) (x := y) (B := B) (by simpa using h)).2
  rw [List.length_append, List.length_singleton] at hy
  rw [h] at hv
  simp only [valid_append, valid_cons] at hv
  exact ⟨hlt, hx, hy, stop_of_lt hv.2.1, hv.2.2.1⟩

lemma fusionNext_touching (hv : Valid (entries t)) (h : entries t = A ++ x :: y :: B)
    (ht : x.base + x.size = y.base) : entries (fusionNext t A.length) = fused A x y B := by
  obtain ⟨hlt, hx, hy, hstop, hlast⟩ := pair_at hv h
  have hm : (⟨x.base, u32 (y.size + x.size)⟩ : Region) = ⟨x.base, x.size + y.size⟩ := by
    rw [u32_of_lt (by omega), Nat.add_comm]
  unfold fusionNext
  dsimp only
  rw [if_pos hlt, hx, hy, hstop, if_pos ht]
  exact entries_fused h hm

lemma fusionNext_apart (hv : Valid (entries t)) (h : entries t = A ++ x :: y :: B)
    (ht : x.base + x.size ≠ y.base) : fusionNext t A.length = t := by
  obtain ⟨hlt, hx, hy, hstop, -⟩ := pair_at hv h
  unfold fusionNext
  dsimp only
  rw [if_pos hlt, hx, hy, hstop, if_neg ht]

lemma fusionNext_bytes (hv : Valid (entries t)) (h : entries t = A ++ x :: l) :
    bytes (entries (fusionNext t A.length)) = bytes (entries t) ↔ Even x l := by
  rcases l with _ | ⟨y, B⟩
  · rw [fusionNext_behind (by simp [cnt_of h])]
    exact iff_of_true rfl trivial
  · by_cases ht : x.base + x.size = y.base
    · rw [fusionNext_touching hv h ht, bytes_fused, h, Even]
      constructor
      · intro heq _
        omega
      · intro heq
        rw [heq ht, Nat.add_zero]
    · rw [fusionNext_apart hv h ht]
      exact iff_of_true rfl fun hno => absurd hno ht

/-- Where the entry that is there twice is empty, fusing at the other side is even. -/
lemma even_again {C : List Region} {m : Region} (hC : C ++ [m] = y :: B) (hm : m.size = 0)
    (hlast : ∀ r ∈ C.getLast?, r.size = 0) : Even y B := by
  rcases C with _ | ⟨c, C⟩
  · obtain ⟨-, rfl⟩ := List.cons.inj hC
    trivial
  · obtain ⟨rfl, rfl⟩ := List.cons.inj hC
    rcases C with _ | ⟨d, C⟩
    · intro _
      have hc := hlast c rfl
      simp [hc, hm]
    · intro _
      simp [hm]

/-- After an entry has been fused with the one before it, the entry behind counts only if the one
that is there twice does. -/
lemma fusionNext_fused (hv : Valid (entries t)) (h : entries t = fused A x y B) :
    bytes (entries (fusionNext t (A.length + 1))) = bytes (A ++ x :: y :: B) ↔
      (((⟨x.base, x.size + y.size⟩ : Region) :: B).getLast (List.cons_ne_nil _ B)).size = 0 := by
  have hle := Fuses.bytes_le (fusionNext_spec (i := A.length + 1) hv)
  have hsum := bytes_fused A x y B
  rw [← h] at hsum
  constructor
  · intro heq
    omega
  · intro h0
    have hsplit : ∃ C, B ++ [((⟨x.base, x.size + y.size⟩ : Region) :: B).getLast
        (List.cons_ne_nil _ B)] = C := ⟨_, rfl⟩
    obtain ⟨C, hC⟩ := hsplit
    rcases C with _ | ⟨z, C⟩
    · simp at hC
    have hparts : entries t = (A ++ [⟨x.base, x.size + y.size⟩]) ++ z :: C := by
      rw [h, fused, ← hC]
      simp
    have heven : Even z C := by
      refine even_again hC h0 fun r hr => ?_
      rcases B with _ | ⟨b, B⟩
      · simp at hr
      · rw [List.getLast_cons (List.cons_ne_nil b B)] at h0
        rw [List.getLast?_eq_some_getLast (List.cons_ne_nil b B)] at hr
        rwa [← Option.some.inj hr]
    have hnext := (fusionNext_bytes hv hparts).mpr heven
    rw [List.length_append, List.length_singleton] at hnext
    rw [hnext, hsum, h0, Nat.add_zero]

/-- **Fusing** leaves the sum of the sizes if and only if it is even. -/
lemma fusion_bytes (hv : Valid (entries t)) (h : entries t = A ++ l) :
    bytes (entries (memblockFusionRegion t A.length)) = bytes (entries t) ↔
      FusesEvenly A.getLast? l := by
  have hc := cnt_of h
  rcases l with _ | ⟨y, B⟩
  · -- the place is behind the entries
    refine iff_of_true ?_ trivial
    unfold memblockFusionRegion
    split
    · rfl
    have hle : (fusionPrev t A.length).cnt ≤ A.length + 1 := by
      rw [fusionPrev_cnt, hc, List.length_nil]
      omega
    rw [fusionNext_behind hle, fusionPrev_behind (by rw [hc]; exact le_rfl)]
  rcases A.eq_nil_or_concat with rfl | ⟨A, x, rfl⟩
  · unfold memblockFusionRegion
    split
    · next h1 =>
      obtain rfl : B = [] := List.length_eq_zero_iff.mp (by simpa [hc] using h1)
      exact iff_of_true rfl trivial
    · exact fusionNext_bytes hv h
  · rw [List.concat_eq_append] at h hc ⊢
    have hxy : entries t = A ++ x :: y :: B := by simpa using h
    have hlt := (region_at hxy).1
    have hlast : (A ++ [x]).getLast? = some x := by simp
    rw [List.length_append, List.length_singleton, hlast, FusesEvenly]
    unfold memblockFusionRegion
    rw [if_neg (by simp [hc]; omega), fusionPrev_succ hlt]
    by_cases ht : x.base + x.size = y.base
    · have hf := fusionNext_touching hv hxy ht
      have hv' := (fusionNext_spec (i := A.length) hv).valid hv
      rw [hxy, fusionNext_fused hv' hf, if_pos ht, Even]
      exact ⟨fun h0 _ => h0, fun heven => heven ht⟩
    · rw [fusionNext_apart hv hxy ht, if_neg ht]
      have hnext := fusionNext_bytes hv h
      rwa [List.length_append, List.length_singleton] at hnext

/-! ### Adding -/

/-- The total is the sum of the sizes, as a word. -/
def Counted (t : MemblockType) : Prop := t.totalSize = u32 (bytes (entries t))

lemma counted_insert {i : ℕ} (hi : i ≤ t.cnt) (hc : Counted t) (base size : ℕ) :
    Counted (memblockInsertRegion t i base size) := by
  obtain ⟨A, B, rfl, h⟩ : ∃ A B, A.length = i ∧ entries t = A ++ B :=
    ⟨(entries t).take i, (entries t).drop i, by simpa using hi, (List.take_append_drop i _).symm⟩
  unfold Counted at hc ⊢
  rw [entries_insert h]
  simp only [memblockInsertRegion, hc, h, bytes_append, bytes_cons, u32]
  omega

lemma counted_addLoop : ∀ {n i b : ℕ} {t : MemblockType}, i ≤ t.cnt → Counted t →
    Counted (addLoop e n t i b).1
  | 0, _, _, _, _, hc => hc
  | n + 1, i, b, t, hi, hc => by
    unfold addLoop
    dsimp only
    split_ifs with hlt
    · exact hc
    · exact counted_addLoop hlt hc
    · refine counted_addLoop ?_ (counted_insert hi hc _ _)
      change i + 2 ≤ t.cnt + 1
      omega
    · exact counted_addLoop hlt hc
    · exact hc

lemma fusionPrev_total (t : MemblockType) (i : ℕ) :
    (fusionPrev t i).totalSize = t.totalSize := by
  unfold fusionPrev
  split_ifs
  · rfl
  · dsimp only
    split <;> rfl

lemma fusionNext_total (t : MemblockType) (i : ℕ) :
    (fusionNext t i).totalSize = t.totalSize := by
  unfold fusionNext
  split_ifs
  · dsimp only
    split <;> rfl
  · rfl

lemma fusion_total (t : MemblockType) (i : ℕ) :
    (memblockFusionRegion t i).totalSize = t.totalSize := by
  unfold memblockFusionRegion
  split
  · rfl
  · rw [fusionNext_total, fusionPrev_total]

lemma Balanced.counted (h : Balanced t) (hlt : t.totalSize < 2 ^ 32) : Counted t := by
  unfold Balanced at h
  unfold Counted
  rw [u32_of_lt (by omega), h]

/-- The total after an add to a table whose first entry is not empty. -/
lemma add_total {base size : ℕ} (hw : pageEnd base size < 2 ^ 32) (hv : Valid (entries t))
    (h0 : (t.regions 0).size ≠ 0) (hc : Counted t) : (memblockAdd t base size).totalSize =
      u32 (bytes (entries t) + gaps (pageEnd base size) (pageBeg base) (entries t)) := by
  obtain ⟨h1, h2⟩ := add_loop hw hv h0
  have h3 : Counted (addLoop (pageEnd base size) t.cnt t 0 (pageBeg base)).1 :=
    counted_addLoop (Nat.zero_le _) hc
  have hi : (fill (pageEnd base size) (pageBeg base) (entries t)).1.length ≤
      (addLoop (pageEnd base size) t.cnt t 0 (pageBeg base)).1.cnt := by
    rw [cnt_of h1]
    exact Nat.le_add_right _ _
  have h4 := counted_insert hi h3
  simp only [Counted] at h3 h4
  rw [h2, fusion_total, ← bytes_fill, missing]
  split
  · rw [h4, entries_insert h1]
    rfl
  · rw [h3, h1]
    rfl

/-- When an add of `[b, e)` keeps the total right. -/
def AddsUp (b e : ℕ) (t : MemblockType) : Prop :=
  if (t.regions 0).size = 0 then
    (t.cnt = 0 → b = e) ∧ bytes (entries t) + (e - b) < 2 ^ 32
  else
    bytes (entries t) + gaps e b (entries t) < 2 ^ 32 ∧ AddsEvenly e b none (entries t)

instance (b e : ℕ) (t : MemblockType) : Decidable (AddsUp b e t) :=
  inferInstanceAs (Decidable (if (t.regions 0).size = 0 then
      (t.cnt = 0 → b = e) ∧ bytes (entries t) + (e - b) < 2 ^ 32
    else bytes (entries t) + gaps e b (entries t) < 2 ^ 32 ∧ AddsEvenly e b none (entries t)))

lemma u32_eq_iff {n m : ℕ} (h : n ≤ m) : u32 n = m ↔ n < 2 ^ 32 ∧ m = n := by
  unfold u32
  omega

lemma balanced_add {base size : ℕ} (hw : pageEnd base size < 2 ^ 32) (hv : Valid (entries t))
    (hlt : t.totalSize < 2 ^ 32) (hb : Balanced t) :
    Balanced (memblockAdd t base size) ↔ AddsUp (pageBeg base) (pageEnd base size) t := by
  have hle := pageBeg_le_pageEnd base size
  unfold AddsUp
  by_cases h0 : (t.regions 0).size = 0
  · have htotal : (memblockAdd t base size).totalSize =
        u32 (bytes (entries t) + (pageEnd base size - pageBeg base)) := by
      unfold memblockAdd memblockAddRegion
      simp only [adjust_eq hw, if_pos h0]
      rw [hb]
    rw [if_pos h0, Balanced, htotal]
    rcases add_placeholder hw h0 with ⟨hc, h1⟩ | ⟨x, l, h1, h2, h3⟩
    · have ht : entries t = [] := by simp [entries, hc]
      rw [h1, ht, bytes_nil, u32_of_lt (by omega)]
      constructor
      · intro h
        exact ⟨fun _ => by omega, by omega⟩
      · rintro ⟨h, -⟩
        have := h hc
        omega
    · have hc : t.cnt ≠ 0 := by
        rw [← length_entries t, h1]
        simp
      rw [h3, h1, bytes_cons, bytes_cons, h2, u32_eq_iff (by dsimp only; omega)]
      constructor
      · rintro ⟨h, -⟩
        exact ⟨fun hno => absurd hno hc, h⟩
      · rintro ⟨-, h⟩
        exact ⟨h, by dsimp only; omega⟩
  · obtain ⟨t', h1, h2⟩ := add_fill hw hv h0
    have htotal := add_total hw hv h0 (hb.counted hlt)
    have hv' : Valid (entries t') := by
      rw [h2]; exact fill_valid hle hw hv
    have hbytes : bytes (entries t') = bytes (entries t) +
        gaps (pageEnd base size) (pageBeg base) (entries t) := by
      rw [h2, bytes_fill]
    obtain ⟨m, hf1, hf2⟩ := fusion_fuses (i := (fill (pageEnd base size) (pageBeg base)
      (entries t)).1.length) hv'
    have hmono := (Fuses.bytes_le hf1).trans (Fuses.bytes_le hf2)
    have hiff := fusion_bytes hv' h2
    rw [← h1] at hmono hiff
    rw [if_neg h0, Balanced, htotal, u32_eq_iff (by omega), ← hbytes, hiff, addsEvenly_iff,
      Option.or_none]

/-! ### Reserving -/

/-- Whether taking `[b, e)` out cuts an entry in two. -/
def Halves (e : ℕ) : ℕ → List Region → Prop
  | _, [] => False
  | b, x :: xs =>
    if e ≤ x.base then False
    else if x.base + x.size ≤ b then Halves e b xs
    else if x.base < b then e < x.base + x.size ∨ Halves e (x.base + x.size) xs
    else x.base + x.size ≤ e ∧ Halves e b xs

instance halvesDecidable (e : ℕ) : ∀ (b : ℕ) (l : List Region), Decidable (Halves e b l)
  | _, [] => isFalse id
  | b, x :: xs =>
    have := halvesDecidable e b xs
    have := halvesDecidable e (x.base + x.size) xs
    inferInstanceAs (Decidable (if e ≤ x.base then False
      else if x.base + x.size ≤ b then Halves e b xs
      else if x.base < b then e < x.base + x.size ∨ Halves e (x.base + x.size) xs
      else x.base + x.size ≤ e ∧ Halves e b xs))

lemma delLoop_bytes : ∀ {n b d : ℕ} {t : MemblockType} {A l : List Region},
    entries t = A ++ l → Valid l → b ≤ e → e < 2 ^ 32 → l.length ≤ n → t.totalSize < 2 ^ 32 →
    Balanced t → (Balanced (delLoop e n t A.length b d).1 ↔ ¬ Halves e b l)
  | 0, b, d, t, A, l, h, _, _, _, hn, _, hb => by
    obtain rfl : l = [] := List.length_eq_zero_iff.mp (by omega)
    exact iff_of_true hb id
  | n + 1, b, d, t, A, [], h, _, _, _, _, _, hb => by
    have hc := cnt_of h
    unfold delLoop
    rw [if_neg (by simp [hc])]
    exact iff_of_true hb id
  | n + 1, b, d, t, A, x :: l, h, hv, hbe, he, hn, hlt, hb => by
    obtain ⟨hx, hl⟩ := valid_cons.mp hv
    rw [List.length_cons] at hn
    have hsum : t.totalSize = bytes A + (x.size + bytes l) := by
      rw [hb, h, bytes_append, bytes_cons]
    have hnext : ∀ {u : MemblockType} {r : Region} {c d : ℕ}, entries u = A ++ r :: l → c ≤ e →
        u.totalSize < 2 ^ 32 → u.totalSize = bytes A + (r.size + bytes l) →
        (Balanced (delLoop e n u (A.length + 1) c d).1 ↔ ¬ Halves e c l) := by
      intro u r c d hu hc hult husum
      have hu' : entries u = (A ++ [r]) ++ l := by simpa using hu
      have hub : Balanced u := by
        rw [Balanced, hu, bytes_append, bytes_cons, husum]
      have := delLoop_bytes (d := d) hu' hl hc he (by omega : l.length ≤ n) hult hub
      rwa [List.length_append, List.length_singleton] at this
    rcases carve_cons e b x l with ⟨h1, -⟩ | ⟨h1, h2, -⟩ | ⟨h1, h2, h3, h4, -⟩ |
      ⟨h1, h2, h3, h4, -⟩ | ⟨h1, h2, h3, -⟩ | ⟨h1, h2, h3, h4, -⟩ <;> unfold Halves
    · rw [delLoop_before h h1, if_pos h1]
      exact iff_of_true hb id
    · rw [delLoop_behind h hx h1 h2, if_neg (by omega), if_pos h2]
      exact hnext h hbe hlt hsum
    · -- split in two: the right half is added, and the part that goes is not taken off
      have hset : entries (t.setRegion A.length ⟨x.base, b - x.base⟩) =
          (A ++ [⟨x.base, b - x.base⟩]) ++ l := by
        simpa using entries_set h ⟨x.base, b - x.base⟩
      have hins := entries_insert hset e (x.base + x.size - e)
      rw [List.length_append, List.length_singleton] at hins
      rw [delLoop_split h hx h2 hbe h4, if_neg (by omega), if_neg (by omega), if_pos h2]
      refine iff_of_false ?_ (not_not.mpr (Or.inl h4))
      rw [Balanced, hins]
      simp only [memblockInsertRegion, MemblockType.setRegion, bytes_append, bytes_cons,
        bytes_nil, hsum, u32]
      omega
    · -- the right part goes
      have hset := (entries_total _ (sub32 t.totalSize (x.base + x.size - b))).trans
        (entries_set h ⟨x.base, b - x.base⟩)
      rw [if_neg (by omega), if_neg (by omega), if_pos h2, or_iff_right (by omega),
        delLoop_right h hx h2 h3 h4]
      refine hnext hset h4 (sub32_lt _ _) ?_
      change sub32 t.totalSize _ = _
      rw [sub32_of_le (by omega) hlt]
      dsimp only
      omega
    · -- the left part goes
      have hset := entries_set ((entries_total _ (sub32 t.totalSize (e - x.base))).trans
        (entries_set h ⟨x.base, x.base + x.size - e⟩)) ⟨e, x.base + x.size - e⟩
      rw [delLoop_left h hx h2 h1 h3, if_neg (by omega), if_neg (by omega), if_neg (by omega)]
      refine iff_of_true ?_ fun hno => absurd hno.1 (by omega)
      rw [Balanced]
      refine Eq.trans ?_ (congrArg bytes hset.symm)
      change sub32 t.totalSize _ = _
      rw [sub32_of_le (by omega) hlt, bytes_append, bytes_cons]
      dsimp only
      omega
    · -- all of it goes
      have hremove := entries_remove (entries_set h ⟨x.base, 0⟩) (sub32 t.totalSize x.size)
      rw [if_neg (by omega), if_neg (by omega), if_neg (by omega), and_iff_right h4,
        delLoop_all h hx h2 h1 h3 h4]
      refine delLoop_bytes hremove hl hbe he (by omega) (sub32_lt _ _) ?_
      rw [Balanced]
      refine Eq.trans ?_ (congrArg bytes hremove.symm)
      change sub32 t.totalSize x.size = _
      rw [sub32_of_le (by omega) hlt, bytes_append]
      omega

lemma balanced_reserve {base size : ℕ} (hw : pageEnd base size < 2 ^ 32) (hv : Valid (entries t))
    (hlt : t.totalSize < 2 ^ 32) (hb : Balanced t) : Balanced (memblockReserve t base size).1 ↔
      ¬ Halves (pageEnd base size) (pageBeg base) (entries t) := by
  unfold memblockReserve memblockDelRegion
  simp only [adjust_eq hw]
  have hsplit : entries t = [] ++ entries t := rfl
  exact delLoop_bytes hsplit hv (pageBeg_le_pageEnd base size) hw (by simp) hlt hb

/-! ### Runs -/

lemma delLoop_total_lt : ∀ {n i b d : ℕ} {t : MemblockType}, t.totalSize < 2 ^ 32 →
    (delLoop e n t i b d).1.totalSize < 2 ^ 32
  | 0, _, _, _, _, h => h
  | n + 1, i, b, d, t, h => by
    have hcut : ∀ {c d i j : ℕ} {u : MemblockType}, u.totalSize = sub32 t.totalSize c →
        (delLoop e n u i j d).1.totalSize < 2 ^ 32 := by
      intro c d i j u hu
      refine delLoop_total_lt ?_
      rw [hu]
      exact sub32_lt _ _
    unfold delLoop
    dsimp only
    generalize (if d = 0 then max (t.regions i).base b else d) = d'
    split_ifs
    · exact h
    · exact delLoop_total_lt h
    · exact u32_lt _
    · exact hcut rfl
    · exact sub32_lt _ _
    · exact hcut rfl
    · exact hcut rfl
    · exact h

lemma addLoop_total_lt : ∀ {n i b : ℕ} {t : MemblockType}, t.totalSize < 2 ^ 32 →
    (addLoop e n t i b).1.totalSize < 2 ^ 32
  | 0, _, _, _, h => h
  | n + 1, i, b, t, h => by
    unfold addLoop
    dsimp only
    split_ifs
    · exact h
    · exact addLoop_total_lt h
    · exact addLoop_total_lt (u32_lt _)
    · exact addLoop_total_lt h
    · exact h

lemma add_total_lt (h : t.totalSize < 2 ^ 32) (base size : ℕ) :
    (memblockAdd t base size).totalSize < 2 ^ 32 := by
  unfold memblockAdd memblockAddRegion
  dsimp only
  split
  · exact u32_lt _
  · rw [fusion_total]
    split
    · exact u32_lt _
    · exact addLoop_total_lt h

lemma rangeStep_total_lt (h : t.totalSize < 2 ^ 32) (op : RangeOp) :
    (rangeStep t op).totalSize < 2 ^ 32 := by
  cases op with
  | add base size => exact add_total_lt h base size
  | reserve base size => exact delLoop_total_lt h

/-- The add keeps the total right; the reserve cuts no entry in two. -/
def KeepsTotal (t : MemblockType) : RangeOp → Prop
  | .add base size => AddsUp (pageBeg base) (pageEnd base size) t
  | .reserve base size => ¬ Halves (pageEnd base size) (pageBeg base) (entries t)

instance : ∀ (t : MemblockType) (op : RangeOp), Decidable (KeepsTotal t op)
  | t, .add base size => inferInstanceAs (Decidable (AddsUp (pageBeg base) (pageEnd base size) t))
  | t, .reserve base size => inferInstanceAs (Decidable
      (¬ Halves (pageEnd base size) (pageBeg base) (entries t)))

lemma balanced_rangeStep (hv : Valid (entries t)) (hlt : t.totalSize < 2 ^ 32) (hb : Balanced t)
    {op : RangeOp} (hw : op.NoWrap) : Balanced (rangeStep t op) ↔ KeepsTotal t op := by
  cases op with
  | add base size => exact balanced_add hw hv hlt hb
  | reserve base size => exact balanced_reserve hw hv hlt hb

lemma balanced_init (h : ranges.init t) : Balanced t := by
  obtain ⟨behind, rfl⟩ := h
  rw [Balanced, entries_empty]
  rfl

/-- **The total** is the sum of the sizes after every call of a run if and only if every call of the
run keeps it. -/
theorem balanced_iff (h : ranges.init t) {ops : List RangeOp} (ht : ranges.Takes t ops) :
    (∀ j, Balanced (ranges.run t (ops.take j))) ↔ (ranges.restrict KeepsTotal).Takes t ops := by
  have hinit : Valid (entries t) ∧ t.totalSize < 2 ^ 32 := by
    obtain ⟨behind, rfl⟩ := h
    exact ⟨valid_empty behind, Nat.two_pow_pos 32⟩
  refine System.always_iff (I := fun t => Valid (entries t) ∧ t.totalSize < 2 ^ 32) ?_ ?_
    hinit (balanced_init h) ht
  · intro t op hi hp
    exact ⟨valid_rangeStep hi.1 hp.1, rangeStep_total_lt hi.2 op⟩
  · intro t op hi hb hp
    exact balanced_rangeStep hi.1 hi.2 hb hp.1

/-- A range is added, one of its pages in the middle is reserved, and the next range is added. -/
theorem balanced_iff_run :
    (∀ j, Balanced (ranges.run start ([RangeOp.add 0x10000 0x4000, .reserve 0x11000 0x1000,
        .add 0x20000 0x800].take j))) ↔
      (ranges.restrict KeepsTotal).Takes start
        [.add 0x10000 0x4000, .reserve 0x11000 0x1000, .add 0x20000 0x800] :=
  balanced_iff ⟨_, rfl⟩ (by decide +kernel)

/-- A page in the middle of an entry cannot be taken out, one at its end can. -/
example : ¬ (ranges.restrict KeepsTotal).Takes start
      [.add 0x10000 0x4000, .reserve 0x11000 0x1000] ∧
    (ranges.restrict KeepsTotal).Takes start
      [.add 0x10000 0x4000, .reserve 0x13000 0x1000, .add 0x20000 0x800] := by
  decide +kernel

/-- After the second call the entries have three pages, and the total is six. -/
theorem not_balanced : ¬ ∀ t, Reach ranges t → Balanced t := by
  intro h
  have hr : Reach ranges (ranges.run start [.add 0x10000 0x4000, .reserve 0x11000 0x1000]) :=
    Reach.run (.init ⟨_, rfl⟩) (by decide +kernel)
  have hb := h _ hr
  have htotal : (ranges.run start [.add 0x10000 0x4000,
      .reserve 0x11000 0x1000]).totalSize = 0x6000 := by decide +kernel
  have hbytes : bytes (entries (ranges.run start [.add 0x10000 0x4000,
      .reserve 0x11000 0x1000])) = 0x3000 := by decide +kernel
  rw [Balanced, htotal, hbytes] at hb
  exact absurd hb (by decide)

end Elfboot.MemblockTotal
