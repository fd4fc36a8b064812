import Elfboot.BuddyInv

/-!
`page_alloc_init` donates the boot regions: each is cut, from the left, into the largest
aligned chunks that fit, and the chunks tile it.
-/

namespace Elfboot.BuddyBoot

open Elfboot.Circular Elfboot.Dyadic Elfboot.Word Elfboot.Mm Elfboot.PageAlloc
open Elfboot.BuddyInv

variable {U R : Set ℕ} {s : Mem} {F : ℕ → List ℕ} {p k m n : ℕ}

/-! ### The free areas -/

lemma initAreas_spec (s : Mem) (n : ℕ) :
    Lists (initAreas n s).links {h | ∃ k < n, h = .area k} (areaLists fun _ => []) ∧
      (∀ k < n, (initAreas n s).nrFree k = 0) ∧ (initAreas n s).pageMap = s.pageMap := by
  induction n with
  | zero =>
      refine ⟨(lists_empty _ _).mono ?_, by simp, rfl⟩
      rintro h ⟨k, hk, -⟩; omega
  | succ n ih =>
      obtain ⟨h1, h2, h3⟩ := ih
      refine ⟨?_, fun k hk => ?_, h3⟩
      · have hfresh : Fresh {h | ∃ k < n, h = Node.area k} (areaLists fun _ => []) (.area n) := by
          rintro _ ⟨k, hk, rfl⟩
          simpa using Nat.ne_of_gt hk
        have h4 := h1.init hfresh
        rw [show ([] : List Node) = [].map Node.page from rfl, areaLists_update,
          Function.update_eq_self] at h4
        refine h4.mono ?_
        rintro _ ⟨k, hk, rfl⟩
        rcases Nat.lt_succ_iff_lt_or_eq.mp hk with hk | rfl
        · exact Or.inr ⟨k, hk, rfl⟩
        · exact Or.inl rfl
      · rcases Nat.lt_succ_iff_lt_or_eq.mp hk with hk | rfl
        · simp [initAreas, Mem.setNrFree, Nat.ne_of_lt hk, h2 k hk]
        · simp [initAreas, Mem.setNrFree]

lemma inv_initAreas (h : ∀ q, q ∉ U → (s.pageMap q).isFree = false) :
    Inv U ∅ (initAreas pageMaxOrder s) (fun _ => []) [] [] := by
  obtain ⟨h1, h2, h3⟩ := initAreas_spec s pageMaxOrder
  constructor
  · exact h1
  · simp
  · simpa using h2
  · simp
  · simp
  · have : blocksOf (fun _ => []) ([] ++ []) = ∅ := by ext b; simp [mem_blocksOf]
    rw [this]; exact tiling_empty
  · simp
  · simp
  · simp
  · simp
  · simp
  · rw [h3]; exact h

/-! ### One chunk -/

lemma initPages_nrFree (a o n : ℕ) (s : Mem) : (initPages a o n s).nrFree = s.nrFree := by
  induction n with
  | zero => rfl
  | succ n ih => simpa [initPages, Mem.setPage] using ih

/-- The descriptor of page `q` in a new chunk of order `o` at page `p`. -/
def newPage (p o q : ℕ) : Page :=
  { flags := pageFlagFree, paddr := q * pageSize, order := o, compoundHead := p, inuse := 0 }

lemma initPages_pageMap (p o n : ℕ) (s : Mem) (q : ℕ) :
    (initPages (p * pageSize) o n s).pageMap q =
      if p ≤ q ∧ q < p + n then newPage p o q else s.pageMap q := by
  induction n with
  | zero => simp [initPages]
  | succ n ih =>
      have hpg : physToPage (p * pageSize + n * pageSize) = p + n := by
        rw [← Nat.add_mul, physToPage_mul]
      simp only [initPages, Mem.setPage, hpg, ih, physToPage_mul]
      by_cases hq : q = p + n
      · subst hq; simp [newPage, Nat.add_mul]
      · have : (p ≤ q ∧ q < p + (n + 1)) ↔ (p ≤ q ∧ q < p + n) := by omega
        simp only [if_neg hq, this]

lemma initPages_links (p o n : ℕ) (s : Mem) {x : Node}
    (hx : ∀ q, p ≤ q → q < p + n → x ≠ .page q ∧ x ≠ .freelist q) :
    (initPages (p * pageSize) o n s).links.next x = s.links.next x ∧
      (initPages (p * pageSize) o n s).links.prev x = s.links.prev x := by
  induction n with
  | zero => simp [initPages]
  | succ n ih =>
      have hpg : physToPage (p * pageSize + n * pageSize) = p + n := by
        rw [← Nat.add_mul, physToPage_mul]
      obtain ⟨h1, h2⟩ := hx (p + n) (by omega) (by omega)
      simp only [initPages, hpg, Mem.setPage]
      rw [(listInit_off _ h2).1, (listInit_off _ h1).1, (listInit_off _ h2).2,
        (listInit_off _ h1).2]
      exact ih fun q hq hq' => hx q hq (by omega)

/-- A chunk of new pages is initialised and appended to its list. -/
lemma Inv.donate (hi : Inv U R s F [] []) (hk : k < pageMaxOrder) (hal : 2 ^ k ∣ p)
    (hnew : ∀ q, p ≤ q → q < p + 2 ^ k → q ∈ U ∧ q ∉ R ∧ q < memoryLimit / pageSize) :
    Inv U (R ∪ {q | p ≤ q ∧ q < p + 2 ^ k})
      (freePageAppend (compoundPageInit s (p * pageSize) k) p k)
      (Function.update F k (F k ++ [p])) [] [] := by
  set s1 := compoundPageInit s (p * pageSize) k with hs1
  have hpm : ∀ q, s1.pageMap q =
      if p ≤ q ∧ q < p + 2 ^ k then newPage p k q else s.pageMap q :=
    initPages_pageMap p k (2 ^ k) s
  have hold : ∀ q, q ∈ R → s1.pageMap q = s.pageMap q := fun q hq => by
    rw [hpm, if_neg]; exact fun h => (hnew q h.1 h.2).2.1 hq
  have hpos : 0 < 2 ^ k := Nat.two_pow_pos k
  have h1 : Inv U (R ∪ {q | p ≤ q ∧ q < p + 2 ^ k}) s1 F [⟨p, k⟩] [] := by
    constructor
    · refine hi.lists.congr ?_
      rintro h ⟨j, hj, rfl⟩ x hx
      refine initPages_links p k (2 ^ k) s fun q hq hq' => ?_
      rcases List.mem_cons.mp hx with rfl | hx
      · simp
      · obtain ⟨y, hy, rfl⟩ := List.mem_map.mp hx
        refine ⟨fun he => ?_, by simp⟩
        exact (hnew q hq hq').2.1 (Node.page.inj he ▸ hi.free_mem hy)
    · exact hi.small
    · intro j hj
      rw [hs1, compoundPageInit, initPages_nrFree]; exact hi.count j hj
    · rintro q (hq | hq)
      · exact hi.sub hq
      · exact (hnew q hq.1 hq.2).1
    · rintro q (hq | hq)
      · exact hi.bound q hq
      · exact (hnew q hq.1 hq.2).2.2
    · have ht := hi.tiling.add (b := ⟨p, k⟩) hal (Set.disjoint_left.mpr fun q hq hq' =>
        (hnew q hq.1 hq.2).2.1 hq')
      have he : insert (⟨p, k⟩ : Block) (blocksOf F ([] ++ [])) = blocksOf F ([⟨p, k⟩] ++ []) := by
        ext b
        simp [mem_blocksOf, or_comm]
      exact he ▸ ht
    · intro j q hq
      simp only [List.append_nil, List.mem_singleton, Block.mk.injEq]
      rintro ⟨rfl, -⟩
      exact (hnew q le_rfl (by omega)).2.1 (hi.free_mem hq)
    · simp
    · intro j q hq
      rw [hold q (hi.free_mem hq)]; exact hi.free j q hq
    · simp
    · rintro q (hq | hq)
      · rw [hold q hq]; exact hi.paddr q hq
      · rw [hpm, if_pos (show p ≤ q ∧ q < p + 2 ^ k from hq)]; rfl
    · intro q hq
      rw [hpm, if_neg fun h => hq (hnew q h.1 h.2).1]
      exact hi.outside q hq
  have hhead : s1.pageMap p = newPage p k p := by
    rw [hpm, if_pos ⟨le_rfl, by omega⟩]
  exact Inv.append h1 hk (by rw [hhead]; simp [newPage, Page.isFree]) (by rw [hhead]; rfl)

/-! ### The size of a chunk -/

lemma pageIsAligned_iff (hk : k < 20) : pageIsAligned (p * pageSize) k = true ↔ 2 ^ k ∣ p := by
  have hs : shl32 pageSize k = 2 ^ k * pageSize := by
    have hlt : 2 ^ k * 2 ^ 12 < 2 ^ 20 * 2 ^ 12 :=
      Nat.mul_lt_mul_of_pos_right (Nat.pow_lt_pow_right (by decide) hk) (by decide)
    have hk' : k % 32 = k := Nat.mod_eq_of_lt (by omega)
    rw [shl32, hk', Nat.shiftLeft_eq, Nat.mul_comm]
    exact Nat.mod_eq_of_lt hlt
  rw [pageIsAligned, hs, beq_iff_eq, ← Nat.dvd_iff_mod_eq_zero]
  exact Nat.mul_dvd_mul_iff_right (by decide)

lemma alignOrder_spec {o : ℕ} (ho : o < 20) :
    alignOrder (p * pageSize) o ≤ o ∧ 2 ^ alignOrder (p * pageSize) o ∣ p := by
  induction o with
  | zero => simp [alignOrder]
  | succ o ih =>
      unfold alignOrder
      split
      · next h => exact ⟨le_rfl, (pageIsAligned_iff ho).mp h⟩
      · next h =>
        obtain ⟨h1, h2⟩ := ih (by omega)
        exact ⟨by omega, h2⟩

lemma alignOrder_max {o j : ℕ} (ho : o < 20) (hj : j ≤ o) (hd : 2 ^ j ∣ p) :
    j ≤ alignOrder (p * pageSize) o := by
  induction o with
  | zero => omega
  | succ o ih =>
      unfold alignOrder
      split
      · exact hj
      · next h =>
        have hne : j ≠ o + 1 := by
          rintro rfl
          exact h ((pageIsAligned_iff ho).mpr hd)
        exact ih (by omega) (by omega)

/-- The chunk at page `p`, with `m` pages to go: the loop starts from the largest order
that fits and lowers it until it is aligned. -/
lemma chunkOrder_eq (hm : m ≠ 0) (hlt : m < 2 ^ 20) :
    chunkOrder (p * pageSize) (m * pageSize) =
      alignOrder (p * pageSize) (min (Nat.log2 m) (pageMaxOrder - 1)) := by
  have hv : m * pageSize ≠ 0 := Nat.mul_ne_zero hm (by decide)
  have hround : roundDownPow2 (m * pageSize) = 2 ^ (Nat.log2 m + 12) := by
    rw [roundDownPow2_eq hv (by simp only [pageSize]; omega), pageSize, log2_mul_two_pow 12 hm]
  have hmin : min (2 ^ (Nat.log2 m + 12)) pageMaxAllocSize =
      2 ^ (min (Nat.log2 m) (pageMaxOrder - 1) + 12) := by
    rw [show pageMaxAllocSize = 2 ^ (pageMaxOrder - 1 + 12) by decide]
    rcases Nat.le_total (Nat.log2 m) (pageMaxOrder - 1) with h | h
    · rw [min_eq_left h, min_eq_left (Nat.pow_le_pow_right (by decide) (by omega))]
    · rw [min_eq_right h, min_eq_right (Nat.pow_le_pow_right (by decide) (by omega))]
  unfold chunkOrder
  simp only [hround, hmin, log2_two_pow]
  rw [show (((min (Nat.log2 m) (pageMaxOrder - 1) + 12 : ℕ) : ℤ) - pageShift).toNat =
    min (Nat.log2 m) (pageMaxOrder - 1) by simp only [pageShift]; omega]

lemma chunkOrder_spec (hm : m ≠ 0) (hlt : m < 2 ^ 20) :
    chunkOrder (p * pageSize) (m * pageSize) < pageMaxOrder ∧
      2 ^ chunkOrder (p * pageSize) (m * pageSize) ∣ p ∧
      2 ^ chunkOrder (p * pageSize) (m * pageSize) ≤ m := by
  rw [chunkOrder_eq hm hlt]
  obtain ⟨h1, h2⟩ := alignOrder_spec (p := p) (o := min (Nat.log2 m) (pageMaxOrder - 1)) (by
    simp only [pageMaxOrder]; omega)
  refine ⟨by simp only [pageMaxOrder] at h1 ⊢; omega, h2, ?_⟩
  calc 2 ^ alignOrder (p * pageSize) (min (Nat.log2 m) (pageMaxOrder - 1))
      ≤ 2 ^ Nat.log2 m := Nat.pow_le_pow_right (by decide) (h1.trans (min_le_left _ _))
    _ ≤ m := Nat.log2_self_le hm

/-- No larger chunk would do. -/
lemma chunkOrder_max (hm : m ≠ 0) (hlt : m < 2 ^ 20) {j : ℕ} (hj : j < pageMaxOrder)
    (hd : 2 ^ j ∣ p) (hle : 2 ^ j ≤ m) : j ≤ chunkOrder (p * pageSize) (m * pageSize) := by
  rw [chunkOrder_eq hm hlt]
  refine alignOrder_max (by simp only [pageMaxOrder]; omega) (le_min ?_ (by omega)) hd
  exact (Nat.le_log2 hm).mpr hle

/-! ### Chunks and buddies -/

/-- No buddy of a free block is free as well, or fits into the `m` pages from `p` on. -/
def Sealed (F : ℕ → List ℕ) (p m : ℕ) : Prop :=
  ∀ k < pageMaxOrder - 1, ∀ q ∈ F k,
    q ^^^ 2 ^ k ∉ F k ∧ ¬ (p ≤ q ^^^ 2 ^ k ∧ (q ^^^ 2 ^ k) + 2 ^ k ≤ p + m)

lemma Sealed.coalesced (h : Sealed F p m) : Coalesced F := fun k hk q hq => (h k hk q hq).1

/-- The largest chunk is cut off: what is left of its pair is too small for the buddy. -/
lemma Sealed.donate (h : Sealed F p m) (hal : 2 ^ k ∣ p) (hle : 2 ^ k ≤ m)
    (hmax : k < pageMaxOrder - 1 → 2 ^ (k + 1) ∣ p → m < 2 ^ (k + 1)) :
    Sealed (Function.update F k (F k ++ [p])) (p + 2 ^ k) (m - 2 ^ k) := by
  have hmem : ∀ j q, q ∈ Function.update F k (F k ++ [p]) j ↔ q ∈ F j ∨ (j = k ∧ q = p) := by
    intro j q
    rw [mem_update]
    by_cases hj : j = k
    · subst hj; simp
    · simp [hj]
  have hpow : 2 ^ (k + 1) = 2 ^ k + 2 ^ k := by ring
  intro j hj q hq
  simp only [hmem] at hq ⊢
  rcases hq with hq | ⟨rfl, rfl⟩
  · obtain ⟨h1, h2⟩ := h j hj q hq
    refine ⟨?_, fun hfit => h2 ⟨by omega, by omega⟩⟩
    rintro (hb | ⟨rfl, hb⟩)
    · exact h1 hb
    · exact h2 (by rw [hb]; omega)
  · constructor
    · rintro (hb | ⟨-, hb⟩)
      · exact (h j hj _ hb).2 (by rw [buddy_buddy]; omega)
      · exact buddy_ne q j hb
    · rintro ⟨h1, h2⟩
      rcases buddy_cases hal with ⟨hd, he⟩ | ⟨l, -, hl, he⟩
      · have := hmax hj hd
        omega
      · omega

/-- A stretch of pages that touches none of the donated ones. -/
lemma sealed_of_apart (hi : Inv U R s F [] []) (hc : Coalesced F)
    (hnew : ∀ q, p ≤ q → q < p + m → q ∉ R) (hsep : ∀ q ∈ R, q + 1 ≠ p ∧ q ≠ p + m) :
    Sealed F p m := by
  intro k hk q hq
  refine ⟨hc k hk q hq, fun hfit => ?_⟩
  have hpos : 0 < 2 ^ k := Nat.two_pow_pos k
  have hal : 2 ^ k ∣ q := hi.tiling.aligned ⟨q, k⟩ (Or.inl hq)
  have hsub : ∀ x, q ≤ x → x < q + 2 ^ k → x ∈ R := fun x h1 h2 =>
    hi.tiling.sub ⟨q, k⟩ (Or.inl hq) ⟨h1, h2⟩
  rcases buddy_cases hal with ⟨-, he⟩ | ⟨l, -, hl, he⟩
  · have hin := hsub (q + 2 ^ k - 1) (by omega) (by omega)
    have hne := (hsep _ hin).1
    have hout : ¬ (p ≤ q + 2 ^ k - 1 ∧ q + 2 ^ k - 1 < p + m) := fun h => hnew _ h.1 h.2 hin
    omega
  · have hin := hsub q le_rfl (by omega)
    have hne := (hsep _ hin).2
    have hout : ¬ (p ≤ q ∧ q < p + m) := fun h => hnew _ h.1 h.2 hin
    omega

/-! ### Regions -/

lemma freeBootmemLoop_spec : ∀ {n m p : ℕ} {R : Set ℕ} {s : Mem} {F : ℕ → List ℕ},
    Inv U R s F [] [] → m ≤ n →
    (∀ q, p ≤ q → q < p + m → q ∈ U ∧ q ∉ R ∧ q < memoryLimit / pageSize) →
    ∃ F', Inv U (R ∪ {q | p ≤ q ∧ q < p + m})
      (freeBootmemLoop n s (p * pageSize) (m * pageSize)) F' [] [] ∧
        (Sealed F p m → Coalesced F')
  | 0, m, p, R, s, F, hi, hmn, _ => by
    obtain rfl : m = 0 := by omega
    refine ⟨F, ?_, Sealed.coalesced⟩
    have : {q | p ≤ q ∧ q < p + 0} = (∅ : Set ℕ) := by ext q; simp
    rw [this, Set.union_empty]
    exact hi
  | n + 1, m, p, R, s, F, hi, hmn, hnew => by
    by_cases hm : m = 0
    · subst hm
      refine ⟨F, ?_, Sealed.coalesced⟩
      have : {q | p ≤ q ∧ q < p + 0} = (∅ : Set ℕ) := by ext q; simp
      rw [this, Set.union_empty]
      simpa [freeBootmemLoop] using hi
    · have hlt : m < 2 ^ 20 := by
        have := (hnew (p + m - 1) (by omega) (by omega)).2.2
        simp only [memoryLimit, pageSize] at this
        omega
      obtain ⟨h1, h2, h3⟩ := chunkOrder_spec (p := p) hm hlt
      have hmax : ∀ j < pageMaxOrder, 2 ^ j ∣ p → 2 ^ j ≤ m →
          j ≤ chunkOrder (p * pageSize) (m * pageSize) := fun j => chunkOrder_max hm hlt
      generalize hk : chunkOrder (p * pageSize) (m * pageSize) = k at h1 h2 h3 hmax
      have hpos : 0 < 2 ^ k := Nat.two_pow_pos k
      have hd := Inv.donate hi h1 h2 fun q hq hq' => hnew q hq (by omega)
      have hrest := freeBootmemLoop_spec (n := n) (m := m - 2 ^ k) (p := p + 2 ^ k) hd (by omega)
        fun q hq hq' => by
          obtain ⟨h4, h5, h6⟩ := hnew q (by omega) (by omega)
          refine ⟨h4, ?_, h6⟩
          rintro (h | h)
          · exact h5 h
          · exact absurd h.2 (by omega)
      obtain ⟨F', h4, hc⟩ := hrest
      refine ⟨F', ?_, fun hs => hc (hs.donate h2 h3 fun hk8 hd => ?_)⟩
      swap
      · by_contra hge
        have := hmax (k + 1) (by omega) hd (by omega)
        omega
      have hset : R ∪ {q | p ≤ q ∧ q < p + m} =
          R ∪ {q | p ≤ q ∧ q < p + 2 ^ k} ∪ {q | p + 2 ^ k ≤ q ∧ q < p + 2 ^ k + (m - 2 ^ k)} := by
        ext q
        simp only [Set.mem_union, Set.mem_ofPred_eq]
        have : (p ≤ q ∧ q < p + m) ↔ (p ≤ q ∧ q < p + 2 ^ k) ∨
            (p + 2 ^ k ≤ q ∧ q < p + 2 ^ k + (m - 2 ^ k)) := by omega
        rw [this, or_assoc]
      rw [hset]
      unfold freeBootmemLoop
      rw [if_neg (Nat.mul_ne_zero hm (by decide))]
      simp only [hk, physToPage_mul]
      rw [← Nat.add_mul, ← Nat.sub_mul]
      exact h4

/-- The pages of the regions. -/
def regionPages (regions : List Region) : Set ℕ :=
  {q | ∃ r ∈ regions, q * pageSize ∈ r.addrs}

/-- Boot regions: page-aligned, between the limits, and no two touching. -/
structure BootRegions (regions : List Region) : Prop where
  aligned : ∀ r ∈ regions, pageSize ∣ r.base ∧ pageSize ∣ r.size
  inside : ∀ r ∈ regions, memoryStart ≤ r.base ∧ r.base + r.size ≤ memoryLimit
  apart : regions.Pairwise fun a b => a.base + a.size < b.base ∨ b.base + b.size < a.base

/-- Page-aligned regions below the limit that share no address. -/
structure DisjointRegions (regions : List Region) : Prop where
  aligned : ∀ r ∈ regions, pageSize ∣ r.base ∧ pageSize ∣ r.size
  below : ∀ r ∈ regions, r.base + r.size ≤ memoryLimit
  disjoint : regions.Pairwise fun a b => Disjoint a.addrs b.addrs

/-- No two regions touch. -/
def ApartRegions (regions : List Region) : Prop :=
  regions.Pairwise fun a b => a.base + a.size < b.base ∨ b.base + b.size < a.base

lemma BootRegions.disjointRegions {regions : List Region} (h : BootRegions regions) :
    DisjointRegions regions where
  aligned := h.aligned
  below r hr := (h.inside r hr).2
  disjoint := h.apart.imp fun hab => Set.disjoint_left.mpr fun q hq hq' => by
    rw [mem_addrs] at hq hq'
    omega

lemma regions_spec : ∀ {regions : List Region} {R : Set ℕ} {s : Mem} {F : ℕ → List ℕ},
    DisjointRegions regions → Inv U R s F [] [] → regionPages regions ⊆ U →
    Disjoint (regionPages regions) R →
    ∃ F', Inv U (R ∪ regionPages regions) (pageMapFreeBootmem s regions) F' [] [] ∧
      (ApartRegions regions → (∀ r ∈ regions, ∀ q ∈ R, (q + 1) * pageSize ≠ r.base ∧
        q * pageSize ≠ r.base + r.size) → Coalesced F → Coalesced F')
  | [], R, s, F, _, hi, _, _ => by
    refine ⟨F, ?_, fun _ _ => id⟩
    have : regionPages [] = ∅ := by ext q; simp [regionPages]
    rw [this, Set.union_empty]
    exact hi
  | r :: regions, R, s, F, hb, hi, hU, hd => by
    obtain ⟨⟨p, hp⟩, ⟨m, hm⟩⟩ := hb.aligned r (by simp)
    have h2 := hb.below r (by simp)
    obtain ⟨h3, h4⟩ := List.pairwise_cons.mp hb.disjoint
    rw [Nat.mul_comm] at hp hm
    have hstop : ¬ memoryLimit < r.stop := by
      rw [Region.stop, u32_of_lt (by simp only [memoryLimit] at h2; omega)]
      omega
    have haddr : ∀ q, q * pageSize ∈ r.addrs ↔ p ≤ q ∧ q < p + m := by
      intro q
      rw [mem_addrs, hp, hm]
      simp only [pageSize]; omega
    have hcons : regionPages (r :: regions) = {q | p ≤ q ∧ q < p + m} ∪ regionPages regions := by
      ext q
      simp only [regionPages, List.mem_cons, exists_eq_or_imp, haddr, Set.mem_union,
        Set.mem_ofPred_eq]
    have hmem : ∀ q, p ≤ q → q < p + m → q ∈ regionPages (r :: regions) := fun q hq hq' => by
      rw [hcons]; exact Or.inl ⟨hq, hq'⟩
    have hout : ∀ q, p ≤ q → q < p + m → q ∉ R := fun q hq hq' =>
      Set.disjoint_left.mp hd (hmem q hq hq')
    obtain ⟨F', h5, hc⟩ := freeBootmemLoop_spec (n := m) (m := m) (p := p) hi le_rfl
      fun q hq hq' => by
        refine ⟨hU (hmem q hq hq'), hout q hq hq', ?_⟩
        simp only [memoryLimit, pageSize, hp, hm] at h2 ⊢
        omega
    have hdis : Disjoint (regionPages regions) (R ∪ {q | p ≤ q ∧ q < p + m}) := by
      rw [Set.disjoint_left]
      rintro q hq (h | h)
      · exact Set.disjoint_left.mp hd (by rw [hcons]; exact Or.inr hq) h
      · obtain ⟨r', hr', hq'⟩ := hq
        exact Set.disjoint_left.mp (h3 r' hr') ((haddr q).mpr h) hq'
    have hrest := regions_spec
      ⟨fun r' hr' => hb.aligned r' (by simp [hr']), fun r' hr' => hb.below r' (by simp [hr']), h4⟩
      h5 (fun q hq => hU (by rw [hcons]; exact Or.inr hq)) hdis
    obtain ⟨F'', h6, hc'⟩ := hrest
    refine ⟨F'', ?_, fun ha hsep hco => ?_⟩
    · rw [hcons, ← Set.union_assoc]
      unfold pageMapFreeBootmem
      rw [if_neg hstop, freeBootmemRegion, hp, hm, Nat.mul_div_cancel _ (by decide)]
      exact h6
    · obtain ⟨ha1, ha2⟩ := List.pairwise_cons.mp ha
      have hsealed : Sealed F p m := sealed_of_apart hi hco hout fun q hq => by
        have := hsep r (by simp) q hq
        rw [hp, hm] at this
        simp only [pageSize] at this
        omega
      refine hc' ha2 (fun r' hr' q hq => ?_) (hc hsealed)
      rcases hq with hq | hq
      · exact hsep r' (by simp [hr']) q hq
      · have := ha1 r' hr'
        obtain ⟨hq1, hq2⟩ : p ≤ q ∧ q < p + m := hq
        rw [hp, hm] at this
        simp only [pageSize] at this ⊢
        omega

/-- **After `page_alloc_init`** the chunks tile the boot regions, all of them free. Where no
two regions touch, no two chunks can be merged. -/
theorem pageAllocInit_spec {regions : List Region} (hb : DisjointRegions regions)
    (h : ∀ q, q ∉ regionPages regions → (s.pageMap q).isFree = false) :
    ∃ F, Inv (regionPages regions) (regionPages regions) (pageAllocInit s regions) F [] [] ∧
      (ApartRegions regions → Coalesced F) := by
  obtain ⟨F, hF, hc⟩ := regions_spec hb (inv_initAreas h) le_rfl (Set.disjoint_empty _)
  rw [Set.empty_union] at hF
  exact ⟨F, hF, fun ha => hc ha (by simp) fun k _ p hp => absurd hp (by simp)⟩

end Elfboot.BuddyBoot
