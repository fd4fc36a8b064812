import Elfboot.PageAlloc
import Elfboot.Dyadic

/-!
What the page allocator keeps: the blocks on the free lists, the blocks in use and the
block in hand tile the donated pages, and the page at the head of a block tells which of
the two it is and how large.

Nothing is said of the pages inside a block. Their flags, orders and heads are whatever
earlier splits and merges left there, and the lemmas below never look at them.
-/

namespace Elfboot.BuddyInv

open Elfboot.Circular Elfboot.Dyadic Elfboot.Word Elfboot.Mm Elfboot.PageAlloc

/-- The blocks whose heads are on the lists `F`, together with the blocks `bs`. -/
def blocksOf (F : ℕ → List ℕ) (bs : List Block) : Set Block :=
  {b | b.head ∈ F b.order ∨ b ∈ bs}

lemma mem_blocksOf {F : ℕ → List ℕ} {bs : List Block} {b : Block} :
    b ∈ blocksOf F bs ↔ b.head ∈ F b.order ∨ b ∈ bs := Iff.rfl

lemma blocksOf_cons (F : ℕ → List ℕ) (b : Block) (bs : List Block) :
    blocksOf F (b :: bs) = insert b (blocksOf F bs) := by
  ext c
  rw [Set.mem_insert_iff, mem_blocksOf, mem_blocksOf, List.mem_cons]
  exact or_left_comm

/-- The heads of the free areas. -/
def areas : Set Node := {h | ∃ k < pageMaxOrder, h = .area k}

/-- The entries of the free areas as list nodes. -/
def areaLists (F : ℕ → List ℕ) : Node → List Node
  | .area k => (F k).map .page
  | _ => []

@[simp] lemma areaLists_area (F : ℕ → List ℕ) (k : ℕ) :
    areaLists F (.area k) = (F k).map .page := rfl

lemma areaLists_update (F : ℕ → List ℕ) (k : ℕ) (l : List ℕ) :
    Function.update (areaLists F) (.area k) (l.map .page) = areaLists (Function.update F k l) := by
  funext h
  cases h with
  | area j =>
      by_cases hj : j = k
      · subst hj; simp [areaLists]
      · simp [areaLists, Function.update_of_ne, hj]
  | _ => simp [areaLists, Function.update_of_ne]

lemma area_mem {k : ℕ} (hk : k < pageMaxOrder) : Node.area k ∈ areas := ⟨k, hk, rfl⟩

lemma fresh_iff {F : ℕ → List ℕ} {p : ℕ} :
    Fresh areas (areaLists F) (.page p) ↔ ∀ k < pageMaxOrder, p ∉ F k := by
  constructor
  · intro h k hk hp
    exact h _ (area_mem hk) (by simp [hp])
  · rintro h _ ⟨k, hk, rfl⟩
    simpa using h k hk

/-- `R` is what has been donated, `U` all that will be; `F` are the free lists, `held` the
blocks in hand, `live` the blocks in use. -/
structure Inv (U R : Set ℕ) (s : Mem) (F : ℕ → List ℕ) (held live : List Block) : Prop where
  lists : Lists s.links areas (areaLists F)
  small : ∀ k, pageMaxOrder ≤ k → F k = []
  count : ∀ k < pageMaxOrder, s.nrFree k = (F k).length
  sub : R ⊆ U
  bound : ∀ q ∈ R, q < memoryLimit / pageSize
  tiling : Tiling R (blocksOf F (held ++ live))
  sep : ∀ k p, p ∈ F k → (⟨p, k⟩ : Block) ∉ held ++ live
  nodup : (held ++ live).Nodup
  free : ∀ k, ∀ p ∈ F k, (s.pageMap p).isFree = true ∧ (s.pageMap p).order = k
  used : ∀ b ∈ live, (s.pageMap b.head).isFree = false ∧ (s.pageMap b.head).order = b.order
  paddr : ∀ q ∈ R, (s.pageMap q).paddr = q * pageSize
  outside : ∀ q, q ∉ U → (s.pageMap q).isFree = false

variable {U R : Set ℕ} {s : Mem} {F : ℕ → List ℕ} {held live : List Block} {p k : ℕ}

/-! ### The flag and the buddy -/

@[simp] lemma setFree_isFree (pg : Page) : pg.setFree.isFree = true := by
  simp [Page.setFree, Page.isFree]

@[simp] lemma clearFree_isFree (pg : Page) : pg.clearFree.isFree = false := by
  simp only [Page.clearFree, Page.isFree, Nat.and_assoc]
  rw [show (2 ^ 32 - 1 - pageFlagFree) &&& pageFlagFree = 0 by decide]
  simp

lemma physToPage_mul (q : ℕ) : physToPage (q * pageSize) = q := by
  rw [physToPage, Nat.shiftRight_eq_div_pow]
  exact Nat.mul_div_cancel _ (by decide)

lemma pageBuddy_eq {q k : ℕ} (hp : (s.pageMap q).paddr = q * pageSize)
    (hq : q < memoryLimit / pageSize) (hk : k < pageMaxOrder) :
    pageBuddy s q k = q ^^^ 2 ^ k := by
  have hq8 : q < 2 ^ 9 := by simp only [memoryLimit, pageSize] at hq; omega
  have hk8 : 2 ^ k < 2 ^ 9 := Nat.pow_lt_pow_right (by decide) hk
  have hx : q ^^^ 2 ^ k < 2 ^ 9 := Nat.xor_lt_two_pow hq8 hk8
  have hmul : (q * pageSize) ^^^ (2 ^ k * pageSize) = (q ^^^ 2 ^ k) * pageSize := by
    simp only [pageSize, ← Nat.shiftLeft_eq, Nat.shiftLeft_xor_distrib]
  have hpfn : ∀ x < 2 ^ 9, physToPfn (x * pageSize) = x := by
    intro x hx
    rw [physToPfn, u32_of_lt (by simp only [pageSize]; omega), Nat.shiftRight_eq_div_pow]
    exact Nat.mul_div_cancel _ (by decide)
  unfold pageBuddy absDifference
  rw [hp, hmul, hpfn q hq8, hpfn _ hx]
  generalize q ^^^ 2 ^ k = b
  dsimp only
  split_ifs <;> omega

/-! ### What the invariant says of heads -/

lemma Inv.order_lt (hi : Inv U R s F held live) {k p : ℕ} (hp : p ∈ F k) : k < pageMaxOrder := by
  by_contra h
  rw [hi.small k (by omega)] at hp
  exact absurd hp (by simp)

lemma Inv.free_mem (hi : Inv U R s F held live) {k p : ℕ} (hp : p ∈ F k) : p ∈ R :=
  hi.tiling.sub ⟨p, k⟩ (Or.inl hp) (head_mem ⟨p, k⟩)

lemma Inv.block_mem (hi : Inv U R s F held live) {b : Block} (hb : b ∈ held ++ live) :
    b.head ∈ R :=
  hi.tiling.sub b (Or.inr hb) (head_mem b)

lemma Inv.nodup_free (hi : Inv U R s F held live) {k : ℕ} (hk : k < pageMaxOrder) :
    (F k).Nodup :=
  List.Nodup.of_map _ (List.nodup_cons.mp (hi.lists.isList _ (area_mem hk)).nodup).2

/-- There are no more blocks on a list than there are pages. -/
lemma Inv.length_le (hi : Inv U R s F held live) {k : ℕ} (hk : k < pageMaxOrder) :
    (F k).length ≤ memoryLimit / pageSize := by
  have hsub : F k ⊆ List.range (memoryLimit / pageSize) := fun p hp =>
    List.mem_range.mpr (hi.bound p (hi.free_mem hp))
  simpa using (List.subperm_of_subset (hi.nodup_free hk) hsub).length_le

/-- A block in hand or in use shares its head with no block on a list. -/
lemma Inv.head_notMem (hi : Inv U R s F held live) {b : Block} (hb : b ∈ held ++ live) (k : ℕ) :
    b.head ∉ F k := by
  intro hk
  have he := hi.tiling.uniq ⟨b.head, k⟩ (Or.inl hk) b (Or.inr hb) b.head
    (head_mem ⟨b.head, k⟩) (head_mem b)
  exact hi.sep k b.head hk (he ▸ hb)

lemma Inv.head_ne (hi : Inv U R s F held live) {b c : Block} (hb : b ∈ held) (hc : c ∈ live) :
    c.head ≠ b.head := by
  intro he
  have h := hi.tiling.uniq c (Or.inr (by simp [hc])) b (Or.inr (by simp [hb])) c.head
    (head_mem c) (he ▸ head_mem b)
  exact (List.disjoint_of_nodup_append hi.nodup) hb (h ▸ hc)

/-- A page inside a block, but not at its head, is the head of no block. -/
lemma Inv.inner (hi : Inv U R s F held live) {b : Block} (hb : b ∈ held ++ live) {x : ℕ}
    (hx : x ∈ b.pages) (hne : x ≠ b.head) :
    (∀ k, x ∉ F k) ∧ ∀ c ∈ live, c.head ≠ x := by
  constructor
  · intro k hk
    have he := hi.tiling.uniq ⟨x, k⟩ (Or.inl hk) b (Or.inr hb) x (head_mem ⟨x, k⟩) hx
    exact hne (congrArg Block.head he)
  · rintro c hc rfl
    have he := hi.tiling.uniq c (Or.inr (by simp [hc])) b (Or.inr hb) c.head (head_mem c) hx
    exact hne (congrArg Block.head he)

/-! ### Steps that only write pages -/

/-- The invariant depends on the flags and orders at heads, on the flags outside, and on
the addresses of donated pages. -/
lemma Inv.congr (hi : Inv U R s F held live) {s' : Mem} (hl : s'.links = s.links)
    (hn : s'.nrFree = s.nrFree)
    (hf : ∀ k, ∀ p ∈ F k, (s'.pageMap p).isFree = (s.pageMap p).isFree ∧
      (s'.pageMap p).order = (s.pageMap p).order)
    (hu : ∀ b ∈ live, (s'.pageMap b.head).isFree = (s.pageMap b.head).isFree ∧
      (s'.pageMap b.head).order = (s.pageMap b.head).order)
    (hp : ∀ q ∈ R, (s'.pageMap q).paddr = (s.pageMap q).paddr)
    (ho : ∀ q, q ∉ U → (s'.pageMap q).isFree = (s.pageMap q).isFree) :
    Inv U R s' F held live where
  lists := hl ▸ hi.lists
  small := hi.small
  count := hn ▸ hi.count
  sub := hi.sub
  bound := hi.bound
  tiling := hi.tiling
  sep := hi.sep
  nodup := hi.nodup
  free k p hk := by rw [(hf k p hk).1, (hf k p hk).2]; exact hi.free k p hk
  used b hb := by rw [(hu b hb).1, (hu b hb).2]; exact hi.used b hb
  paddr q hq := by rw [hp q hq]; exact hi.paddr q hq
  outside q hq := by rw [ho q hq]; exact hi.outside q hq

/-- Writing a page that is the head of no block on a list or in use. -/
lemma Inv.setPage (hi : Inv U R s F held live) {x : ℕ} {f : Page → Page} (hx : x ∈ R)
    (hF : ∀ k, x ∉ F k) (hlive : ∀ b ∈ live, b.head ≠ x)
    (hf : ∀ pg, (f pg).paddr = pg.paddr) : Inv U R (s.setPage x f) F held live := by
  have hoff : ∀ q, q ≠ x → (s.setPage x f).pageMap q = s.pageMap q := by
    intro q hq; simp [Mem.setPage, hq]
  refine hi.congr rfl rfl (fun k p hp => ?_) (fun b hb => ?_) (fun q _ => ?_) (fun q hq => ?_)
  · rw [hoff p (by rintro rfl; exact hF k hp)]; simp
  · rw [hoff _ (hlive b hb)]; simp
  · by_cases hq : q = x
    · subst hq; simp [Mem.setPage, hf]
    · rw [hoff q hq]
  · rw [hoff q (by rintro rfl; exact hq (hi.sub hx))]

lemma setHeads_links (page n : ℕ) (s : Mem) : (setHeads page n s).links = s.links := by
  induction n with
  | zero => rfl
  | succ n ih => simpa [setHeads, Mem.setPage] using ih

lemma setHeads_nrFree (page n : ℕ) (s : Mem) : (setHeads page n s).nrFree = s.nrFree := by
  induction n with
  | zero => rfl
  | succ n ih => simpa [setHeads, Mem.setPage] using ih

/-- What `page_set_compound_head` writes. -/
lemma setHeads_pageMap (page n : ℕ) (s : Mem) (q : ℕ) :
    (setHeads page n s).pageMap q =
      if page ≤ q ∧ q < page + n then { s.pageMap q with compoundHead := page }
      else s.pageMap q := by
  induction n with
  | zero => simp [setHeads]
  | succ n ih =>
      simp only [setHeads, Mem.setPage, ih]
      by_cases hq : q = page + n
      · subst hq; simp
      · have : (page ≤ q ∧ q < page + (n + 1)) ↔ (page ≤ q ∧ q < page + n) := by omega
        simp only [if_neg hq, this]

lemma Inv.setHeads (hi : Inv U R s F held live) (page n : ℕ) :
    Inv U R (setHeads page n s) F held live := by
  have hsame : ∀ q, ((PageAlloc.setHeads page n s).pageMap q).isFree = (s.pageMap q).isFree ∧
      ((PageAlloc.setHeads page n s).pageMap q).order = (s.pageMap q).order ∧
      ((PageAlloc.setHeads page n s).pageMap q).paddr = (s.pageMap q).paddr := by
    intro q
    rw [setHeads_pageMap]
    split_ifs <;> simp [Page.isFree]
  exact hi.congr (setHeads_links ..) (setHeads_nrFree ..)
    (fun k p _ => ⟨(hsame p).1, (hsame p).2.1⟩) (fun b _ => ⟨(hsame b.head).1, (hsame b.head).2.1⟩)
    (fun q _ => (hsame q).2.2) (fun q _ => (hsame q).1)

/-! ### Steps that move blocks -/

lemma blocksOf_congr {F G : ℕ → List ℕ} {bs cs : List Block}
    (h : ∀ b : Block, (b.head ∈ F b.order ∨ b ∈ bs) ↔ (b.head ∈ G b.order ∨ b ∈ cs)) :
    blocksOf F bs = blocksOf G cs :=
  Set.ext h

lemma mem_update {F : ℕ → List ℕ} {k j p : ℕ} {l : List ℕ} :
    p ∈ Function.update F k l j ↔ (j = k ∧ p ∈ l) ∨ (j ≠ k ∧ p ∈ F j) := by
  by_cases h : j = k
  · subst h; simp
  · simp [h]

lemma mem_update_cons {F : ℕ → List ℕ} {k j p q : ℕ} :
    q ∈ Function.update F k (p :: F k) j ↔ (j = k ∧ q = p) ∨ q ∈ F j := by
  rw [mem_update, List.mem_cons]
  by_cases h : j = k
  · subst h; simp
  · simp [h]

/-- `free_page_del`: the first block on hand is one taken off its list. -/
lemma Inv.del (hi : Inv U R s F held live) {k p : ℕ} (hp : p ∈ F k) :
    Inv U R (freePageDel s p) (Function.update F k ((F k).erase p)) (⟨p, k⟩ :: held) live := by
  have hk := hi.order_lt hp
  have hord := (hi.free k p hp).2
  have hnd := hi.nodup_free hk
  have hmem : ∀ j q, q ∈ Function.update F k ((F k).erase p) j ↔
      q ∈ F j ∧ ¬ (j = k ∧ q = p) := by
    intro j q
    rw [mem_update]
    by_cases hj : j = k
    · subst hj; simp [hnd.mem_erase_iff, and_comm]
    · simp [hj]
  have hblocks : blocksOf (Function.update F k ((F k).erase p)) (⟨p, k⟩ :: held ++ live) =
      blocksOf F (held ++ live) := by
    refine blocksOf_congr fun b => ?_
    obtain ⟨q, j⟩ := b
    simp only [hmem, List.cons_append, List.mem_cons, Block.mk.injEq]
    constructor
    · rintro (⟨h, -⟩ | ⟨rfl, rfl⟩ | h)
      · exact Or.inl h
      · exact Or.inl hp
      · exact Or.inr h
    · rintro (h | h)
      · by_cases he : j = k ∧ q = p
        · exact Or.inr (Or.inl ⟨he.2, he.1⟩)
        · exact Or.inl ⟨h, he⟩
      · exact Or.inr (Or.inr h)
  constructor
  · have := hi.lists.del .null (n := .page p) (area_mem hk) (by simpa using hp)
    rw [areaLists_area, ← List.map_erase (by intro a b; simp), areaLists_update] at this
    exact this
  · intro j hj
    rw [Function.update_of_ne (by omega)]
    exact hi.small j hj
  · intro j hj
    by_cases hjk : j = k
    · subst hjk
      have hpos : 0 < (F j).length := List.length_pos_of_mem hp
      have hle := hi.length_le hj
      simp only [memoryLimit, pageSize] at hle
      simp only [freePageDel, Mem.setNrFree, hord, if_true, hi.count j hj, Function.update_self,
        List.length_erase_of_mem hp]
      exact sub32_of_le hpos (by omega)
    · simp [freePageDel, Mem.setNrFree, hord, hjk, hi.count j hj, Function.update_of_ne]
  · exact hi.sub
  · exact hi.bound
  · rw [hblocks]; exact hi.tiling
  · intro j q hq
    rw [hmem] at hq
    simp only [List.cons_append, List.mem_cons, not_or, Block.mk.injEq]
    exact ⟨fun h => hq.2 ⟨h.2, h.1⟩, hi.sep j q hq.1⟩
  · rw [List.cons_append, List.nodup_cons]
    exact ⟨hi.sep k p hp, hi.nodup⟩
  · intro j q hq
    exact hi.free j q ((hmem j q).mp hq).1
  · exact hi.used
  · exact hi.paddr
  · exact hi.outside

/-- Putting a block in hand at one end of a list; the links are those of the operation. -/
lemma Inv.put (hi : Inv U R s F (⟨p, k⟩ :: held) live) {L : Links Node} {l : List ℕ}
    (hk : k < pageMaxOrder) (hfree : (s.pageMap p).isFree = true)
    (hord : (s.pageMap p).order = k) (hl : l.Perm (p :: F k))
    (hL : Lists L areas (areaLists (Function.update F k l))) :
    Inv U R ({ s with links := L }.setNrFree k (u32 (s.nrFree k + 1))) (Function.update F k l)
      held live := by
  have hmem : ∀ j q, q ∈ Function.update F k l j ↔ q ∈ F j ∨ (j = k ∧ q = p) := by
    intro j q
    rw [mem_update]
    by_cases hj : j = k
    · subst hj; simp [hl.mem_iff, or_comm]
    · simp [hj]
  have hblocks : blocksOf (Function.update F k l) (held ++ live) =
      blocksOf F (⟨p, k⟩ :: held ++ live) := by
    refine blocksOf_congr fun b => ?_
    obtain ⟨q, j⟩ := b
    simp only [hmem, List.cons_append, List.mem_cons, Block.mk.injEq]
    tauto
  have hnd := hi.nodup
  rw [List.cons_append, List.nodup_cons] at hnd
  constructor
  · exact hL
  · intro j hj
    rw [Function.update_of_ne (by omega)]
    exact hi.small j hj
  · intro j hj
    by_cases hjk : j = k
    · subst hjk
      have hle := hi.length_le hj
      simp only [memoryLimit, pageSize] at hle
      simp only [Mem.setNrFree, if_true, Function.update_self, hl.length_eq, List.length_cons,
        hi.count j hj]
      exact u32_of_lt (by omega)
    · simp [Mem.setNrFree, hjk, hi.count j hj, Function.update_of_ne]
  · exact hi.sub
  · exact hi.bound
  · rw [hblocks]; exact hi.tiling
  · intro j q hq
    rcases (hmem j q).mp hq with h | ⟨rfl, rfl⟩
    · exact fun hm => hi.sep j q h (by simp [List.mem_append.mp hm])
    · exact hnd.1
  · exact hnd.2
  · intro j q hq
    rcases (hmem j q).mp hq with h | ⟨rfl, rfl⟩
    · exact hi.free j q h
    · exact ⟨hfree, hord⟩
  · exact hi.used
  · exact hi.paddr
  · exact hi.outside

lemma Inv.fresh (hi : Inv U R s F (⟨p, k⟩ :: held) live) :
    Fresh areas (areaLists F) (.page p) :=
  fresh_iff.mpr fun j _ => hi.head_notMem (b := ⟨p, k⟩) (by simp) j

/-- `free_page_add`. -/
lemma Inv.add (hi : Inv U R s F (⟨p, k⟩ :: held) live) (hk : k < pageMaxOrder)
    (hfree : (s.pageMap p).isFree = true) (hord : (s.pageMap p).order = k) :
    Inv U R (freePageAdd s p k) (Function.update F k (p :: F k)) held live := by
  refine hi.put hk hfree hord (List.Perm.refl _) ?_
  have := hi.lists.add (area_mem hk) hi.fresh
  rwa [areaLists_area, ← List.map_cons, areaLists_update] at this

/-- `free_page_append`. -/
lemma Inv.append (hi : Inv U R s F (⟨p, k⟩ :: held) live) (hk : k < pageMaxOrder)
    (hfree : (s.pageMap p).isFree = true) (hord : (s.pageMap p).order = k) :
    Inv U R (freePageAppend s p k) (Function.update F k (F k ++ [p])) held live := by
  refine hi.put hk hfree hord (List.perm_append_singleton _ _) ?_
  have := hi.lists.addTail (area_mem hk) hi.fresh
  rwa [areaLists_area, show [Node.page p] = [p].map Node.page from rfl, ← List.map_append,
    areaLists_update] at this

/-- Blocks change hands between the ones held and the ones in use. -/
lemma Inv.repack (hi : Inv U R s F held live) {held' live' : List Block}
    (hp : (held' ++ live').Perm (held ++ live))
    (hu : ∀ b ∈ live', (s.pageMap b.head).isFree = false ∧
      (s.pageMap b.head).order = b.order) : Inv U R s F held' live' where
  lists := hi.lists
  small := hi.small
  count := hi.count
  sub := hi.sub
  bound := hi.bound
  tiling := by
    have : blocksOf F (held' ++ live') = blocksOf F (held ++ live) :=
      blocksOf_congr fun b => by rw [hp.mem_iff]
    exact this ▸ hi.tiling
  sep j q hq hm := hi.sep j q hq (hp.mem_iff.mp hm)
  nodup := hp.nodup_iff.mpr hi.nodup
  free := hi.free
  used := hu
  paddr := hi.paddr
  outside := hi.outside

/-- `get_free_pages` marks the block in hand as used. -/
lemma Inv.take (hi : Inv U R s F (⟨p, k⟩ :: held) live) :
    Inv U R (s.setPage p fun pg => { pg.clearFree with order := k }) F held (⟨p, k⟩ :: live) := by
  have hb : (⟨p, k⟩ : Block) ∈ (⟨p, k⟩ :: held) ++ live := by simp
  have h1 := hi.setPage (f := fun pg => { pg.clearFree with order := k }) (hi.block_mem hb)
    (hi.head_notMem hb) (fun b hb => hi.head_ne (b := ⟨p, k⟩) (by simp) hb) (fun pg => rfl)
  refine h1.repack List.perm_middle fun b hb => ?_
  rcases List.mem_cons.mp hb with rfl | hb
  · simp only [Mem.setPage, if_true]
    exact ⟨clearFree_isFree _, trivial⟩
  · exact h1.used b hb

/-- Cutting the block in hand, or gluing two of them, changes nothing but the tiling. -/
lemma Inv.retile (hi : Inv U R s F held live) {held' : List Block}
    (ht : Tiling R (blocksOf F (held' ++ live)))
    (hsep : ∀ k p, p ∈ F k → (⟨p, k⟩ : Block) ∉ held' ++ live)
    (hnd : (held' ++ live).Nodup) : Inv U R s F held' live :=
  { hi with tiling := ht, sep := hsep, nodup := hnd }

lemma Inv.split (hi : Inv U R s F (⟨p, k + 1⟩ :: held) live) :
    Inv U R s F (⟨p, k⟩ :: ⟨p + 2 ^ k, k⟩ :: held) live := by
  have hpos : 0 < 2 ^ k := Nat.two_pow_pos k
  have hk : 2 ^ (k + 1) = 2 ^ k + 2 ^ k := by ring
  have hb : (⟨p, k + 1⟩ : Block) ∈ (⟨p, k + 1⟩ :: held) ++ live := by simp
  have hnd := hi.nodup
  rw [List.cons_append, List.nodup_cons] at hnd
  have hin : p + 2 ^ k ∈ (⟨p, k + 1⟩ : Block).pages := by rw [mem_pages]; dsimp only; omega
  have hr := hi.inner hb hin (by dsimp only; omega)
  -- neither half was a block before
  have hnew : ∀ b : Block, b ∈ held ++ live → b ≠ ⟨p, k⟩ ∧ b ≠ ⟨p + 2 ^ k, k⟩ := by
    intro b hbm
    constructor
    · rintro rfl
      have := hi.tiling.uniq _ (Or.inr (List.mem_cons_of_mem _ hbm)) _ (Or.inr hb) p
        (head_mem ⟨p, k⟩) (head_mem ⟨p, k + 1⟩)
      simp at this
    · rintro rfl
      have := hi.tiling.uniq _ (Or.inr (List.mem_cons_of_mem _ hbm)) _ (Or.inr hb) _
        (head_mem ⟨p + 2 ^ k, k⟩) hin
      simp at this
  refine hi.retile ?_ ?_ ?_
  · have ht := hi.tiling.split (Or.inr hb)
    have hout : (⟨p, k + 1⟩ : Block) ∉ blocksOf F (held ++ live) := by
      rw [mem_blocksOf, not_or]
      exact ⟨hi.head_notMem hb _, hnd.1⟩
    have he : (blocksOf F ((⟨p, k + 1⟩ :: held) ++ live) \ {⟨p, k + 1⟩}) ∪
        {⟨p, k⟩, ⟨p + 2 ^ k, k⟩} = blocksOf F ((⟨p, k⟩ :: ⟨p + 2 ^ k, k⟩ :: held) ++ live) := by
      simp only [List.cons_append, blocksOf_cons]
      rw [Set.insert_sdiff_self_of_notMem hout, Set.union_comm, Set.insert_union,
        Set.singleton_union]
    exact he ▸ ht
  · intro j q hq
    simp only [List.cons_append, List.mem_cons, not_or, Block.mk.injEq]
    refine ⟨?_, ?_, fun hm => hi.sep j q hq (List.mem_cons_of_mem _ hm)⟩
    · rintro ⟨rfl, -⟩; exact hi.head_notMem hb j hq
    · rintro ⟨rfl, -⟩; exact hr.1 j hq
  · simp only [List.cons_append, List.nodup_cons, List.mem_cons, not_or, Block.mk.injEq]
    exact ⟨⟨by omega, fun hm => (hnew _ hm).1 rfl⟩, fun hm => (hnew _ hm).2 rfl, hnd.2⟩

lemma Inv.join (hi : Inv U R s F (⟨p, k⟩ :: ⟨p + 2 ^ k, k⟩ :: held) live)
    (hal : 2 ^ (k + 1) ∣ p) : Inv U R s F (⟨p, k + 1⟩ :: held) live := by
  have hpos : 0 < 2 ^ k := Nat.two_pow_pos k
  have hk : 2 ^ (k + 1) = 2 ^ k + 2 ^ k := by ring
  have hl : (⟨p, k⟩ : Block) ∈ (⟨p, k⟩ :: ⟨p + 2 ^ k, k⟩ :: held) ++ live := by simp
  have hr : (⟨p + 2 ^ k, k⟩ : Block) ∈ (⟨p, k⟩ :: ⟨p + 2 ^ k, k⟩ :: held) ++ live := by simp
  have hnd := hi.nodup
  simp only [List.cons_append, List.nodup_cons, List.mem_cons, not_or] at hnd
  have hnew : (⟨p, k + 1⟩ : Block) ∉ held ++ live := by
    intro hm
    have := hi.tiling.uniq _ (Or.inr (List.mem_cons_of_mem _ (List.mem_cons_of_mem _ hm))) _
      (Or.inr hl) p (head_mem ⟨p, k + 1⟩) (head_mem ⟨p, k⟩)
    simp at this
  refine hi.retile ?_ ?_ ?_
  · have ht := hi.tiling.join hal (Or.inr hl) (Or.inr hr)
    have he : (blocksOf F ((⟨p, k⟩ :: ⟨p + 2 ^ k, k⟩ :: held) ++ live) \
        {⟨p, k⟩, ⟨p + 2 ^ k, k⟩}) ∪ {⟨p, k + 1⟩} =
        blocksOf F ((⟨p, k + 1⟩ :: held) ++ live) := by
      have hdisj : Disjoint (blocksOf F (held ++ live)) {⟨p, k⟩, ⟨p + 2 ^ k, k⟩} := by
        rw [Set.disjoint_insert_right, Set.disjoint_singleton_right, mem_blocksOf, mem_blocksOf,
          not_or, not_or]
        exact ⟨⟨hi.head_notMem hl _, hnd.1.2⟩, hi.head_notMem hr _, hnd.2.1⟩
      simp only [List.cons_append, blocksOf_cons]
      rw [Set.insert_sdiff_of_mem _ (Set.mem_insert _ _),
        Set.insert_sdiff_of_mem _ (Set.mem_insert_of_mem _ (Set.mem_singleton _)),
        hdisj.sdiff_eq_left, Set.union_singleton]
    exact he ▸ ht
  · intro j q hq
    simp only [List.cons_append, List.mem_cons, not_or, Block.mk.injEq]
    refine ⟨?_, fun hm => hi.sep j q hq (by simp [List.mem_append.mp hm])⟩
    rintro ⟨rfl, -⟩; exact hi.head_notMem hl j hq
  · simp only [List.cons_append, List.nodup_cons]
    exact ⟨hnew, hnd.2.2⟩

/-! ### Coalesced lists -/

/-- No two buddies are both on the list of an order at which they can be merged. -/
def Coalesced (F : ℕ → List ℕ) : Prop :=
  ∀ k < pageMaxOrder - 1, ∀ p ∈ F k, p ^^^ 2 ^ k ∉ F k

/-- Where two buddies are on a list, one of them is the block of order `k` at `p`. -/
def CoalescedBut (F : ℕ → List ℕ) (p k : ℕ) : Prop :=
  ∀ j < pageMaxOrder - 1, ∀ q ∈ F j, q ^^^ 2 ^ j ∈ F j → j = k ∧ (q = p ∨ q ^^^ 2 ^ j = p)

variable {F' : ℕ → List ℕ}

lemma Coalesced.mono (hc : Coalesced F) (h : ∀ j q, q ∈ F' j → q ∈ F j) : Coalesced F' :=
  fun k hk p hp hb => hc k hk p (h k p hp) (h k _ hb)

/-- A block more. -/
lemma Coalesced.insert (hc : Coalesced F) (h : ∀ j q, q ∈ F' j → (j = k ∧ q = p) ∨ q ∈ F j) :
    CoalescedBut F' p k := by
  intro j hj q hq hb
  rcases h j q hq with ⟨rfl, rfl⟩ | hq
  · exact ⟨rfl, Or.inl rfl⟩
  · rcases h j _ hb with ⟨rfl, he⟩ | hb
    · exact ⟨rfl, Or.inr he⟩
    · exact absurd hb (hc j hj q hq)

lemma CoalescedBut.coalesced (hc : CoalescedBut F p k)
    (h : k < pageMaxOrder - 1 → p ∈ F k → p ^^^ 2 ^ k ∉ F k) : Coalesced F := by
  intro j hj q hq hb
  obtain ⟨rfl, rfl | rfl⟩ := hc j hj q hq hb
  · exact h hj hq hb
  · exact h hj hb (by rwa [buddy_buddy])

/-- The block and its buddy become one, at a higher order. -/
lemma CoalescedBut.merge (hc : CoalescedBut F p k) {l : ℕ}
    (h : ∀ j q, q ∈ F' j → (j = k + 1 ∧ q = l) ∨
      (q ∈ F j ∧ ¬ (j = k ∧ (q = p ∨ q = p ^^^ 2 ^ k)))) : CoalescedBut F' l (k + 1) := by
  intro j hj q hq hb
  rcases h j q hq with ⟨rfl, rfl⟩ | ⟨hq, hne⟩
  · exact ⟨rfl, Or.inl rfl⟩
  · rcases h j _ hb with ⟨rfl, he⟩ | ⟨hb, -⟩
    · exact ⟨rfl, Or.inr he⟩
    · obtain ⟨rfl, hp⟩ := hc j hj q hq hb
      refine absurd ⟨rfl, hp.imp_right fun he => ?_⟩ hne
      rw [← he, buddy_buddy]

end Elfboot.BuddyInv
