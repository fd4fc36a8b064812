import Elfboot.LinkFrame
import Elfboot.BuddyOps

/-!
What `alloc_pages` and `free_page` leave alone.

They write the heads of the free areas and the list nodes of pages that are in no block in use. So
whoever has a block may use the list nodes of its pages for lists of his own.
-/

namespace Elfboot.BuddyFrame

open Elfboot.Circular Elfboot.Dyadic Elfboot.Word Elfboot.Mm Elfboot.PageAlloc
open Elfboot.BuddyInv Elfboot.BuddyOps

variable {U R : Set ℕ} {s s' t : Mem} {F : ℕ → List ℕ} {held live : List Block} {p k : ℕ}

/-- The heads of the free areas, and the nodes of the pages in no block in use. -/
def territory (R : Set ℕ) (live : List Block) : Set Node :=
  {x | (∃ k < pageMaxOrder, x = .area k) ∨ ∃ q ∈ R, x = .page q ∧ ∀ b ∈ live, q ∉ b.pages}

/-- A step that writes no other list node, and of no page its address or its number of objects. -/
structure Keeps (R : Set ℕ) (live : List Block) (s s' : Mem) : Prop where
  links : Only (territory R live) s.links s'.links
  paddr : ∀ q, (s'.pageMap q).paddr = (s.pageMap q).paddr
  inuse : ∀ q, (s'.pageMap q).inuse = (s.pageMap q).inuse

lemma Keeps.refl (R : Set ℕ) (live : List Block) (s : Mem) : Keeps R live s s :=
  ⟨Only.refl _ _, fun _ => rfl, fun _ => rfl⟩

lemma Keeps.trans (h : Keeps R live s t) (h' : Keeps R live t s') : Keeps R live s s' :=
  ⟨h.links.trans h'.links, fun q => (h'.paddr q).trans (h.paddr q),
    fun q => (h'.inuse q).trans (h.inuse q)⟩

/-! ### One write -/

lemma keeps_setPage (R : Set ℕ) (live : List Block) (s : Mem) (x : ℕ) {f : Page → Page}
    (hf : ∀ pg, (f pg).paddr = pg.paddr ∧ (f pg).inuse = pg.inuse) :
    Keeps R live s (s.setPage x f) := by
  refine ⟨Only.refl _ _, fun q => ?_, fun q => ?_⟩
  all_goals
    unfold Mem.setPage
    dsimp only
    split_ifs
    · simp [hf]
    · rfl

lemma keeps_setHeads (R : Set ℕ) (live : List Block) (s : Mem) (page n : ℕ) :
    Keeps R live s (setHeads page n s) := by
  induction n with
  | zero => exact Keeps.refl R live s
  | succ n ih => exact ih.trans (keeps_setPage R live _ _ fun _ => ⟨rfl, rfl⟩)

lemma Inv.nodes_sub (hi : Inv U R s F held live) :
    nodes areas (areaLists F) ⊆ territory R live := by
  rintro x ⟨_, ⟨j, hj, rfl⟩, hx⟩
  rcases List.mem_cons.mp hx with rfl | hx
  · exact Or.inl ⟨j, hj, rfl⟩
  · rw [areaLists_area, List.mem_map] at hx
    obtain ⟨q, hq, rfl⟩ := hx
    refine Or.inr ⟨q, hi.free_mem hq, rfl, fun b hb hqb => ?_⟩
    have hb' : b ∈ held ++ live := List.mem_append_right _ hb
    have he := hi.tiling.uniq ⟨q, j⟩ (Or.inl hq) b (Or.inr hb') q (head_mem ⟨q, j⟩) hqb
    exact hi.sep j q hq (he ▸ hb')

lemma Inv.held_mem (hi : Inv U R s F held live) {b : Block} (hb : b ∈ held) :
    Node.page b.head ∈ territory R live := by
  have hb' : b ∈ held ++ live := List.mem_append_left _ hb
  refine Or.inr ⟨b.head, hi.block_mem hb', rfl, fun c hc hm => ?_⟩
  have he := hi.tiling.uniq b (Or.inr hb') c (Or.inr (List.mem_append_right _ hc)) _ (head_mem b) hm
  exact List.disjoint_of_nodup_append hi.nodup hb (he ▸ hc)

lemma Inv.keeps_del (hi : Inv U R s F held live) (hp : p ∈ F k) :
    Keeps R live s (freePageDel s p) := by
  refine ⟨?_, fun _ => rfl, fun _ => rfl⟩
  exact hi.lists.only_del (Inv.nodes_sub hi) (area_mem (hi.order_lt hp)) (by simpa using hp)

lemma Inv.keeps_add (hi : Inv U R s F held live) (hk : k < pageMaxOrder)
    (hp : Node.page p ∈ territory R live) : Keeps R live s (freePageAdd s p k) :=
  ⟨hi.lists.only_add (Inv.nodes_sub hi) (area_mem hk) hp, fun _ => rfl, fun _ => rfl⟩

/-! ### Allocating -/

lemma fixLoop_keeps (hkj : k ≤ j) (hj : j < pageMaxOrder) :
    ∀ {s : Mem} {F : ℕ → List ℕ}, Inv U R s F [⟨p, j⟩] live →
      Keeps R live s (freePageFixLoop p k j s) := by
  induction j with
  | zero => exact fun {s F} _ => Keeps.refl R live s
  | succ j ih =>
      intro s F hi
      unfold freePageFixLoop
      split_ifs with hlt
      · obtain ⟨-, hbud, hnext⟩ := fix_turn hj hi
        let mark : Page → Page := fun pg => { pg with order := j }.setFree
        have hright : Node.page (p + 2 ^ j) ∈ territory R live :=
          Inv.held_mem hi.split (b := ⟨p + 2 ^ j, j⟩) (by simp)
        have hmark := keeps_setPage R live s (p + 2 ^ j) (f := mark) fun _ => ⟨rfl, rfl⟩
        have hadd : Keeps R live (s.setPage (p + 2 ^ j) mark)
            (freePageAdd (s.setPage (p + 2 ^ j) mark) (p + 2 ^ j) j) :=
          ⟨hi.lists.only_add (Inv.nodes_sub hi) (area_mem (by omega)) hright, fun _ => rfl,
            fun _ => rfl⟩
        rw [hbud]
        exact (hmark.trans hadd).trans (ih (by omega) (by omega) hnext)
      · exact Keeps.refl R live s

lemma getLoop_keeps (hi : Inv U R s F [] live) : ∀ {n j : ℕ}, j + n = pageMaxOrder → k ≤ j →
    getFreePagesLoop s k n j = some (p, s') → Keeps R live s s'
  | 0, j, _, _, h => by simp [getFreePagesLoop] at h
  | n + 1, j, hn, hkj, h => by
    unfold getFreePagesLoop at h
    rw [freeAreaGetFirst_eq hi (by omega)] at h
    rcases hF : F j with _ | ⟨x, l⟩
    · rw [hF] at h
      exact getLoop_keeps hi (by omega) (by omega) h
    · rw [hF] at h
      simp only [List.head?_cons, Option.some.injEq, Prod.mk.injEq] at h
      obtain ⟨rfl, rfl⟩ := h
      have hx : x ∈ F j := by simp [hF]
      have hord : ((freePageDel s x).pageMap x).order = j := (hi.free j x hx).2
      have hfix := fixLoop_keeps hkj (by omega) (hi.del hx)
      unfold freePageFix
      rw [hord]
      exact ((Inv.keeps_del hi hx).trans hfix).trans (keeps_setPage R live _ _ fun _ => ⟨rfl, rfl⟩)

/-- **Allocating** leaves the list nodes of the blocks in use alone. -/
theorem allocPages_keeps (hi : Inv U R s F [] live) (hk : k < pageMaxOrder)
    (h : allocPages s k = (some p, s')) : Keeps R live s s' := by
  unfold allocPages getFreePages at h
  rcases hl : getFreePagesLoop s k (pageMaxOrder - k) k with _ | ⟨x, t⟩
  · rw [hl] at h
    cases h
  · rw [hl] at h
    simp only [Prod.mk.injEq, Option.some.injEq] at h
    obtain ⟨rfl, rfl⟩ := h
    have hloop := getLoop_keeps hi (by omega) le_rfl hl
    exact (hloop.trans (keeps_setHeads R live _ _ _)).trans (keeps_setHeads R live _ _ _)

/-! ### Freeing -/

/-- One merge of two free buddies, and its result put on its list. -/
lemma merge_keeps (hi : Inv R R s F [] live) (hp : p ∈ F k) (hb : p ^^^ 2 ^ k ∈ F k)
    (hk : k + 1 < pageMaxOrder) :
    Keeps R live s
      (freePageAdd (mergePages s p (p ^^^ 2 ^ k)).2 (min p (p ^^^ 2 ^ k)) (k + 1)) := by
  have hdel := hi.del hp
  have hb' : p ^^^ 2 ^ k ∈ Function.update F k ((F k).erase p) k := by
    rw [Function.update_self, (hi.nodup_free (by omega)).mem_erase_iff]
    exact ⟨buddy_ne p k, hb⟩
  have hdel' := hdel.del hb'
  have hgone := (Inv.keeps_del hi hp).trans (Inv.keeps_del hdel hb')
  obtain ⟨t, ht, hmerged⟩ : ∃ t, t.links = (freePageDel (freePageDel s p) (p ^^^ 2 ^ k)).links ∧
      Keeps R live s t ∧ t = (mergePages s p (p ^^^ 2 ^ k)).2 := by
    refine ⟨_, ?_, ?_, rfl⟩
    · unfold mergePages pageSetCompoundHead
      dsimp only
      rw [setHeads_links]
      rfl
    · unfold mergePages pageSetCompoundHead
      dsimp only
      refine (hgone.trans ?_).trans (keeps_setHeads R live _ _ _)
      exact (keeps_setPage R live _ p (f := fun pg => { pg with order := u32 (pg.order + 1) })
        fun _ => ⟨rfl, rfl⟩).trans (keeps_setPage R live _ _ fun _ => ⟨rfl, rfl⟩)
  obtain ⟨hkeep, rfl⟩ := hmerged
  have hmin : Node.page (min p (p ^^^ 2 ^ k)) ∈ territory R live := by
    rcases min_choice p (p ^^^ 2 ^ k) with he | he
    · rw [he]
      exact Inv.held_mem hdel' (b := ⟨p, k⟩) (by simp)
    · rw [he]
      exact Inv.held_mem hdel' (b := ⟨p ^^^ 2 ^ k, k⟩) (by simp)
  have hadd := (ht.symm ▸ hdel'.lists : Lists (mergePages s p (p ^^^ 2 ^ k)).2.links _ _).only_add
    (Inv.nodes_sub hdel') (area_mem hk) hmin
  exact hkeep.trans ⟨hadd, fun _ => rfl, fun _ => rfl⟩

lemma mergeLoop_keeps : ∀ {n : ℕ} {s : Mem} {F : ℕ → List ℕ} {l j : ℕ},
    Inv R R s F [] live → l ∈ F j → j + n = pageMaxOrder - 1 → MergeOk s.pageMap n l j →
      Keeps R live s (mergeLoop n s l)
  | 0, s, _, _, _, _, _, _, _ => Keeps.refl R live s
  | n + 1, s, F, l, j, hi, hl, hn, hok => by
    unfold mergeLoop
    simp only [loop_buddy hi hl]
    split_ifs with hfree
    · obtain ⟨hb, h1, h2, hok', ⟨F', h3, h4, -⟩, -⟩ := merge_turn hi hl hn hok hfree
      have hmerge := merge_keeps hi hl hb (by simp only [pageMaxOrder] at hn ⊢; omega)
      rw [h1, h2]
      exact hmerge.trans (mergeLoop_keeps h3 h4 (by omega) hok')
    · exact Keeps.refl R live s

/-- **Freeing** a block leaves the list nodes of the others alone. -/
theorem freePage_keeps {b : Block} (hi : Inv R R s F [] live) (hb : b ∈ live)
    (hok : MergeOk s.pageMap (pageMaxOrder - 1 - b.order) b.head b.order) :
    Keeps R (live.erase b) s (freePage s (b.head * pageSize)) := by
  obtain ⟨hk, hord, h1, hok'⟩ := free_entry hi hb hok
  have hinhand : Inv R R s F [b] (live.erase b) :=
    hi.repack (List.perm_cons_erase hb).symm fun c hc => hi.used c (List.mem_of_mem_erase hc)
  have hadd := (Inv.keeps_add hinhand hk (Inv.held_mem hinhand (List.mem_singleton_self b))).trans
    (keeps_setPage R (live.erase b) _ b.head (f := Page.setFree) fun _ => ⟨rfl, rfl⟩)
  unfold freePage freePages mergeFreePage
  simp only [physToPage_mul, (hi.used b hb).2, hord]
  exact hadd.trans (mergeLoop_keeps h1 (by simp)
    (by simp only [pageMaxOrder] at hk ⊢; omega) hok')

end Elfboot.BuddyFrame
