import Elfboot.BuddyInv

/-!
What `alloc_pages` and `free_page` do to the blocks.

Allocating is safe in every state. Freeing is safe as long as the merge loop, at each
buddy it finds marked free, finds a free block of the order it is merging at: the flag
alone does not say that, and the source looks at nothing else.
-/

namespace Elfboot.BuddyOps

open Elfboot.Circular Elfboot.Dyadic Elfboot.Word Elfboot.Mm Elfboot.PageAlloc
open Elfboot.BuddyInv

variable {U R : Set ℕ} {s s' : Mem} {F : ℕ → List ℕ} {live : List Block} {p k : ℕ}

/-- The heads recorded in the pages are the same. -/
def SameHeads (s s' : Mem) : Prop :=
  ∀ q, (s'.pageMap q).compoundHead = (s.pageMap q).compoundHead

lemma SameHeads.trans {s t u : Mem} (h : SameHeads s t) (h' : SameHeads t u) : SameHeads s u :=
  fun q => (h' q).trans (h q)

lemma sameHeads_setPage (s : Mem) (x : ℕ) {f : Page → Page}
    (hf : ∀ pg, (f pg).compoundHead = pg.compoundHead) : SameHeads s (s.setPage x f) := by
  intro q
  by_cases hq : q = x
  · subst hq; simp [Mem.setPage, hf]
  · simp [Mem.setPage, hq]

/-! ### Allocating -/

lemma freeAreaGetFirst_eq {held : List Block} (hi : Inv U R s F held live)
    (hk : k < pageMaxOrder) : freeAreaGetFirst s k = (F k).head? := by
  unfold freeAreaGetFirst
  rw [hi.lists.first (area_mem hk), areaLists_area]
  cases F k <;> simp

/-- A turn of the splitting loop: the right half of the block in hand goes on its list. -/
lemma fix_turn {j : ℕ} (hj : j + 1 < pageMaxOrder) (hi : Inv U R s F [⟨p, j + 1⟩] live) :
    p ^^^ 2 ^ j = p + 2 ^ j ∧ pageBuddy s p j = p + 2 ^ j ∧
      Inv U R (freePageAdd (s.setPage (p + 2 ^ j) fun pg : Page => { pg with order := j }.setFree)
        (p + 2 ^ j) j) (Function.update F j ((p + 2 ^ j) :: F j)) [⟨p, j⟩] live := by
  have hp : (⟨p, j + 1⟩ : Block) ∈ [⟨p, j + 1⟩] ++ live := by simp
  have hpR := hi.block_mem hp
  have hleft : p ^^^ 2 ^ j = p + 2 ^ j := buddy_of_left (hi.tiling.aligned _ (Or.inr hp))
  have hbud : pageBuddy s p j = p + 2 ^ j := by
    rw [pageBuddy_eq (hi.paddr p hpR) (hi.bound p hpR) (by omega), hleft]
  have hs := hi.split
  have hb : (⟨p + 2 ^ j, j⟩ : Block) ∈ [⟨p, j⟩, ⟨p + 2 ^ j, j⟩] ++ live := by simp
  have h1 := hs.setPage (f := fun pg : Page => { pg with order := j }.setFree) (hs.block_mem hb)
    (hs.head_notMem hb) (fun b hb' => hs.head_ne (b := ⟨p + 2 ^ j, j⟩) (by simp) hb')
    (fun pg => rfl)
  have hswap : List.Perm ((⟨p + 2 ^ j, j⟩ :: [⟨p, j⟩] : List Block) ++ live)
      ([⟨p, j⟩, ⟨p + 2 ^ j, j⟩] ++ live) := List.Perm.swap ..
  have h2 := h1.repack hswap h1.used
  exact ⟨hleft, hbud, h2.add (by omega) (by simp [Mem.setPage])
    (by simp [Mem.setPage, Page.setFree])⟩

/-- The splitting loop leaves the left part of the block in hand. -/
lemma fixLoop_spec (hkj : k ≤ j) (hj : j < pageMaxOrder) :
    ∀ {s : Mem} {F : ℕ → List ℕ}, Inv U R s F [⟨p, j⟩] live →
      ∃ F', Inv U R (freePageFixLoop p k j s) F' [⟨p, k⟩] live ∧
        SameHeads s (freePageFixLoop p k j s) ∧ (Coalesced F → Coalesced F') := by
  induction j with
  | zero =>
      intro s F hi
      obtain rfl : k = 0 := by omega
      exact ⟨F, hi, fun _ => rfl, id⟩
  | succ j ih =>
      intro s F hi
      unfold freePageFixLoop
      rcases Nat.lt_or_ge k (j + 1) with hlt | hge
      · rw [if_pos hlt]
        obtain ⟨hleft, hbud, h3⟩ := fix_turn hj hi
        obtain ⟨F', h4, h5, h6⟩ := ih (by omega) (by omega) h3
        refine ⟨F', ?_, ?_, fun hc => h6 ?_⟩
        · simpa only [hbud] using h4
        · rw [hbud]
          let mark : Page → Page := fun pg => { pg with order := j }.setFree
          exact (sameHeads_setPage s (p + 2 ^ j) (f := mark) (fun pg => rfl)).trans h5
        · -- the left half is in hand
          have hback : (p + 2 ^ j) ^^^ 2 ^ j = p := by rw [← hleft, buddy_buddy]
          refine (hc.insert fun i q hq => mem_update_cons.mp hq).coalesced fun _ _ => ?_
          rw [hback]
          exact h3.head_notMem (b := ⟨p, j⟩) (by simp) j
      · rw [if_neg (by omega)]
        obtain rfl : k = j + 1 := by omega
        exact ⟨F, hi, fun _ => rfl, id⟩

lemma getLoop_none (hi : Inv U R s F [] live) :
    ∀ {n j : ℕ}, j + n = pageMaxOrder → getFreePagesLoop s k n j = none →
      ∀ i, j ≤ i → F i = []
  | 0, j, hn, _, i, hji => hi.small i (by omega)
  | n + 1, j, hn, h, i, hji => by
    unfold getFreePagesLoop at h
    rw [freeAreaGetFirst_eq hi (by omega)] at h
    rcases hF : F j with _ | ⟨x, l⟩
    · rw [hF] at h
      rcases Nat.eq_or_lt_of_le hji with rfl | hlt
      · exact hF
      · exact getLoop_none hi (by omega) h i hlt
    · rw [hF] at h; simp at h

lemma getLoop_some (hi : Inv U R s F [] live) :
    ∀ {n j : ℕ}, j + n = pageMaxOrder → k ≤ j → getFreePagesLoop s k n j = some (p, s') →
      ∃ F' i, j ≤ i ∧ i < pageMaxOrder ∧ (F i).head? = some p ∧ (∀ m, j ≤ m → m < i → F m = []) ∧
        Inv U R s' F' [] (⟨p, k⟩ :: live) ∧ SameHeads s s' ∧ (Coalesced F → Coalesced F')
  | 0, j, _, _, h => by simp [getFreePagesLoop] at h
  | n + 1, j, hn, hkj, h => by
    unfold getFreePagesLoop at h
    rw [freeAreaGetFirst_eq hi (by omega)] at h
    rcases hF : F j with _ | ⟨x, l⟩
    · rw [hF] at h
      obtain ⟨F', i, h1, h2, h3, h4, h5, h6⟩ := getLoop_some hi (by omega) (by omega) h
      refine ⟨F', i, by omega, h2, h3, fun m hm hmi => ?_, h5, h6⟩
      rcases Nat.eq_or_lt_of_le hm with rfl | hlt
      · exact hF
      · exact h4 m hlt hmi
    · rw [hF] at h
      simp only [List.head?_cons, Option.some.injEq, Prod.mk.injEq] at h
      obtain ⟨rfl, rfl⟩ := h
      have hx : x ∈ F j := by simp [hF]
      have hord : ((freePageDel s x).pageMap x).order = j := (hi.free j x hx).2
      obtain ⟨F', h1, h2, h3⟩ := fixLoop_spec hkj (by omega) (hi.del hx)
      refine ⟨F', j, le_rfl, by omega, by simp [hF], fun m hm hmj => by omega, ?_, ?_, fun hc =>
        h3 (hc.mono fun i q hq => ?_)⟩
      · unfold freePageFix; rw [hord]; exact h1.take
      · unfold freePageFix; rw [hord]
        have h4 : SameHeads s (freePageDel s x) := fun _ => rfl
        exact (h4.trans h2).trans (sameHeads_setPage _ _ (fun pg => rfl))
      · rcases mem_update.mp hq with ⟨rfl, hq⟩ | ⟨-, hq⟩
        · exact List.mem_of_mem_erase hq
        · exact hq

/-- **Allocation fails** only if there is no free block of the order or a larger one, and
changes nothing then. -/
lemma allocPages_none (hi : Inv U R s F [] live) (hk : k < pageMaxOrder)
    (h : (allocPages s k).1 = none) : (allocPages s k).2 = s ∧ ∀ i, k ≤ i → F i = [] := by
  unfold allocPages getFreePages at h ⊢
  rcases hl : getFreePagesLoop s k (pageMaxOrder - k) k with _ | ⟨p, t⟩
  · exact ⟨rfl, getLoop_none hi (by omega) hl⟩
  · rw [hl] at h; simp at h

/-- **Allocation** moves a block from the lists to the blocks in use. It is the first block
of its list, split if its order is larger; the heads are written over the block and over
the range of its buddy. -/
theorem allocPages_spec (hi : Inv U R s F [] live) (hk : k < pageMaxOrder)
    (h : allocPages s k = (some p, s')) :
    ∃ F' i, k ≤ i ∧ i < pageMaxOrder ∧ (F i).head? = some p ∧ (∀ m, k ≤ m → m < i → F m = []) ∧
      Inv U R s' F' [] (⟨p, k⟩ :: live) ∧ (Coalesced F → Coalesced F') ∧
      ∀ q, (s'.pageMap q).compoundHead =
        if p ^^^ 2 ^ k ≤ q ∧ q < (p ^^^ 2 ^ k) + 2 ^ k then p ^^^ 2 ^ k
        else if p ≤ q ∧ q < p + 2 ^ k then p else (s.pageMap q).compoundHead := by
  unfold allocPages getFreePages at h
  rcases hl : getFreePagesLoop s k (pageMaxOrder - k) k with _ | ⟨x, t⟩
  · rw [hl] at h; simp at h
  · rw [hl] at h
    simp only [Prod.mk.injEq, Option.some.injEq] at h
    obtain ⟨rfl, rfl⟩ := h
    obtain ⟨F', i, h1, h2, h3, h4, h5, h6, hc⟩ := getLoop_some hi (by omega) le_rfl hl
    have hxR : x ∈ R := h5.block_mem (b := ⟨x, k⟩) (by simp)
    have h7 := h5.setHeads x (2 ^ k)
    have hbud : pageBuddy (pageSetCompoundHead t x k) x k = x ^^^ 2 ^ k :=
      pageBuddy_eq (h7.paddr x hxR) (h7.bound x hxR) hk
    refine ⟨F', i, h1, h2, h3, h4, ?_, hc, fun q => ?_⟩
    · exact h7.setHeads _ _
    · rw [hbud]
      simp only [pageSetCompoundHead, setHeads_pageMap, ← h6 q]
      split_ifs <;> rfl

/-! ### Freeing -/

/-- At every buddy the merge loop gets to and finds marked free, the order is the one it
merges at. It is a condition on the pages before the step: `n` turns from the block of the
given order at `page`. -/
def MergeOk (pages : ℕ → Page) : ℕ → ℕ → ℕ → Prop
  | 0, _, _ => True
  | n + 1, page, order =>
    (pages (page ^^^ 2 ^ order)).isFree = true →
      (pages (page ^^^ 2 ^ order)).order = order ∧
        MergeOk pages n (min page (page ^^^ 2 ^ order)) (order + 1)

/-- The loop only looks at pages outside the block it has merged so far. -/
lemma mergeOk_congr {pages pages' : ℕ → Page} : ∀ {n l j : ℕ}, 2 ^ j ∣ l →
    (∀ q, q ∉ (⟨l, j⟩ : Block).pages → (pages' q).isFree = (pages q).isFree ∧
      (pages' q).order = (pages q).order) →
    MergeOk pages n l j → MergeOk pages' n l j
  | 0, _, _, _, _, _ => trivial
  | n + 1, l, j, hal, hoff, h => by
    have hpos : 0 < 2 ^ j := Nat.two_pow_pos j
    have hk : 2 ^ (j + 1) = 2 ^ j + 2 ^ j := by ring
    obtain ⟨hdvd, hbuddy⟩ := min_buddy hal
    have hb : l ^^^ 2 ^ j ∉ (⟨l, j⟩ : Block).pages := by
      rw [mem_pages]; dsimp only
      omega
    obtain ⟨hf, ho⟩ := hoff _ hb
    intro hfree
    obtain ⟨h1, h2⟩ := h (hf ▸ hfree)
    refine ⟨ho.trans h1, mergeOk_congr hdvd (fun q hq => hoff q fun hm => hq ?_) h2⟩
    rw [mem_pages] at hm ⊢; dsimp only at hm ⊢
    omega

/-- One merge: two free buddies become the block in hand they form, and it is put back. -/
lemma merge_spec (hi : Inv U R s F [] live) (hp : p ∈ F k) (hb : p ^^^ 2 ^ k ∈ F k)
    (hk : k + 1 < pageMaxOrder) :
    let l := min p (p ^^^ 2 ^ k)
    let m := mergePages s p (p ^^^ 2 ^ k)
    m.1 = l ∧ (m.2.pageMap l).order = k + 1 ∧
      (∃ F', Inv U R (freePageAdd m.2 l (k + 1)) F' [] live ∧ l ∈ F' (k + 1) ∧
        (CoalescedBut F p k → CoalescedBut F' l (k + 1))) ∧
      ∀ q, ¬ (l ≤ q ∧ q < l + 2 ^ (k + 1)) → m.2.pageMap q = s.pageMap q := by
  intro l m
  obtain ⟨hall, hbuddy⟩ := min_buddy (hi.tiling.aligned ⟨p, k⟩ (Or.inl hp) : 2 ^ k ∣ p)
  change 2 ^ (k + 1) ∣ l at hall
  change p = l ∧ p ^^^ 2 ^ k = l + 2 ^ k ∨ p = l + 2 ^ k ∧ p ^^^ 2 ^ k = l at hbuddy
  have hne : p ^^^ 2 ^ k ≠ p := buddy_ne p k
  have hpow : 2 ^ (k + 1) = 2 ^ k + 2 ^ k := by ring
  have hpos : 0 < 2 ^ k := Nat.two_pow_pos k
  -- both are taken off their list
  have h1 := hi.del hp
  have hb1 : p ^^^ 2 ^ k ∈ Function.update F k ((F k).erase p) k := by
    rw [Function.update_self, (hi.nodup_free (by omega)).mem_erase_iff]
    exact ⟨hne, hb⟩
  have h2 := h1.del hb1
  generalize hF2 : Function.update (Function.update F k ((F k).erase p)) k _ = F2 at h2
  have hmem : ∀ j q, q ∈ F2 j → q ∈ F j ∧ ¬ (j = k ∧ (q = p ∨ q = p ^^^ 2 ^ k)) := by
    intro j q hq
    rw [← hF2, Function.update_self] at hq
    rcases mem_update.mp hq with ⟨rfl, hq⟩ | ⟨hj, hq⟩
    · have hnd := hi.nodup_free (k := j) (by omega)
      rw [(hnd.erase p).mem_erase_iff, hnd.mem_erase_iff] at hq
      exact ⟨hq.2.2, fun h => h.2.elim hq.2.1 hq.1⟩
    · rw [Function.update_of_ne hj] at hq
      exact ⟨hq, fun h => hj h.1⟩
  set t := freePageDel (freePageDel s p) (p ^^^ 2 ^ k) with ht
  -- their orders are raised
  let up : Page → Page := fun pg => { pg with order := u32 (pg.order + 1) }
  have hpm : (⟨p, k⟩ : Block) ∈ [⟨p ^^^ 2 ^ k, k⟩, ⟨p, k⟩] ++ live := by simp
  have hbm : (⟨p ^^^ 2 ^ k, k⟩ : Block) ∈ [⟨p ^^^ 2 ^ k, k⟩, ⟨p, k⟩] ++ live := by simp
  have h3 := h2.setPage (f := up) (h2.block_mem hpm) (h2.head_notMem hpm)
    (fun c hc => h2.head_ne (b := ⟨p, k⟩) (by simp) hc) (fun pg => rfl)
  have h4 := h3.setPage (f := up) (h3.block_mem hbm) (h3.head_notMem hbm)
    (fun c hc => h3.head_ne (b := ⟨p ^^^ 2 ^ k, k⟩) (by simp) hc) (fun pg => rfl)
  set u := (t.setPage p up).setPage (p ^^^ 2 ^ k) up with hu
  have hup : ∀ q, q = p ∨ q = p ^^^ 2 ^ k →
      (u.pageMap q).isFree = true ∧ (u.pageMap q).order = k + 1 := by
    have hk1 : u32 (k + 1) = k + 1 := u32_of_lt (by simp only [pageMaxOrder] at hk; omega)
    have hb' := hi.free k _ hb
    have hp' := hi.free k p hp
    rintro q (rfl | rfl)
    · simp [hu, Mem.setPage, up, ht, freePageDel, Mem.setNrFree, hne.symm, hp'.2, hk1, Page.isFree]
      simpa [Page.isFree] using hp'.1
    · simp [hu, Mem.setPage, up, ht, freePageDel, Mem.setNrFree, hne, hb'.2, hk1, Page.isFree]
      simpa [Page.isFree] using hb'.1
  have hleft : (if (u.pageMap p).paddr < (u.pageMap (p ^^^ 2 ^ k)).paddr then p
      else p ^^^ 2 ^ k) = l := by
    rw [h4.paddr p (h4.block_mem hpm), h4.paddr _ (h4.block_mem hbm)]
    have hlt : p * pageSize < (p ^^^ 2 ^ k) * pageSize ↔ p < p ^^^ 2 ^ k :=
      Nat.mul_lt_mul_right (by decide)
    simp only [hlt, l, min_def]
    split_ifs <;> omega
  have hl : l = p ∨ l = p ^^^ 2 ^ k := hbuddy.imp (·.1.symm) (·.2.symm)
  have hm : m = (l, pageSetCompoundHead u l (k + 1)) := by
    have : m = (if (u.pageMap p).paddr < (u.pageMap (p ^^^ 2 ^ k)).paddr then p
        else p ^^^ 2 ^ k, pageSetCompoundHead u (if (u.pageMap p).paddr <
          (u.pageMap (p ^^^ 2 ^ k)).paddr then p else p ^^^ 2 ^ k) (u.pageMap (if
          (u.pageMap p).paddr < (u.pageMap (p ^^^ 2 ^ k)).paddr then p
          else p ^^^ 2 ^ k)).order) := rfl
    rw [this, hleft, (hup l hl).2]
  -- the two halves in order, glued
  have h5 : Inv U R u F2 [⟨l, k⟩, ⟨l + 2 ^ k, k⟩] live := by
    refine h4.repack ?_ h4.used
    rcases hbuddy with ⟨hl, hr⟩ | ⟨hr, hl⟩
    · rw [← hl, ← hr.trans (congrArg (· + 2 ^ k) hl.symm)]
      exact List.Perm.swap ..
    · rw [← hr, ← hl]
  have h6 := (h5.join hall).setHeads l (2 ^ (k + 1))
  have hhead : ∀ q, ((pageSetCompoundHead u l (k + 1)).pageMap q).isFree = (u.pageMap q).isFree ∧
      ((pageSetCompoundHead u l (k + 1)).pageMap q).order = (u.pageMap q).order := by
    intro q
    simp only [pageSetCompoundHead, setHeads_pageMap]
    split_ifs <;> simp [Page.isFree]
  have h7 := h6.add hk ((hhead l).1.trans (hup l hl).1) ((hhead l).2.trans (hup l hl).2)
  refine ⟨by rw [hm], ?_, ⟨Function.update F2 (k + 1) (l :: F2 (k + 1)), ?_, by simp,
    fun hc => hc.merge fun j q hq => ?_⟩, fun q hq => ?_⟩
  · rw [hm]; exact (hhead l).2.trans (hup l hl).2
  · rw [hm]; exact h7
  · exact (mem_update_cons.mp hq).imp_right (hmem j q)
  · rw [hm]
    have hqp : q ≠ p ∧ q ≠ p ^^^ 2 ^ k := by omega
    simp [pageSetCompoundHead, setHeads_pageMap, hq, hu, Mem.setPage, hqp.1, hqp.2, ht,
      freePageDel, Mem.setNrFree]

/-- A free block has no page in common with a block in use. -/
lemma free_live_disjoint (hi : Inv U R s F [] live) (hp : p ∈ F k) {b : Block} (hb : b ∈ live)
    {q : ℕ} (hq : q ∈ b.pages) : q ∉ (⟨p, k⟩ : Block).pages := by
  intro hq'
  have := hi.tiling.uniq ⟨p, k⟩ (Or.inl hp) b (Or.inr hb) q hq' hq
  exact hi.sep k p hp (by rw [this]; exact hb)

/-- The buddy found free is a free block, of the order at its head. -/
lemma buddy_free (hi : Inv R R s F [] live) (hp : p ∈ F k)
    (hfree : (s.pageMap (p ^^^ 2 ^ k)).isFree = true) :
    p ^^^ 2 ^ k ∈ F (s.pageMap (p ^^^ 2 ^ k)).order := by
  have hR : p ^^^ 2 ^ k ∈ R := by
    by_contra hR
    rw [hi.outside _ hR] at hfree
    simp at hfree
  obtain ⟨m, -, hm⟩ := hi.tiling.buddy_block (Or.inl hp) hR
  rcases hm with hm | hm
  · rw [(hi.free m _ hm).2]; exact hm
  · rw [(hi.used _ hm).1] at hfree
    simp at hfree

/-- A turn of the merge loop, where it finds the buddy marked free. -/
lemma merge_turn {n l j : ℕ} (hi : Inv R R s F [] live) (hl : l ∈ F j)
    (hn : j + (n + 1) = pageMaxOrder - 1) (hok : MergeOk s.pageMap (n + 1) l j)
    (hfree : (s.pageMap (l ^^^ 2 ^ j)).isFree = true) :
    let l' := min l (l ^^^ 2 ^ j)
    let m := mergePages s l (l ^^^ 2 ^ j)
    l ^^^ 2 ^ j ∈ F j ∧ m.1 = l' ∧ (m.2.pageMap l').order = j + 1 ∧
      MergeOk (freePageAdd m.2 l' (j + 1)).pageMap n l' (j + 1) ∧
      (∃ F', Inv R R (freePageAdd m.2 l' (j + 1)) F' [] live ∧ l' ∈ F' (j + 1) ∧
        (CoalescedBut F l j → CoalescedBut F' l' (j + 1))) ∧
      ∀ b ∈ live, ∀ q ∈ b.pages,
        (m.2.pageMap q).compoundHead = (s.pageMap q).compoundHead := by
  obtain ⟨hbo, hok'⟩ := hok hfree
  have hb : l ^^^ 2 ^ j ∈ F j := by simpa only [hbo] using buddy_free hi hl hfree
  obtain ⟨h1, h2, ⟨F', h3, h4, hc⟩, h5⟩ :=
    merge_spec hi hl hb (by simp only [pageMaxOrder] at hn ⊢; omega)
  refine ⟨hb, h1, h2, ?_, ⟨F', h3, h4, hc⟩, fun b hb' q hq => ?_⟩
  · refine mergeOk_congr (h3.tiling.aligned ⟨_, j + 1⟩ (Or.inl h4)) (fun q hq => ?_) hok'
    rw [show (freePageAdd (mergePages s l (l ^^^ 2 ^ j)).2 (min l (l ^^^ 2 ^ j))
      (j + 1)).pageMap q = s.pageMap q from h5 q hq]
    exact ⟨rfl, rfl⟩
  · exact congrArg Page.compoundHead (h5 q (free_live_disjoint h3 h4 hb' hq))

/-- The buddy the merge loop looks at. -/
lemma loop_buddy {j l : ℕ} (hi : Inv U R s F [] live) (hl : l ∈ F j) :
    pageBuddy s l (s.pageMap l).order = l ^^^ 2 ^ j := by
  have hlR := hi.free_mem hl
  rw [(hi.free j l hl).2]
  exact pageBuddy_eq (hi.paddr l hlR) (hi.bound l hlR) (hi.order_lt hl)

lemma mergeLoop_spec : ∀ {n : ℕ} {s : Mem} {F : ℕ → List ℕ} {l j : ℕ},
    Inv R R s F [] live → l ∈ F j → j + n = pageMaxOrder - 1 → MergeOk s.pageMap n l j →
      ∃ F', Inv R R (mergeLoop n s l) F' [] live ∧ (CoalescedBut F l j → Coalesced F') ∧
        ∀ b ∈ live, ∀ q ∈ b.pages,
          ((mergeLoop n s l).pageMap q).compoundHead = (s.pageMap q).compoundHead
  | 0, s, F, l, j, hi, _, hn, _ =>
    ⟨F, hi, fun hc => hc.coalesced fun hj => by omega, fun _ _ _ _ => rfl⟩
  | n + 1, s, F, l, j, hi, hl, hn, hok => by
    unfold mergeLoop
    simp only [loop_buddy hi hl]
    by_cases hfree : (s.pageMap (l ^^^ 2 ^ j)).isFree = true
    · obtain ⟨-, h1, h2, hok', ⟨F', h3, h4, hc⟩, h5⟩ := merge_turn hi hl hn hok hfree
      rw [if_pos hfree, h1, h2]
      obtain ⟨F'', h6, hc', h7⟩ := mergeLoop_spec h3 h4 (by omega) hok'
      exact ⟨F'', h6, hc' ∘ hc, fun b hb q hq => (h7 b hb q hq).trans (h5 b hb q hq)⟩
    · rw [if_neg hfree]
      refine ⟨F, hi, fun hc => hc.coalesced fun _ _ hb => hfree (hi.free j _ hb).1, ?_⟩
      exact fun _ _ _ _ => rfl

/-- `__free_pages` before it merges: the block is back on the list of its order. -/
lemma free_entry {b : Block} (hi : Inv R R s F [] live) (hb : b ∈ live)
    (hok : MergeOk s.pageMap (pageMaxOrder - 1 - b.order) b.head b.order) :
    let t := (freePageAdd s b.head b.order).setPage b.head Page.setFree
    b.order < pageMaxOrder ∧ (t.pageMap b.head).order = b.order ∧
      Inv R R t (Function.update F b.order (b.head :: F b.order)) [] (live.erase b) ∧
      MergeOk t.pageMap (pageMaxOrder - 1 - b.order) b.head b.order := by
  intro t
  have ht : t = freePageAdd (s.setPage b.head Page.setFree) b.head b.order := rfl
  have hused := hi.used b hb
  have h1 : Inv R R s F [b] (live.erase b) :=
    hi.repack (List.perm_cons_erase hb).symm fun c hc => hi.used c (List.mem_of_mem_erase hc)
  have hbm : b ∈ [b] ++ live.erase b := by simp
  have hk : b.order < pageMaxOrder := by
    by_contra hge
    have hsub := hi.tiling.sub b (Or.inr hb)
    have hmem : b.head + 2 ^ b.order - 1 ∈ b.pages := by
      have := Nat.two_pow_pos b.order
      rw [mem_pages]; omega
    have hbd := hi.bound _ (hsub hmem)
    have : 2 ^ pageMaxOrder ≤ 2 ^ b.order := Nat.pow_le_pow_right (by decide) (by omega)
    simp only [memoryLimit, pageSize, pageMaxOrder] at hbd this
    omega
  have h2 := h1.setPage (f := Page.setFree) (h1.block_mem hbm) (h1.head_notMem hbm)
    (fun c hc => h1.head_ne (b := b) (by simp) hc) (fun pg => rfl)
  have hord : ((s.setPage b.head Page.setFree).pageMap b.head).order = b.order := by
    simp [Mem.setPage, Page.setFree, hused.2]
  refine ⟨hk, hord, ?_, ?_⟩
  · rw [ht]
    exact Inv.add (p := b.head) (k := b.order) h2 hk (by simp [Mem.setPage]) hord
  · refine mergeOk_congr (hi.tiling.aligned b (Or.inr hb)) (fun q hq => ?_) hok
    have hne : q ≠ b.head := by rintro rfl; exact hq (head_mem b)
    simp [ht, freePageAdd, Mem.setNrFree, Mem.setPage, hne]

/-- **Freeing** a block in use, where the merge loop meets no block of another order, takes
it off the blocks in use and changes the head of no page of another one. -/
theorem freePage_spec {b : Block} (hi : Inv R R s F [] live) (hb : b ∈ live)
    (hok : MergeOk s.pageMap (pageMaxOrder - 1 - b.order) b.head b.order) :
    ∃ F', Inv R R (freePage s (b.head * pageSize)) F' [] (live.erase b) ∧
      (Coalesced F → Coalesced F') ∧ ∀ c ∈ live.erase b, ∀ q ∈ c.pages,
        ((freePage s (b.head * pageSize)).pageMap q).compoundHead = (s.pageMap q).compoundHead := by
  obtain ⟨hk, hord, h1, hok'⟩ := free_entry hi hb hok
  unfold freePage freePages mergeFreePage
  simp only [physToPage_mul, (hi.used b hb).2, hord]
  obtain ⟨F', h2, hco, h3⟩ := mergeLoop_spec h1 (by simp)
    (by simp only [pageMaxOrder] at hk ⊢; omega) hok'
  refine ⟨F', h2, fun hc => hco (hc.insert fun i q hq => mem_update_cons.mp hq),
    fun c hc q hq => (h3 c hc q hq).trans ?_⟩
  exact sameHeads_setPage s b.head (f := Page.setFree) (fun pg => rfl) q

end Elfboot.BuddyOps
