import Elfboot.BuddyFrame
import Elfboot.BuddyLists
import Elfboot.BuddyRuns
import Elfboot.Heap
import Elfboot.SlubFrame

/-!
The page allocator under the slab allocator.

What the slab allocator writes is in no free area, so the blocks stay as they are; and what the page
allocator writes is in no slab, so it keeps to the contract that the slab allocator relies on.
-/

namespace Elfboot.HeapPages

open Elfboot.Circular Elfboot.Dyadic Elfboot.Word Elfboot.Mm Elfboot.Slub Elfboot.SlubInv
open Elfboot.SlubOps Elfboot.BuddyBoot Elfboot.BuddyRuns Elfboot.Heap
open Elfboot.PageAlloc (pageMaxOrder)

variable {C : Caches} {regions : List Region} {s t : Heap.Mem} {slub : Slub.Mem}
variable {blocks blocks' : List Block} {slabs : List Slab} {live : List Obj} {order page : ℕ}

/-- The block of a slab. -/
def block (b : Slab) : Block := ⟨b.page, b.order⟩

/-- The blocks in use and the free ones tile the boot regions, and the pages in use name the first
one of their block. -/
structure PagesOk (regions : List Region) (s : Heap.Mem) (blocks : List Block) : Prop where
  tiled : Tiled regions ⟨s.pages, blocks⟩
  heads : HeadsRight ⟨s.pages, blocks⟩

/-- The slabs are among the blocks in use. -/
def Among (slabs : List Slab) (blocks : List Block) : Prop :=
  ∀ b ∈ slabs, block b ∈ blocks ∧ b.page + 2 ^ b.order ≤ pagesEnd

/-! ### The nodes -/

lemma slubNode_page {q : ℕ} (h : q < pagesEnd) : slubNode (.page q) = .page q := by
  simp [slubNode, h]

lemma pagesNode_page {q : ℕ} (h : q < pagesEnd) : pagesNode (.page q) = .page q := by
  simp [pagesNode, h]

/-- An object is no node of the page allocator. -/
lemma obj_not_pages (a : ℕ) :
    pagesNode (.obj a) ∉ BuddyFrame.territory (regionPages regions) blocks := by
  rintro (⟨k, hk, he⟩ | ⟨q, -, he, -⟩)
  · have hnum := PageAlloc.Node.area.inj he
    omega
  · cases he

/-- Nor are the nodes that the slab allocator writes. -/
lemma slub_not_pages (hs : Among slabs blocks) {x : Slub.Node}
    (hx : x ∈ SlubFrame.territory C slabs live) :
    pagesNode x ∉ BuddyFrame.territory (regionPages regions) blocks := by
  have harea : ∀ n, PageAlloc.Node.area (pageMaxOrder + n) ∉
      BuddyFrame.territory (regionPages regions) blocks := by
    rintro n (⟨k, hk, he⟩ | ⟨q, -, he, -⟩)
    · have hnum := PageAlloc.Node.area.inj he
      omega
    · cases he
  rcases hx with (⟨c, rfl | rfl | rfl⟩ | ⟨b, -, rfl⟩) | ⟨b, hb, rfl⟩ | ⟨b, -, a, -, -, a', rfl, -⟩
  · exact harea _
  · exact harea _
  · exact harea _
  · rintro (⟨k, -, he⟩ | ⟨q, -, he, -⟩) <;> cases he
  · obtain ⟨hblock, hbound⟩ := hs b hb
    have hpos := Nat.two_pow_pos b.order
    rw [pagesNode_page (by omega)]
    rintro (⟨k, -, he⟩ | ⟨q, -, he, hnot⟩)
    · cases he
    · cases he
      exact hnot _ hblock (head_mem (block b))
  · exact obj_not_pages a'

/-- A node that is none of the pages outside of the slabs is no node of the page allocator. -/
lemma owned_not_pages (hs : Among slabs blocks) {x : Slub.Node}
    (hx : ∀ q, x = .page q → ∃ b ∈ slabs, Owns b q) :
    pagesNode x ∉ BuddyFrame.territory (regionPages regions) blocks := by
  rintro (⟨k, hk, he⟩ | ⟨q, hq, he, hnot⟩)
  · obtain rfl : x = .page (pagesEnd + k) := by
      rw [← slubNode_pagesNode x, he]
      simp only [slubNode, if_pos hk]
    obtain ⟨b, hb, -, hlt⟩ := hx _ rfl
    have hbound := (hs b hb).2
    omega
  · by_cases hend : q < pagesEnd
    · obtain rfl : x = .page q := by rw [← slubNode_pagesNode x, he, slubNode_page hend]
      obtain ⟨b, hb, hown⟩ := hx _ rfl
      exact hnot _ (hs b hb).1 hown
    · obtain rfl : x = .page (q + pageMaxOrder) := by
        rw [← slubNode_pagesNode x, he]
        simp only [slubNode, if_neg hend]
      obtain ⟨b, hb, -, hlt⟩ := hx _ rfl
      have hbound := (hs b hb).2
      omega

/-! ### What the slab allocator writes -/

/-- **The blocks stay** when the slab allocator, or who holds an object, writes to the memory. -/
theorem PagesOk.write (h : PagesOk regions s blocks) {W : Set Slub.Node}
    (hk : SlubFrame.Keeps W s.slub slub)
    (hW : ∀ x ∈ W, pagesNode x ∉ BuddyFrame.territory (regionPages regions) blocks) :
    PagesOk regions { s with slub } blocks := by
  obtain ⟨F, hi⟩ := h.tiled
  have hlinks := hk.links.relabel nodeNames.symm
  have hlists := hi.lists.only hlinks (Set.disjoint_left.mpr fun x hx hn => by
    refine hW (slubNode x) hx ?_
    rw [pagesNode_slubNode]
    exact BuddyFrame.Inv.nodes_sub hi hn)
  refine ⟨⟨F, hlists, hi.small, hi.count, hi.sub, hi.bound, hi.tiling, hi.sep, hi.nodup, hi.free,
    hi.used, fun q hq => ?_, hi.outside⟩, fun b hb q hq => ?_⟩
  · exact (hk.paddr q).trans (hi.paddr q hq)
  · exact (hk.head q).trans (h.heads b hb q hq)

lemma PagesOk.congr (h : PagesOk regions s blocks) (he : t.pages = s.pages) :
    PagesOk regions t blocks :=
  ⟨he ▸ h.tiled, he ▸ h.heads⟩

lemma PagesOk.perm (h : PagesOk regions s blocks) (hp : blocks'.Perm blocks) :
    PagesOk regions s blocks' := by
  obtain ⟨F, hi⟩ := h.tiled
  have hp' : ([] ++ blocks').Perm ([] ++ blocks) := hp
  refine ⟨⟨F, hi.repack hp' fun b hb => ?_⟩, fun b hb => ?_⟩
  · exact hi.used b (hp.mem_iff.mp hb)
  · exact h.heads b (hp.mem_iff.mp hb)

/-! ### What the page allocator writes -/

/-- **The slabs stay** when the page allocator works. -/
theorem frame_of_keeps {m : PageAlloc.Mem} (hs : Among slabs blocks) (hs' : Among slabs blocks')
    (hk : BuddyFrame.Keeps (regionPages regions) blocks s.pages m)
    (hh : HeadsRight ⟨s.pages, blocks⟩) (hh' : HeadsRight ⟨m, blocks'⟩) :
    Frame slabs s.slub.pageMap s.slub.links (s.setPages m).slub.pageMap
      (s.setPages m).slub.links := by
  refine ⟨fun b hb q hq => ?_, fun x hx => ?_⟩
  · have hpaddr := hk.paddr q
    have hinuse := hk.inuse q
    have hhead : (m.pageMap q).compoundHead = (s.slub.pageMap q).compoundHead := by
      rw [hh' _ (hs' b hb).1 q hq]
      exact (hh _ (hs b hb).1 q hq).symm
    change Slub.Page.mk _ _ _ _ = s.slub.pageMap q
    rw [hpaddr, hhead, hinuse]
    rfl
  · have hlinks := hk.links.relabel nodeNames x (owned_not_pages hs hx)
    change _ = ((s.slub.links.relabel nodeNames.symm).relabel nodeNames).next x ∧
      _ = ((s.slub.links.relabel nodeNames.symm).relabel nodeNames).prev x at hlinks
    rw [Links.relabel_symm] at hlinks
    exact hlinks

/-- A block that `alloc_pages` has given: it is one of the boot regions, none of its pages are in a
block in use, and each names its first page. -/
structure Given (regions : List Region) (blocks : List Block) (m : PageAlloc.Mem) (b : Block) :
    Prop where
  inside : b.pages ⊆ regionPages regions
  apart : ∀ c ∈ blocks, Disjoint b.pages c.pages
  head : ∀ q ∈ b.pages, (m.pageMap q).compoundHead = b.head
  paddr : (m.pageMap b.head).paddr = b.head * pageSize

lemma allocPages_none (h : (Heap.allocPages s order).1 = none)
    (ht : Tiled regions ⟨s.pages, blocks⟩) :
    (Heap.allocPages s order).2 = s := by
  obtain ⟨F, hi⟩ := ht
  have hsame : (PageAlloc.allocPages s.pages order).2 = s.pages := by
    rcases Nat.lt_or_ge order pageMaxOrder with hlt | hge
    · exact (BuddyOps.allocPages_none hi hlt h).1
    · rw [BuddyLists.alloc_tooLarge hge]
  change s.setPages (PageAlloc.allocPages s.pages order).2 = s
  rw [hsame]
  simp [Mem.setPages, Mem.pages]

/-- **`alloc_pages`** gives a block, and the ones in use stay. -/
theorem PagesOk.alloc (h : PagesOk regions s blocks)
    (hu : BuddyUnsplit ⟨s.pages, blocks⟩ (.alloc order))
    (ha : Heap.allocPages s order = (some page, t)) :
    PagesOk regions t (⟨page, order⟩ :: blocks) ∧
      BuddyFrame.Keeps (regionPages regions) blocks s.pages t.pages ∧
      Given regions blocks t.pages ⟨page, order⟩ ∧ t = s.setPages t.pages := by
  obtain ⟨F, hi⟩ := h.tiled
  obtain ⟨m, hm, rfl⟩ : ∃ m, PageAlloc.allocPages s.pages order = (some page, m) ∧
      t = s.setPages m := by
    refine ⟨(PageAlloc.allocPages s.pages order).2, ?_, (congrArg Prod.snd ha).symm⟩
    have hfst : (PageAlloc.allocPages s.pages order).1 = some page := congrArg Prod.fst ha
    exact Prod.ext hfst rfl
  have hlt : order < pageMaxOrder := by
    by_contra hge
    rw [BuddyLists.alloc_tooLarge (not_lt.mp hge)] at hm
    cases hm
  rw [Mem.setPages_pages]
  have hstep := step_alloc_some (σ := ⟨s.pages, blocks⟩) hm
  have htiled : Tiled regions (BuddyRuns.step ⟨s.pages, blocks⟩ (.alloc order)) :=
    tiled_step h.tiled hlt trivial
  have hheads : HeadsRight (BuddyRuns.step ⟨s.pages, blocks⟩ (.alloc order)) :=
    headsRight_step h.tiled h.heads hlt trivial hu
  rw [hstep] at htiled hheads
  obtain ⟨F', hi'⟩ := htiled
  have hmem : (⟨page, order⟩ : Block) ∈ [] ++ ⟨page, order⟩ :: blocks := by simp
  refine ⟨⟨⟨F', ?_⟩, ?_⟩, BuddyFrame.allocPages_keeps hi hlt hm, ⟨?_, fun c hc => ?_, ?_, ?_⟩, rfl⟩
  · rw [Mem.setPages_pages]
    exact hi'
  · rw [Mem.setPages_pages]
    exact hheads
  · exact hi'.tiling.sub _ (Or.inr hmem)
  · rw [Set.disjoint_left]
    intro q hq hqc
    have hc' : c ∈ [] ++ ⟨page, order⟩ :: blocks := by simp [hc]
    have he := hi'.tiling.uniq _ (Or.inr hmem) c (Or.inr hc') q hq hqc
    have hnd := hi'.nodup
    rw [List.nil_append, List.nodup_cons] at hnd
    exact hnd.1 (he ▸ hc)
  · exact hheads _ (List.mem_cons_self ..)
  · exact hi'.paddr _ (hi'.tiling.sub _ (Or.inr hmem) (head_mem ⟨page, order⟩))

/-- **`free_page`** takes a block back, and the others stay. -/
theorem PagesOk.free (h : PagesOk regions s blocks) {b : Block} (hb : b ∈ blocks)
    (hm : MergesWhole ⟨s.pages, blocks⟩ (.free b)) :
    PagesOk regions (Heap.freePage s (b.head * pageSize)) (blocks.erase b) ∧
      BuddyFrame.Keeps (regionPages regions) (blocks.erase b) s.pages
        (Heap.freePage s (b.head * pageSize)).pages := by
  obtain ⟨F, hi⟩ := h.tiled
  have htiled : Tiled regions (BuddyRuns.step ⟨s.pages, blocks⟩ (.free b)) :=
    tiled_step h.tiled hb hm
  have hheads : HeadsRight (BuddyRuns.step ⟨s.pages, blocks⟩ (.free b)) :=
    headsRight_step h.tiled h.heads hb hm trivial
  unfold Heap.freePage
  rw [Mem.setPages_pages]
  refine ⟨⟨?_, ?_⟩, BuddyFrame.freePage_keeps hi hb hm⟩
  · rw [Mem.setPages_pages]
    exact htiled
  · rw [Mem.setPages_pages]
    exact hheads

end Elfboot.HeapPages
