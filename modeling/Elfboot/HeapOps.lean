import Elfboot.HeapPages

/-!
What the calls of the two allocators do to the one memory.

An object is in a slab, a slab is a block of the page allocator, and so is what a caller of
`alloc_pages` holds. Every call keeps the blocks and the objects apart, and writes nothing into what
others hold.
-/

namespace Elfboot.HeapOps

open Elfboot.Circular Elfboot.Dyadic Elfboot.Word Elfboot.Mm Elfboot.Slub Elfboot.SlubInv
open Elfboot.SlubOps Elfboot.BuddyBoot Elfboot.BuddyRuns Elfboot.Heap Elfboot.HeapPages
open Elfboot.PageAlloc (pageMaxOrder)

variable {C : Caches} {regions : List Region} {s s' t : Heap.Mem} {live live' : List Obj}
variable {held held' : List Block} {o : Obj} {b : Slab} {f : Slub.Node → List Slub.Node}
variable {L L' L'' : Links Slub.Node} {a c n size order : ℕ}

/-- The blocks in use: those of the slabs, and those that callers of `alloc_pages` hold. -/
def inUse (s : Heap.Mem) (held : List Block) : List Block := s.slub.slabs.map block ++ held

/-- What the two allocators keep. -/
structure Inv (C : Caches) (regions : List Region) (s : Heap.Mem) (live : List Obj)
    (held : List Block) : Prop where
  objs : ∃ f, SlubInv.Inv C s.slub live f
  pages : PagesOk regions s (inUse s held)

/-! ### Contents -/

/-- Nothing is written to the nodes in a range of addresses. -/
def Same (a size : ℕ) (L L' : Links Slub.Node) : Prop :=
  ∀ x, a ≤ x → x + 8 ≤ a + size →
    L'.next (.obj x) = L.next (.obj x) ∧ L'.prev (.obj x) = L.prev (.obj x)

/-- Nothing is written to some objects and blocks. -/
structure Kept (C : Caches) (live : List Obj) (held : List Block) (L L' : Links Slub.Node) :
    Prop where
  objs : ∀ o ∈ live, Same o.addr (C.cache o.cache).size L L'
  blocks : ∀ b ∈ held, Same (b.head * pageSize) (2 ^ b.order * pageSize) L L'

lemma Same.refl (a size : ℕ) (L : Links Slub.Node) : Same a size L L := fun _ _ _ => ⟨rfl, rfl⟩

lemma Same.trans (h : Same a size L L') (h' : Same a size L' L'') : Same a size L L'' := by
  intro x h1 h2
  exact ⟨(h' x h1 h2).1.trans (h x h1 h2).1, (h' x h1 h2).2.trans (h x h1 h2).2⟩

lemma Kept.trans (h : Kept C live held L L') (h' : Kept C live held L' L'') :
    Kept C live held L L'' :=
  ⟨fun o ho => (h.objs o ho).trans (h'.objs o ho),
    fun b hb => (h.blocks b hb).trans (h'.blocks b hb)⟩

/-- The page allocator writes to no object. -/
lemma kept_pages {blocks : List Block} {m : PageAlloc.Mem} (C : Caches) (live : List Obj)
    (held : List Block) (hk : BuddyFrame.Keeps (regionPages regions) blocks s.pages m) :
    Kept C live held s.slub.links (s.setPages m).slub.links := by
  have hsame : ∀ a size, Same a size s.slub.links (s.setPages m).slub.links := by
    intro a size x _ _
    have hx := hk.links.relabel nodeNames (.obj x) (obj_not_pages x)
    change _ = ((s.slub.links.relabel nodeNames.symm).relabel nodeNames).next _ ∧
      _ = ((s.slub.links.relabel nodeNames.symm).relabel nodeNames).prev _ at hx
    rw [Links.relabel_symm] at hx
    exact hx
  exact ⟨fun _ _ => hsame _ _, fun _ _ => hsame _ _⟩

/-! ### Apart -/

lemma pages_apart {b c : Block} (h : Disjoint b.pages c.pages) :
    b.head + 2 ^ b.order ≤ c.head ∨ c.head + 2 ^ c.order ≤ b.head := by
  by_contra hne
  rw [not_or, not_le, not_le] at hne
  have hb := Nat.two_pow_pos b.order
  have hc := Nat.two_pow_pos c.order
  have hb' : max b.head c.head ∈ b.pages := by
    rw [mem_pages]
    omega
  refine Set.disjoint_left.mp h hb' ?_
  rw [mem_pages]
  omega

lemma blocks_nodup (h : PagesOk regions s held) : held.Nodup := by
  obtain ⟨F, hi⟩ := h.tiled
  exact hi.nodup

lemma blocks_disjoint (h : PagesOk regions s held) {b c : Block} (hb : b ∈ held) (hc : c ∈ held)
    (hne : b ≠ c) : Disjoint b.pages c.pages := by
  obtain ⟨F, hi⟩ := h.tiled
  rw [Set.disjoint_left]
  intro q hq hq'
  exact hne (hi.tiling.uniq b (Or.inr hb) c (Or.inr hc) q hq hq')

section inv

variable (h : Inv C regions s live held)
include h

lemma Inv.among : Among s.slub.slabs (inUse s held) := by
  obtain ⟨f, hi⟩ := h.objs
  intro b hb
  exact ⟨List.mem_append_left _ (List.mem_map_of_mem hb), (hi.slab b hb).bound⟩

/-- A slab and a block that is held have no byte in common. -/
lemma Inv.slab_apart (hb : b ∈ s.slub.slabs) {k : Block} (hk : k ∈ held) :
    (b.page + 2 ^ b.order) * pageSize ≤ k.head * pageSize ∨
      k.head * pageSize + 2 ^ k.order * pageSize ≤ b.page * pageSize := by
  have hmem : block b ∈ s.slub.slabs.map block := List.mem_map_of_mem hb
  have hne : block b ≠ k := by
    rintro rfl
    exact List.disjoint_of_nodup_append (blocks_nodup h.pages) hmem hk
  rw [← Nat.add_mul]
  rcases pages_apart (blocks_disjoint h.pages (List.mem_append_left _ hmem)
    (List.mem_append_right _ hk) hne) with hle | hle
  · exact Or.inl (Nat.mul_le_mul_right pageSize hle)
  · exact Or.inr (Nat.mul_le_mul_right pageSize hle)

/-- An object and a block that is held have no byte in common. -/
lemma Inv.obj_apart (hb : b ∈ s.slub.slabs) (ha : IsObj C b a) {k : Block} (hk : k ∈ held) :
    a + (C.cache b.cache).size ≤ k.head * pageSize ∨
      k.head * pageSize + 2 ^ k.order * pageSize ≤ a := by
  obtain ⟨f, hi⟩ := h.objs
  obtain ⟨hle, hge⟩ := ha.inside (hi.slab b hb).order
  rcases h.slab_apart hb hk with hk | hk
  · exact Or.inl (hge.trans hk)
  · exact Or.inr (hk.trans hle)

/-- The slab allocator writes to nothing that is held. -/
lemma Inv.kept (hsub : live' ⊆ live) (ho : Only (SlubFrame.territory C s.slub.slabs live') L L') :
    Kept C live' held L L' := by
  obtain ⟨f, hi⟩ := h.objs
  have hout : ∀ x, (∀ b ∈ s.slub.slabs, ∀ a, IsObj C b a → a ∉ live'.map Obj.addr →
      x + 8 ≤ a ∨ a + (C.cache b.cache).size ≤ x) →
      Slub.Node.obj x ∉ SlubFrame.territory C s.slub.slabs live' := by
    rintro x hx (hhead | ⟨b, -, he⟩ | ⟨b, hb, a, ha, hn, a', he, h1, h2⟩)
    · exact obj_not_head x _ hhead
    · cases he
    · cases he
      rcases hx b hb a ha hn with hle | hle <;> omega
  constructor
  · intro o hmem x h1 h2
    obtain ⟨b, hb, hc, hobj⟩ := hi.held o (hsub hmem)
    rw [← hc] at h2
    refine ho _ (hout x fun b' hb' a ha hn => ?_)
    have hne : a ≠ o.addr := by
      rintro rfl
      exact hn (List.mem_map_of_mem hmem)
    rcases hi.objs_apart hb' hb ha hobj hne with hle | hle
    · exact Or.inr (hle.trans h1)
    · exact Or.inl (h2.trans hle)
  · intro k hk x h1 h2
    refine ho _ (hout x fun b hb a ha _ => ?_)
    rcases h.obj_apart hb ha hk with hle | hle
    · exact Or.inr (hle.trans h1)
    · exact Or.inl (h2.trans hle)

end inv

/-! ### Taking an object -/

/-- The slab allocator writes to the slabs there are. -/
lemma Inv.write (h : Inv C regions s live held) (hsub : live' ⊆ live) {slub : Slub.Mem}
    (hs : slub.slabs = s.slub.slabs)
    (hk : SlubFrame.Keeps (SlubFrame.territory C s.slub.slabs live') s.slub slub) :
    PagesOk regions { s with slub } (inUse { s with slub } held) ∧
      Kept C live' held s.slub.links slub.links := by
  refine ⟨?_, h.kept hsub hk.links⟩
  have hblocks : inUse { s with slub } held = inUse s held := by
    unfold inUse
    rw [hs]
  rw [hblocks]
  exact h.pages.write hk fun x hx => slub_not_pages h.among hx

/-- **An object is taken off a slab** with one left. -/
theorem take_spec (h : Inv C regions s live held) (hb : b ∈ s.slub.slabs)
    (hlt : (s.slub.pageMap b.page).inuse < (C.cache b.cache).nums) :
    ∃ a t, Heap.bmemCacheAllocObject C s b.cache b.page = (some a, t) ∧
      Inv C regions t (⟨a, b.cache⟩ :: live) held ∧ Kept C live held s.slub.links t.slub.links := by
  obtain ⟨f, hi⟩ := h.objs
  obtain ⟨a, slub, f', heq, hs, -, -, hi'⟩ := allocObject_spec hi hb hlt
  have hk := SlubFrame.allocObject_keeps hi hb hlt
  rw [heq] at hk
  obtain ⟨hpages, hkept⟩ := h.write (List.Subset.refl _) hs hk
  refine ⟨a, { s with slub }, ?_, ⟨⟨f', hi'⟩, hpages⟩, hkept⟩
  unfold Heap.bmemCacheAllocObject
  rw [heq]

/-! ### Growing a cache -/

/-- The pages of the boot regions have addresses of thirty-two bits, and none is page zero. -/
lemma given_bounds (hr : BootRegions regions) {m : PageAlloc.Mem} {blocks : List Block} {k : Block}
    (hg : Given regions blocks m k) : 0 < k.head ∧ k.head + 2 ^ k.order ≤ pagesEnd := by
  have hpos := Nat.two_pow_pos k.order
  have hpage : ∀ q ∈ k.pages, 0 < q ∧ q < pagesEnd := by
    intro q hq
    obtain ⟨r, hr', hbase, hstop⟩ := hg.inside hq
    obtain ⟨h1, h2⟩ := hr.inside r hr'
    simp only [memoryStart, memoryLimit, pageSize, pagesEnd] at h1 h2 hbase hstop ⊢
    omega
  have hlast := (hpage (k.head + 2 ^ k.order - 1) (by rw [mem_pages]; omega)).2
  exact ⟨(hpage _ (head_mem k)).1, by omega⟩

/-- The contract that the slab allocator relies on holds of the block it has been given. -/
lemma grants_handed (hr : BootRegions regions) {blocks : List Block} {page : ℕ}
    (hs : Among s.slub.slabs blocks) (hg : Given regions blocks s.pages ⟨page, order⟩) :
    Grants s.slub order ((handed (some page)).alloc order s.slub.pageMap s.slub.links) := by
  obtain ⟨hpos, hbound⟩ := given_bounds hr hg
  refine ⟨⟨fun _ _ _ _ => rfl, fun _ _ => ⟨rfl, rfl⟩⟩, ?_, ?_, ?_, ?_, ?_⟩
  all_goals
    intro p hp
    obtain rfl := Option.some.inj hp
  · exact hpos
  · exact hbound
  · exact fun c b hb => pages_apart (hg.apart _ (hs b hb).1)
  · exact fun c q hq => hg.head q hq
  · exact hg.paddr

/-- **A cache grows** by a block of the page allocator, if there is one. -/
theorem grow_spec (hr : BootRegions regions) (h : Inv C regions s live held)
    (hlarge : 8 ≤ (C.cache c).size)
    (hu : BuddyUnsplit ⟨s.pages, inUse s held⟩ (.alloc (C.cache c).order)) :
    Heap.bmemCacheGrow C s c = (none, s) ∨
      ∃ b t, Heap.bmemCacheGrow C s c = (some b.page, t) ∧ b ∈ t.slub.slabs ∧ b.cache = c ∧
        (t.slub.pageMap b.page).inuse = 0 ∧ Inv C regions t live held ∧
        Kept C live held s.slub.links t.slub.links := by
  rcases ha : Heap.allocPages s (C.cache c).order with ⟨_ | page, t⟩
  · left
    obtain rfl : t = s := by
      have ht := allocPages_none (by rw [ha]) h.pages.tiled
      rwa [ha] at ht
    unfold Heap.bmemCacheGrow
    rw [ha]
    rfl
  right
  obtain ⟨f, hi⟩ := h.objs
  obtain ⟨hpages, hkeep, hgiven, ht⟩ := h.pages.alloc hu ha
  have hslabs : t.slub.slabs = s.slub.slabs := by rw [ht, Mem.setPages_slabs]
  -- the page allocator leaves the slabs alone
  have hamong : Among t.slub.slabs (inUse s held) := hslabs ▸ h.among
  have hstill : Among s.slub.slabs (⟨page, (C.cache c).order⟩ :: inUse s held) := fun b hb =>
    ⟨List.mem_cons_of_mem _ (h.among b hb).1, (h.among b hb).2⟩
  have hframe := frame_of_keeps h.among hstill hkeep h.pages.heads hpages.heads
  rw [← ht] at hframe
  have hi1 := inv_frame hi hslabs hframe
  have hgrants := grants_handed hr hamong hgiven
  -- and the slab allocator the other blocks
  have hap := hgrants.apart page rfl c
  have hbound := hgrants.bound page rfl
  have hcall : (handed (some page)).alloc (C.cache c).order t.slub.pageMap t.slub.links =
      (some page, t.slub.pageMap, t.slub.links) := rfl
  obtain ⟨slub, heq, hs, -, -, -⟩ := grow_eq hcall hgiven.paddr
  have hk := SlubFrame.grow_keeps hi1 hcall hgiven.paddr hap hbound
  rw [heq] at hk
  rcases SlubOps.grow_spec hi1 hlarge hgrants with
    ⟨s', hnone, -⟩ | ⟨b, s', f', hsome, hb, hc, h0, hi'⟩
  · rw [heq] at hnone
    cases hnone
  rw [heq, Prod.mk.injEq, Option.some.injEq] at hsome
  obtain ⟨hpage, rfl⟩ := hsome
  have hamong' : Among slub.slabs (⟨page, (C.cache c).order⟩ :: inUse s held) := by
    rw [hs]
    intro b hb
    rcases List.mem_cons.mp hb with rfl | hb
    · exact ⟨List.mem_cons_self .., hbound⟩
    · exact ⟨List.mem_cons_of_mem _ (hamong b hb).1, (hamong b hb).2⟩
  have hinv : Inv C regions { t with slub } live held := by
    refine ⟨⟨f', hi'⟩, ?_⟩
    have hblocks : inUse { t with slub } held = ⟨page, (C.cache c).order⟩ :: inUse s held := by
      unfold inUse
      rw [hs, hslabs]
      rfl
    rw [hblocks]
    rw [← hs] at hk
    exact hpages.write hk fun x hx => slub_not_pages hamong' hx
  refine ⟨b, { t with slub }, ?_, hb, hc, h0, hinv, ?_⟩
  · unfold Heap.bmemCacheGrow
    rw [ha]
    dsimp only
    rw [heq, hpage]
  · have hkept := kept_pages C live held hkeep
    rw [← ht] at hkept
    rw [← hs] at hk
    exact hkept.trans (hinv.kept (List.Subset.refl _) hk.links)

/-- **An allocation** gives an object of the cache that nobody holds, or nothing. -/
theorem alloc_spec (hr : BootRegions regions) (h : Inv C regions s live held)
    (hlarge : 8 ≤ (C.cache c).size)
    (hu : (bmemCachePage s.slub c).1 = none →
      BuddyUnsplit ⟨s.pages, inUse s held⟩ (.alloc (C.cache c).order)) :
    Heap.bmemCacheAlloc C s c = (none, s) ∨
      ∃ a t, Heap.bmemCacheAlloc C s c = (some a, t) ∧ Inv C regions t (⟨a, c⟩ :: live) held ∧
        Kept C live held s.slub.links t.slub.links := by
  unfold Heap.bmemCacheAlloc
  rcases hp : bmemCachePage s.slub c with ⟨_ | page, slub⟩
  · obtain rfl := cachePage_none hp
    dsimp only
    rcases grow_spec hr h hlarge (hu (by rw [hp])) with heq | ⟨b, t, heq, hb, rfl, h0, h1, hk⟩
    · rw [heq]
      exact Or.inl rfl
    · have hnums := (sized (C.cache b.cache)).nums_pos
      obtain ⟨a, t', htake, h2, hk'⟩ := take_spec h1 hb (by omega)
      rw [heq]
      exact Or.inr ⟨a, t', htake, h2, hk.trans hk'⟩
  · obtain ⟨f, hi⟩ := h.objs
    obtain ⟨hs, hi1, b, hb, rfl, rfl, hlt⟩ := cachePage_spec hi hp
    have hsame : slub.links = s.slub.links ∧ slub.pageMap = s.slub.pageMap :=
      ⟨(cachePage_same hp).1, (cachePage_same hp).2.1⟩
    have h1 : Inv C regions { s with slub } live held := by
      refine ⟨⟨f, hi1⟩, (h.write (List.Subset.refl _) hs ?_).1⟩
      exact ⟨hsame.1 ▸ Only.refl _ _, fun q => by rw [hsame.2], fun q => by rw [hsame.2]⟩
    obtain ⟨a, t', htake, h2, hk⟩ := take_spec h1 hb hlt
    change Kept C live held slub.links _ at hk
    rw [hsame.1] at hk
    exact Or.inr ⟨a, t', htake, h2, hk⟩

lemma grow_fst (C : Caches) (s : Heap.Mem) (c : ℕ) :
    (Heap.bmemCacheGrow C s c).1 = (Heap.allocPages s (C.cache c).order).1 := by
  unfold Heap.bmemCacheGrow
  rcases Heap.allocPages s (C.cache c).order with ⟨_ | page, t⟩ <;> rfl

/-- It gives nothing if no slab has an object left and `alloc_pages` gives nothing. -/
lemma alloc_none_iff (hr : BootRegions regions) (h : Inv C regions s live held)
    (hlarge : 8 ≤ (C.cache c).size)
    (hu : (bmemCachePage s.slub c).1 = none →
      BuddyUnsplit ⟨s.pages, inUse s held⟩ (.alloc (C.cache c).order)) :
    (Heap.bmemCacheAlloc C s c).1 = none ↔
      (bmemCachePage s.slub c).1 = none ∧ (Heap.allocPages s (C.cache c).order).1 = none := by
  have hgrow := grow_fst C s c
  unfold Heap.bmemCacheAlloc
  rcases hp : bmemCachePage s.slub c with ⟨_ | page, slub⟩
  · obtain rfl := cachePage_none hp
    dsimp only
    rcases grow_spec hr h hlarge (hu (by rw [hp])) with heq | ⟨b, t, heq, hb, rfl, h0, h1, -⟩
    · rw [heq] at hgrow ⊢
      exact iff_of_true rfl ⟨rfl, hgrow.symm⟩
    · have hnums := (sized (C.cache b.cache)).nums_pos
      obtain ⟨a, t', htake, -, -⟩ := take_spec h1 hb (by omega)
      rw [heq] at hgrow ⊢
      dsimp only
      rw [htake, ← hgrow]
      simp
  · obtain ⟨f, hi⟩ := h.objs
    obtain ⟨hs, hi1, b, hb, rfl, rfl, hlt⟩ := cachePage_spec hi hp
    obtain ⟨a, t, f', heq, -⟩ := allocObject_spec hi1 hb hlt
    unfold Heap.bmemCacheAllocObject
    dsimp only
    rw [heq]
    simp

/-! ### Giving an object back -/

lemma bfree_eq (hi : SlubInv.Inv C s.slub live f) (hb : b ∈ s.slub.slabs) (ha : IsObj C b o.addr) :
    Heap.bfree C s o.addr =
      let slub := given s.slub b.page b.cache o.addr
      if (slub.pageMap b.page).inuse = 0 then
        let addr := (slub.pageMap b.page).paddr
        let t := Heap.freePage
          (s.reach slub.pageMap (listDel .null slub.links (.page b.page))) addr
        { t with slub := { t.slub with
            calls := .gave addr :: s.slub.calls
            counters := (slub.count b.cache fun n =>
              { n with freeObjs := sub32 n.freeObjs (C.cache b.cache).nums }).counters } }
      else { s with slub := { slub with
        links := listMove .null slub.links (.page b.page) (.slabsPartial b.cache) } } := by
  unfold Heap.bfree
  dsimp only
  rw [objPage_eq hi hb ha, (hi.slab b hb).cache]
  rfl

lemma mergesWhole_congr {blocks : List Block} {k : Block} (h : PagesOk regions s blocks)
    (hk : k ∈ blocks) (hflags : t.flags = s.flags) (horder : t.order = s.order)
    (hm : MergesWhole ⟨s.pages, blocks⟩ (.free k)) : MergesWhole ⟨t.pages, blocks⟩ (.free k) := by
  obtain ⟨F, hi⟩ := h.tiled
  refine BuddyOps.mergeOk_congr (hi.tiling.aligned k (Or.inr hk)) (fun q _ => ⟨?_, ?_⟩) hm
  · unfold PageAlloc.Page.isFree Mem.pages
    dsimp only
    rw [hflags]
  · exact congrFun horder q

/-- The slab of a last object goes back to the page allocator, which leaves the others alone. -/
lemma drop_pages (h : Inv C regions s live held) (hb : b ∈ s.slub.slabs) (ho : o ∈ live)
    (ha : IsObj C b o.addr) {pageMap : ℕ → Slub.Page} (hpm : ∀ q, pageMap q =
      if q = b.page then { s.slub.pageMap q with inuse := 0 } else s.slub.pageMap q)
    (hl : L = listDel .null (listAddTail s.slub.links (.obj o.addr) (.freelist b.page))
      (.page b.page))
    (hm : MergesWhole ⟨s.pages, inUse s held⟩ (.free (block b))) :
    let t := Heap.freePage (s.reach pageMap L) (b.page * pageSize)
    PagesOk regions t ((inUse s held).erase (block b)) ∧
      Frame (others s.slub.slabs (b.page * pageSize)) pageMap L t.slub.pageMap t.slub.links ∧
      Kept C (live.erase o) held s.slub.links t.slub.links := by
  intro t
  obtain ⟨f, hi⟩ := h.objs
  have honly := (SlubFrame.give_only hi hb ho ha).1
  rw [← hl] at honly
  have hwrite : SlubFrame.Keeps (SlubFrame.territory C s.slub.slabs (live.erase o)) s.slub
      { s.slub with pageMap, links := L } := by
    refine ⟨honly, fun q => ?_, fun q => ?_⟩
    all_goals
      dsimp only
      rw [hpm]
      split_ifs <;> rfl
  have hmem : block b ∈ inUse s held := (h.among b hb).1
  have h1 : PagesOk regions (s.reach pageMap L) (inUse s held) :=
    h.pages.write hwrite fun x hx => slub_not_pages h.among hx
  obtain ⟨h2, hk⟩ := h1.free hmem (mergesWhole_congr h.pages hmem rfl rfl hm)
  have hk' : BuddyFrame.Keeps (regionPages regions) ((inUse s held).erase (block b))
      (s.reach pageMap L).pages
      (PageAlloc.freePage (s.reach pageMap L).pages (b.page * pageSize)) := by
    rw [← Mem.setPages_pages (s.reach pageMap L) (PageAlloc.freePage _ _)]
    exact hk
  have hamong : Among (others s.slub.slabs (b.page * pageSize))
      ((inUse s held).erase (block b)) := by
    intro b' hb'
    obtain ⟨hb', hne⟩ := (mem_others hi hb).mp hb'
    obtain ⟨hin, hbound⟩ := h.among b' hb'
    refine ⟨(List.mem_erase_of_ne fun e => hne ?_).mpr hin, hbound⟩
    exact hi.page_inj hb' hb (congrArg Block.head e)
  have hheads : HeadsRight ⟨(s.reach pageMap L).pages, (inUse s held).erase (block b)⟩ :=
    fun k hk => h1.heads k (List.mem_of_mem_erase hk)
  have hheads' : HeadsRight ⟨PageAlloc.freePage (s.reach pageMap L).pages (b.page * pageSize),
      (inUse s held).erase (block b)⟩ := by
    have := h2.heads
    unfold Heap.freePage at this
    rwa [Mem.setPages_pages] at this
  refine ⟨h2, frame_of_keeps hamong hamong hk' hheads hheads', ?_⟩
  exact (h.kept List.erase_subset honly).trans
    (kept_pages (s := s.reach pageMap L) C (live.erase o) held hk')

/-- The blocks in use once a slab has gone. -/
lemma inUse_drop (hi : SlubInv.Inv C s.slub live f) (hb : b ∈ s.slub.slabs) (held : List Block) :
    ((others s.slub.slabs (b.page * pageSize)).map block ++ held).Perm
      ((inUse s held).erase (block b)) := by
  have hnd : s.slub.slabs.Nodup :=
    hi.apart.imp fun {x y} (hap : Apart x y) (he : x = y) => not_apart_self y (he ▸ hap)
  have herase : others s.slub.slabs (b.page * pageSize) = s.slub.slabs.erase b := by
    rw [hnd.erase_eq_filter]
    refine List.filter_congr fun b' hb' => ?_
    have hiff : b' ∈ others s.slub.slabs (b.page * pageSize) ↔ b' ∈ s.slub.slabs ∧ b' ≠ b :=
      mem_others hi hb
    unfold others at hiff
    rw [List.mem_filter] at hiff
    have hiff' := (and_congr_right_iff.mp hiff) hb'
    rw [Bool.eq_iff_iff, hiff', bne_iff_ne]
  have hmem : block b ∈ inUse s held := List.mem_append_left _ (List.mem_map_of_mem hb)
  have hperm : (inUse s held).Perm (block b :: ((s.slub.slabs.erase b).map block ++ held)) :=
    ((List.perm_cons_erase hb).map block).append_right held
  rw [herase]
  exact (List.perm_cons (block b)).mp (hperm.symm.trans (List.perm_cons_erase hmem))

/-- **An object is given back**, and its slab goes with the last one. -/
theorem free_spec (h : Inv C regions s live held) (ho : o ∈ live)
    (hm : ∀ b ∈ s.slub.slabs, IsObj C b o.addr → (s.slub.pageMap b.page).inuse = 1 →
      MergesWhole ⟨s.pages, inUse s held⟩ (.free (block b))) :
    Inv C regions (Heap.bfree C s o.addr) (live.erase o) held ∧
      Kept C (live.erase o) held s.slub.links (Heap.bfree C s o.addr).slub.links := by
  obtain ⟨f, hi⟩ := h.objs
  obtain ⟨b, hb, -, ha⟩ := hi.held o ho
  have hobjs : ∃ f', SlubInv.Inv C (Heap.bfree C s o.addr).slub (live.erase o) f' := by
    rw [bfree_slub]
    refine bfree_frame hi hb ho ha fun s1 hn _ hmap hlinks => ?_
    exact (drop_pages h hb ho ha hmap hlinks (hm b hb ha hn)).2.1
  obtain ⟨n, hn, hslabs, hlinks, -, hmap⟩ := given_spec hi hb ho ha
  have hself := hmap b.page
  rw [if_pos rfl] at hself
  have hinuse : ((given s.slub b.page b.cache o.addr).pageMap b.page).inuse = n := by rw [hself]
  have hpaddr : ((given s.slub b.page b.cache o.addr).pageMap b.page).paddr =
      b.page * pageSize := by
    rw [hself, (hi.slab b hb).paddr]
  by_cases hlast : n = 0
  · subst hlast
    obtain ⟨h1, -, hkept⟩ := drop_pages h hb ho ha hmap
      (congrArg (fun L => listDel .null L (.page b.page)) hlinks) (hm b hb ha hn)
    rw [bfree_eq hi hb ha] at hobjs ⊢
    dsimp only at hobjs ⊢
    rw [hinuse, if_pos rfl, hpaddr] at hobjs ⊢
    exact ⟨⟨hobjs, (h1.perm (inUse_drop hi hb held)).congr rfl⟩, hkept⟩
  · have honly := (SlubFrame.give_only hi hb ho ha).2
    rw [← hlinks] at honly
    rw [bfree_eq hi hb ha] at hobjs ⊢
    dsimp only at hobjs ⊢
    rw [hinuse, if_neg hlast] at hobjs ⊢
    have hk : SlubFrame.Keeps (SlubFrame.territory C s.slub.slabs (live.erase o)) s.slub
        { given s.slub b.page b.cache o.addr with
          links := listMove .null (given s.slub b.page b.cache o.addr).links (.page b.page)
            (.slabsPartial b.cache) } := by
      refine ⟨honly, fun q => ?_, fun q => ?_⟩
      all_goals
        dsimp only
        rw [hmap]
        split_ifs <;> rfl
    obtain ⟨hpages, hkept⟩ := h.write List.erase_subset (by exact hslabs) hk
    exact ⟨⟨hobjs, hpages⟩, hkept⟩

/-! ### Pages -/

/-- **`alloc_pages`** gives a block that nobody holds, or nothing. -/
theorem allocPages_spec (h : Inv C regions s live held)
    (hu : BuddyUnsplit ⟨s.pages, inUse s held⟩ (.alloc order)) :
    Heap.allocPages s order = (none, s) ∨
      ∃ page t, Heap.allocPages s order = (some page, t) ∧
        Inv C regions t live (⟨page, order⟩ :: held) ∧
        Kept C live held s.slub.links t.slub.links := by
  rcases ha : Heap.allocPages s order with ⟨_ | page, t⟩
  · left
    have ht := allocPages_none (by rw [ha]) h.pages.tiled
    rw [ha] at ht
    rw [← ht]
  right
  obtain ⟨f, hi⟩ := h.objs
  obtain ⟨hpages, hkeep, -, ht⟩ := h.pages.alloc hu ha
  have hslabs : t.slub.slabs = s.slub.slabs := by rw [ht, Mem.setPages_slabs]
  have hstill : Among s.slub.slabs (⟨page, order⟩ :: inUse s held) := fun b hb =>
    ⟨List.mem_cons_of_mem _ (h.among b hb).1, (h.among b hb).2⟩
  have hframe := frame_of_keeps h.among hstill hkeep h.pages.heads hpages.heads
  have hkept := kept_pages C live held hkeep
  rw [← ht] at hframe hkept
  refine ⟨page, t, rfl, ⟨⟨f, inv_frame hi hslabs hframe⟩, hpages.perm ?_⟩, hkept⟩
  unfold inUse
  rw [hslabs]
  exact List.perm_middle

/-- **`free_page`** takes a block back. -/
theorem freePage_spec (h : Inv C regions s live held) {k : Block} (hk : k ∈ held)
    (hm : MergesWhole ⟨s.pages, inUse s held⟩ (.free k)) :
    Inv C regions (Heap.freePage s (k.head * pageSize)) live (held.erase k) ∧
      Kept C live (held.erase k) s.slub.links
        (Heap.freePage s (k.head * pageSize)).slub.links := by
  obtain ⟨f, hi⟩ := h.objs
  have hslab : ∀ b ∈ s.slub.slabs, block b ≠ k := by
    rintro b hb rfl
    exact List.disjoint_of_nodup_append (blocks_nodup h.pages) (List.mem_map_of_mem hb) hk
  have herase : (inUse s held).erase k = s.slub.slabs.map block ++ held.erase k := by
    refine List.erase_append_right _ fun hm => ?_
    obtain ⟨b, hb, he⟩ := List.mem_map.mp hm
    exact hslab b hb he
  obtain ⟨hpages, hkeep⟩ := h.pages.free (List.mem_append_right _ hk) hm
  have hkeep' : BuddyFrame.Keeps (regionPages regions) ((inUse s held).erase k) s.pages
      (PageAlloc.freePage s.pages (k.head * pageSize)) := by
    rw [← Mem.setPages_pages s (PageAlloc.freePage _ _)]
    exact hkeep
  have hamong : Among s.slub.slabs ((inUse s held).erase k) := fun b hb =>
    ⟨(List.mem_erase_of_ne (hslab b hb)).mpr (h.among b hb).1, (h.among b hb).2⟩
  have hheads := hpages.heads
  unfold Heap.freePage at hheads
  rw [Mem.setPages_pages] at hheads
  have hframe := frame_of_keeps hamong hamong hkeep'
    (fun b hb => h.pages.heads b (List.mem_of_mem_erase hb)) hheads
  exact ⟨⟨⟨f, inv_frame hi rfl hframe⟩, hpages.perm (herase ▸ List.Perm.refl _)⟩,
    kept_pages C live (held.erase k) hkeep'⟩

/-! ### What holders write -/

/-- The blocks stay when objects are written to. -/
lemma write_pages (h : Inv C regions s live held) (hw : Within a size s.slub.links L) :
    PagesOk regions { s with slub := { s.slub with links := L } } (inUse s held) := by
  refine h.pages.write (W := {x | ∃ a, x = .obj a}) ⟨fun x hx => ?_, fun _ => rfl, fun _ => rfl⟩ ?_
  · exact hw x fun a' he => absurd ⟨a', he⟩ hx
  · rintro x ⟨a', rfl⟩
    exact obj_not_pages a'

lemma same_within {a' size' : ℕ} (hw : Within a size L L') (h : a' + size' ≤ a ∨ a + size ≤ a') :
    Same a' size' L L' := by
  intro x h1 h2
  refine hw _ fun b hb => ?_
  cases hb
  omega

/-- **The holder of an object writes to it.** -/
theorem write_spec (h : Inv C regions s live held) (ho : o ∈ live)
    (hw : Within o.addr (C.cache o.cache).size s.slub.links L) :
    Inv C regions { s with slub := { s.slub with links := L } } live held ∧
      Kept C (live.erase o) held s.slub.links L := by
  obtain ⟨f, hi⟩ := h.objs
  obtain ⟨b, hb, hc, ha⟩ := hi.held o ho
  refine ⟨⟨⟨f, inv_write hi ho hw⟩, write_pages h hw⟩, fun o' ho' => ?_, fun k hk => ?_⟩
  · obtain ⟨b', hb', hc', ha'⟩ := hi.held o' (List.mem_of_mem_erase ho')
    have hne := ((mem_erase_addr hi.nodup ho o'.addr).mp (List.mem_map_of_mem ho')).2
    rw [← hc] at hw
    rw [← hc']
    exact same_within hw (hi.objs_apart hb' hb ha' ha hne)
  · rw [← hc] at hw
    exact same_within hw ((h.obj_apart hb ha hk).symm)

/-- **The holder of a block writes to its pages.** -/
theorem writePages_spec (h : Inv C regions s live held) {k : Block} (hk : k ∈ held)
    (hw : Within (k.head * pageSize) (2 ^ k.order * pageSize) s.slub.links L) :
    Inv C regions { s with slub := { s.slub with links := L } } live held ∧
      Kept C live (held.erase k) s.slub.links L := by
  obtain ⟨f, hi⟩ := h.objs
  have hlists : Lists L (heads s.slub.slabs) f := by
    refine hi.lists.congr fun g hg x hx => hw x ?_
    rintro a rfl
    rcases List.mem_cons.mp hx with rfl | hx
    · exact absurd hg (obj_not_head a _)
    · rcases hi.entry hg hx with ⟨b, -, hx⟩ | ⟨b, hb, a', hx, ha', -⟩
      · cases hx
      · cases hx
        have h8 := (hi.slab b hb).large
        rcases h.obj_apart hb ha' hk with hle | hle
        · exact Or.inl (by omega)
        · exact Or.inr hle
  refine ⟨⟨⟨f, hlists, hi.slab, hi.apart, hi.listed, hi.free, hi.count, hi.held, hi.nodup,
    hi.inuse⟩, write_pages h hw⟩, fun o ho => ?_, fun k' hk' => ?_⟩
  · obtain ⟨b, hb, hc, ha⟩ := hi.held o ho
    rw [← hc]
    exact same_within hw (h.obj_apart hb ha hk)
  · have hnd := (blocks_nodup h.pages).of_append_right
    have hne : k' ≠ k := ((hnd.mem_erase_iff).mp hk').1
    have hdis := blocks_disjoint h.pages (List.mem_append_right _ (List.mem_of_mem_erase hk'))
      (List.mem_append_right _ hk) hne
    refine same_within hw ?_
    rw [← Nat.add_mul, ← Nat.add_mul]
    exact (pages_apart hdis).imp (Nat.mul_le_mul_right pageSize) (Nat.mul_le_mul_right pageSize)

end Elfboot.HeapOps
