import Elfboot.HeapOps
import Elfboot.SizeClass

/-!
Runs of the heap: `bmalloc`, `bmem_cache_alloc`, `bfree`, `alloc_pages` and `free_page` in any
order, from `page_alloc_init` and `bmalloc_init` on.

A state is the memory and, as history, the objects and the blocks of pages that have been handed
out and not given back. Whoever holds one may write to it at any time, and may ask for any size.
What can go wrong is what can in the page allocator alone, and the condition is the one there, on
the calls that reach it.
-/

namespace Elfboot.HeapRuns

open Elfboot.Run Elfboot.Circular Elfboot.Dyadic Elfboot.Mm Elfboot.Slub Elfboot.SlubInv
open Elfboot.BuddyBoot Elfboot.Heap Elfboot.HeapPages Elfboot.HeapOps
open Elfboot.SlubRuns (Request)
open Elfboot.BuddyRuns (MergesWhole BuddyUnsplit Tiled HeadsRight)

structure State where
  mem : Heap.Mem
  live : List Obj
  held : List Block

def request (C : Caches) (s : Heap.Mem) : Request → Option ℕ × Heap.Mem
  | .bmalloc size => Heap.bmalloc C s size
  | .cacheAlloc c => Heap.bmemCacheAlloc C s c

inductive Op
  | alloc (r : Request)
  | free (o : Obj)
  | write (o : Obj) (links : Links Slub.Node)
  | allocPages (order : ℕ)
  | freePage (b : Block)
  | writePages (b : Block) (links : Links Slub.Node)

def step (C : Caches) (σ : State) : Op → State
  | .alloc r =>
    match request C σ.mem r with
    | (some a, mem) => { σ with mem, live := ⟨a, r.cache⟩ :: σ.live }
    | (none, mem) => { σ with mem }
  | .free o => { σ with mem := Heap.bfree C σ.mem o.addr, live := σ.live.erase o }
  | .write _ links => { σ with mem := { σ.mem with slub := { σ.mem.slub with links } } }
  | .allocPages order =>
    match Heap.allocPages σ.mem order with
    | (some page, mem) => { σ with mem, held := ⟨page, order⟩ :: σ.held }
    | (none, mem) => { σ with mem }
  | .freePage b =>
    { σ with mem := Heap.freePage σ.mem (b.head * pageSize), held := σ.held.erase b }
  | .writePages _ links => { σ with mem := { σ.mem with slub := { σ.mem.slub with links } } }

/-- Sizes have thirty-two bits, and the objects of a cache have room for a list node. -/
def Fits (C : Caches) : Request → Prop
  | .bmalloc size => size < 2 ^ 32
  | .cacheAlloc c => 8 ≤ (C.cache c).size

/-- The cache that an object is taken from, if there is one for the size. -/
def cacheFor : Request → Option ℕ
  | .bmalloc size => bmallocCache size
  | .cacheAlloc c => some c

def Asks (C : Caches) (σ : State) : Op → Prop
  | .alloc r => Fits C r
  | .free o => o ∈ σ.live
  | .write o links => o ∈ σ.live ∧ Within o.addr (C.cache o.cache).size σ.mem.slub.links links
  | .allocPages _ => True
  | .freePage b => b ∈ σ.held
  | .writePages b links =>
    b ∈ σ.held ∧ Within (b.head * pageSize) (2 ^ b.order * pageSize) σ.mem.slub.links links

/-! ### The beginning -/

def isCacheHead : Slub.Node → Bool
  | .slabsFull _ | .slabsPartial _ | .slabsFree _ => true
  | _ => false

/-- `bmem_cache_init` on the lists of every cache. -/
def initCaches (L : Links Slub.Node) : Links Slub.Node where
  prev x := if isCacheHead x then x else L.prev x
  next x := if isCacheHead x then x else L.next x

/-- The memory after `page_alloc_init` and `bmalloc_init`, whatever it held. -/
def bootMem (s : Heap.Mem) (regions : List Region) : Heap.Mem :=
  let s := s.setPages (PageAlloc.pageAllocInit s.pages regions)
  { s with slub := { s.slub with
    links := initCaches s.slub.links
    counters := fun _ => ⟨0, 0, 0⟩
    calls := [] } }

/-- The two allocators over the boot regions. No page outside of these is marked free in the memory
of `page_map`. -/
def heap (C : Caches) (regions : List Region) : System State Op where
  init σ := ∃ s : Heap.Mem,
    (∀ q, q ∉ regionPages regions → (s.pages.pageMap q).isFree = false) ∧
      σ = ⟨bootMem s regions, [], []⟩
  pre := Asks C
  step := step C

/-! ### The condition -/

/-- The state as the page allocator knows it. -/
def State.pages (σ : State) : BuddyRuns.State := ⟨σ.mem.pages, inUse σ.mem σ.held⟩

/-- The call of the page allocator that a call makes, if it makes one. -/
def pagesCall (C : Caches) (σ : State) : Op → Option BuddyRuns.Op
  | .alloc r => (cacheFor r).bind fun c =>
    if (bmemCachePage σ.mem.slub c).1.isNone then some (.alloc (C.cache c).order) else none
  | .free o =>
    let page := bmemObjPage σ.mem.slub o.addr
    if (σ.mem.slub.pageMap page).inuse = 1 then some (.free ⟨page, σ.mem.order page⟩) else none
  | .allocPages order => some (.alloc order)
  | .freePage b => some (.free b)
  | .write _ _ => none
  | .writePages _ _ => none

/-- A free merges free blocks only, and an allocation finds the buddy unsplit. -/
def WholeBlocks (C : Caches) (σ : State) (op : Op) : Prop :=
  ∀ call ∈ pagesCall C σ op, MergesWhole σ.pages call ∧ BuddyUnsplit σ.pages call

variable {C : Caches} {regions : List Region} {σ : State} {op : Op} {r : Request}

/-! ### One step -/

lemma listInit_initCaches (L : Links Slub.Node) {x : Slub.Node} (hx : isCacheHead x = true) :
    listInit (initCaches L) x = initCaches L := by
  unfold listInit Links.setPrev Links.setNext initCaches
  congr 1
  all_goals
    funext y
    by_cases hy : y = x
    · subst hy
      simp [hx]
    · simp [hy]

lemma inv_boot (hr : BootRegions regions) (h : (heap C regions).init σ) :
    Inv C regions σ.mem σ.live σ.held := by
  obtain ⟨s, hfree, rfl⟩ := h
  have hinit : (SlubRuns.allocator C).init ⟨(bootMem s regions).slub, []⟩ := by
    refine ⟨fun c => ?_, rfl, rfl⟩
    have hself : ∀ x, isCacheHead x = true →
        listInit (bootMem s regions).slub.links x = (bootMem s regions).slub.links :=
      fun x hx => listInit_initCaches _ hx
    unfold bmemCacheInit
    rw [hself _ rfl, hself _ rfl, hself _ rfl]
    dsimp only [Slub.Mem.count]
    congr 1
    funext d
    split_ifs <;> rfl
  refine ⟨⟨_, SlubRuns.inv_init hinit⟩, ?_⟩
  have hpages : PagesOk regions (s.setPages (PageAlloc.pageAllocInit s.pages regions)) [] := by
    refine ⟨BuddyRuns.tiled_init hr ⟨s.pages, hfree, ?_⟩, fun b hb => by cases hb⟩
    rw [Mem.setPages_pages]
  -- the heads of the caches are no nodes of the page allocator
  refine hpages.write (W := cacheHeads) ⟨fun x hx => ?_, fun _ => rfl, fun _ => rfl⟩ fun x hx => ?_
  · have hno : isCacheHead x = false := by
      cases x with
      | slabsFull c => exact absurd ⟨c, Or.inl rfl⟩ hx
      | slabsPartial c => exact absurd ⟨c, Or.inr (Or.inl rfl)⟩ hx
      | slabsFree c => exact absurd ⟨c, Or.inr (Or.inr rfl)⟩ hx
      | _ => rfl
    simp [initCaches, hno]
  · have hnone : Among [] ([] : List Block) := fun b hb => by cases hb
    have hterr : x ∈ SlubFrame.territory C [] [] := Or.inl (Or.inl hx)
    exact slub_not_pages hnone hterr

/-- A request takes an object from its cache, or there is none for the size. -/
lemma request_cases (s : Heap.Mem) (hf : Fits C r) :
    cacheFor r = none ∧ request C s r = (none, s) ∨
      cacheFor r = some r.cache ∧ 8 ≤ (C.cache r.cache).size ∧
        request C s r = Heap.bmemCacheAlloc C s r.cache := by
  cases r with
  | cacheAlloc c => exact .inr ⟨rfl, hf, rfl⟩
  | bmalloc size =>
    unfold request Heap.bmalloc cacheFor
    dsimp only
    cases hc : bmallocCache size with
    | none => exact .inl ⟨rfl, rfl⟩
    | some c =>
      obtain ⟨rfl, h8⟩ := SizeClass.bmallocCache_some (C := C) hc
      exact .inr ⟨rfl, h8, rfl⟩

/-- There is a cache for all sizes but those between 32 KiB and 2 GiB. -/
lemma cacheFor_none_iff (hf : Fits C r) :
    cacheFor r = none ↔ ∃ size, r = .bmalloc size ∧ 2 ^ 15 < size ∧ size ≤ 2 ^ 31 := by
  cases r with
  | cacheAlloc c => exact iff_of_false nofun nofun
  | bmalloc size =>
    rw [cacheFor, SizeClass.bmallocCache_none_iff hf]
    simp

lemma unsplit_of_whole (hw : WholeBlocks C σ (.alloc r)) (hc : cacheFor r = some r.cache) :
    (bmemCachePage σ.mem.slub r.cache).1 = none →
      BuddyUnsplit σ.pages (.alloc (C.cache r.cache).order) := by
  intro hnone
  refine (hw _ ?_).2
  unfold pagesCall
  dsimp only
  rw [hc, Option.bind_some, hnone]
  rfl

/-- The object that a call is about. -/
def Op.obj : Op → Option Obj
  | .free o | .write o _ => some o
  | _ => none

/-- The block of pages that a call is about. -/
def Op.block : Op → Option Block
  | .freePage b | .writePages b _ => some b
  | _ => none

/-- What a step does to the objects and blocks that it is not about. -/
def Spares (C : Caches) (σ τ : State) (op : Op) : Prop :=
  (∀ o ∈ σ.live, op.obj ≠ some o → o ∈ τ.live ∧
    Same o.addr (C.cache o.cache).size σ.mem.slub.links τ.mem.slub.links) ∧
  ∀ b ∈ σ.held, op.block ≠ some b → b ∈ τ.held ∧
    Same (b.head * pageSize) (2 ^ b.order * pageSize) σ.mem.slub.links τ.mem.slub.links

/-- **One step** keeps what the allocators rely on, and leaves alone what it is not about. -/
theorem step_spec (hr : BootRegions regions) (h : Inv C regions σ.mem σ.live σ.held)
    (ha : Asks C σ op) (hw : WholeBlocks C σ op) :
    Inv C regions (step C σ op).mem (step C σ op).live (step C σ op).held ∧
      Spares C σ (step C σ op) op := by
  have hsame : Spares C σ σ op := ⟨fun o ho _ => ⟨ho, Same.refl _ _ _⟩,
    fun b hb _ => ⟨hb, Same.refl _ _ _⟩⟩
  cases op with
  | alloc r =>
    unfold step
    dsimp only
    rcases request_cases (r := r) σ.mem ha with ⟨-, hreq⟩ | ⟨hc, h8, hreq⟩
    · rw [hreq]
      exact ⟨h, hsame⟩
    rw [hreq]
    rcases alloc_spec hr h h8 (unsplit_of_whole hw hc) with heq | ⟨a, t, heq, hi, hk⟩
    · rw [heq]
      exact ⟨h, hsame⟩
    · rw [heq]
      exact ⟨hi, fun o ho _ => ⟨List.mem_cons_of_mem _ ho, hk.objs o ho⟩,
        fun b hb _ => ⟨hb, hk.blocks b hb⟩⟩
  | free o =>
    have hm : ∀ b ∈ σ.mem.slub.slabs, IsObj C b o.addr →
        (σ.mem.slub.pageMap b.page).inuse = 1 →
        MergesWhole σ.pages (.free (HeapPages.block b)) := by
      intro b hb hobj hlast
      obtain ⟨f, hi⟩ := h.objs
      obtain ⟨F, hpages⟩ := h.pages.tiled
      have horder : σ.mem.order b.page = b.order := (hpages.used _ (h.among b hb).1).2
      refine (hw _ ?_).1
      unfold pagesCall
      dsimp only
      rw [SlubOps.objPage_eq hi hb hobj, if_pos hlast, horder]
      rfl
    obtain ⟨hi, hk⟩ := free_spec h ha hm
    refine ⟨hi, fun o' ho' hne => ?_, fun b hb _ => ⟨hb, hk.blocks b hb⟩⟩
    have hmem : o' ∈ σ.live.erase o :=
      (List.mem_erase_of_ne fun e => hne (congrArg some e.symm)).mpr ho'
    exact ⟨hmem, hk.objs o' hmem⟩
  | write o links =>
    obtain ⟨hi, hk⟩ := write_spec h ha.1 ha.2
    refine ⟨hi, fun o' ho' hne => ⟨ho', hk.objs o' ?_⟩, fun b hb _ => ⟨hb, hk.blocks b hb⟩⟩
    exact (List.mem_erase_of_ne fun e => hne (congrArg some e.symm)).mpr ho'
  | allocPages order =>
    unfold step
    dsimp only
    rcases allocPages_spec h (hw _ rfl).2 with heq | ⟨page, t, heq, hi, hk⟩
    · rw [heq]
      exact ⟨h, hsame⟩
    · rw [heq]
      exact ⟨hi, fun o ho _ => ⟨ho, hk.objs o ho⟩,
        fun b hb _ => ⟨List.mem_cons_of_mem _ hb, hk.blocks b hb⟩⟩
  | freePage b =>
    obtain ⟨hi, hk⟩ := freePage_spec h ha (hw _ rfl).1
    refine ⟨hi, fun o ho _ => ⟨ho, hk.objs o ho⟩, fun b' hb' hne => ?_⟩
    have hmem : b' ∈ σ.held.erase b :=
      (List.mem_erase_of_ne fun e => hne (congrArg some e.symm)).mpr hb'
    exact ⟨hmem, hk.blocks b' hmem⟩
  | writePages b links =>
    obtain ⟨hi, hk⟩ := writePages_spec h ha.1 ha.2
    refine ⟨hi, fun o ho _ => ⟨ho, hk.objs o ho⟩, fun b' hb' hne => ⟨hb', hk.blocks b' ?_⟩⟩
    exact (List.mem_erase_of_ne fun e => hne (congrArg some e.symm)).mpr hb'

/-! ### Runs -/

/-- The runs in which the page allocator meets whole blocks only. -/
abbrev wholeHeap (C : Caches) (regions : List Region) : System State Op :=
  (heap C regions).restrict (WholeBlocks C)

lemma reach_inv (hr : BootRegions regions) (h : Reach (wholeHeap C regions) σ) :
    Inv C regions σ.mem σ.live σ.held :=
  h.invariant_restrict (P := fun σ => Inv C regions σ.mem σ.live σ.held)
    (fun _ hi => inv_boot hr hi) fun _ _ hi ha hw => (step_spec hr hi ha hw).1

/-- **What is held is apart**: no two objects, no object and block of pages, and no two blocks share
a byte, all of them lie in the boot regions, and an object has room for what was asked for up to
2 GiB. -/
theorem heap_apart (hr : BootRegions regions) (h : Reach (wholeHeap C regions) σ) :
    (σ.live.Pairwise fun o o' => o.addr + (C.cache o.cache).size ≤ o'.addr ∨
      o'.addr + (C.cache o'.cache).size ≤ o.addr) ∧
    (∀ o ∈ σ.live, ∀ b ∈ σ.held, o.addr + (C.cache o.cache).size ≤ b.head * pageSize ∨
      b.head * pageSize + 2 ^ b.order * pageSize ≤ o.addr) ∧
    (σ.held.Pairwise fun b b' => Disjoint b.pages b'.pages) ∧
    (∀ o ∈ σ.live, ∀ a, o.addr ≤ a → a < o.addr + (C.cache o.cache).size →
      a / pageSize ∈ regionPages regions) ∧
    (∀ b ∈ σ.held, b.pages ⊆ regionPages regions) ∧
    ∀ (r : Request) a, r.size C ≤ 2 ^ 31 → (request C σ.mem r).1 = some a →
      r.size C ≤ (C.cache r.cache).size := by
  have hinv := reach_inv hr h
  obtain ⟨f, hi⟩ := hinv.objs
  obtain ⟨F, hpages⟩ := hinv.pages.tiled
  have hheld : ∀ b ∈ σ.held, b ∈ inUse σ.mem σ.held := fun b hb => List.mem_append_right _ hb
  refine ⟨?_, fun o ho b hb => ?_, ?_, fun o ho a h1 h2 => ?_, fun b hb => ?_,
    fun r a hsize ha => ?_⟩
  · have hne := List.pairwise_map.mp hi.nodup
    refine hne.imp_of_mem fun {o o'} ho ho' hne => ?_
    obtain ⟨b, hb, hc, hobj⟩ := hi.held o ho
    obtain ⟨b', hb', hc', hobj'⟩ := hi.held o' ho'
    rw [← hc, ← hc']
    exact hi.objs_apart hb hb' hobj hobj' hne
  · obtain ⟨b', hb', hc, hobj⟩ := hi.held o ho
    rw [← hc]
    exact hinv.obj_apart hb' hobj hb
  · have hnd := (blocks_nodup hinv.pages).of_append_right
    exact hnd.imp_of_mem fun {b b'} hb hb' hne =>
      blocks_disjoint hinv.pages (hheld b hb) (hheld b' hb') hne
  · obtain ⟨b, hb, hc, hobj⟩ := hi.held o ho
    obtain ⟨hle, hge⟩ := hobj.inside (hi.slab b hb).order
    rw [hc] at hge
    refine hpages.tiling.sub (HeapPages.block b) (Or.inr (hinv.among b hb).1) ⟨?_, ?_⟩
    · exact (Nat.le_div_iff_mul_le (by decide)).mpr (hle.trans h1)
    · exact (Nat.div_lt_iff_lt_mul (by decide)).mpr (h2.trans_le hge)
  · exact hpages.tiling.sub b (Or.inr (hheld b hb))
  · cases r with
    | cacheAlloc c => exact le_rfl
    | bmalloc size =>
      rcases Nat.lt_or_ge (2 ^ 15) size with hlarge | hle
      · unfold request Heap.bmalloc at ha
        dsimp only at ha
        rw [SlubOps.bmallocCache_none hlarge hsize] at ha
        cases ha
      · exact (SlubOps.bmallocCache_room (C := C) hle).2.1

/-! ### Four pages -/

instance (C : Caches) (σ : State) (op : Op) : Decidable (WholeBlocks C σ op) :=
  inferInstanceAs (Decidable (∀ call ∈ pagesCall C σ op, _))

def blankMem : Heap.Mem := ⟨SlubRuns.blank, fun _ => 0, fun _ => 0, fun _ => 0⟩

def boot : State := ⟨bootMem blankMem BuddyRuns.fourPages, [], []⟩

/-- The caches of `bmalloc`, over four pages. -/
abbrev fourPages : System State Op := heap SlubRuns.bootCaches BuddyRuns.fourPages

lemma init_boot : fourPages.init boot := by
  refine ⟨blankMem, fun q _ => ?_, rfl⟩
  simp [blankMem, Mem.pages, PageAlloc.Page.isFree]

/-- An object of 2048 bytes, a size that there is no cache for, and then a page and a page for
another cache. -/
def threeCalls : List Op :=
  [.alloc (.bmalloc 2000), .alloc (.bmalloc 40000), .allocPages 0, .alloc (.bmalloc 4096)]

lemma takes_threeCalls :
    (wholeHeap SlubRuns.bootCaches BuddyRuns.fourPages).Takes boot threeCalls :=
  ⟨⟨show 2000 < 2 ^ 32 by decide, by decide +kernel⟩,
    ⟨show 40000 < 2 ^ 32 by decide, by decide +kernel⟩, ⟨trivial, by decide +kernel⟩,
    ⟨show 4096 < 2 ^ 32 by decide, by decide +kernel⟩, trivial⟩

theorem heap_apart_three : (fourPages.run boot threeCalls).live = [⟨0x12000, 9⟩, ⟨0x10000, 8⟩] ∧
    (fourPages.run boot threeCalls).held = [⟨17, 0⟩] ∧
    ∀ o ∈ (fourPages.run boot threeCalls).live, ∀ b ∈ (fourPages.run boot threeCalls).held,
      o.addr + (SlubRuns.bootCaches.cache o.cache).size ≤ b.head * pageSize ∨
        b.head * pageSize + 2 ^ b.order * pageSize ≤ o.addr :=
  ⟨by decide +kernel, by decide +kernel, (heap_apart BuddyRuns.bootRegions_fourPages
    (Reach.run_restrict init_boot takes_threeCalls)).2.1⟩

/-! ### Contents over runs -/

/-- **What is held stays as its holder left it**: in no run is a node in an object or in a block of
pages written to by a call that is not about it. -/
theorem contents_stay (hr : BootRegions regions) (h : Reach (wholeHeap C regions) σ)
    {is : List Op} (ht : (wholeHeap C regions).Takes σ is) :
    (∀ o ∈ σ.live, (∀ op ∈ is, op.obj ≠ some o) →
      o ∈ ((heap C regions).run σ is).live ∧ Same o.addr (C.cache o.cache).size
        σ.mem.slub.links ((heap C regions).run σ is).mem.slub.links) ∧
    ∀ b ∈ σ.held, (∀ op ∈ is, op.block ≠ some b) →
      b ∈ ((heap C regions).run σ is).held ∧ Same (b.head * pageSize) (2 ^ b.order * pageSize)
        σ.mem.slub.links ((heap C regions).run σ is).mem.slub.links := by
  induction is generalizing σ with
  | nil =>
    exact ⟨fun o ho _ => ⟨ho, Same.refl _ _ _⟩, fun b hb _ => ⟨hb, Same.refl _ _ _⟩⟩
  | cons op is ih =>
    obtain ⟨⟨ha, hw⟩, hrest⟩ := ht
    obtain ⟨hobjs, hblocks⟩ := (step_spec hr (reach_inv hr h) ha hw).2
    obtain ⟨ih1, ih2⟩ := ih (.step h ⟨ha, hw⟩) hrest
    constructor
    · intro o ho hne
      obtain ⟨ho', hs⟩ := hobjs o ho (hne op (List.mem_cons_self ..))
      obtain ⟨hend, hs'⟩ := ih1 o ho' fun op' hop => hne op' (List.mem_cons_of_mem _ hop)
      exact ⟨hend, hs.trans hs'⟩
    · intro b hb hne
      obtain ⟨hb', hs⟩ := hblocks b hb (hne op (List.mem_cons_self ..))
      obtain ⟨hend, hs'⟩ := ih2 b hb' fun op' hop => hne op' (List.mem_cons_of_mem _ hop)
      exact ⟨hend, hs.trans hs'⟩

/-- The object of 2048 bytes stays while the two pages are handed out. -/
theorem contents_stay_two : Same 0x10000 2048
    (fourPages.run boot (threeCalls.take 1)).mem.slub.links
    (fourPages.run (fourPages.run boot (threeCalls.take 1))
      (threeCalls.drop 1)).mem.slub.links := by
  obtain ⟨hfirst, hrest⟩ := takes_threeCalls
  have h : Reach (wholeHeap SlubRuns.bootCaches BuddyRuns.fourPages)
      (fourPages.run boot (threeCalls.take 1)) := Reach.run_restrict init_boot ⟨hfirst, trivial⟩
  exact ((contents_stay BuddyRuns.bootRegions_fourPages h hrest).1 ⟨0x10000, 8⟩ (by decide +kernel)
    (by decide)).2

/-! ### Out of memory -/

/-- No slab has an object left exactly when every object of the cache is held. -/
lemma cachePage_none_iff {f : Slub.Node → List Slub.Node} {s : Slub.Mem} {live : List Obj} {c : ℕ}
    (h : SlubInv.Inv C s live f) : (bmemCachePage s c).1 = none ↔
      ∀ b ∈ s.slabs, b.cache = c → ∀ a, IsObj C b a → a ∈ live.map Obj.addr := by
  constructor
  · intro hnone b hb hc a ha
    by_contra hn
    have hmem : Slub.Node.obj a ∈ f (.freelist b.page) := (h.free b hb _).mpr ⟨a, rfl, ha, hn⟩
    have hlen := List.length_pos_of_mem hmem
    have hcount := h.count b hb
    have hpage := h.page_mem hb
    -- the slab is on one of the two lists that are looked at
    have hlist : f (.slabsPartial c) ≠ [] ∨ f (.slabsFree c) ≠ [] := by
      unfold home at hpage
      rw [if_neg (by omega), hc] at hpage
      split_ifs at hpage
      · exact Or.inr (List.ne_nil_of_mem hpage)
      · exact Or.inl (List.ne_nil_of_mem hpage)
    have hfirst : ∀ g ∈ cacheHeads, f g ≠ [] → ∃ p, slabsFirst s g = some p := by
      intro g hg hne
      obtain ⟨x, l, hx⟩ := List.exists_cons_of_ne_nil hne
      obtain ⟨b', -, -, rfl⟩ := (h.listed g hg x).mp (by rw [hx]; simp)
      refine ⟨b'.page, ?_⟩
      unfold slabsFirst
      rw [h.lists.first (cacheHeads_sub _ hg), hx]
      rfl
    unfold bmemCachePage at hnone
    rcases hp : slabsFirst s (.slabsPartial c) with _ | p
    · rcases hlist with hlist | hlist
      · obtain ⟨p, hp'⟩ := hfirst _ ⟨c, Or.inr (Or.inl rfl)⟩ hlist
        rw [hp] at hp'
        cases hp'
      · obtain ⟨p, hp'⟩ := hfirst _ ⟨c, Or.inr (Or.inr rfl)⟩ hlist
        rw [hp, hp'] at hnone
        cases hnone
    · rw [hp] at hnone
      cases hnone
  · intro hall
    rcases hp : bmemCachePage s c with ⟨_ | p, s'⟩
    · rfl
    · exfalso
      obtain ⟨hs, -, b, hb, -, hc, hlt⟩ := SlubOps.cachePage_spec h hp
      rw [(SlubOps.cachePage_same hp).2.1] at hlt
      rw [hs] at hb
      have hcount := h.count b hb
      obtain ⟨x, l, hx⟩ := List.exists_cons_of_length_pos (l := f (.freelist b.page)) (by omega)
      obtain ⟨a, -, ha, hn⟩ := (h.free b hb x).mp (by rw [hx]; simp)
      exact hn (hall b hb hc a ha)

lemma getLoop_none_iff (s : PageAlloc.Mem) (order : ℕ) : ∀ n j,
    PageAlloc.getFreePagesLoop s order n j = none ↔
      ∀ i, j ≤ i → i < j + n → PageAlloc.freeAreaGetFirst s i = none
  | 0, j => by
    refine iff_of_true rfl fun i h1 h2 => ?_
    omega
  | n + 1, j => by
    unfold PageAlloc.getFreePagesLoop
    rcases hj : PageAlloc.freeAreaGetFirst s j with _ | p
    · dsimp only
      rw [getLoop_none_iff s order n (j + 1)]
      constructor
      · intro hall i h1 h2
        rcases Nat.eq_or_lt_of_le h1 with rfl | hlt
        · exact hj
        · exact hall i hlt (by omega)
      · exact fun hall i h1 h2 => hall i (by omega) (by omega)
    · refine iff_of_false (by simp) fun hall => ?_
      have hj' := hall j le_rfl (by omega)
      rw [hj] at hj'
      cases hj'

lemma allocPages_none_iff (s : Heap.Mem) (order : ℕ) : (Heap.allocPages s order).1 = none ↔
    ∀ i, order ≤ i → i < PageAlloc.pageMaxOrder →
      PageAlloc.freeAreaGetFirst s.pages i = none := by
  have hiff := getLoop_none_iff s.pages order (PageAlloc.pageMaxOrder - order) order
  have hnone : (Heap.allocPages s order).1 = none ↔
      PageAlloc.getFreePagesLoop s.pages order (PageAlloc.pageMaxOrder - order) order = none := by
    unfold Heap.allocPages PageAlloc.allocPages PageAlloc.getFreePages
    rcases PageAlloc.getFreePagesLoop _ _ _ _ with _ | ⟨p, t⟩ <;> simp
  rw [hnone, hiff]
  refine forall_congr' fun i => imp_congr_right fun h1 => ?_
  rw [show i < order + (PageAlloc.pageMaxOrder - order) ↔ i < PageAlloc.pageMaxOrder by omega]

/-- **Out of memory**: a request fails if and only if there is no cache for its size, or every
object of every slab of its cache is held and no free area from the order of the cache on has a
block. -/
theorem fails_iff (hr : BootRegions regions) (h : Reach (wholeHeap C regions) σ) (hf : Fits C r)
    (hw : WholeBlocks C σ (.alloc r)) : (request C σ.mem r).1 = none ↔
      (∃ size, r = .bmalloc size ∧ 2 ^ 15 < size ∧ size ≤ 2 ^ 31) ∨
        (∀ b ∈ σ.mem.slub.slabs, b.cache = r.cache →
          ∀ a, IsObj C b a → a ∈ σ.live.map Obj.addr) ∧
        ∀ i, (C.cache r.cache).order ≤ i → i < PageAlloc.pageMaxOrder →
          PageAlloc.freeAreaGetFirst σ.mem.pages i = none := by
  have hinv := reach_inv hr h
  obtain ⟨f, hi⟩ := hinv.objs
  rw [← cacheFor_none_iff hf]
  rcases request_cases σ.mem hf with ⟨hc, hreq⟩ | ⟨hc, h8, hreq⟩
  · rw [hreq]
    exact iff_of_true rfl (.inl hc)
  · rw [hreq, alloc_none_iff hr hinv h8 (unsplit_of_whole hw hc), cachePage_none_iff hi,
      allocPages_none_iff, hc]
    simp

/-- Eight pages are asked for, and there are four. -/
theorem fails_iff_eight :
    (request SlubRuns.bootCaches boot.mem (.bmalloc 32768)).1 = none :=
  (fails_iff (C := SlubRuns.bootCaches) (r := .bmalloc 32768) BuddyRuns.bootRegions_fourPages
    (.init init_boot) (show 32768 < 2 ^ 32 by decide) (by decide +kernel)).mpr
      (.inr ⟨fun b hb => (List.not_mem_nil hb).elim, by decide +kernel⟩)

end Elfboot.HeapRuns
