import Elfboot.LinkFrame
import Elfboot.PageAlloc
import Elfboot.Slub

/-!
The slab allocator over the page allocator: `slub.c` and `page_alloc.c` on one memory.

A `struct page` has fields for both. Its list node is an entry of a free area while the page is
free, and one of a list of slabs while the page is a slab, so that each allocator finds there what
the other one left. What the page allocator does is that of `PageAlloc`, seen through its names for
the nodes, and the functions of `slub.c` are those of `Slub` up to where they call it.
-/

namespace Elfboot.Heap

open Elfboot.Circular Elfboot.Word Elfboot.Mm Elfboot.Slub
open Elfboot.PageAlloc (pageMaxOrder)

/-! ### The names of the nodes -/

/-- No page has this index: addresses have thirty-two bits. -/
abbrev pagesEnd : ℕ := 2 ^ 20

/-- What a number behind the last free area stands for. -/
def otherNode (n : ℕ) : Slub.Node :=
  if n % 4 = 0 then .slabsFull (n / 4)
  else if n % 4 = 1 then .slabsPartial (n / 4)
  else if n % 4 = 2 then .slabsFree (n / 4)
  else .obj (n / 4)

/-- The name that the slab allocator has for a node. It has none for the heads of the free areas,
which get those of pages there are not. -/
def slubNode : PageAlloc.Node → Slub.Node
  | .null => .null
  | .area k => if k < pageMaxOrder then .page (pagesEnd + k) else otherNode (k - pageMaxOrder)
  | .page p => .page (if p < pagesEnd then p else p + pageMaxOrder)
  | .freelist p => .freelist p

/-- The name that the page allocator has for a node. -/
def pagesNode : Slub.Node → PageAlloc.Node
  | .null => .null
  | .slabsFull c => .area (pageMaxOrder + 4 * c)
  | .slabsPartial c => .area (pageMaxOrder + (4 * c + 1))
  | .slabsFree c => .area (pageMaxOrder + (4 * c + 2))
  | .obj a => .area (pageMaxOrder + (4 * a + 3))
  | .page p =>
    if p < pagesEnd then .page p
    else if p < pagesEnd + pageMaxOrder then .area (p - pagesEnd)
    else .page (p - pageMaxOrder)
  | .freelist p => .freelist p

lemma pagesNode_other (n : ℕ) : pagesNode (otherNode n) = .area (pageMaxOrder + n) := by
  unfold otherNode
  split_ifs
  all_goals simp only [pagesNode, PageAlloc.Node.area.injEq]; omega

lemma pagesNode_slubNode (x : PageAlloc.Node) : pagesNode (slubNode x) = x := by
  cases x with
  | null => rfl
  | area k =>
    by_cases hk : k < pageMaxOrder
    · simp [slubNode, pagesNode, hk]
    · simp only [slubNode, if_neg hk, pagesNode_other, PageAlloc.Node.area.injEq]
      omega
  | page p =>
    by_cases hp : p < pagesEnd
    · simp [slubNode, pagesNode, hp]
    · have h1 : ¬ p + pageMaxOrder < pagesEnd := by omega
      have h2 : ¬ p + pageMaxOrder < pagesEnd + pageMaxOrder := by omega
      simp [slubNode, pagesNode, hp, h1, h2]
  | freelist p => rfl

lemma slubNode_other (n : ℕ) : slubNode (.area (pageMaxOrder + n)) = otherNode n := by
  simp [slubNode]

lemma slubNode_pagesNode (x : Slub.Node) : slubNode (pagesNode x) = x := by
  cases x with
  | null => rfl
  | page p =>
    simp only [pagesNode]
    split_ifs with h1 h2
    · simp [slubNode, h1]
    · have h3 : p - pagesEnd < pageMaxOrder := by omega
      simp only [slubNode, if_pos h3, Slub.Node.page.injEq]
      omega
    · have h3 : ¬ p - pageMaxOrder < pagesEnd := by omega
      simp only [slubNode, if_neg h3, Slub.Node.page.injEq]
      omega
  | freelist p => rfl
  | _ =>
    simp only [pagesNode, slubNode_other]
    unfold otherNode
    split_ifs
    all_goals first
      | omega
      | (congr 1; omega)

/-- The nodes of one memory under the names of the one and of the other. -/
def nodeNames : PageAlloc.Node ≃ Slub.Node :=
  ⟨slubNode, pagesNode, pagesNode_slubNode, slubNode_pagesNode⟩

/-! ### The memory -/

/-- What the slab allocator reaches, and what only the page allocator does of `page_map` and of the
free areas. -/
structure Mem where
  slub : Slub.Mem
  flags : ℕ → ℕ
  order : ℕ → ℕ
  nrFree : ℕ → ℕ

/-- The memory as the page allocator sees it. -/
def Mem.pages (s : Mem) : PageAlloc.Mem where
  pageMap q :=
    let page := s.slub.pageMap q
    ⟨s.flags q, page.paddr, s.order q, page.compoundHead, page.inuse⟩
  links := s.slub.links.relabel nodeNames.symm
  nrFree := s.nrFree

/-- The memory after the page allocator has worked on it. -/
def Mem.setPages (s : Mem) (t : PageAlloc.Mem) : Mem where
  slub := { s.slub with
    pageMap := fun q =>
      let page := t.pageMap q
      ⟨page.paddr, page.compoundHead, (s.slub.pageMap q).slabCache, page.inuse⟩
    links := t.links.relabel nodeNames }
  flags q := (t.pageMap q).flags
  order q := (t.pageMap q).order
  nrFree := t.nrFree

/-- The memory with other contents of what both reach. -/
def Mem.reach (s : Mem) (pageMap : ℕ → Slub.Page) (links : Links Slub.Node) : Mem :=
  { s with slub := { s.slub with pageMap, links } }

@[simp] lemma Mem.setPages_pages (s : Mem) (t : PageAlloc.Mem) : (s.setPages t).pages = t := by
  simp [Mem.pages, Mem.setPages]

@[simp] lemma Mem.setPages_slabs (s : Mem) (t : PageAlloc.Mem) :
    (s.setPages t).slub.slabs = s.slub.slabs := rfl

/-! ### The page allocator -/

def allocPages (s : Mem) (order : ℕ) : Option ℕ × Mem :=
  let (page, t) := PageAlloc.allocPages s.pages order
  (page, s.setPages t)

def freePage (s : Mem) (addr : ℕ) : Mem := s.setPages (PageAlloc.freePage s.pages addr)

/-- The page allocator as the functions of `Slub` call it. -/
def Mem.pageAllocator (s : Mem) : Pages where
  alloc order pageMap links :=
    let (page, t) := allocPages (s.reach pageMap links) order
    (page, t.slub.pageMap, t.slub.links)
  free addr pageMap links :=
    let t := freePage (s.reach pageMap links) addr
    (t.slub.pageMap, t.slub.links)

/-! ### The slab allocator -/

variable (C : Caches)

/-- A call of `alloc_pages` that has been made. -/
def handed (page : Option ℕ) : Pages where
  alloc _ pageMap links := (page, pageMap, links)
  free _ pageMap links := (pageMap, links)

def bmemCacheGrow (s : Mem) (c : ℕ) : Option ℕ × Mem :=
  let (page, s) := allocPages s (C.cache c).order
  let (page, slub) := Slub.bmemCacheGrow C (handed page) s.slub c
  (page, { s with slub })

def bmemCacheAllocObject (s : Mem) (c page : ℕ) : Option ℕ × Mem :=
  let (objp, slub) := Slub.bmemCacheAllocObject C s.slub c page
  (objp, { s with slub })

def bmemCacheAlloc (s : Mem) (c : ℕ) : Option ℕ × Mem :=
  match bmemCachePage s.slub c with
  | (some page, slub) => bmemCacheAllocObject C { s with slub } c page
  | (none, slub) =>
    match bmemCacheGrow C { s with slub } c with
    | (none, s) => (none, s)
    | (some page, s) => bmemCacheAllocObject C s c page

def bmalloc (s : Mem) (size : ℕ) : Option ℕ × Mem :=
  match bmallocCache size with
  | none => (none, s)
  | some c => bmemCacheAlloc C s c

/-- `__bfree`, with the call of `free_page` put into the history. -/
def bfreeObj (s : Mem) (page c objp : ℕ) : Mem :=
  let slub := { s.slub with links := listAddTail s.slub.links (.obj objp) (.freelist page) }
  let slub := slub.count c fun n => { n with freeObjs := u32 (n.freeObjs + 1) }
  let slub := slub.setPage page fun pg => { pg with inuse := sub32 pg.inuse 1 }
  if (slub.pageMap page).inuse = 0 then
    let slub := { slub with links := listDel .null slub.links (.page page) }
    let addr := (slub.pageMap page).paddr
    let s := freePage { s with slub } addr
    let slub := { s.slub with calls := .gave addr :: s.slub.calls }
    { s with slub := slub.count c fun n =>
        { n with freeObjs := sub32 n.freeObjs (C.cache c).nums } }
  else { s with slub := { slub with
    links := listMove .null slub.links (.page page) (.slabsPartial c) } }

def bfree (s : Mem) (objp : ℕ) : Mem :=
  let page := bmemObjPage s.slub objp
  bfreeObj C s page (s.slub.pageMap page).slabCache objp

/-! ### What is reached is what `Slub` says -/

variable {C} (s : Mem) (c : ℕ)

lemma bmemCacheGrow_slub :
    ((bmemCacheGrow C s c).1, (bmemCacheGrow C s c).2.slub) =
      Slub.bmemCacheGrow C s.pageAllocator s.slub c := by
  have hreach : s.reach s.slub.pageMap s.slub.links = s := rfl
  unfold bmemCacheGrow Slub.bmemCacheGrow Mem.pageAllocator handed
  dsimp only
  rw [hreach]
  unfold allocPages
  rcases PageAlloc.allocPages s.pages (C.cache c).order with ⟨_ | page, t⟩ <;> rfl

/-- **The slab allocator over the page allocator** does what it does over any page allocator. -/
theorem bmemCacheAlloc_slub :
    ((bmemCacheAlloc C s c).1, (bmemCacheAlloc C s c).2.slub) =
      Slub.bmemCacheAlloc C s.pageAllocator s.slub c := by
  unfold bmemCacheAlloc Slub.bmemCacheAlloc
  rcases hp : bmemCachePage s.slub c with ⟨_ | page, slub⟩
  · have hgrow := bmemCacheGrow_slub (C := C) { s with slub } c
    have hsame : ({ s with slub } : Mem).pageAllocator = s.pageAllocator := rfl
    rw [hsame] at hgrow
    dsimp only
    rw [← hgrow]
    rcases bmemCacheGrow C { s with slub } c with ⟨_ | page, t⟩ <;> rfl
  · rfl

theorem bmalloc_slub (size : ℕ) :
    ((bmalloc C s size).1, (bmalloc C s size).2.slub) =
      Slub.bmalloc C s.pageAllocator s.slub size := by
  unfold bmalloc Slub.bmalloc
  cases bmallocCache size with
  | none => rfl
  | some c => exact bmemCacheAlloc_slub s c

theorem bfree_slub (objp : ℕ) :
    (bfree C s objp).slub = Slub.bfree C s.pageAllocator s.slub objp := by
  unfold bfree Slub.bfree bfreeObj Slub.bfreeObj
  dsimp only
  split_ifs
  · rfl
  · rfl

end Elfboot.Heap
