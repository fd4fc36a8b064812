import Elfboot.Circular
import Elfboot.Mm

/-!
The page allocator: `page_alloc.c` and the page helpers of `page.h`.

A page is its index in `page_map`. The list heads of the free areas and the list nodes
inside the pages are nodes of one memory of links, and an allocator that takes a page off
a list it is not on damages that memory the way the source does. Sharing a flag, an order
and a head per page, and never clearing the entries of pages inside a block, is the
source's; nothing here resets what it leaves stale.
-/

namespace Elfboot.PageAlloc

open Elfboot.Circular Elfboot.Word Elfboot.Mm

abbrev pageMaxOrder : ℕ := 9
abbrev pageMaxAllocSize : ℕ := 2 ^ (pageMaxOrder - 1) * pageSize
abbrev pageFlagFree : ℕ := 1

/-- The list nodes the allocator writes: the null address, the heads of the free areas,
and the two nodes inside each page. -/
inductive Node
  | null
  | area (order : ℕ)
  | page (p : ℕ)
  | freelist (p : ℕ)
  deriving DecidableEq

/-- `struct page`, less its two list nodes. -/
structure Page where
  flags : ℕ
  paddr : ℕ
  order : ℕ
  compoundHead : ℕ
  inuse : ℕ
  deriving DecidableEq

/-- `page_map`, the list nodes, and the counters of the free areas. -/
structure Mem where
  pageMap : ℕ → Page
  links : Links Node
  nrFree : ℕ → ℕ

def Mem.setPage (s : Mem) (p : ℕ) (f : Page → Page) : Mem :=
  { s with pageMap := fun q => if q = p then f (s.pageMap q) else s.pageMap q }

def Mem.setNrFree (s : Mem) (k n : ℕ) : Mem :=
  { s with nrFree := fun j => if j = k then n else s.nrFree j }

/-! ### `page.h` -/

def Page.isFree (pg : Page) : Bool := pg.flags &&& pageFlagFree != 0

def Page.setFree (pg : Page) : Page := { pg with flags := pg.flags ||| pageFlagFree }

def Page.clearFree (pg : Page) : Page :=
  { pg with flags := pg.flags &&& (2 ^ 32 - 1 - pageFlagFree) }

def physToPfn (paddr : ℕ) : ℕ := u32 paddr >>> pageShift

def physToPage (addr : ℕ) : ℕ := addr >>> pageShift

def absDifference (x y : ℕ) : ℕ := if x < y then y - x else x - y

def pageBuddy (s : Mem) (page order : ℕ) : ℕ :=
  let ppfn := physToPfn (s.pageMap page).paddr
  let bpfn := physToPfn ((s.pageMap page).paddr ^^^ (2 ^ order * pageSize))
  let diff := absDifference bpfn ppfn
  if ppfn < bpfn then page + diff else page - diff

/-! ### The free areas -/

def pageIsAligned (addr order : ℕ) : Bool := addr % shl32 pageSize order == 0

def freePageAdd (s : Mem) (page order : ℕ) : Mem :=
  { s with links := listAdd s.links (.page page) (.area order) }.setNrFree order
    (u32 (s.nrFree order + 1))

def freePageAppend (s : Mem) (page order : ℕ) : Mem :=
  { s with links := listAddTail s.links (.page page) (.area order) }.setNrFree order
    (u32 (s.nrFree order + 1))

def freePageDel (s : Mem) (page : ℕ) : Mem :=
  let order := (s.pageMap page).order
  { s with links := listDel .null s.links (.page page) }.setNrFree order
    (sub32 (s.nrFree order) 1)

/-- `list_first_entry_or_null`: the page whose node follows the head. -/
def freeAreaGetFirst (s : Mem) (order : ℕ) : Option ℕ :=
  match listFirst s.links (.area order) with
  | some (.page p) => some p
  | _ => none

/-! ### Allocating pages -/

/-- The first `n` turns of the loop of `page_set_compound_head`. -/
def setHeads (page : ℕ) : ℕ → Mem → Mem
  | 0, s => s
  | n + 1, s => (setHeads page n s).setPage (page + n) fun pg => { pg with compoundHead := page }

def pageSetCompoundHead (s : Mem) (page order : ℕ) : Mem := setHeads page (2 ^ order) s

/-- The loop of `free_page_fix`, from `porder` down to `order`. -/
def freePageFixLoop (page order : ℕ) : ℕ → Mem → Mem
  | 0, s => s
  | porder + 1, s =>
    if order < porder + 1 then
      let buddy := pageBuddy s page porder
      let s := s.setPage buddy fun pg => { pg with order := porder }.setFree
      freePageFixLoop page order porder (freePageAdd s buddy porder)
    else s

def freePageFix (s : Mem) (page order : ℕ) : Mem :=
  freePageFixLoop page order (s.pageMap page).order s

/-- The search of `get_free_pages`, `n` orders from `porder` on. -/
def getFreePagesLoop (s : Mem) (order : ℕ) : ℕ → ℕ → Option (ℕ × Mem)
  | 0, _ => none
  | n + 1, porder =>
    match freeAreaGetFirst s porder with
    | none => getFreePagesLoop s order n (porder + 1)
    | some page =>
      let s := freePageDel s page
      let s := freePageFix s page order
      some (page, s.setPage page fun pg => { pg.clearFree with order := order })

def getFreePages (s : Mem) (order : ℕ) : Option ℕ × Mem :=
  match getFreePagesLoop s order (pageMaxOrder - order) order with
  | none => (none, s)
  | some (page, s) =>
    let s := pageSetCompoundHead s page order
    let buddy := pageBuddy s page order
    (some page, pageSetCompoundHead s buddy order)

def allocPages (s : Mem) (order : ℕ) : Option ℕ × Mem := getFreePages s order

/-! ### Freeing pages -/

def mergePages (s : Mem) (page buddy : ℕ) : ℕ × Mem :=
  let s := freePageDel s page
  let s := freePageDel s buddy
  let s := s.setPage page fun pg => { pg with order := u32 (pg.order + 1) }
  let s := s.setPage buddy fun pg => { pg with order := u32 (pg.order + 1) }
  let left := if (s.pageMap page).paddr < (s.pageMap buddy).paddr then page else buddy
  (left, pageSetCompoundHead s left (s.pageMap left).order)

/-- The loop of `merge_free_page`, with the number of turns left. -/
def mergeLoop : ℕ → Mem → ℕ → Mem
  | 0, s, _ => s
  | n + 1, s, page =>
    let buddy := pageBuddy s page (s.pageMap page).order
    if (s.pageMap buddy).isFree then
      let (page, s) := mergePages s page buddy
      mergeLoop n (freePageAdd s page (s.pageMap page).order) page
    else s

def mergeFreePage (s : Mem) (page : ℕ) : Mem :=
  mergeLoop (pageMaxOrder - 1 - (s.pageMap page).order) s page

def freePages (s : Mem) (page order : ℕ) : Mem :=
  mergeFreePage ((freePageAdd s page order).setPage page Page.setFree) page

def freePage (s : Mem) (addr : ℕ) : Mem :=
  let page := physToPage addr
  freePages s page (s.pageMap page).order

/-! ### Initialization -/

/-- The first `n` turns of the loop of `compound_page_init`. -/
def initPages (paddr order : ℕ) : ℕ → Mem → Mem
  | 0, s => s
  | n + 1, s =>
    let s := initPages paddr order n s
    let page := physToPage (paddr + n * pageSize)
    let s := s.setPage page fun _ =>
      { flags := pageFlagFree, paddr := paddr + n * pageSize, order := order,
        compoundHead := physToPage paddr, inuse := 0 }
    { s with links := listInit (listInit s.links (.page page)) (.freelist page) }

def compoundPageInit (s : Mem) (paddr order : ℕ) : Mem := initPages paddr order (2 ^ order) s

/-- `while (!page_is_aligned(addr, order)) order--`. Every address is a multiple of the
page size, so the loop ends at order `0` at the latest. -/
def alignOrder (addr : ℕ) : ℕ → ℕ
  | 0 => 0
  | order + 1 => if pageIsAligned addr (order + 1) then order + 1 else alignOrder addr order

/-- The order of the next chunk: the largest that fits in `rest` and is aligned at `addr`. -/
def chunkOrder (addr rest : ℕ) : ℕ :=
  let align := min (roundDownPow2 rest) pageMaxAllocSize
  alignOrder addr (log2 align - pageShift).toNat

/-- The loop of `__page_map_free_bootmem`. A turn takes at least a page off `rest`, so
`rest / PAGE_SIZE` turns are enough. -/
def freeBootmemLoop : ℕ → Mem → ℕ → ℕ → Mem
  | 0, s, _, _ => s
  | n + 1, s, addr, rest =>
    if rest = 0 then s
    else
      let order := chunkOrder addr rest
      let s := compoundPageInit s addr order
      let s := freePageAppend s (physToPage addr) order
      freeBootmemLoop n s (addr + 2 ^ order * pageSize) (rest - 2 ^ order * pageSize)

def freeBootmemRegion (s : Mem) (region : Region) : Mem :=
  freeBootmemLoop (region.size / pageSize) s region.base region.size

def pageMapFreeBootmem (s : Mem) : List Region → Mem
  | [] => s
  | region :: regions =>
    if memoryLimit < region.stop then s
    else pageMapFreeBootmem (freeBootmemRegion s region) regions

/-- The loop of `page_map_init` over the free areas. -/
def initAreas : ℕ → Mem → Mem
  | 0, s => s
  | n + 1, s =>
    let s := initAreas n s
    { s with links := listInit s.links (.area n) }.setNrFree n 0

/-- `page_alloc_init`, once the memory for `page_map` has been obtained: whatever it and
the list nodes hold is the initial state. -/
def pageAllocInit (s : Mem) (bootmem : List Region) : Mem :=
  pageMapFreeBootmem (initAreas pageMaxOrder s) bootmem

end Elfboot.PageAlloc
