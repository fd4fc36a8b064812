import Elfboot.Circular
import Elfboot.Mm

/-!
The slab allocator: `slub.c`.

A page is its index in `page_map`, a cache its number, and an object its address. The list
nodes are those of the caches, those of the pages, and the ones that are kept in the first
eight bytes of a free object. Whoever holds an object writes over whatever nodes lie in it.

The page allocator is an argument of the functions that call it. It is handed what it can
reach, which is `page_map` and the links.
-/

namespace Elfboot.Slub

open Elfboot.Circular Elfboot.Word Elfboot.Mm

abbrev kmallocCacheNum : ℕ := 13
abbrev kmallocMinShift : ℤ := 0
abbrev kmallocMinSize : ℕ := 8

inductive Node
  | null
  | slabsFull (c : ℕ)
  | slabsPartial (c : ℕ)
  | slabsFree (c : ℕ)
  | page (p : ℕ)
  | freelist (p : ℕ)
  | obj (a : ℕ)
  deriving DecidableEq

/-- The part of `struct page` that is read for a slab, less the two list nodes. -/
structure Page where
  paddr : ℕ
  compoundHead : ℕ
  slabCache : ℕ
  inuse : ℕ
  deriving DecidableEq

/-- What the statistics of a cache count. -/
structure Counters where
  freeObjs : ℕ
  freeSlabs : ℕ
  totalSlabs : ℕ

/-- A block of `2 ^ order` pages that a cache has from the page allocator. -/
structure Slab where
  page : ℕ
  order : ℕ
  cache : ℕ
  deriving DecidableEq

/-- A call of the page allocator: a block that `alloc_pages` gave, or the address that `free_page`
was called for. -/
inductive PagesCall
  | got (b : Slab)
  | gave (addr : ℕ)
  deriving DecidableEq

/-- The blocks that were obtained and not freed since. -/
def heldSlabs : List PagesCall → List Slab
  | [] => []
  | .got b :: calls => b :: heldSlabs calls
  | .gave addr :: calls => (heldSlabs calls).filter fun b => b.page * pageSize ≠ addr

/-- The memory, and as history the calls of the page allocator, newest first. -/
structure Mem where
  pageMap : ℕ → Page
  links : Links Node
  counters : ℕ → Counters
  calls : List PagesCall

def Mem.slabs (s : Mem) : List Slab := heldSlabs s.calls

lemma Mem.slabs_nil {s : Mem} (h : s.calls = []) : s.slabs = [] := congrArg heldSlabs h

/-- A block that was obtained is still there, or `free_page` was called for it since. -/
lemma held_or_gave {calls later earlier : List PagesCall} {b : Slab}
    (h : calls = later ++ .got b :: earlier) :
    b ∈ heldSlabs calls ∨ .gave (b.page * pageSize) ∈ later := by
  subst h
  induction later with
  | nil => exact .inl List.mem_cons_self
  | cons call later ih =>
    rcases ih with ih | ih
    · cases call with
      | got b' => exact .inl (List.mem_cons_of_mem _ ih)
      | gave addr =>
        by_cases ha : b.page * pageSize = addr
        · exact .inr (ha ▸ List.mem_cons_self)
        · exact .inl (List.mem_filter.mpr ⟨ih, decide_eq_true ha⟩)
    · exact .inr (List.mem_cons_of_mem _ ih)

def Mem.setPage (s : Mem) (p : ℕ) (f : Page → Page) : Mem :=
  { s with pageMap := fun q => if q = p then f (s.pageMap q) else s.pageMap q }

def Mem.count (s : Mem) (c : ℕ) (f : Counters → Counters) : Mem :=
  { s with counters := fun d => if d = c then f (s.counters d) else s.counters d }

/-- Two states of the links that differ in nodes that lie in an object of the given size,
in whole or in part, at most. -/
def Within (a size : ℕ) (L L' : Links Node) : Prop :=
  ∀ x, (∀ b, x = .obj b → b + 8 ≤ a ∨ a + size ≤ b) →
    L'.next x = L.next x ∧ L'.prev x = L.prev x

/-- A constructor writes to the object it is called for. -/
structure Ctor (size : ℕ) where
  run : ℕ → Links Node → Links Node
  within : ∀ a L, Within a size L (run a L)

/-! ### The sizes -/

/-- `calculate_cache_order`: `log2` is at least `-1`. -/
def calculateCacheOrder (size : ℕ) : ℕ :=
  let ret := (log2 (sub32 size 1) + 1).toNat
  ret - min ret pageShift

/-- The fields of `struct bmem_cache` that are set when a cache is created, and how. -/
structure Cache where
  size : ℕ
  nums : ℕ
  order : ℕ
  ctor : Option (Ctor size)
  size_eq : ∃ k < 32, size = 2 ^ k
  nums_eq : nums = max (pageSize / size) 1
  order_eq : order = calculateCacheOrder size

/-- The cache for objects of a size that is a power of two. -/
def Cache.ofSize (size : ℕ) (h : ∃ k < 32, size = 2 ^ k) (ctor : Option (Ctor size)) : Cache :=
  ⟨size, max (pageSize / size) 1, calculateCacheOrder size, ctor, h, rfl, rfl⟩

/-- The sizes in `bmalloc_info`. -/
def bmallocInfo : List ℕ :=
  [0x8, 0x10, 0x20, 0x40, 0x80, 0x100, 0x200, 0x400, 0x800, 0x1000, 0x2000, 0x4000, 0x8000]

lemma bmallocInfo_eq : ∀ i < kmallocCacheNum, bmallocInfo.getD i 0 = 2 ^ (i + 3) := by decide

/-- `bmalloc_create_cache`. -/
def bmallocCreateCache (i : ℕ) (h : i < kmallocCacheNum) : Cache :=
  .ofSize (bmallocInfo.getD i 0) ⟨i + 3, by change i < 13 at h; omega, bmallocInfo_eq i h⟩ none

lemma roundUpPow2_eq (size : ℕ) : ∃ k < 32, roundUpPow2 size = 2 ^ k := by
  refine ⟨fls (sub32 size 1) % 32, Nat.mod_lt _ (by decide), ?_⟩
  rw [roundUpPow2, shl32, Nat.one_shiftLeft]
  exact Nat.mod_eq_of_lt (Nat.pow_lt_pow_right (by decide) (Nat.mod_lt _ (by decide)))

/-- `bmem_cache_create`, once there is memory for the cache. -/
def bmemCacheCreate (size : ℕ) (ctor : Option (Ctor (roundUpPow2 size))) : Cache :=
  .ofSize (roundUpPow2 size) (roundUpPow2_eq size) ctor

/-- What `bmem_cache_init` does to the lists and the statistics of a cache. -/
def bmemCacheInit (s : Mem) (c : ℕ) : Mem :=
  { s.count c fun _ => ⟨0, 0, 0⟩ with
    links := listInit (listInit (listInit s.links (.slabsFree c)) (.slabsPartial c))
      (.slabsFull c) }

/-- The caches there are, `bmalloc_caches` first. -/
structure Caches where
  cache : ℕ → Cache
  bmalloc : ∀ i < kmallocCacheNum, (cache i).size = bmallocInfo.getD i 0

def bmallocIndex (size : ℕ) : ℤ :=
  if size = 0 then 0
  else
    let size := roundUpPow2 size
    if size ≤ kmallocMinSize then kmallocMinShift
    else if kmallocMinSize < size ∧ size ≤ 2 ^ 15 then log2 size - 3
    else -1

def bmallocCache (size : ℕ) : Option ℕ :=
  let index := bmallocIndex size
  if index < 0 then none else some index.toNat

/-! ### Allocating -/

/-- The page allocator: what a call returns, and what it leaves behind. -/
structure Pages where
  alloc : ℕ → (ℕ → Page) → Links Node → Option ℕ × (ℕ → Page) × Links Node
  free : ℕ → (ℕ → Page) → Links Node → (ℕ → Page) × Links Node

variable (C : Caches) (pages : Pages)

/-- `list_first_or_null` on a freelist: the object whose node follows the head. -/
def freelistFirst (s : Mem) (page : ℕ) : Option ℕ :=
  match listFirst s.links (.freelist page) with
  | some (.obj a) => some a
  | _ => none

def bmemCacheFetch (s : Mem) (page : ℕ) : Option ℕ × Mem :=
  match freelistFirst s page with
  | none => (none, s)
  | some objp =>
    let s := { s with links := listDel .null s.links (.obj objp) }
    (some objp, s.setPage page fun pg => { pg with inuse := u32 (pg.inuse + 1) })

/-- `list_first_entry_or_null` on a list of slabs. -/
def slabsFirst (s : Mem) (head : Node) : Option ℕ :=
  match listFirst s.links head with
  | some (.page p) => some p
  | _ => none

def bmemCachePage (s : Mem) (c : ℕ) : Option ℕ × Mem :=
  match slabsFirst s (.slabsPartial c) with
  | some page => (some page, s)
  | none =>
    match slabsFirst s (.slabsFree c) with
    | some page => (some page, s.count c fun n => { n with freeSlabs := sub32 n.freeSlabs 1 })
    | none => (none, s)

def bmemCacheFixup (s : Mem) (c page : ℕ) : Mem :=
  let links := listDel .null s.links (.page page)
  if (s.pageMap page).inuse = (C.cache c).nums then
    { s with links := listAdd links (.page page) (.slabsFull c) }
  else { s with links := listAdd links (.page page) (.slabsPartial c) }

/-- The first `n` turns of the loop of `bmem_cache_setup`. -/
def setupLoop (paddr size page : ℕ) : ℕ → Links Node → Links Node
  | 0, links => links
  | n + 1, links =>
    listAddTail (setupLoop paddr size page n links) (.obj (u32 (paddr + size * n))) (.freelist page)

def bmemCacheSetup (s : Mem) (c page : ℕ) : Mem :=
  { s with links :=
      setupLoop (s.pageMap page).paddr (C.cache c).size page (C.cache c).nums s.links }

def bmemCacheGrow (s : Mem) (c : ℕ) : Option ℕ × Mem :=
  match pages.alloc (C.cache c).order s.pageMap s.links with
  | (none, pageMap, links) => (none, { s with pageMap, links })
  | (some page, pageMap, links) =>
    let calls := .got ⟨page, (C.cache c).order, c⟩ :: s.calls
    let s := { s with pageMap, links, calls }
    let s := { s with links := listInit s.links (.freelist page) }
    let s := s.setPage page fun pg => { pg with slabCache := c, inuse := 0 }
    let s := bmemCacheSetup C s c page
    let s := s.count c fun n => { n with totalSlabs := u32 (n.totalSlabs + 1) }
    let s := { s with links := listAdd s.links (.page page) (.slabsFree c) }
    (some page, s.count c fun n => { n with freeObjs := u32 (n.freeObjs + (C.cache c).nums) })

def runCtor (s : Mem) (c objp : ℕ) : Mem :=
  match (C.cache c).ctor with
  | none => s
  | some ctor => { s with links := ctor.run objp s.links }

def bmemCacheAllocObject (s : Mem) (c page : ℕ) : Option ℕ × Mem :=
  match bmemCacheFetch s page with
  | (none, s) => (none, s)
  | (some objp, s) =>
    let s := runCtor C s c objp
    let s := s.count c fun n => { n with freeObjs := sub32 n.freeObjs 1 }
    (some objp, bmemCacheFixup C s c page)

def bmemCacheAlloc (s : Mem) (c : ℕ) : Option ℕ × Mem :=
  match bmemCachePage s c with
  | (some page, s) => bmemCacheAllocObject C s c page
  | (none, s) =>
    match bmemCacheGrow C pages s c with
    | (none, s) => (none, s)
    | (some page, s) => bmemCacheAllocObject C s c page

def bmalloc (s : Mem) (size : ℕ) : Option ℕ × Mem :=
  match bmallocCache size with
  | none => (none, s)
  | some c => bmemCacheAlloc C pages s c

/-! ### Freeing -/

def physToPage (addr : ℕ) : ℕ := addr >>> pageShift

def bmemObjPage (s : Mem) (objp : ℕ) : ℕ := (s.pageMap (physToPage objp)).compoundHead

/-- `free_page`, with the call put into the history. -/
def freePage (s : Mem) (addr : ℕ) : Mem :=
  let (pageMap, links) := pages.free addr s.pageMap s.links
  { s with pageMap, links, calls := .gave addr :: s.calls }

/-- `__bfree`. -/
def bfreeObj (s : Mem) (page c objp : ℕ) : Mem :=
  let s := { s with links := listAddTail s.links (.obj objp) (.freelist page) }
  let s := s.count c fun n => { n with freeObjs := u32 (n.freeObjs + 1) }
  let s := s.setPage page fun pg => { pg with inuse := sub32 pg.inuse 1 }
  if (s.pageMap page).inuse = 0 then
    let s := { s with links := listDel .null s.links (.page page) }
    let s := freePage pages s (s.pageMap page).paddr
    s.count c fun n => { n with freeObjs := sub32 n.freeObjs (C.cache c).nums }
  else { s with links := listMove .null s.links (.page page) (.slabsPartial c) }

def bfree (s : Mem) (objp : ℕ) : Mem :=
  let page := bmemObjPage s objp
  bfreeObj C pages s page (s.pageMap page).slabCache objp

end Elfboot.Slub
