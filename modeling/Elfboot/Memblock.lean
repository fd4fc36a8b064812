import Elfboot.Mm

/-!
The boot-time memory map: `memblock.c`.

The array of regions is a function, so that what lies behind the last entry is there too:
fusing reads and moves it. Every move is of whole regions, a multiple of eight bytes.
-/

namespace Elfboot.Memblock

open Elfboot.Word Elfboot.Mm

abbrev memblockMaxRegions : ℕ := 8
abbrev memblockInvld : ℕ := 0xffffffff

/-- `struct memblock_type`, less `max`, which nothing reads. -/
structure MemblockType where
  cnt : ℕ
  totalSize : ℕ
  regions : ℕ → Region

/-- `memmove` inside the array, in regions. -/
def memmove (regions : ℕ → Region) (dst src n : ℕ) : ℕ → Region :=
  fun j => if dst ≤ j ∧ j < dst + n then regions (j - dst + src) else regions j

def MemblockType.setRegion (t : MemblockType) (i : ℕ) (r : Region) : MemblockType :=
  { t with regions := fun j => if j = i then r else t.regions j }

/-- `memblock_adjust_region`: the new base and size, and the end. -/
def memblockAdjustRegion (base size : ℕ) : ℕ × ℕ × ℕ :=
  let nbase := roundDown base pageSize
  let limit := roundUp (u32 (base + size)) pageSize
  let size := sub32 limit nbase
  (nbase, size, u32 (nbase + size))

/-! ### Adding -/

def fusionPrev (t : MemblockType) (index : ℕ) : MemblockType :=
  if index = 0 then t
  else
    let prvreg := t.regions (index - 1)
    let region := t.regions index
    if prvreg.stop = region.base then
      let t := t.setRegion index ⟨prvreg.base, u32 (region.size + prvreg.size)⟩
      { t with regions := memmove t.regions (index - 1) index (t.cnt - index) }
    else t

def fusionNext (t : MemblockType) (index : ℕ) : MemblockType :=
  if index < t.cnt then
    let region := t.regions index
    let nxtreg := t.regions (index + 1)
    if region.stop = nxtreg.base then
      let t := t.setRegion (index + 1) ⟨region.base, u32 (nxtreg.size + region.size)⟩
      { t with regions := memmove t.regions index (index + 1) (t.cnt - (index + 1)) }
    else t
  else t

def memblockFusionRegion (t : MemblockType) (index : ℕ) : MemblockType :=
  if t.cnt = 1 then t else fusionNext (fusionPrev t index) index

def memblockInsertRegion (t : MemblockType) (index base size : ℕ) : MemblockType :=
  let regions := memmove t.regions (index + 1) index (t.cnt - index)
  { cnt := t.cnt + 1
    totalSize := u32 (t.totalSize + size)
    regions := fun j => if j = index then ⟨base, size⟩ else regions j }

/-- The loop of `memblock_add_region`: what is left of the new range starts at `base`. A
turn moves `i` past one of the regions that were there, so `cnt` turns are enough. -/
def addLoop (nend : ℕ) : ℕ → MemblockType → ℕ → ℕ → MemblockType × ℕ × ℕ
  | 0, t, i, base => (t, i, base)
  | n + 1, t, i, base =>
    if i < t.cnt then
      let rbeg := (t.regions i).base
      let rend := (t.regions i).stop
      if nend ≤ rbeg then (t, i, base)
      else if rend ≤ base then addLoop nend n t (i + 1) base
      else if base ≤ rbeg then
        addLoop nend n (memblockInsertRegion t i base (sub32 rbeg base)) (i + 2) (min rend nend)
      else addLoop nend n t (i + 1) (min rend nend)
    else (t, i, base)

def memblockAddRegion (t : MemblockType) (base size : ℕ) : MemblockType :=
  let (base, size, nend) := memblockAdjustRegion base size
  if (t.regions 0).size = 0 then
    { t.setRegion 0 ⟨base, size⟩ with totalSize := u32 (t.totalSize + size) }
  else
    let (t, i, base) := addLoop nend t.cnt t 0 base
    let t := if base < nend then memblockInsertRegion t i base (sub32 nend base) else t
    memblockFusionRegion t i

/-! ### Removing -/

/-- The loop of `memblock_del_region`, with its result. A turn moves `i` on or takes a
region away, so `cnt` turns are enough. -/
def delLoop (nend : ℕ) : ℕ → MemblockType → ℕ → ℕ → ℕ → MemblockType × ℕ
  | 0, t, _, _, dbeg => (t, dbeg)
  | n + 1, t, i, base, dbeg =>
    if i < t.cnt then
      let rbeg := (t.regions i).base
      let rend := (t.regions i).stop
      if nend ≤ rbeg then (t, dbeg)
      else if rend ≤ base then delLoop nend n t (i + 1) base dbeg
      else
        let mbeg := max rbeg base
        let mend := min rend nend
        let dbeg := if dbeg = 0 then mbeg else dbeg
        if rbeg < base ∧ nend < rend then
          let t := t.setRegion i ⟨rbeg, sub32 base rbeg⟩
          (memblockInsertRegion t (i + 1) nend (sub32 rend nend), base)
        else
          let size := sub32 (t.regions i).size (sub32 mend mbeg)
          let t := { t.setRegion i ⟨rbeg, size⟩ with
            totalSize := sub32 t.totalSize (sub32 mend mbeg) }
          if size = 0 then
            let t := { t with
              cnt := t.cnt - 1
              regions := memmove t.regions i (i + 1) (t.cnt - (i + 1)) }
            delLoop nend n t i base dbeg
          else if base ≤ rbeg then (t.setRegion i ⟨nend, size⟩, base)
          else if rend ≤ nend then delLoop nend n t (i + 1) rend dbeg
          else delLoop nend n t (i + 1) base dbeg
    else (t, dbeg)

def memblockDelRegion (t : MemblockType) (base size : ℕ) : MemblockType × ℕ :=
  let (base, _, nend) := memblockAdjustRegion base size
  delLoop nend t.cnt t 0 base memblockInvld

/-! ### The interface -/

def memblockAdd (t : MemblockType) (base size : ℕ) : MemblockType := memblockAddRegion t base size

/-- The table afterwards, and whether `memblock_reserve` reports success. -/
def memblockReserve (t : MemblockType) (base size : ℕ) : MemblockType × Bool :=
  let (t, dbeg) := memblockDelRegion t base size
  (t, dbeg != memblockInvld)

def clamp (value lower upper : ℕ) : ℕ := min (max value lower) upper

/-- The loop of `memblock_find_in_range`, with `n` regions to go from `i` on. -/
def findLoop (t : MemblockType) (size align start stop : ℕ) : ℕ → ℕ → ℕ
  | 0, _ => 0
  | n + 1, i =>
    let rbeg := clamp (t.regions i).base start stop
    let rend := clamp (t.regions i).stop start stop
    let cand := roundUp rbeg align
    if cand < rend ∧ size ≤ sub32 rend cand then cand
    else findLoop t size align start stop n (i + 1)

def memblockFindInRange (t : MemblockType) (size align start stop : ℕ) : ℕ :=
  findLoop t size align start stop t.cnt 0

def memblockAllocRange (t : MemblockType) (size align start stop : ℕ) : MemblockType × ℕ :=
  let base := memblockFindInRange t size align start stop
  if base = 0 then (t, 0)
  else
    let (t, ok) := memblockReserve t base size
    (t, if ok then base else 0)

def memblockAlloc (t : MemblockType) (size align : ℕ) : MemblockType × ℕ :=
  memblockAllocRange t size align memoryStart memoryLimit

/-- The table before anything is added: one entry of size zero. -/
def emptyTable (behind : ℕ → Region) : MemblockType where
  cnt := 1
  totalSize := 0
  regions i := if i < memblockMaxRegions then ⟨0, 0⟩ else behind i

end Elfboot.Memblock
