import Elfboot.BuddyBoot
import Elfboot.Loop

/-!
The donation of one boot region, `__page_map_free_bootmem`, turn by turn: the blocks that it
appends to the free lists tile the region.
-/

namespace Elfboot.BootChunks

open Elfboot.Circular Elfboot.Loop Elfboot.Dyadic Elfboot.Word Elfboot.Mm Elfboot.PageAlloc
open Elfboot.BuddyInv Elfboot.BuddyBoot

/-- `while (!page_is_aligned(addr, order)) order--`. -/
def alignTurn (addr order : ℕ) : Option (Turn ℕ ℕ) :=
  if pageIsAligned addr order then some (.leave order) else some (.next (sub32 order 1))

/-- What `__page_map_free_bootmem` works on, with the blocks appended so far. -/
structure Boot where
  mem : Mem
  addr : ℕ
  rest : ℕ
  appended : List Block

/-- The order of the largest block that fits in `rest`, and that there is. -/
def fittingOrder (rest : ℕ) : ℕ :=
  let align := min (roundDownPow2 rest) pageMaxAllocSize
  (log2 align - pageShift).toNat

/-- What a turn does, with the order that the loop inside it ends with. -/
def bootmemNext (s : Boot) (order : ℕ) : Boot :=
  let mem := compoundPageInit s.mem s.addr order
  let page := physToPage s.addr
  let mem := freePageAppend mem page order
  let size := u32 (2 ^ order * pageSize)
  ⟨mem, u32 (s.addr + size), sub32 s.rest size, s.appended ++ [⟨page, order⟩]⟩

/-- A turn of the loop over a region. The loop inside it has one turn for each order. -/
def bootmemTurn (s : Boot) : Option (Turn Boot Boot) :=
  if s.rest = 0 then some (.leave s)
  else
    match loop (alignTurn s.addr) (fittingOrder s.rest + 1) (fittingOrder s.rest) with
    | none => none
    | some order => some (.next (bootmemNext s order))

variable {mem : Mem} {region : Region} {s : Boot} {p m n start stop : ℕ} {bs : List Block}
  {b : Block}

/-! ### One turn -/

/-- At the start of a page the loop ends, with the order that `alignOrder` gives. -/
lemma align_ends (hp : pageIsAligned (p * pageSize) 0 = true) {order : ℕ} (h : order < 2 ^ 32) :
    loop (alignTurn (p * pageSize)) (order + 1) order = some (alignOrder (p * pageSize) order) := by
  induction order with
  | zero =>
    refine loop_leave ?_
    unfold alignTurn
    rw [if_pos hp]
    rfl
  | succ order ih =>
    by_cases hal : pageIsAligned (p * pageSize) (order + 1) = true
    · have hturn : alignTurn (p * pageSize) (order + 1) = some (.leave (order + 1)) := if_pos hal
      rw [loop_leave hturn, alignOrder, if_pos hal]
    · have hturn : alignTurn (p * pageSize) (order + 1) = some (.next order) := by
        unfold alignTurn
        rw [if_neg hal, sub32_of_le (by omega) h, Nat.add_sub_cancel]
      rw [loop_next hturn, ih (by omega), alignOrder, if_neg hal]

lemma fittingOrder_lt (rest : ℕ) : fittingOrder rest < 2 ^ 32 := by
  unfold fittingOrder
  dsimp only
  generalize hv : min (roundDownPow2 rest) pageMaxAllocSize = v
  have hlt : v < 2 ^ 21 := hv ▸ (min_le_right _ _).trans_lt (by decide)
  have hfls : fls v ≤ 21 := by
    unfold fls
    split_ifs with h0
    · exact Nat.zero_le _
    · exact (Nat.log2_lt h0).2 hlt
  unfold log2
  omega

lemma chunkOrder_fitting (addr rest : ℕ) :
    chunkOrder addr rest = alignOrder addr (fittingOrder rest) := rfl

lemma turn_eq {order : ℕ} (hrest : s.rest ≠ 0)
    (hloop : loop (alignTurn s.addr) (fittingOrder s.rest + 1) (fittingOrder s.rest) =
      some order) :
    bootmemTurn s = some (.next (bootmemNext s order)) := by
  unfold bootmemTurn
  rw [if_neg hrest, hloop]

lemma turn_next (hm : m ≠ 0) :
    bootmemTurn ⟨mem, p * pageSize, m * pageSize, bs⟩ =
      some (.next (bootmemNext ⟨mem, p * pageSize, m * pageSize, bs⟩
        (chunkOrder (p * pageSize) (m * pageSize)))) := by
  have haligned : pageIsAligned (p * pageSize) 0 = true :=
    (pageIsAligned_iff (by decide)).2 (one_dvd p)
  refine turn_eq (Nat.mul_ne_zero hm (by decide)) ?_
  rw [chunkOrder_fitting]
  exact align_ends haligned (fittingOrder_lt _)

lemma next_eq (hle : p + m ≤ 256) {k : ℕ} (hfits : 2 ^ k ≤ m) :
    bootmemNext ⟨mem, p * pageSize, m * pageSize, bs⟩ k =
      ⟨freePageAppend (compoundPageInit mem (p * pageSize) k) p k, (p + 2 ^ k) * pageSize,
        (m - 2 ^ k) * pageSize, bs ++ [⟨p, k⟩]⟩ := by
  have hsize : u32 (2 ^ k * pageSize) = 2 ^ k * pageSize := by
    refine u32_of_lt ?_
    simp only [pageSize]
    omega
  have haddr : u32 (p * pageSize + 2 ^ k * pageSize) = (p + 2 ^ k) * pageSize := by
    rw [← Nat.add_mul]
    refine u32_of_lt ?_
    simp only [pageSize]
    omega
  have hrest : sub32 (m * pageSize) (2 ^ k * pageSize) = (m - 2 ^ k) * pageSize := by
    rw [Nat.sub_mul]
    refine sub32_of_le (Nat.mul_le_mul_right _ hfits) ?_
    simp only [pageSize]
    omega
  unfold bootmemNext
  dsimp only
  rw [physToPage_mul, hsize, haddr, hrest]

/-! ### A region -/

/-- A block of a region that ends with the page before `stop`. -/
structure Chunk (stop : ℕ) (mem : Mem) (b : Block) : Prop where
  order_le : b.order ≤ 8
  aligned : b.Aligned
  largest : ∀ j, 2 ^ j ∣ b.head → b.head + 2 ^ j ≤ stop → j ≤ b.order
  pages : ∀ q ∈ b.pages, mem.pageMap q = newPage b.head b.order q

/-- The heads of the blocks of an order. -/
def heads (bs : List Block) (k : ℕ) : List ℕ := (bs.filter (·.order = k)).map Block.head

/-- The blocks are behind those that the free lists held. -/
def Queued (start stop : ℕ) (mem₀ mem : Mem) (bs : List Block) : Prop :=
  ∀ F, Lists mem₀.links areas (areaLists F) → (∀ k, ∀ q ∈ F k, ¬ (start ≤ q ∧ q < stop)) →
    Lists mem.links areas (areaLists fun k => F k ++ heads bs k)

/-- Up to the page of its address, the region has been donated. -/
structure Donating (start stop : ℕ) (mem₀ : Mem) (s : Boot) (p m : ℕ) : Prop where
  addr : s.addr = p * pageSize
  rest : s.rest = m * pageSize
  ends : p + m = stop
  tiles : Tiles start s.appended p
  chunks : ∀ b ∈ s.appended, Chunk stop s.mem b
  queued : Queued start stop mem₀ s.mem s.appended

lemma compound_pageMap (p k q : ℕ) : (compoundPageInit mem (p * pageSize) k).pageMap q =
    if p ≤ q ∧ q < p + 2 ^ k then newPage p k q else mem.pageMap q :=
  initPages_pageMap p k (2 ^ k) mem q

/-- A new block does not touch the pages of those before it. -/
lemma Chunk.donate {k : ℕ} (h : Chunk stop mem b) (hle : ∀ q ∈ b.pages, q < p) :
    Chunk stop (freePageAppend (compoundPageInit mem (p * pageSize) k) p k) b where
  order_le := h.order_le
  aligned := h.aligned
  largest := h.largest
  pages := by
    intro q hq
    have hlt := hle q hq
    show (compoundPageInit mem (p * pageSize) k).pageMap q = _
    rw [compound_pageMap, if_neg (by omega)]
    exact h.pages q hq

/-- The block of the turn. -/
lemma chunk_new {k : ℕ} (hlt : k < pageMaxOrder) (hal : 2 ^ k ∣ p)
    (hmax : ∀ j < pageMaxOrder, 2 ^ j ∣ p → 2 ^ j ≤ m → j ≤ k) (hle : p + m ≤ 256) :
    Chunk (p + m) (freePageAppend (compoundPageInit mem (p * pageSize) k) p k) ⟨p, k⟩ := by
  refine ⟨Nat.le_of_lt_succ hlt, hal, fun j hd hfits => ?_, fun q hq => ?_⟩
  · have hfits' : p + 2 ^ j ≤ p + m := hfits
    have hj : j < pageMaxOrder := by
      by_contra hge
      have hlarge : 2 ^ 9 ≤ 2 ^ j := Nat.pow_le_pow_right Nat.two_pos (not_lt.1 hge)
      omega
    exact hmax j hj hd (Nat.le_of_add_le_add_left hfits')
  · show (compoundPageInit mem (p * pageSize) _).pageMap q = _
    rw [compound_pageMap, if_pos (mem_pages.1 hq)]

lemma heads_snoc (bs : List Block) (p k : ℕ) :
    (heads (bs ++ [⟨p, k⟩]) = Function.update (heads bs) k (heads bs k ++ [p])) := by
  funext j
  unfold heads
  rw [List.filter_append, List.map_append]
  by_cases hj : j = k
  · subst hj
    rw [Function.update_self, List.filter_singleton, decide_eq_true rfl]
    rfl
  · rw [Function.update_of_ne hj, List.filter_singleton, decide_eq_false (Ne.symm hj)]
    exact List.append_nil _

/-- The block is put behind those of its order. -/
lemma Queued.donate {mem₀ : Mem} {k : ℕ} (h : Queued start stop mem₀ mem bs)
    (ht : Tiles start bs p) (hk : k < pageMaxOrder) (hle : p + 2 ^ k ≤ stop) :
    Queued start stop mem₀ (freePageAppend (compoundPageInit mem (p * pageSize) k) p k)
      (bs ++ [⟨p, k⟩]) := by
  intro F hF hout
  have hpos := Nat.two_pow_pos k
  have hstart := ht.le
  have hbehind : ∀ j, ∀ q ∈ F j ++ heads bs j, ¬ (p ≤ q ∧ q < p + 2 ^ k) := by
    intro j q hq
    rcases List.mem_append.1 hq with hq | hq
    · have := hout j q hq
      omega
    · obtain ⟨b, hb, rfl⟩ := List.mem_map.1 hq
      have hin := (ht.mem_iff b.head).1 ⟨b, (List.mem_filter.1 hb).1, head_mem b⟩
      omega
  have hlists : Lists (compoundPageInit mem (p * pageSize) k).links areas
      (areaLists fun j => F j ++ heads bs j) := by
    refine (h F hF hout).congr ?_
    rintro _ ⟨j, hj, rfl⟩ x hx
    refine initPages_links p k (2 ^ k) mem fun q hq hq' => ?_
    rcases List.mem_cons.mp hx with rfl | hx
    · simp
    · obtain ⟨y, hy, rfl⟩ := List.mem_map.mp hx
      refine ⟨fun heq => ?_, by simp⟩
      exact hbehind j y hy (Node.page.inj heq ▸ ⟨hq, hq'⟩)
  have hfresh : Fresh areas (areaLists fun j => F j ++ heads bs j) (.page p) :=
    fresh_iff.2 fun j _ hmem => hbehind j p hmem ⟨le_rfl, by omega⟩
  have happend := hlists.addTail (area_mem hk) hfresh
  rw [areaLists_area, show [Node.page p] = [p].map Node.page from rfl, ← List.map_append,
    areaLists_update] at happend
  have hsame : (fun j => F j ++ heads (bs ++ [⟨p, k⟩]) j) =
      Function.update (fun j => F j ++ heads bs j) k (F k ++ heads bs k ++ [p]) := by
    rw [heads_snoc]
    funext j
    by_cases hj : j = k
    · subst hj
      rw [Function.update_self, Function.update_self, List.append_assoc]
    · rw [Function.update_of_ne hj, Function.update_of_ne hj]
  rw [hsame]
  exact happend

/-- **A turn** donates one block more. -/
lemma Donating.turn {mem₀ : Mem} (h : Donating start stop mem₀ s p m) (hm : m ≠ 0)
    (hle : stop ≤ 256) :
    ∃ s' k, bootmemTurn s = some (.next s') ∧
      Donating start stop mem₀ s' (p + 2 ^ k) (m - 2 ^ k) := by
  obtain ⟨mem, addr, rest, bs⟩ := s
  obtain ⟨haddr, hrest, hends, htiles, hchunks, hqueued⟩ := h
  dsimp only at haddr hrest htiles hchunks hqueued
  subst haddr hrest hends
  have hm20 : m < 2 ^ 20 := by omega
  obtain ⟨hlt, hal, hfits⟩ := chunkOrder_spec (p := p) hm hm20
  have hmax : ∀ j < pageMaxOrder, 2 ^ j ∣ p → 2 ^ j ≤ m →
      j ≤ chunkOrder (p * pageSize) (m * pageSize) := fun j => chunkOrder_max hm hm20
  have hturn := @turn_next mem p m bs hm
  generalize chunkOrder (p * pageSize) (m * pageSize) = k at *
  rw [next_eq hle hfits] at hturn
  refine ⟨_, k, hturn, rfl, rfl, by omega, tiles_snoc htiles _, fun b hb => ?_,
    hqueued.donate htiles hlt (by omega)⟩
  rcases List.mem_append.1 hb with hb | hb
  · exact (hchunks b hb).donate fun q hq => ((htiles.mem_iff q).1 ⟨b, hb, hq⟩).2
  · rw [List.mem_singleton.1 hb]
    exact chunk_new hlt hal hmax hle

/-- The loop ends at the end of the region. -/
lemma donating_ends {mem₀ : Mem} (h : Donating start stop mem₀ s p m) (hle : stop ≤ 256) :
    ∃ final, Ends bootmemTurn s final ∧ Donating start stop mem₀ final stop 0 := by
  induction m using Nat.strong_induction_on generalizing s p with
  | _ m ih =>
    rcases Nat.eq_zero_or_pos m with rfl | hm
    · have hrest : s.rest = 0 := h.rest.trans (Nat.zero_mul _)
      have hstop : p = stop := h.ends
      have hturn : bootmemTurn s = some (.leave s) := if_pos hrest
      exact ⟨s, (ends_leave hturn).2 rfl, hstop ▸ h⟩
    · obtain ⟨s', k, hturn, h'⟩ := h.turn hm.ne' hle
      have hpos := Nat.two_pow_pos k
      obtain ⟨final, hends, hfinal⟩ := ih (m - 2 ^ k) (by omega) h'
      exact ⟨final, (ends_next hturn).2 hends, hfinal⟩

/-- The memory that the loop ends with is the one of `freeBootmemRegion`. -/
lemma ends_mem {final : Boot} (hmn : m ≤ n) (hle : p + m ≤ 256)
    (hends : Ends bootmemTurn ⟨mem, p * pageSize, m * pageSize, bs⟩ final) :
    final.mem = freeBootmemLoop n mem (p * pageSize) (m * pageSize) := by
  induction n generalizing mem p m bs with
  | zero =>
    obtain rfl : m = 0 := Nat.le_zero.1 hmn
    have hturn : bootmemTurn ⟨mem, p * pageSize, 0 * pageSize, bs⟩ = some (.leave _) :=
      if_pos (Nat.zero_mul _)
    rw [(ends_leave hturn).1 hends]
    rfl
  | succ n ih =>
    unfold freeBootmemLoop
    by_cases hm : m = 0
    · subst hm
      have hturn : bootmemTurn ⟨mem, p * pageSize, 0 * pageSize, bs⟩ = some (.leave _) :=
        if_pos (Nat.zero_mul _)
      rw [(ends_leave hturn).1 hends, if_pos (Nat.zero_mul _)]
    · have hm20 : m < 2 ^ 20 := by omega
      obtain ⟨-, -, hfits⟩ := chunkOrder_spec (p := p) hm hm20
      have hturn := @turn_next mem p m bs hm
      rw [if_neg (Nat.mul_ne_zero hm (by decide))]
      dsimp only
      generalize chunkOrder (p * pageSize) (m * pageSize) = k at *
      have hpos := Nat.two_pow_pos k
      rw [next_eq hle hfits] at hturn
      rw [physToPage_mul, ← Nat.add_mul, ← Nat.sub_mul]
      exact ih (by omega) (by omega) ((ends_next hturn).1 hends)

/-- The blocks that were appended partition the region. -/
structure Partitions (region : Region) (final : Boot) : Prop where
  disjoint : final.appended.Pairwise fun b c => Disjoint b.pages c.pages
  union : ∀ q, (∃ b ∈ final.appended, q ∈ b.pages) ↔ q * pageSize ∈ region.addrs
  chunks : ∀ b ∈ final.appended, Chunk ((region.base + region.size) / pageSize) final.mem b

lemma donating_init (mem : Mem) (p m : ℕ) :
    Donating p (p + m) mem ⟨mem, p * pageSize, m * pageSize, []⟩ p m := by
  refine ⟨rfl, rfl, rfl, rfl, fun b hb => absurd hb List.not_mem_nil, fun F hF _ => ?_⟩
  rw [show (fun k => F k ++ heads [] k) = F from funext fun k => List.append_nil _]
  exact hF

lemma mul_mem_iff (p m q : ℕ) : q * pageSize ∈ (⟨p * pageSize, m * pageSize⟩ : Region).addrs ↔
    p ≤ q ∧ q < p + m := by
  rw [mem_addrs, ← Nat.add_mul]
  exact and_congr (Nat.mul_le_mul_right_iff (by decide)) (Nat.mul_lt_mul_right (by decide))

/-- **Donating a region** ends, for every page-aligned region below the limit. The blocks that
are appended to the free lists partition it, and each is as large as can be. -/
theorem bootmem_partitions (mem : Mem) (region : Region) (hbase : pageSize ∣ region.base)
    (hsize : pageSize ∣ region.size) (hle : region.base + region.size ≤ memoryLimit) :
    ∃ final, Ends bootmemTurn ⟨mem, region.base, region.size, []⟩ final ∧
      Partitions region final ∧ final.mem = freeBootmemRegion mem region ∧
      Queued (region.base / pageSize) ((region.base + region.size) / pageSize) mem final.mem
        final.appended := by
  obtain ⟨base, size⟩ := region
  obtain ⟨p, rfl⟩ : ∃ p, base = p * pageSize := exists_eq_mul_left_of_dvd hbase
  obtain ⟨m, rfl⟩ : ∃ m, size = m * pageSize := exists_eq_mul_left_of_dvd hsize
  have hpages : p + m ≤ 256 := by
    simp only [memoryLimit, pageSize] at hle
    omega
  obtain ⟨final, hends, hfinal⟩ := donating_ends (donating_init mem p m) hpages
  have hpos : 0 < pageSize := by decide
  have hstart : p * pageSize / pageSize = p := Nat.mul_div_cancel _ hpos
  have hstop : (p * pageSize + m * pageSize) / pageSize = p + m := by
    rw [← Nat.add_mul, Nat.mul_div_cancel _ hpos]
  refine ⟨final, hends, ⟨hfinal.tiles.pairwise, fun q => ?_, ?_⟩, ?_, ?_⟩
  · rw [mul_mem_iff]
    exact hfinal.tiles.mem_iff q
  · rw [hstop]
    exact hfinal.chunks
  · unfold freeBootmemRegion
    dsimp only
    rw [Nat.mul_div_cancel _ hpos]
    exact ends_mem le_rfl hpages hends
  · dsimp only
    rw [hstart, hstop]
    exact hfinal.queued

def noPages : Mem := ⟨fun _ => ⟨0, 0, 0, 0, 0⟩, ⟨fun _ => .null, fun _ => .null⟩, fun _ => 0⟩

/-- Seven pages from the fourth on. -/
theorem bootmem_partitions_seven : ∃ final,
    Ends bootmemTurn ⟨noPages, 0x3000, 0x7000, []⟩ final ∧
      Partitions ⟨0x3000, 0x7000⟩ final ∧ final.mem = freeBootmemRegion noPages ⟨0x3000, 0x7000⟩ ∧
      Queued (0x3000 / pageSize) ((0x3000 + 0x7000) / pageSize) noPages final.mem
        final.appended :=
  bootmem_partitions noPages ⟨0x3000, 0x7000⟩ (by decide) (by decide) (by decide)

example : (loop bootmemTurn 4 ⟨noPages, 0x3000, 0x7000, []⟩).map (·.appended) =
    some [⟨3, 0⟩, ⟨4, 2⟩, ⟨8, 1⟩] := by decide +kernel

end Elfboot.BootChunks
