import Elfboot.E820
import Elfboot.MemblockAlloc
import Elfboot.BuddyRuns

/-!
From the firmware's memory map to the pages that are handed out: `setup.c`, `memblock.c` and
`page_alloc.c` one after the other.

The memory map is filled from the firmware's, what is in use is taken out of it, then the memory
for `page_map`; what is left goes to the page allocator.
-/

namespace Elfboot.BootRam

open Elfboot.Run Elfboot.Word Elfboot.Mm Elfboot.Memblock Elfboot.RegionList Elfboot.RegionOrder
open Elfboot.MemblockTable Elfboot.MemblockAlloc Elfboot.E820
open Elfboot.MemblockRuns (InOrder entries_empty valid_empty valid_rangeStep inOrder_reserve)
open Elfboot.PageAlloc Elfboot.BuddyBoot Elfboot.BuddyRuns

abbrev ivtAddress : ℕ := 0
abbrev ivtMaxSize : ℕ := 0x400
abbrev bdaAddress : ℕ := 0x400
abbrev bdaMaxSize : ℕ := 0x100
abbrev ebdaMaxSize : ℕ := 128 * 1024
abbrev ebdaLowmemLimit : ℕ := 0xa0000
abbrev ebdaLowmemStart : ℕ := ebdaLowmemLimit - ebdaMaxSize
abbrev bootStackStart : ℕ := 0x6000
abbrev bootStackEnd : ℕ := 0x5000
abbrev bootStackSize : ℕ := bootStackStart - bootStackEnd

/-- The bytes of a `struct page`. -/
abbrev pageStructSize : ℕ := 40

/-- What the loader finds: the entries of the firmware, the segment of the extended BIOS data, its
own section, and whatever stands behind the arrays of the two memory maps. -/
structure Machine where
  table : List E820Entry
  ebdaSegment : ℕ
  bootstrap : Region
  behind : ℕ → Region
  behind' : ℕ → Region

/-- `bios_get_ebda_addr`: minus one if the segment is not in the low memory. -/
def biosGetEbdaAddr (segment : ℕ) : ℕ :=
  let ebda := segment * 2 ^ 4
  if ebda < ebdaLowmemStart ∨ ebdaLowmemLimit < ebda then 2 ^ 32 - 1 else ebda

def bootmemReserveRegions (m : Machine) (t : MemblockType) : MemblockType :=
  let t := (memblockReserve t ivtAddress ivtMaxSize).1
  let t := (memblockReserve t bdaAddress bdaMaxSize).1
  let t := (memblockReserve t (biosGetEbdaAddr m.ebdaSegment) ebdaMaxSize).1
  let t := (memblockReserve t bootStackStart bootStackSize).1
  (memblockReserve t m.bootstrap.base m.bootstrap.size).1

/-- The memory map when `arch_setup` calls `elfboot_main`. -/
def Machine.bootmem (m : Machine) : MemblockType :=
  bootmemReserveRegions m (e820MemblockSetup (start m.behind m.behind') m.table).bootmem

abbrev pageMapSize : ℕ := memoryLimit / pageSize * pageStructSize

/-- The memory map after `page_map_init`, and where `page_map` is. -/
def Machine.mapped (m : Machine) : MemblockType × ℕ := memblockAlloc m.bootmem pageMapSize pageSize

/-- `page_alloc_init`, with what the list nodes and the memory of `page_map` hold. -/
def Machine.pageAllocInit (m : Machine) (s : Mem) : Option Mem :=
  if m.mapped.2 = 0 then none else some (PageAlloc.pageAllocInit s (entries m.mapped.1))

/-- The regions up to the first one that goes beyond the limit. -/
def freed (t : MemblockType) : List Region :=
  (entries t).takeWhile fun r => r.stop ≤ memoryLimit

/-- The page allocator of a machine. No page outside of what is freed is marked free in the memory
of `page_map`, which nobody clears. -/
def machine (m : Machine) : System State Op where
  init σ := ∃ s mem, m.pageAllocInit s = some mem ∧
    (∀ q, q ∉ regionPages (freed m.mapped.1) → (s.pageMap q).isFree = false) ∧ σ = ⟨mem, []⟩
  pre := Asks
  step := step

/-- The ranges of the firmware's entries do not wrap, no two of those for the low memory touch, and
there are not too many of them. -/
structure Spaced (table : List E820Entry) : Prop where
  noWrap : E820.NoWrap table
  apart : (table.filter fun e => e.Low).Pairwise fun e e' =>
    pageEnd e.base e.size < pageBeg e'.base ∨ pageEnd e'.base e'.size < pageBeg e.base
  few : (table.filter fun e => e.Low).length + 3 ≤ memblockMaxRegions

variable {t : MemblockType} {l : List Region} {es : List E820Entry} {e : E820Entry}
variable {base size n : ℕ}

/-! ### The entries of the firmware -/

/-- The region that an entry becomes. -/
def region (e : E820Entry) : Region := ⟨pageBeg e.base, pageEnd e.base e.size - pageBeg e.base⟩

lemma region_stop (e : E820Entry) : (region e).base + (region e).size = pageEnd e.base e.size :=
  Nat.add_sub_of_le (pageBeg_le_pageEnd e.base e.size)

/-- The table has the regions of some entries in order, or it is still as good as empty. -/
structure Built (es : List E820Entry) (t : MemblockType) : Prop where
  valid : Valid (entries t)
  few : t.cnt ≤ max 1 es.length
  has : (∃ r, entries t = [r] ∧ r.size = 0 ∧ pageSize ∣ r.base) ∨
    entries t ≠ [] ∧ t.cnt ≤ es.length ∧ Ordered (entries t) ∧
      ∀ r ∈ entries t, ∃ e ∈ es, r = region e

lemma built_empty (behind : ℕ → Region) : Built [] (emptyTable behind) where
  valid := valid_empty behind
  few := le_rfl
  has := .inl ⟨⟨0, 0⟩, entries_empty behind, rfl, dvd_zero _⟩

lemma Built.inOrder (h : Built es t) : InOrder t := by
  rcases h.has with hr | ⟨-, -, ho, -⟩
  · exact .inr hr
  · exact .inl ho.wellFormed

lemma first_size (ho : Ordered (entries t)) (hne : entries t ≠ []) : (t.regions 0).size ≠ 0 := by
  obtain ⟨x, l, hx⟩ := List.exists_cons_of_ne_nil hne
  have hfirst : t.regions 0 = x := (region_at (A := []) hx).2
  rw [hfirst]
  exact (ho.nonempty x (by rw [hx]; exact List.mem_cons_self)).ne'

/-- Two entries that do not touch. -/
def Away (e e' : E820Entry) : Prop :=
  pageEnd e.base e.size < pageBeg e'.base ∨ pageEnd e'.base e'.size < pageBeg e.base

instance : Std.Symm Away := ⟨fun _ _ h => h.symm⟩

lemma region_apart (hpair : es.Pairwise Away) {r s : Region} (hr : ∃ e ∈ es, r = region e)
    (hs : ∃ e ∈ es, s = region e) (hpos : 0 < r.size) : r.base + r.size ≠ s.base := by
  obtain ⟨e, he, rfl⟩ := hr
  obtain ⟨e', he', rfl⟩ := hs
  rw [region_stop]
  by_cases heq : e = e'
  · subst heq
    have := region_stop e
    intro hbase
    rw [hbase] at this
    omega
  · have haway : Away e e' := hpair.forall he he' heq
    change _ ≠ pageBeg e'.base
    have := pageBeg_le_pageEnd e.base e.size
    have := pageBeg_le_pageEnd e'.base e'.size
    rcases haway with h | h <;> omega

lemma away_fits (hpair : es.Pairwise Away) (haway : ∀ e' ∈ es, Away e' e)
    (ho : Ordered l) (hl : ∀ r ∈ l, ∃ e ∈ es, r = region e) :
    (∀ r ∈ l, ¬ Hit (pageBeg e.base) (pageEnd e.base e.size) r) ∧
      Fits (pageBeg e.base) (pageEnd e.base e.size) l := by
  have hle := pageBeg_le_pageEnd e.base e.size
  have hout : ∀ r ∈ l, r.base + r.size < pageBeg e.base ∨ pageEnd e.base e.size < r.base := by
    intro r hr
    obtain ⟨e', he', rfl⟩ := hl r hr
    rw [region_stop]
    exact haway e' he'
  have hmiss : ∀ r ∈ l, ¬ Hit (pageBeg e.base) (pageEnd e.base e.size) r := by
    intro r hr hhit
    have := hhit.1
    have := hhit.2
    have := hout r hr
    omega
  have hgap : ∀ r ∈ l, ∀ s ∈ l, r.base + r.size ≠ s.base := fun r hr s hs =>
    region_apart hpair (hl r hr) (hl s hs) (ho.nonempty r hr)
  refine ⟨hmiss, ⟨fun r hr h => absurd h (hmiss r hr), ?_, ?_, ?_, ?_⟩⟩
  · exact List.pairwise_of_forall_mem_list fun r hr s _ h => absurd h (hmiss r hr)
  · rintro ⟨r, hr, h⟩
    exact absurd h (hmiss r hr)
  · intro _ _ r hr
    have := hout r hr
    omega
  · intro _ s hs r hr
    have hs' := List.mem_of_find?_eq_some hs
    exact ⟨hgap r hr s hs', hgap s hs' r hr⟩

/-- An entry that touches none of those before it is added. -/
lemma Built.add (h : Built es t) (hw : e.NoWrap) (hpair : es.Pairwise Away)
    (haway : ∀ e' ∈ es, Away e' e) : Built (es ++ [e]) (memblockAdd t e.base e.size) := by
  have hle := pageBeg_le_pageEnd e.base e.size
  have hvalid : Valid (entries (memblockAdd t e.base e.size)) := add_valid hw h.valid
  rcases h.has with ⟨r, hr, hr0, -⟩ | ⟨hne, hcnt, ho, hl⟩
  · have hfirst : t.regions 0 = r := (region_at (A := []) hr).2
    have h0 : (t.regions 0).size = 0 := by
      rw [hfirst]
      exact hr0
    have hnew : entries (memblockAdd t e.base e.size) = [region e] := by
      rcases add_placeholder hw h0 with ⟨hc, -⟩ | ⟨x, l, hx, -, hadd⟩
      · have := length_entries t
        rw [hr, hc] at this
        exact absurd this (by simp)
      · rw [hr] at hx
        rw [hadd, ← (List.cons.inj hx).2]
        rfl
    have hcnt : (memblockAdd t e.base e.size).cnt = 1 := by
      rw [← length_entries, hnew]
      rfl
    have hlen : (es ++ [e]).length = es.length + 1 := by simp
    refine ⟨hvalid, by omega, ?_⟩
    by_cases hsize : (region e).size = 0
    · exact .inl ⟨_, hnew, hsize, pageBeg_dvd e.base⟩
    · refine .inr ⟨by simp [hnew], by omega, ?_, ?_⟩
      · rw [hnew]
        exact ordered_cons.mpr ⟨⟨pageBeg_dvd e.base, Nat.dvd_sub (pageEnd_dvd e.base e.size)
          (pageBeg_dvd e.base)⟩, Nat.pos_of_ne_zero hsize, by simp, ordered_nil⟩
      · rw [hnew]
        exact fun r hr => ⟨e, by simp, List.mem_singleton.mp hr⟩
  · obtain ⟨hmiss, hfits⟩ := away_fits hpair haway ho hl
    obtain ⟨t', hadd, hfill⟩ := add_fill hw h.valid (first_size ho hne)
    obtain ⟨hord, hseam⟩ := fill_fits (pageBeg_dvd _) (pageEnd_dvd _ _) hle ho hfits
    obtain ⟨hsplit, hfrom, -⟩ := fill_miss hmiss
    have hv' : Valid (entries t') := by
      rw [hfill]
      exact fill_valid hle hw h.valid
    have hnew : entries (memblockAdd t e.base e.size) = (fill (pageEnd e.base e.size)
        (pageBeg e.base) (entries t)).1 ++ (missing (pageBeg e.base) (pageEnd e.base e.size) ++
          (fill (pageEnd e.base e.size) (pageBeg e.base) (entries t)).2.1) := by
      rw [hadd, fusion_seam hv' hfill hseam, hfill, hfrom]
    rw [hfrom] at hord
    rw [← hnew] at hord
    have hlen := congrArg List.length hnew
    have hone : (missing (pageBeg e.base) (pageEnd e.base e.size)).length ≤ 1 := by
      unfold missing
      split_ifs <;> simp
    have hold := congrArg List.length hsplit
    simp only [List.length_append, length_entries] at hlen hold
    have hcnt' : (memblockAdd t e.base e.size).cnt ≤ (es ++ [e]).length := by
      rw [List.length_append, List.length_singleton]
      omega
    refine ⟨hvalid, by omega, .inr ⟨add_ne_nil hw h.valid hne, hcnt', hord, fun r hr => ?_⟩⟩
    rw [hnew] at hr
    simp only [List.mem_append] at hr
    have hin : r ∈ entries t → ∃ e' ∈ es ++ [e], r = region e' := by
      intro hr
      obtain ⟨e', he', rfl⟩ := hl r hr
      exact ⟨e', List.mem_append_left _ he', rfl⟩
    rcases hr with hr | hr | hr
    · exact hin (by rw [← hsplit]; exact List.mem_append_left _ hr)
    · unfold missing at hr
      split_ifs at hr
      · exact ⟨e, by simp, List.mem_singleton.mp hr⟩
      · exact absurd hr List.not_mem_nil
    · exact hin (by rw [← hsplit]; exact List.mem_append_right _ hr)

lemma built_all (behind : ℕ → Region) (hw : ∀ e ∈ es, e.NoWrap) (hpair : es.Pairwise Away) :
    Built es (addAll (emptyTable behind) es) := by
  induction es using List.reverseRecOn with
  | nil => exact built_empty behind
  | append_singleton es e ih =>
    obtain ⟨hes, -, hcross⟩ := List.pairwise_append.mp hpair
    have hbuilt := ih (fun e' he' => hw e' (List.mem_append_left _ he')) hes
    have hadd : addAll (emptyTable behind) (es ++ [e]) =
        memblockAdd (addAll (emptyTable behind) es) e.base e.size := List.foldl_concat _ _ _ _
    rw [hadd]
    exact hbuilt.add (hw e (by simp)) hes fun e' he' => hcross e' he' e (by simp)

/-! ### What is in use is taken out -/

/-- A table in order, for addresses of a set, and how many entries it may have. -/
structure Held (n : ℕ) (S : Set ℕ) (t : MemblockType) : Prop where
  valid : Valid (entries t)
  order : InOrder t
  covers : covered (entries t) ⊆ S
  few : t.cnt ≤ n

variable {S : Set ℕ} {b stop : ℕ}

lemma carve_length (hbe : b ≤ stop) : (carve stop b l).length ≤ l.length + 1 := by
  induction l generalizing b with
  | nil => exact Nat.zero_le _
  | cons x l ih =>
    rcases carve_cons stop b x l with ⟨-, h⟩ | ⟨-, -, h⟩ | ⟨-, -, -, -, h⟩ | ⟨-, -, -, hle, h⟩ |
      ⟨-, -, -, h⟩ | ⟨-, -, -, -, h⟩ <;> rw [h] <;> simp only [List.length_cons]
    · omega
    · have := ih hbe
      omega
    · omega
    · have := ih hle
      omega
    · omega
    · have := ih hbe
      omega

/-- A range before all regions splits none. -/
lemma carve_before (h : ∀ r ∈ l, stop ≤ r.base ∨ r.size = 0) :
    (carve stop b l).length ≤ l.length := by
  induction l with
  | nil => exact Nat.zero_le _
  | cons x l ih =>
    obtain ⟨hx, hl⟩ := List.forall_mem_cons.mp h
    have := ih hl
    rcases carve_cons stop b x l with ⟨-, h⟩ | ⟨-, -, h⟩ | ⟨h1, h2, h3, -, -⟩ |
      ⟨h1, h2, h3, -, -⟩ | ⟨h1, -, h3, -⟩ | ⟨-, -, -, -, h⟩
    · rw [h]
    · rw [h, List.length_cons, List.length_cons]
      omega
    · omega
    · omega
    · omega
    · rw [h, List.length_cons]
      omega

lemma inOrder_clears (h : InOrder t) (b stop : ℕ) : (entries t).Pairwise (Clears b stop) := by
  rcases h with h | ⟨r, hr, -⟩
  · exact ordered_clears h.ordered b stop
  · rw [hr]
    exact List.pairwise_singleton _ _

lemma Held.reserve (h : Held n S t) (hw : pageEnd base size < 2 ^ 32) :
    Held (n + 1) (S \ pageRange base size) (memblockReserve t base size).1 where
  valid := reserve_valid hw h.valid
  order := inOrder_reserve h.valid h.order hw
  covers := by
    rw [del_carve hw h.valid, (carve_covered_iff (pageBeg_le_pageEnd base size)).mpr
      (inOrder_clears h.order _ _)]
    exact Set.sdiff_subset_sdiff_left h.covers
  few := by
    have hlen := carve_length (l := entries t) (pageBeg_le_pageEnd base size)
    rw [← del_carve hw h.valid, length_entries, length_entries] at hlen
    exact hlen.trans (Nat.succ_le_succ h.few)

/-- A range below everything takes no room. -/
lemma Held.reserve_low (h : Held n S t) (hw : pageEnd base size < 2 ^ 32)
    (hS : ∀ a ∈ S, pageEnd base size ≤ a) :
    Held n (S \ pageRange base size) (memblockReserve t base size).1 := by
  obtain ⟨hvalid, horder, hcovers, -⟩ := h.reserve hw
  refine ⟨hvalid, horder, hcovers, ?_⟩
  have hbefore : ∀ r ∈ entries t, pageEnd base size ≤ r.base ∨ r.size = 0 := by
    intro r hr
    rcases Nat.eq_zero_or_pos r.size with h0 | hpos
    · exact .inr h0
    · exact .inl (hS _ (h.covers ⟨r, hr, mem_addrs.mpr ⟨le_rfl, by omega⟩⟩))
  have hlen := carve_before (b := pageBeg base) hbefore
  rw [← del_carve hw h.valid, length_entries, length_entries] at hlen
  exact hlen.trans h.few

/-- Nothing happens where every region ends before the range begins, also if that wraps. -/
lemma delLoop_behind_all {d : ℕ} (hl : ∀ x ∈ l, x.base + x.size ≤ b ∧ x.base + x.size < 2 ^ 32) :
    ∀ {n : ℕ} {A : List Region}, entries t = A ++ l → (delLoop stop n t A.length b d).1 = t := by
  induction l with
  | nil =>
    intro n A h
    cases n with
    | zero => rfl
    | succ n =>
      have hc := cnt_of h
      rw [delLoop, if_neg (by simp [hc])]
  | cons x l ih =>
    intro n A h
    obtain ⟨⟨hx, hlt⟩, hrest⟩ := List.forall_mem_cons.mp hl
    cases n with
    | zero => rfl
    | succ n =>
      rcases Nat.lt_or_ge x.base stop with hbase | hbase
      · rw [delLoop_behind h hlt hbase hx]
        have hnext := ih hrest (n := n) (A := A ++ [x]) (by rw [h, List.append_assoc]; rfl)
        rwa [List.length_append, List.length_singleton] at hnext
      · rw [delLoop_before h hbase]

/-- The last page of the address space is in no region. -/
lemma Held.ends (h : Held n S t) : ∀ r ∈ entries t, r.base + r.size ≤ 0xfffff000 := by
  intro x hx
  have hlt := h.valid x hx
  have hdvd : pageSize ∣ x.base + x.size := by
    rcases h.order with hw | ⟨r, hr, hr0, hbase⟩
    · exact dvd_add (hw.aligned x hx).1 (hw.aligned x hx).2
    · rw [hr, List.mem_singleton] at hx
      rw [hx, hr0]
      exact hbase
  obtain ⟨k, hk⟩ := hdvd
  rw [show pageSize = 0x1000 from rfl] at hk
  omega

/-- Without extended BIOS data nothing is reserved for it. -/
lemma reserve_absent (h : Held n S t) : (memblockReserve t (2 ^ 32 - 1) ebdaMaxSize).1 = t := by
  have hadjust : memblockAdjustRegion (2 ^ 32 - 1) ebdaMaxSize =
      (0xfffff000, 0x21000, 0x20000) := by
    decide
  unfold memblockReserve memblockDelRegion
  rw [hadjust]
  exact delLoop_behind_all (A := []) (l := entries t)
    (fun x hx => ⟨h.ends x hx, h.valid x hx⟩) rfl

lemma Held.ebda (h : Held n S t) (segment : ℕ) :
    Held (n + 1) (S \ pageRange (biosGetEbdaAddr segment) ebdaMaxSize)
      (memblockReserve t (biosGetEbdaAddr segment) ebdaMaxSize).1 := by
  unfold biosGetEbdaAddr
  dsimp only
  split_ifs with habsent
  · rw [reserve_absent h]
    refine ⟨h.valid, h.order, fun a ha => ⟨h.covers ha, fun hin => ?_⟩, h.few.trans (Nat.le_succ n)⟩
    obtain ⟨r, hr, har⟩ := ha
    have hend := h.ends r hr
    have hlast : pageBeg (2 ^ 32 - 1) ≤ a := hin.1
    rw [show pageBeg (2 ^ 32 - 1) = 0xfffff000 by decide] at hlast
    rw [mem_addrs] at har
    omega
  · refine h.reserve ?_
    simp only [pageEnd, pageSize, ebdaMaxSize, ebdaLowmemStart, ebdaLowmemLimit] at habsent ⊢
    omega

/-- The pages that the firmware's entries give to the low memory. -/
def given (table : List E820Entry) : Set ℕ := {a | ∃ e ∈ table, e.Low ∧ a ∈ e.pages}

/-- What the loader uses itself: the extended BIOS data, the loader, and `page_map`. -/
def Machine.inUse (m : Machine) : Set ℕ :=
  pageRange (biosGetEbdaAddr m.ebdaSegment) ebdaMaxSize ∪
    pageRange m.bootstrap.base m.bootstrap.size ∪ pageRange m.mapped.2 pageMapSize

lemma given_ge {table : List E820Entry} {a : ℕ} (ha : a ∈ given table) : memoryStart ≤ a := by
  obtain ⟨e, -, -, hp⟩ := ha
  have hbase : memoryStart ≤ e.base := le_max_right _ _
  have hle : pageBeg e.base ≤ a := hp.1
  simp only [pageBeg, pageSize, memoryStart] at hbase hle ⊢
  omega

variable {m : Machine}

lemma held_setup (hs : Spaced m.table) :
    Held (memblockMaxRegions - 3) (given m.table)
      (e820MemblockSetup (start m.behind m.behind') m.table).bootmem := by
  have hcov : covered (entries (e820MemblockSetup (start m.behind m.behind') m.table).bootmem) =
      given m.table := covered_bootmem hs.noWrap
  rw [setup_eq] at hcov ⊢
  have hbuilt := built_all m.behind (noWrap_low hs.noWrap) hs.apart
  have hfew := hs.few
  have hmax : memblockMaxRegions = 8 := rfl
  refine ⟨hbuilt.valid, hbuilt.inOrder, hcov.le, ?_⟩
  have := hbuilt.few
  change (addAll (emptyTable m.behind) (m.table.filter fun e => e.Low)).cnt ≤ _
  omega

lemma held_bootmem (hs : Spaced m.table) (hb : pageEnd m.bootstrap.base m.bootstrap.size < 2 ^ 32) :
    Held (memblockMaxRegions - 1) (given m.table \
      (pageRange (biosGetEbdaAddr m.ebdaSegment) ebdaMaxSize ∪
        pageRange m.bootstrap.base m.bootstrap.size)) m.bootmem := by
  have hge : ∀ {S : Set ℕ} {stop : ℕ}, S ⊆ given m.table → stop ≤ memoryStart →
      ∀ a ∈ S, stop ≤ a := fun hS hstop a ha => hstop.trans (given_ge (hS ha))
  have hwivt : pageEnd ivtAddress ivtMaxSize < 2 ^ 32 := by decide
  have hwbda : pageEnd bdaAddress bdaMaxSize < 2 ^ 32 := by decide
  have hwstack : pageEnd bootStackStart bootStackSize < 2 ^ 32 := by decide
  have hivt := (held_setup hs).reserve_low hwivt (hge le_rfl (by decide))
  have hbda := hivt.reserve_low hwbda (hge Set.sdiff_subset (by decide))
  have hstack := (hbda.ebda m.ebdaSegment).reserve_low hwstack
    (hge (fun a ha => ha.1.1.1) (by decide))
  have hloader := hstack.reserve hb
  unfold Machine.bootmem bootmemReserveRegions
  dsimp only
  refine ⟨hloader.valid, hloader.order, fun a ha => ?_, hloader.few⟩
  obtain ⟨⟨⟨⟨⟨hgiven, -⟩, -⟩, hebda⟩, -⟩, hboot⟩ := hloader.covers ha
  exact ⟨hgiven, fun h => h.elim hebda hboot⟩

/-- After `page_map` has been given its memory. -/
lemma held_mapped (hs : Spaced m.table) (hb : pageEnd m.bootstrap.base m.bootstrap.size < 2 ^ 32)
    (hmap : m.mapped.2 ≠ 0) :
    Held memblockMaxRegions (given m.table \ m.inUse) m.mapped.1 := by
  have hboot := held_bootmem hs hb
  have hlimit : memoryLimit = 0x100000 := rfl
  set p := memblockFindInRange m.bootmem pageMapSize pageSize memoryStart memoryLimit with hp
  have hne : p ≠ 0 := by
    intro h0
    refine hmap ?_
    unfold Machine.mapped
    rw [alloc_none h0]
  have halloc : m.mapped = ((memblockReserve m.bootmem p pageMapSize).1,
      if (memblockReserve m.bootmem p pageMapSize).2 then p else 0) := alloc_some rfl hne
  have hbase : m.mapped.2 = p := by
    rw [halloc] at hmap ⊢
    dsimp only at hmap ⊢
    split_ifs at hmap ⊢ with hok
    · rfl
    · exact absurd rfl hmap
  have hle : p + pageMapSize ≤ memoryLimit :=
    (find_spec m.bootmem pageMapSize pageSize).resolve_left hne
  have hw : pageEnd p pageMapSize < 2 ^ 32 := by
    simp only [pageEnd, pageSize]
    omega
  obtain ⟨hvalid, horder, hcovers, hfew⟩ := hboot.reserve hw
  have htable : m.mapped.1 = (memblockReserve m.bootmem p pageMapSize).1 := by rw [halloc]
  rw [htable]
  refine ⟨hvalid, horder, fun a ha => ?_, hfew⟩
  obtain ⟨⟨hgiven, hother⟩, hmapped⟩ := hcovers ha
  refine ⟨hgiven, fun h => ?_⟩
  unfold Machine.inUse at h
  rw [hbase] at h
  exact h.elim hother hmapped

/-! ### What the page allocator gets -/

lemma freeBootmem_freed (s : Mem) (t : MemblockType) :
    pageMapFreeBootmem s (entries t) = pageMapFreeBootmem s (freed t) := by
  unfold freed
  induction entries t generalizing s with
  | nil => rfl
  | cons r l ih =>
    by_cases hstop : r.stop ≤ memoryLimit
    · rw [List.takeWhile_cons_of_pos (by simpa using hstop), pageMapFreeBootmem,
        pageMapFreeBootmem, if_neg (by omega), if_neg (by omega), ih]
    · rw [List.takeWhile_cons_of_neg (by simpa using hstop)]
      unfold pageMapFreeBootmem
      rw [if_pos (by omega)]

lemma Held.disjointRegions (h : Held n S t) : DisjointRegions (freed t) := by
  have hsub : (freed t).Sublist (entries t) := List.takeWhile_sublist _
  refine ⟨fun r hr => ?_, fun r hr => ?_, ?_⟩
  · rcases h.order with hw | ⟨x, hx, hx0, hbase⟩
    · exact hw.aligned r (hsub.subset hr)
    · obtain rfl : r = x := by simpa [hx] using hsub.subset hr
      rw [hx0]
      exact ⟨hbase, dvd_zero _⟩
  · have hstop : r.stop ≤ memoryLimit := by
      simpa using List.mem_takeWhile_imp hr
    rwa [stop_of_lt (h.valid r (hsub.subset hr))] at hstop
  · rcases h.order with hw | ⟨x, hx, -, -⟩
    · exact hw.apart.sublist hsub
    · rw [hx] at hsub
      exact List.Pairwise.sublist hsub (List.pairwise_singleton _ _)

/-- A page that is freed is one of the regions, whole. -/
lemma Held.page (h : Held n S t) {q a : ℕ} (hq : q ∈ regionPages (freed t))
    (ha : a ∈ Set.Ico (q * pageSize) ((q + 1) * pageSize)) : a ∈ S ∧ a < memoryLimit := by
  obtain ⟨r, hr, hqr⟩ := hq
  obtain ⟨⟨i, hi⟩, j, hj⟩ := h.disjointRegions.aligned r hr
  have hbelow := h.disjointRegions.below r hr
  have hin : a ∈ r.addrs := by
    rw [mem_addrs] at hqr ⊢
    rw [Set.mem_Ico] at ha
    simp only [pageSize] at hi hj hqr ha
    omega
  refine ⟨h.covers ⟨r, (List.takeWhile_sublist _).subset hr, hin⟩, ?_⟩
  rw [mem_addrs] at hin
  omega

variable {σ : State}

lemma machine_init (hs : Spaced m.table)
    (hb : pageEnd m.bootstrap.base m.bootstrap.size < 2 ^ 32) (h : (machine m).init σ) :
    m.mapped.2 ≠ 0 ∧ Tiled (freed m.mapped.1) σ := by
  obtain ⟨s, mem, hinit, hfree, rfl⟩ := h
  by_cases hmap : m.mapped.2 = 0
  · rw [Machine.pageAllocInit, if_pos hmap] at hinit
    cases hinit
  · rw [Machine.pageAllocInit, if_neg hmap, PageAlloc.pageAllocInit, freeBootmem_freed] at hinit
    obtain ⟨F, hF, -⟩ := pageAllocInit_spec (held_mapped hs hb hmap).disjointRegions hfree
    rw [PageAlloc.pageAllocInit, Option.some.inj hinit] at hF
    exact ⟨hmap, F, hF⟩

lemma machine_tiled (hs : Spaced m.table) (hb : pageEnd m.bootstrap.base m.bootstrap.size < 2 ^ 32)
    (h : Reach ((machine m).restrict MergesWhole) σ) :
    m.mapped.2 ≠ 0 ∧ Tiled (freed m.mapped.1) σ :=
  h.invariant_restrict (fun _ => machine_init hs hb) fun _ _ ht ha hm =>
    ⟨ht.1, tiled_step ht.2 ha hm⟩

/-- **What is handed out is free memory**: with the firmware's memory map filled in, everything in
use taken out and the rest given to the page allocator, the pages of an allocation are low memory
that the firmware's entries give, none of it used by the loader itself, by `page_map` or by a block
that is still held. -/
theorem alloc_ram (hs : Spaced m.table) (hb : pageEnd m.bootstrap.base m.bootstrap.size < 2 ^ 32)
    (h : Reach ((machine m).restrict MergesWhole) σ) {order page : ℕ} (ho : order < pageMaxOrder)
    (ha : (allocPages σ.mem order).1 = some page) :
    ∀ q ∈ (⟨page, order⟩ : Dyadic.Block).pages, (∀ b ∈ σ.live, q ∉ b.pages) ∧
      ∀ a ∈ Set.Ico (q * pageSize) ((q + 1) * pageSize), memoryStart ≤ a ∧ a < memoryLimit ∧
        (∃ e ∈ m.table, e.Low ∧ a ∈ e.pages) ∧ a ∉ m.inUse ∧
          (E820.Inside m.table → a ∈ usable m.table) := by
  obtain ⟨hmap, F, hi⟩ := machine_tiled hs hb h
  have hp : allocPages σ.mem order = (some page, (allocPages σ.mem order).2) := Prod.ext ha rfl
  obtain ⟨F', _, -, -, -, -, hnext, -, -⟩ := BuddyOps.allocPages_spec hi ho hp
  have hnew : (⟨page, order⟩ : Dyadic.Block) ∈ [] ++ ⟨page, order⟩ :: σ.live := by simp
  intro q hq
  refine ⟨fun b hbl hqb => ?_, fun a haq => ?_⟩
  · have hmem : b ∈ [] ++ ⟨page, order⟩ :: σ.live := by simp [hbl]
    have heq := hnext.tiling.uniq _ (Or.inr hnew) b (Or.inr hmem) q hq hqb
    have hnodup := hnext.nodup
    simp only [List.nil_append, List.nodup_cons] at hnodup
    exact hnodup.1 (heq ▸ hbl)
  · have hin := hnext.tiling.sub _ (Or.inr hnew) hq
    obtain ⟨⟨hgiven, huse⟩, hlimit⟩ := (held_mapped hs hb hmap).page hin haq
    refine ⟨given_ge hgiven, hlimit, hgiven, huse, fun hinside => ?_⟩
    obtain ⟨e, he, hlow, hpage⟩ := hgiven
    exact hinside e he hlow.1 hpage

/-- A machine with sixteen pages of low memory. -/
def sixteen : Machine where
  table := [⟨0x10000, 0x10000, e820MemoryTypeAvailable⟩]
  ebdaSegment := 0x9fc0
  bootstrap := ⟨0x7c00, 0x200⟩
  behind _ := ⟨0, 0⟩
  behind' _ := ⟨0, 0⟩

lemma spaced_sixteen : Spaced sixteen.table where
  noWrap := by
    intro e he _
    rw [List.mem_singleton.mp he]
    decide
  apart := by
    refine List.Pairwise.filter _ ?_
    exact List.pairwise_singleton _ _
  few := by decide

def bootSixteen : State := ⟨PageAlloc.pageAllocInit blank (entries sixteen.mapped.1), []⟩

lemma init_sixteen : (machine sixteen).init bootSixteen := by
  refine ⟨blank, _, ?_, fun _ _ => by simp [blank, Page.isFree], rfl⟩
  rw [Machine.pageAllocInit, if_neg (by decide +kernel)]

instance (m : Machine) (σ : State) (op : Op) : Decidable ((machine m).pre σ op) :=
  inferInstanceAs (Decidable (Asks σ op))

/-- `page_map` takes the first three pages, and page 20 is the first of four behind the next. -/
theorem alloc_ram_sixteen :
    (allocPages ((machine sixteen).run bootSixteen [.alloc 0]).mem 1).1 = some 20 ∧
    ∀ q ∈ (⟨20, 1⟩ : Dyadic.Block).pages,
      (∀ b ∈ ((machine sixteen).run bootSixteen [.alloc 0]).live, q ∉ b.pages) ∧
      ∀ a ∈ Set.Ico (q * pageSize) ((q + 1) * pageSize), memoryStart ≤ a ∧ a < memoryLimit ∧
        (∃ e ∈ sixteen.table, e.Low ∧ a ∈ e.pages) ∧ a ∉ sixteen.inUse ∧
          (E820.Inside sixteen.table → a ∈ usable sixteen.table) := by
  have hpage : (allocPages ((machine sixteen).run bootSixteen [.alloc 0]).mem 1).1 = some 20 := by
    decide +kernel
  exact ⟨hpage, alloc_ram spaced_sixteen (by decide)
    (Reach.run_restrict init_sixteen (by decide +kernel)) (show 1 < pageMaxOrder by decide) hpage⟩

end Elfboot.BootRam
