import Elfboot.MemblockRuns
import Elfboot.PageAlloc

/-!
The firmware's memory map and the boot-time memory maps filled from it: `arch/x86/memory.c`.

An entry is read through the low halves of its address and size, clipped to where free
memory may start, and handed to the map of the low or of the high memory, which rounds it
to pages. What is free afterwards is the union of the ranges handed on, so everything is
said about these ranges.
-/

namespace Elfboot.E820

open Elfboot.Word Elfboot.Mm Elfboot.Memblock Elfboot.RegionList Elfboot.MemblockTable
open Elfboot.RegionOrder Elfboot.MemblockRuns

abbrev e820MaxEntries : ℕ := 8
abbrev e820MemoryTypeAvailable : ℕ := 1

/-- `struct e820_entry`. -/
structure E820Entry where
  addr64 : ℕ
  size64 : ℕ
  type : ℕ

namespace E820Entry

/-- The low half of the address. -/
def addr32 (e : E820Entry) : ℕ := u32 e.addr64

/-- The low half of the size. -/
def size32 (e : E820Entry) : ℕ := u32 e.size64

/-- The addresses of an entry. -/
def addrs (e : E820Entry) : Set ℕ := Set.Ico e.addr64 (e.addr64 + e.size64)

end E820Entry

/-- `struct memblock`. -/
structure Memblock where
  bootmem : MemblockType
  kernmem : MemblockType

def memblockAddKernel (t : MemblockType) (base size : ℕ) : MemblockType :=
  memblockAddRegion t base size

/-- A turn of the loop of `e820_memblock_setup`. -/
def setupEntry (m : Memblock) (entry : E820Entry) : Memblock :=
  if entry.type ≠ e820MemoryTypeAvailable then m
  else if u32 (entry.addr32 + entry.size32) ≤ memoryStart then m
  else
    let base := max entry.addr32 memoryStart
    let size := sub32 (u32 (entry.addr32 + entry.size32)) base
    if memoryLimit ≤ entry.addr32 then
      { m with kernmem := memblockAddKernel m.kernmem base size }
    else { m with bootmem := memblockAdd m.bootmem base size }

def e820MemblockSetup (m : Memblock) (table : List E820Entry) : Memblock :=
  table.foldl setupEntry m

/-- Both maps before anything is added. -/
def start (behind behind' : ℕ → Region) : Memblock := ⟨emptyTable behind, emptyTable behind'⟩

/-! ### The ranges handed on -/

namespace E820Entry

/-- The entry is not passed over. -/
def Used (e : E820Entry) : Prop :=
  e.type = e820MemoryTypeAvailable ∧ memoryStart < u32 (e.addr32 + e.size32)

def base (e : E820Entry) : ℕ := max e.addr32 memoryStart

def size (e : E820Entry) : ℕ := sub32 (u32 (e.addr32 + e.size32)) e.base

/-- Used, and for the low memory. -/
def Low (e : E820Entry) : Prop := e.Used ∧ e.addr32 < memoryLimit

/-- Used, and for the high memory. -/
def High (e : E820Entry) : Prop := e.Used ∧ memoryLimit ≤ e.addr32

/-- The pages handed on. -/
def pages (e : E820Entry) : Set ℕ := pageRange e.base e.size

/-- The range does not wrap when it is rounded to pages. -/
def NoWrap (e : E820Entry) : Prop := pageEnd e.base e.size < 2 ^ 32

instance (e : E820Entry) : Decidable e.Used := inferInstanceAs (Decidable (_ ∧ _))
instance (e : E820Entry) : Decidable e.Low := inferInstanceAs (Decidable (_ ∧ _))
instance (e : E820Entry) : Decidable e.High := inferInstanceAs (Decidable (_ ∧ _))
instance (e : E820Entry) : Decidable e.NoWrap := inferInstanceAs (Decidable (_ < _))

end E820Entry

variable {e : E820Entry} {table : List E820Entry} {m : Memblock} {t : MemblockType}

/-- The usable memory: the addresses of the available entries. -/
def usable (table : List E820Entry) : Set ℕ :=
  {a | ∃ e ∈ table, e.type = e820MemoryTypeAvailable ∧ a ∈ e.addrs}

/-- The ranges of some entries added to a table. -/
def addAll (t : MemblockType) (l : List E820Entry) : MemblockType :=
  l.foldl (fun t e => memblockAdd t e.base e.size) t

lemma setupEntry_eq (m : Memblock) (e : E820Entry) : setupEntry m e =
    ⟨if e.Low then memblockAdd m.bootmem e.base e.size else m.bootmem,
      if e.High then memblockAdd m.kernmem e.base e.size else m.kernmem⟩ := by
  unfold setupEntry
  by_cases ht : e.type = e820MemoryTypeAvailable
  · rw [if_neg (not_not.mpr ht)]
    by_cases hs : u32 (e.addr32 + e.size32) ≤ memoryStart
    · have hu : ¬ e.Used := fun h => absurd h.2 (by omega)
      rw [if_pos hs, if_neg fun h => hu h.1, if_neg fun h => hu h.1]
    · have hu : e.Used := ⟨ht, by omega⟩
      rw [if_neg hs]
      by_cases hl : memoryLimit ≤ e.addr32
      · rw [if_neg fun h : e.Low => absurd h.2 (by omega), if_pos (show e.High from ⟨hu, hl⟩)]
        exact if_pos hl
      · rw [if_pos (show e.Low from ⟨hu, by omega⟩), if_neg fun h : e.High => hl h.2]
        exact if_neg hl
  · have hu : ¬ e.Used := fun h => ht h.1
    rw [if_pos ht, if_neg fun h => hu h.1, if_neg fun h => hu h.1]

/-- **The two maps** are filled with the ranges of the entries meant for them. -/
lemma setup_eq (m : Memblock) (table : List E820Entry) : e820MemblockSetup m table =
    ⟨addAll m.bootmem (table.filter fun e => e.Low),
      addAll m.kernmem (table.filter fun e => e.High)⟩ := by
  induction table generalizing m with
  | nil => rfl
  | cons e table ih =>
      have hstep : e820MemblockSetup m (e :: table) =
          e820MemblockSetup (setupEntry m e) table := rfl
      rw [hstep, ih, setupEntry_eq]
      by_cases hl : e.Low <;> by_cases hh : e.High <;> simp [addAll, hl, hh]

/-! ### Adding ranges one by one -/

lemma fill_ne_nil {b c : ℕ} {l : List Region} (h : l ≠ []) :
    (fill c b l).1 ++ (fill c b l).2.1 ≠ [] := by
  obtain ⟨x, l, rfl⟩ := List.exists_cons_of_ne_nil h
  rcases fill_cons c b x l with ⟨-, hf⟩ | ⟨-, -, hf⟩ | ⟨g, -, -, -, hf⟩ <;> simp [hf]

/-- An add never empties a table. -/
lemma add_ne_nil {base size : ℕ} (hw : pageEnd base size < 2 ^ 32) (hv : Valid (entries t))
    (h : entries t ≠ []) : entries (memblockAdd t base size) ≠ [] := by
  by_cases h0 : (t.regions 0).size = 0
  · rcases add_placeholder hw h0 with ⟨hc, -⟩ | ⟨x, l, -, -, h1⟩
    · exact absurd (by simp [entries, hc]) h
    · rw [h1]; simp
  · obtain ⟨t', h1, h2⟩ := add_fill hw hv h0
    have hv' : Valid (entries t') := by
      rw [h2]; exact fill_valid (pageBeg_le_pageEnd base size) hw hv
    obtain ⟨l, h3, h4⟩ := fusion_fuses (i := _) hv'
    rw [h1, ← List.length_pos_iff_ne_nil, h4.length_eq, h3.length_eq, h2,
      List.length_pos_iff_ne_nil]
    have := fill_ne_nil (c := pageEnd base size) (b := pageBeg base) h
    simp only [ne_eq, List.append_eq_nil_iff, not_and] at this ⊢
    tauto

/-- **What the ranges add**, where none of them wraps. -/
lemma addAll_spec {l : List E820Entry} (hw : ∀ e ∈ l, e.NoWrap) (hv : Valid (entries t))
    (h : entries t ≠ []) :
    covered (entries (addAll t l)) = covered (entries t) ∪ {a | ∃ e ∈ l, a ∈ e.pages} := by
  induction l generalizing t with
  | nil => simp [addAll]
  | cons e l ih =>
      obtain ⟨hwe, hwl⟩ := List.forall_mem_cons.mp hw
      have hk : KeepsSet t (.add e.base e.size) := fun hc => absurd (by simp [entries, hc]) h
      have hstep : addAll t (e :: l) = addAll (memblockAdd t e.base e.size) l := rfl
      rw [hstep, ih hwl (add_valid hwe hv) (add_ne_nil hwe hv h), covered_add hv hwe hk]
      ext a
      simp [E820Entry.pages, or_assoc]

lemma addAll_below {l : List E820Entry} {c : ℕ} (hw : ∀ e ∈ l, e.NoWrap)
    (hc : ∀ e ∈ l, pageEnd e.base e.size < c) (hv : Valid (entries t))
    (h : Below c (entries t)) : Below c (entries (addAll t l)) := by
  induction l generalizing t with
  | nil => exact h
  | cons e l ih =>
      obtain ⟨hwe, hwl⟩ := List.forall_mem_cons.mp hw
      obtain ⟨hce, hcl⟩ := List.forall_mem_cons.mp hc
      exact ih hwl hcl (add_valid hwe hv) (add_below hwe hce hv h)

variable {behind behind' : ℕ → Region}

lemma covered_addAll_empty {l : List E820Entry} (hw : ∀ e ∈ l, e.NoWrap) :
    covered (entries (addAll (emptyTable behind) l)) = {a | ∃ e ∈ l, a ∈ e.pages} := by
  have h0 : covered (entries (emptyTable behind)) = ∅ := by
    rw [entries_empty]
    ext a
    simp
  rw [addAll_spec hw (valid_empty behind) (by simp [entries_empty]), h0, Set.empty_union]

/-! ### Only usable memory -/

/-- The promise: what both maps cover is usable. Regions are whole pages, so this says that
a page that is covered lies inside the available entries. -/
def OnlyUsable (m : Memblock) (table : List E820Entry) : Prop :=
  covered (entries m.bootmem) ∪ covered (entries m.kernmem) ⊆ usable table

/-- No range handed on wraps. -/
def NoWrap (table : List E820Entry) : Prop := ∀ e ∈ table, e.Used → e.NoWrap

/-- The pages handed on lie inside the available entries. -/
def Inside (table : List E820Entry) : Prop := ∀ e ∈ table, e.Used → e.pages ⊆ usable table

lemma noWrap_low (h : NoWrap table) : ∀ e ∈ table.filter fun e => e.Low, e.NoWrap := by
  intro e he
  obtain ⟨hm, hl⟩ := List.mem_filter.mp he
  exact h e hm (of_decide_eq_true hl).1

lemma noWrap_high (h : NoWrap table) : ∀ e ∈ table.filter fun e => e.High, e.NoWrap := by
  intro e he
  obtain ⟨hm, hl⟩ := List.mem_filter.mp he
  exact h e hm (of_decide_eq_true hl).1

lemma covered_bootmem (h : NoWrap table) :
    covered (entries (e820MemblockSetup (start behind behind') table).bootmem) =
      {a | ∃ e ∈ table, e.Low ∧ a ∈ e.pages} := by
  rw [setup_eq]
  refine (covered_addAll_empty (noWrap_low h)).trans ?_
  ext a
  simp [and_assoc]

lemma covered_kernmem (h : NoWrap table) :
    covered (entries (e820MemblockSetup (start behind behind') table).kernmem) =
      {a | ∃ e ∈ table, e.High ∧ a ∈ e.pages} := by
  rw [setup_eq]
  refine (covered_addAll_empty (noWrap_high h)).trans ?_
  ext a
  simp [and_assoc]

lemma onlyUsable_of_inside (h : NoWrap table) (hin : Inside table) :
    OnlyUsable (e820MemblockSetup (start behind behind') table) table := by
  unfold OnlyUsable
  rw [covered_bootmem h, covered_kernmem h]
  intro a ha
  rcases ha with ⟨e, he, hl, ha⟩ | ⟨e, he, hh, ha⟩
  · exact hin e he hl.1 ha
  · exact hin e he hh.1 ha

/-- **Only usable memory becomes free** if and only if the pages handed on lie inside the
available entries. -/
theorem only_usable_iff (h : NoWrap table) :
    OnlyUsable (e820MemblockSetup (start behind behind') table) table ↔ Inside table := by
  refine ⟨fun hsub e he hu a ha => ?_, onlyUsable_of_inside h⟩
  unfold OnlyUsable at hsub
  rw [covered_bootmem h, covered_kernmem h] at hsub
  rcases Nat.lt_or_ge e.addr32 memoryLimit with hl | hl
  · exact hsub (Or.inl ⟨e, he, ⟨hu, hl⟩, ha⟩)
  · exact hsub (Or.inr ⟨e, he, ⟨hu, hl⟩, ha⟩)

/-- Two pages, the second not whole, inside one entry of four pages. -/
theorem only_usable_iff_two :
    OnlyUsable (e820MemblockSetup (start (fun _ => ⟨0, 0⟩) fun _ => ⟨0, 0⟩)
      [⟨0x20000, 0x4000, e820MemoryTypeAvailable⟩, ⟨0x100020000, 0x1800, e820MemoryTypeAvailable⟩])
      [⟨0x20000, 0x4000, e820MemoryTypeAvailable⟩,
        ⟨0x100020000, 0x1800, e820MemoryTypeAvailable⟩] := by
  refine (only_usable_iff (by unfold NoWrap; decide +kernel)).mpr ?_
  intro e he _ a ha
  refine ⟨_, List.mem_cons_self, rfl, ?_⟩
  have hr : a ∈ Set.Ico 0x20000 0x24000 ∨ a ∈ Set.Ico 0x20000 0x22000 := by
    rcases List.mem_cons.mp he with rfl | he
    · exact Or.inl ha
    · obtain rfl := List.mem_singleton.mp he
      exact Or.inr ha
  simp only [Set.mem_Ico] at hr
  exact ⟨by dsimp only; omega, by dsimp only; omega⟩

/-- The entries of a table share no address. -/
def Disjointed (table : List E820Entry) : Prop :=
  table.Pairwise fun e e' => Disjoint e.addrs e'.addrs

/-- One entry, of 2 MiB, above 4 GiB: all that is seen of its address is zero. -/
theorem not_only_usable : ¬ ∀ behind behind' table, table.length ≤ e820MaxEntries →
    (∀ e ∈ table, e.addr64 < 2 ^ 64 ∧ e.size64 < 2 ^ 64) → Disjointed table →
      OnlyUsable (e820MemblockSetup (start behind behind') table) table := by
  intro h
  have hsub := h (fun _ => ⟨0, 0⟩) (fun _ => ⟨0, 0⟩)
    [⟨0x100000000, 0x200000, e820MemoryTypeAvailable⟩] (by decide) (by simp) (by simp [Disjointed])
  have he : entries (e820MemblockSetup (start (fun _ => ⟨0, 0⟩) fun _ => ⟨0, 0⟩)
      [⟨0x100000000, 0x200000, e820MemoryTypeAvailable⟩]).bootmem = [⟨0x10000, 0x1f0000⟩] := by
    decide +kernel
  have hmem : 0x10000 ∈ covered (entries (e820MemblockSetup
      (start (fun _ => ⟨0, 0⟩) fun _ => ⟨0, 0⟩)
      [⟨0x100000000, 0x200000, e820MemoryTypeAvailable⟩]).bootmem) := by
    rw [he]
    simp
  obtain ⟨e, hin, -, ha⟩ := hsub (Or.inl hmem)
  obtain rfl := List.mem_singleton.mp hin
  exact absurd ha.1 (by decide)

/-! ### Low and high memory -/

/-- Whole pages, below 4 GiB. -/
def E820Entry.Aligned (e : E820Entry) : Prop :=
  pageSize ∣ e.addr64 ∧ pageSize ∣ e.size64 ∧ e.addr64 + e.size64 ≤ 2 ^ 32

/-- Such an entry is used unless it ends too low, or at 4 GiB, where the sum wraps. -/
lemma used_iff (h : e.Aligned) : e.Used ↔ e.type = e820MemoryTypeAvailable ∧
    memoryStart < e.addr64 + e.size64 ∧ e.addr64 + e.size64 < 2 ^ 32 := by
  have hle := h.2.2
  refine and_congr_right fun _ => ?_
  simp only [E820Entry.addr32, E820Entry.size32, u32, memoryStart]
  omega

/-- Its range is the entry itself, clipped. -/
lemma range_aligned (h : e.Aligned) (hu : e.Used) : e.addr32 = e.addr64 ∧
    pageBeg e.base = max e.addr64 memoryStart ∧
      pageEnd e.base e.size = e.addr64 + e.size64 := by
  obtain ⟨-, hs, hw⟩ := (used_iff h).mp hu
  have ha : e.addr32 = e.addr64 := u32_of_lt (by omega)
  have hz : e.size32 = e.size64 := u32_of_lt (by omega)
  have hb : e.base = max e.addr64 memoryStart := by rw [E820Entry.base, ha]
  have hsize : e.size = e.addr64 + e.size64 - e.base := by
    rw [E820Entry.size, ha, hz, u32_of_lt hw, sub32_of_le (by omega) hw]
  obtain ⟨j, hj⟩ := h.1
  obtain ⟨k, hk⟩ := h.2.1
  simp only [pageBeg, pageEnd, hsize, hb, pageSize, memoryStart] at hj hk hs ⊢
  exact ⟨ha, by omega, by omega⟩

lemma mem_pages (h : e.Aligned) (hu : e.Used) {a : ℕ} :
    a ∈ e.pages ↔ a ∈ e.addrs ∧ memoryStart ≤ a := by
  obtain ⟨-, hb, he⟩ := range_aligned h hu
  simp only [E820Entry.pages, pageRange, E820Entry.addrs, hb, he, Set.mem_Ico]
  omega

lemma noWrap_aligned (h : ∀ e ∈ table, e.Aligned) : NoWrap table := by
  intro e he hu
  unfold E820Entry.NoWrap
  rw [(range_aligned (h e he) hu).2.2]
  exact ((used_iff (h e he)).mp hu).2.2

lemma inside_aligned (h : ∀ e ∈ table, e.Aligned) : Inside table := by
  intro e he hu a ha
  exact ⟨e, he, hu.1, ((mem_pages (h e he) hu).mp ha).1⟩

/-- With whole pages below 4 GiB only usable memory becomes free. -/
lemma onlyUsable_aligned (h : ∀ e ∈ table, e.Aligned) :
    OnlyUsable (e820MemblockSetup (start behind behind') table) table :=
  onlyUsable_of_inside (noWrap_aligned h) (inside_aligned h)

open Elfboot.PageAlloc in
/-- The promise: the usable addresses from `MEMBLOCK_START` on are covered, by the map of
their side of `MEMBLOCK_LIMIT`; no region of the low map reaches past it; and so, once the
page map has been taken out of the low map, `page_map_free_bootmem` leaves out no region. -/
structure SplitRight (m : Memblock) (table : List E820Entry) : Prop where
  low : ∀ a ∈ usable table, memoryStart ≤ a → a < memoryLimit → a ∈ covered (entries m.bootmem)
  high : ∀ a ∈ usable table, memoryLimit ≤ a → a ∈ covered (entries m.kernmem)
  ends : ∀ r ∈ entries m.bootmem, r.base + r.size ≤ memoryLimit
  freed : ∀ s size align,
    pageMapFreeBootmem s (entries (memblockAlloc m.bootmem size align).1) =
      (entries (memblockAlloc m.bootmem size align).1).foldl freeBootmemRegion s

/-- An available entry does not lie across `MEMBLOCK_LIMIT` and does not end at 4 GiB. -/
def E820Entry.Clear (e : E820Entry) : Prop :=
  e.type = e820MemoryTypeAvailable →
    ¬ (e.addr64 < memoryLimit ∧ memoryLimit < e.addr64 + e.size64) ∧
      ¬ (0 < e.size64 ∧ e.addr64 + e.size64 = 2 ^ 32)

lemma setup_below (behind behind' : ℕ → Region) (h : ∀ e ∈ table, e.Aligned)
    (hc : ∀ e ∈ table, e.Clear) :
    Below (memoryLimit + 1)
      (entries (e820MemblockSetup (start behind behind') table).bootmem) := by
  rw [setup_eq]
  refine addAll_below (noWrap_low (noWrap_aligned h)) (fun e he => ?_) (valid_empty behind) ?_
  · obtain ⟨hm, hl⟩ := List.mem_filter.mp he
    obtain ⟨hu, hlow⟩ : e.Low := of_decide_eq_true hl
    obtain ⟨ha, -, hend⟩ := range_aligned (h e hm) hu
    have hclear := (hc e hm hu.1).1
    rw [hend]
    omega
  · intro r hr
    have hr' := hr
    simp only [start, entries_empty, List.mem_singleton] at hr'
    rw [hr']
    decide

lemma alloc_below {c size align : ℕ} (hv : Valid (entries t)) (h : Below c (entries t)) :
    Below c (entries (memblockAlloc t size align).1) := by
  rcases alloc_cases t size align with heq | ⟨base, hw, heq⟩
  · rw [heq]; exact h
  · rw [heq, del_carve hw hv]
    exact carve_below (pageBeg_le_pageEnd base size) h

/-- The loop over the regions is not left early where none reaches past the limit. -/
lemma freeBootmem_eq {l : List Region} (h : Below (memoryLimit + 1) l) (s : PageAlloc.Mem) :
    PageAlloc.pageMapFreeBootmem s l = l.foldl PageAlloc.freeBootmemRegion s := by
  induction l generalizing s with
  | nil => rfl
  | cons r l ih =>
      obtain ⟨hr, hl⟩ := below_cons.mp h
      have hstop : r.stop = r.base + r.size :=
        stop_of_lt (by simp only [memoryLimit] at hr; omega)
      unfold PageAlloc.pageMapFreeBootmem
      rw [if_neg (by omega), ih hl, List.foldl_cons]

/-- The last page below 4 GiB is covered by neither map. -/
lemma last_lost (h : ∀ e ∈ table, e.Aligned) {a : ℕ} (ha : a + 1 = 2 ^ 32) :
    a ∉ covered (entries (e820MemblockSetup (start behind behind') table).kernmem) := by
  rw [covered_kernmem (noWrap_aligned h)]
  rintro ⟨e, he, hh, hp⟩
  have hw := ((used_iff (h e he)).mp hh.1).2.2
  have hin := ((mem_pages (h e he) hh.1).mp hp).1.2
  omega

lemma clear_of_splitRight (h : ∀ e ∈ table, e.Aligned)
    (hs : SplitRight (e820MemblockSetup (start behind behind') table) table) :
    ∀ e ∈ table, e.Clear := by
  intro e he ht
  have hend : ¬ (0 < e.size64 ∧ e.addr64 + e.size64 = 2 ^ 32) := by
    intro ⟨hpos, hsum⟩
    refine last_lost h (a := 2 ^ 32 - 1) rfl (hs.high _ ⟨e, he, ht, ?_⟩ (by decide))
    exact ⟨by omega, by omega⟩
  refine ⟨?_, hend⟩
  intro ⟨hbeg, hpast⟩
  have hle := (h e he).2.2
  have hu : e.Used := (used_iff (h e he)).mpr
    ⟨ht, by simp only [memoryLimit, memoryStart] at hpast ⊢; omega, by omega⟩
  have hl : e.Low := ⟨hu, by rw [(range_aligned (h e he) hu).1]; exact hbeg⟩
  -- the low map has the first address behind the limit, and so a region that reaches past it
  have hcov : memoryLimit ∈
      covered (entries (e820MemblockSetup (start behind behind') table).bootmem) := by
    rw [covered_bootmem (noWrap_aligned h)]
    exact ⟨e, he, hl, (mem_pages (h e he) hu).mpr ⟨⟨hbeg.le, hpast⟩, by decide⟩⟩
  obtain ⟨r, hr, hin⟩ := hcov
  have hre := hs.ends r hr
  have hlt := hin.2
  omega

/-- Every address of a clear entry that the setup can use at all is on a page of it. -/
lemma used_of_clear {e : E820Entry} (h : e.Aligned) (hc : e.Clear)
    (ht : e.type = e820MemoryTypeAvailable) {a : ℕ} (ha : a ∈ e.addrs) (hge : memoryStart ≤ a) :
    e.Used ∧ a ∈ e.pages := by
  have hend := (hc ht).2
  have hle := h.2.2
  have hlo := ha.1
  have hlt := ha.2
  have hu : e.Used := (used_iff h).mpr ⟨ht, by omega, by omega⟩
  exact ⟨hu, (mem_pages h hu).mpr ⟨ha, hge⟩⟩

lemma splitRight_of_clear (h : ∀ e ∈ table, e.Aligned) (hc : ∀ e ∈ table, e.Clear) :
    SplitRight (e820MemblockSetup (start behind behind') table) table := by
  have hbelow := setup_below behind behind' h hc
  have hvalid : Valid
      (entries (e820MemblockSetup (start behind behind') table).bootmem) := fun r hr =>
    (hbelow r hr).trans (by decide)
  refine ⟨?_, ?_, fun r hr => Nat.le_of_lt_succ (hbelow r hr), fun s size align => ?_⟩
  · rintro a ⟨e, he, ht, ha⟩ hge hlt
    obtain ⟨hu, hp⟩ := used_of_clear (h e he) (hc e he) ht ha hge
    rw [covered_bootmem (noWrap_aligned h)]
    refine ⟨e, he, ⟨hu, ?_⟩, hp⟩
    rw [(range_aligned (h e he) hu).1]
    exact ha.1.trans_lt hlt
  · rintro a ⟨e, he, ht, ha⟩ hge
    obtain ⟨hu, hp⟩ := used_of_clear (h e he) (hc e he) ht ha (le_trans (by decide) hge)
    rw [covered_kernmem (noWrap_aligned h)]
    refine ⟨e, he, ⟨hu, ?_⟩, hp⟩
    rw [(range_aligned (h e he) hu).1]
    have hclear := (hc e he ht).1
    have hlt := ha.2
    omega
  · exact freeBootmem_eq (alloc_below hvalid hbelow) s

/-- **Low and high memory are split right** if and only if no available entry lies across
`MEMBLOCK_LIMIT` and none ends at 4 GiB. -/
theorem split_right_iff (h : ∀ e ∈ table, e.Aligned) :
    SplitRight (e820MemblockSetup (start behind behind') table) table ↔
      ∀ e ∈ table, e.Clear :=
  ⟨clear_of_splitRight h, splitRight_of_clear h⟩

theorem split_right_iff_two :
    SplitRight (e820MemblockSetup (start (fun _ => ⟨0, 0⟩) fun _ => ⟨0, 0⟩)
      [⟨0, 0x9f000, e820MemoryTypeAvailable⟩, ⟨0x100000, 0x7f00000, e820MemoryTypeAvailable⟩])
      [⟨0, 0x9f000, e820MemoryTypeAvailable⟩,
        ⟨0x100000, 0x7f00000, e820MemoryTypeAvailable⟩] := by
  refine (split_right_iff ?_).mpr ?_
  · simp only [List.forall_mem_cons]
    exact ⟨by unfold E820Entry.Aligned; decide, by unfold E820Entry.Aligned; decide, by simp⟩
  · simp only [List.forall_mem_cons]
    exact ⟨fun _ => by decide, fun _ => by decide, by simp⟩

/-- One entry, of 128 KiB, that begins 64 KiB below `MEMBLOCK_LIMIT`: all of it is low. -/
theorem not_split_right : ¬ ∀ behind behind' table, table.length ≤ e820MaxEntries →
    (∀ e ∈ table, e.Aligned) → Disjointed table →
      SplitRight (e820MemblockSetup (start behind behind') table) table := by
  intro h
  have hs := h (fun _ => ⟨0, 0⟩) (fun _ => ⟨0, 0⟩) [⟨0xf0000, 0x20000, e820MemoryTypeAvailable⟩]
    (by decide) (by simp only [List.forall_mem_cons]; unfold E820Entry.Aligned; simp; decide)
    (by simp [Disjointed])
  have he : entries (e820MemblockSetup (start (fun _ => ⟨0, 0⟩) fun _ => ⟨0, 0⟩)
      [⟨0xf0000, 0x20000, e820MemoryTypeAvailable⟩]).bootmem = [⟨0xf0000, 0x20000⟩] := by
    decide +kernel
  have hends := hs.ends ⟨0xf0000, 0x20000⟩ (by rw [he]; exact List.mem_singleton_self _)
  exact absurd hends (by decide)

/-! ### Room in the arrays -/

/-- Of a table whose ranges share no page: it has an entry a range at most, and none of
size zero, unless it is still as it was at the start. -/
def Roomy (k : ℕ) (l : List Region) : Prop :=
  (∃ r, l = [r] ∧ r.size = 0) ∨ (l.length ≤ k ∧ ∀ r ∈ l, 0 < r.size)

lemma fill_self (c : ℕ) (l : List Region) :
    (fill c c l).1 ++ (fill c c l).2.1 = l ∧ (fill c c l).2.2 = c := by
  induction l with
  | nil => exact ⟨rfl, rfl⟩
  | cons x l ih =>
      rcases fill_cons c c x l with ⟨-, hf⟩ | ⟨-, -, hf⟩ | ⟨g, h1, h2, hg, hf⟩
      · rw [hf]; exact ⟨rfl, rfl⟩
      · rw [hf]; exact ⟨by rw [List.cons_append, ih.1], ih.2⟩
      · obtain rfl : g = [] := by
          rcases hg with ⟨-, hle⟩ | ⟨rfl, -⟩
          · omega
          · rfl
        rw [min_eq_right h2.le] at hf
        rw [hf]
        exact ⟨by rw [List.nil_append, List.cons_append, ih.1], ih.2⟩

lemma fuses_pos {l l' : List Region} (h : Fuses l l') (hp : ∀ r ∈ l, 0 < r.size) :
    ∀ r ∈ l', 0 < r.size := by
  rcases h with rfl | ⟨A, x, y, B, rfl, -, rfl⟩
  · exact hp
  · have hx : 0 < x.size := hp x (by simp)
    have hm : ∀ r ∈ (⟨x.base, x.size + y.size⟩ : Region) :: B, 0 < r.size := by
      refine List.forall_mem_cons.mpr ⟨by dsimp only; omega, fun r hr => ?_⟩
      exact hp r (by simp [hr])
    intro r hr
    rcases List.mem_append.mp hr with hA | hB
    · exact hp r (by simp [hA])
    · rcases List.mem_append.mp hB with hB | hlast
      · exact hm r hB
      · rw [List.mem_singleton.mp hlast]
        exact hm _ (List.getLast_mem _)

/-- A range that shares nothing with the table takes one entry at most. -/
lemma fill_roomy {b c : ℕ} {l : List Region} (hbc : b ≤ c) (hp : ∀ r ∈ l, 0 < r.size)
    (hd : Disjoint (covered l) (Set.Ico b c)) :
    let l' := (fill c b l).1 ++ (missing (fill c b l).2.2 c ++ (fill c b l).2.1)
    l'.length ≤ l.length + 1 ∧ ∀ r ∈ l', 0 < r.size := by
  rcases hbc.eq_or_lt with rfl | hlt
  · obtain ⟨h1, h2⟩ := fill_self b l
    simp only [h2, missing, lt_irrefl, if_false, List.nil_append, h1]
    exact ⟨Nat.le_succ _, hp⟩
  · obtain ⟨h1, h2, -⟩ := fill_miss (l := l) (b := b) (e := c) (by
      intro y hy hit
      have hpos := hp y hy
      obtain ⟨hbeg, hend⟩ := hit
      have hin : max y.base b ∈ y.addrs := ⟨le_max_left _ _, by omega⟩
      exact Set.disjoint_left.mp hd ⟨y, hy, hin⟩ ⟨le_max_right _ _, by omega⟩)
    have hmem : ∀ r, r ∈ (fill c b l).1 ∨ r ∈ (fill c b l).2.1 → r ∈ l := fun r hr => by
      rw [← h1]; exact List.mem_append.mpr hr
    have hlen : (fill c b l).1.length + (fill c b l).2.1.length = l.length := by
      rw [← List.length_append, h1]
    simp only [h2, missing, if_pos hlt]
    constructor
    · simp only [List.length_append, List.length_singleton]
      omega
    · intro r hr
      simp only [List.mem_append, List.mem_singleton] at hr
      rcases hr with hr | rfl | hr
      · exact hp r (hmem r (Or.inl hr))
      · dsimp only; omega
      · exact hp r (hmem r (Or.inr hr))

lemma add_roomy {base size k : ℕ} (hw : pageEnd base size < 2 ^ 32) (hv : Valid (entries t))
    (hd : Disjoint (covered (entries t)) (pageRange base size)) (h : Roomy k (entries t)) :
    Roomy (k + 1) (entries (memblockAdd t base size)) := by
  by_cases h0 : (t.regions 0).size = 0
  · rcases add_placeholder hw h0 with ⟨-, h1⟩ | ⟨x, l, hl, hx, h1⟩
    · rw [h1]; exact Or.inr ⟨by simp, by simp⟩
    · obtain rfl : l = [] := by
        rcases h with ⟨r, hr, -⟩ | ⟨-, hp⟩
        · rw [hl] at hr
          exact (List.cons.inj hr).2
        · have := hp x (by rw [hl]; exact List.mem_cons_self)
          omega
      rw [h1]
      rcases Nat.eq_zero_or_pos (pageEnd base size - pageBeg base) with hz | hpos
      · exact Or.inl ⟨_, rfl, hz⟩
      · exact Or.inr ⟨by simp, by simpa using hpos⟩
  · rcases h with ⟨r, hr, hz⟩ | ⟨hlen, hp⟩
    · have hreg : t.regions 0 = r := (region_at (A := []) hr).2
      exact absurd (by rw [hreg, hz]) h0
    · obtain ⟨t', h1, h2⟩ := add_fill hw hv h0
      obtain ⟨h3, h4⟩ := fill_roomy (pageBeg_le_pageEnd base size) hp hd
      have hv' : Valid (entries t') := by
        rw [h2]; exact fill_valid (pageBeg_le_pageEnd base size) hw hv
      obtain ⟨l, hf, hf'⟩ := fusion_fuses
        (i := (fill (pageEnd base size) (pageBeg base) (entries t)).1.length) hv'
      rw [← h2] at h3 h4
      rw [h1]
      refine Or.inr ⟨?_, fuses_pos hf' (fuses_pos hf h4)⟩
      rw [hf'.length_eq, hf.length_eq]
      omega

lemma addAll_roomy {l : List E820Entry} {k : ℕ} (hw : ∀ e ∈ l, e.NoWrap)
    (hd : l.Pairwise fun e e' => Disjoint e.pages e'.pages)
    (hdt : ∀ e ∈ l, Disjoint (covered (entries t)) e.pages)
    (hv : Valid (entries t)) (hne : entries t ≠ []) (h : Roomy k (entries t)) :
    Roomy (k + l.length) (entries (addAll t l)) := by
  induction l generalizing t k with
  | nil => exact h
  | cons e l ih =>
      obtain ⟨hwe, hwl⟩ := List.forall_mem_cons.mp hw
      obtain ⟨hde, hdl⟩ := List.pairwise_cons.mp hd
      obtain ⟨hdte, hdtl⟩ := List.forall_mem_cons.mp hdt
      have hk : KeepsSet t (.add e.base e.size) := fun hc => absurd (by simp [entries, hc]) hne
      have hih := ih (t := memblockAdd t e.base e.size) (k := k + 1) hwl hdl (fun e' he' => by
        rw [covered_add hv hwe hk]
        exact Disjoint.union_left (hdtl e' he') (hde e' he')) (add_valid hwe hv)
        (add_ne_nil hwe hv hne) (add_roomy hwe hv hdte h)
      rw [List.length_cons, Nat.add_comm l.length, ← Nat.add_assoc]
      exact hih

lemma filter_roomy (h : ∀ e ∈ table, e.Aligned) (hd : Disjointed table)
    {p : E820Entry → Bool} (hp : ∀ e, p e = true → e.Used) :
    (addAll (emptyTable behind) (table.filter p)).cnt ≤ max 1 table.length := by
  have hin : ∀ e ∈ table.filter p, e ∈ table ∧ e.Used := fun e he =>
    ⟨(List.mem_filter.mp he).1, hp e (List.mem_filter.mp he).2⟩
  have hpages : (table.filter p).Pairwise fun e e' => Disjoint e.pages e'.pages := by
    refine (hd.filter p).imp_of_mem fun {e e'} he he' hdis => ?_
    refine Set.disjoint_left.mpr fun a ha ha' => ?_
    obtain ⟨hm, hu⟩ := hin e he
    obtain ⟨hm', hu'⟩ := hin e' he'
    exact Set.disjoint_left.mp hdis ((mem_pages (h e hm) hu).mp ha).1
      ((mem_pages (h e' hm') hu').mp ha').1
  have hroom := addAll_roomy (t := emptyTable behind) (k := 0)
    (fun e he => noWrap_aligned h e (hin e he).1 (hin e he).2) hpages
    (fun e _ => by
      rw [entries_empty]
      exact Set.disjoint_left.mpr fun a ha => absurd ha (by simp))
    (valid_empty behind) (by simp [entries_empty]) (Or.inl ⟨⟨0, 0⟩, entries_empty behind, rfl⟩)
  have hlen := List.length_filter_le p table
  rw [← length_entries]
  rcases hroom with ⟨r, hr, -⟩ | ⟨hle, -⟩
  · rw [hr]
    exact le_max_left _ _
  · omega

/-- **The two arrays are large enough** for whole pages below 4 GiB that share no address. -/
theorem setup_room (h : ∀ e ∈ table, e.Aligned) (hd : Disjointed table)
    (hlen : table.length ≤ e820MaxEntries) :
    (e820MemblockSetup (start behind behind') table).bootmem.cnt ≤ memblockMaxRegions ∧
      (e820MemblockSetup (start behind behind') table).kernmem.cnt ≤ memblockMaxRegions := by
  have hmax : max 1 table.length ≤ memblockMaxRegions := max_le (by decide) hlen
  rw [setup_eq]
  refine ⟨(filter_roomy h hd fun e he => ?_).trans hmax,
    (filter_roomy h hd fun e he => ?_).trans hmax⟩
  · exact (of_decide_eq_true he : e.Low).1
  · exact (of_decide_eq_true he : e.High).1

end Elfboot.E820
