import Elfboot.Run
import Elfboot.MemblockTable

/-!
Runs of the boot-time memory map.

What it promises of its entries survives every step but an add that makes two entries
touch or that meets one of them at its start; what it covers is right after every step but
an add to a table that has become empty, and a reserve that meets entries out of order.
-/

namespace Elfboot.MemblockRuns

open Elfboot.Run Elfboot.Mm Elfboot.Memblock Elfboot.RegionList Elfboot.RegionOrder
open Elfboot.MemblockTable

/-- The calls that name a range. -/
inductive RangeOp
  | add (base size : ℕ)
  | reserve (base size : ℕ)

inductive Op
  | range (op : RangeOp)
  | alloc (size align : ℕ)

def rangeStep (t : MemblockType) : RangeOp → MemblockType
  | .add base size => memblockAdd t base size
  | .reserve base size => (memblockReserve t base size).1

def step (t : MemblockType) : Op → MemblockType
  | .range op => rangeStep t op
  | .alloc size align => (memblockAlloc t size align).1

/-- The range does not wrap when it is rounded to pages. -/
def RangeOp.NoWrap : RangeOp → Prop
  | .add base size => pageEnd base size < 2 ^ 32
  | .reserve base size => pageEnd base size < 2 ^ 32

def Op.NoWrap : Op → Prop
  | .range op => op.NoWrap
  | .alloc _ _ => True

/-- The boot-time memory map, as long as its array is large enough. -/
def memblock : System MemblockType Op where
  init t := ∃ behind, t = emptyTable behind
  pre t op := op.NoWrap ∧ (step t op).cnt ≤ memblockMaxRegions
  step := step

/-- The same, with no allocations. -/
def ranges : System MemblockType RangeOp where
  init t := ∃ behind, t = emptyTable behind
  pre t op := op.NoWrap ∧ (rangeStep t op).cnt ≤ memblockMaxRegions
  step := rangeStep

/-- What a call means for the set of free addresses. -/
def RangeOp.free (S : Set ℕ) : RangeOp → Set ℕ
  | .add base size => S ∪ pageRange base size
  | .reserve base size => S \ pageRange base size

/-- The promise: entries in order, or the one entry of size zero of the empty table. -/
def InOrder (t : MemblockType) : Prop :=
  WellFormed (entries t) ∨ ∃ r, entries t = [r] ∧ r.size = 0 ∧ pageSize ∣ r.base

/-- An add finds the first entry empty, or a place where the range fits. -/
def KeepsOrder (t : MemblockType) : Op → Prop
  | .range (.add base size) =>
      (t.regions 0).size ≠ 0 → Fits (pageBeg base) (pageEnd base size) (entries t)
  | _ => True

/-- An add finds a table that has not become empty, unless it has nothing to add; a reserve
meets the entries in order. -/
def KeepsSet (t : MemblockType) : RangeOp → Prop
  | .add base size =>
      t.cnt = 0 → (t.regions 0).size = 0 → pageBeg base = pageEnd base size
  | .reserve base size => (entries t).Pairwise (Clears (pageBeg base) (pageEnd base size))

instance : ∀ op : RangeOp, Decidable op.NoWrap
  | .add base size => inferInstanceAs (Decidable (pageEnd base size < 2 ^ 32))
  | .reserve base size => inferInstanceAs (Decidable (pageEnd base size < 2 ^ 32))

instance : ∀ op : Op, Decidable op.NoWrap
  | .range op => inferInstanceAs (Decidable op.NoWrap)
  | .alloc _ _ => isTrue trivial

instance (t : MemblockType) (op : Op) : Decidable (memblock.pre t op) :=
  inferInstanceAs (Decidable (op.NoWrap ∧ (step t op).cnt ≤ memblockMaxRegions))

instance (t : MemblockType) (op : RangeOp) : Decidable (ranges.pre t op) :=
  inferInstanceAs (Decidable (op.NoWrap ∧ (rangeStep t op).cnt ≤ memblockMaxRegions))

instance : ∀ (t : MemblockType) (op : Op), Decidable (KeepsOrder t op)
  | t, .range (.add base size) => inferInstanceAs (Decidable
      ((t.regions 0).size ≠ 0 → Fits (pageBeg base) (pageEnd base size) (entries t)))
  | _, .range (.reserve _ _) => isTrue trivial
  | _, .alloc _ _ => isTrue trivial

instance : ∀ (t : MemblockType) (op : RangeOp), Decidable (KeepsSet t op)
  | t, .add base size => inferInstanceAs (Decidable
      (t.cnt = 0 → (t.regions 0).size = 0 → pageBeg base = pageEnd base size))
  | t, .reserve base size => inferInstanceAs (Decidable
      ((entries t).Pairwise (Clears (pageBeg base) (pageEnd base size))))

/-- The empty table, with nothing behind it. -/
abbrev start : MemblockType := emptyTable fun _ => ⟨0, 0⟩

variable {t : MemblockType}

/-! ### The entries stay valid -/

lemma entries_empty (behind : ℕ → Region) : entries (emptyTable behind) = [⟨0, 0⟩] := by
  simp [entries, emptyTable]

lemma valid_empty (behind : ℕ → Region) : Valid (entries (emptyTable behind)) := by
  rw [entries_empty]
  simp [Valid]

lemma valid_rangeStep (hv : Valid (entries t)) {op : RangeOp} (hw : op.NoWrap) :
    Valid (entries (rangeStep t op)) := by
  cases op with
  | add base size => exact add_valid hw hv
  | reserve base size => exact reserve_valid hw hv

/-- An allocation changes nothing, or reserves a range below the limit. -/
lemma alloc_cases (t : MemblockType) (size align : ℕ) :
    (memblockAlloc t size align).1 = t ∨ ∃ base, pageEnd base size < 2 ^ 32 ∧
      (memblockAlloc t size align).1 = (memblockReserve t base size).1 := by
  unfold memblockAlloc memblockAllocRange
  rcases find_spec t size align with h | h
  · left; simp [h]
  · by_cases h0 : memblockFindInRange t size align memoryStart memoryLimit = 0
    · left; simp [h0]
    · right
      refine ⟨memblockFindInRange t size align memoryStart memoryLimit, ?_, by
        simp only [if_neg h0]⟩
      generalize memblockFindInRange t size align memoryStart memoryLimit = base at h
      simp only [pageEnd, pageSize, memoryLimit] at h ⊢
      omega

lemma valid_step (hv : Valid (entries t)) {op : Op} (hw : op.NoWrap) :
    Valid (entries (step t op)) := by
  cases op with
  | range op => exact valid_rangeStep hv hw
  | alloc size align =>
      rcases alloc_cases t size align with h | ⟨base, hb, h⟩
      · rw [step, h]; exact hv
      · rw [step, h]; exact reserve_valid hb hv

/-! ### The entries stay in order -/

lemma inOrder_add {base size : ℕ} (hv : Valid (entries t)) (h : InOrder t)
    (hw : pageEnd base size < 2 ^ 32) (hk : KeepsOrder t (.range (.add base size))) :
    InOrder (memblockAdd t base size) := by
  have hle := pageBeg_le_pageEnd base size
  have hnew : Ordered [⟨pageBeg base, pageEnd base size - pageBeg base⟩] ∨
      pageEnd base size - pageBeg base = 0 := by
    rcases Nat.eq_zero_or_pos (pageEnd base size - pageBeg base) with h0 | hpos
    · exact Or.inr h0
    · exact Or.inl (ordered_cons.mpr ⟨⟨pageBeg_dvd base,
        Nat.dvd_sub (pageEnd_dvd base size) (pageBeg_dvd base)⟩, hpos, by simp, ordered_nil⟩)
  by_cases h0 : (t.regions 0).size = 0
  · rcases add_placeholder hw h0 with ⟨-, h1⟩ | ⟨x, l, h1, h2, h3⟩
    · left; rw [h1]; exact ordered_nil.wellFormed
    · obtain rfl : l = [] := by
        rcases h with h | ⟨r, hr, -, -⟩
        · have := h.nonempty x (by rw [h1]; simp)
          omega
        · rw [h1] at hr
          exact (List.cons.inj hr).2
      rcases hnew with ho | hz
      · left; rw [h3]; exact ho.wellFormed
      · exact Or.inr ⟨_, h3, hz, pageBeg_dvd base⟩
  · have ho : Ordered (entries t) := by
      rcases h with h | ⟨r, hr, hr0, -⟩
      · exact h.ordered
      · have hr' : t.regions 0 = r := (region_at (A := []) hr).2
        exact absurd (by rw [hr', hr0]) h0
    obtain ⟨t', h1, h2⟩ := add_fill hw hv h0
    obtain ⟨h3, h4⟩ := fill_fits (pageBeg_dvd base) (pageEnd_dvd base size) hle ho (hk h0)
    have hv' : Valid (entries t') := by
      rw [h2]; exact fill_valid hle hw hv
    left
    rw [h1, fusion_seam hv' h2 h4, h2]
    exact h3.wellFormed

lemma inOrder_reserve {base size : ℕ} (hv : Valid (entries t)) (h : InOrder t)
    (hw : pageEnd base size < 2 ^ 32) : InOrder (memblockReserve t base size).1 := by
  have hle := pageBeg_le_pageEnd base size
  unfold InOrder
  rw [del_carve hw hv]
  rcases h with h | ⟨r, hr, hr0, hra⟩
  · left
    exact (carve_ordered (pageBeg_dvd base) (pageEnd_dvd base size) hle h.ordered).wellFormed
  · rw [hr]
    rcases carve_cons (pageEnd base size) (pageBeg base) r [] with ⟨-, hc⟩ | ⟨-, -, hc⟩ |
      ⟨-, h2, h3, -⟩ | ⟨-, h2, h3, -⟩ | ⟨h1, -, h3, -⟩ | ⟨-, -, -, -, hc⟩
    · exact Or.inr ⟨r, hc, hr0, hra⟩
    · exact Or.inr ⟨r, hc, hr0, hra⟩
    · omega
    · omega
    · omega
    · left; rw [hc]; exact ordered_nil.wellFormed

lemma inOrder_step (hv : Valid (entries t)) (h : InOrder t) {op : Op} (hw : op.NoWrap)
    (hk : KeepsOrder t op) : InOrder (step t op) := by
  cases op with
  | range op =>
      cases op with
      | add base size => exact inOrder_add hv h hw hk
      | reserve base size => exact inOrder_reserve hv h hw
  | alloc size align =>
      rcases alloc_cases t size align with he | ⟨base, hb, he⟩
      · rw [step, he]; exact h
      · rw [step, he]; exact inOrder_reserve hv h hb

/-- **The entries are in order** in every state reached by calls that keep the order. -/
theorem entries_in_order (h : Reach (memblock.restrict KeepsOrder) t) : InOrder t := by
  have hP : Valid (entries t) ∧ InOrder t := by
    refine h.invariant_restrict (P := fun t => Valid (entries t) ∧ InOrder t) ?_ ?_
    · rintro t ⟨behind, rfl⟩
      exact ⟨valid_empty behind, Or.inr ⟨⟨0, 0⟩, entries_empty behind, rfl, dvd_zero _⟩⟩
    · intro t op ht hp hk
      exact ⟨valid_step ht.1 hp.1, inOrder_step ht.1 ht.2 hp.1 hk⟩
  exact hP.2

theorem entries_in_order_run : InOrder (memblock.run start
    [.range (.add 0x10000 0x4000), .range (.reserve 0x11000 0x1000), .alloc 0x1000 0x1000,
      .range (.add 0x20000 0x800)]) :=
  entries_in_order (Reach.run_restrict ⟨_, rfl⟩ (by decide +kernel))

/-- Two adds of one page each, the second right behind the first: they become one entry of
two pages, which is there twice. -/
theorem not_entries_in_order : ¬ ∀ t, Reach memblock t → InOrder t := by
  intro h
  have hr : Reach memblock (memblock.run start
      [.range (.add 0x10000 0x1000), .range (.add 0x11000 0x1000)]) :=
    Reach.run (.init ⟨_, rfl⟩) (by decide +kernel)
  have he : entries (memblock.run start
      [.range (.add 0x10000 0x1000), .range (.add 0x11000 0x1000)]) =
      [⟨0x10000, 0x2000⟩, ⟨0x10000, 0x2000⟩] := by decide +kernel
  rcases h _ hr with h1 | ⟨r, h1, -⟩
  · have h2 := h1.sorted
    rw [he] at h2
    simp at h2
  · rw [he] at h1
    simp at h1

/-! ### What the entries cover -/

lemma pageRange_eq_empty {base size : ℕ} : pageRange base size = ∅ ↔
    pageBeg base = pageEnd base size := by
  have := pageBeg_le_pageEnd base size
  rw [pageRange, Set.Ico_eq_empty_iff]
  omega

lemma covered_add {base size : ℕ} (hv : Valid (entries t)) (hw : pageEnd base size < 2 ^ 32)
    (hk : KeepsSet t (.add base size)) :
    covered (entries (memblockAdd t base size)) = covered (entries t) ∪ pageRange base size := by
  have hle := pageBeg_le_pageEnd base size
  by_cases h0 : (t.regions 0).size = 0
  · rcases add_placeholder hw h0 with ⟨hc, h1⟩ | ⟨x, l, h1, h2, h3⟩
    · have ht : entries t = [] := by simp [entries, hc]
      rw [h1, ht, pageRange_eq_empty.mpr (hk hc h0), Set.union_empty]
    · rw [h3, h1, covered_cons, covered_cons]
      ext a
      simp only [Set.mem_union, mem_addrs, pageRange, Set.mem_Ico]
      by_cases ha : a ∈ covered l
      · simp [ha]
      · simp only [ha, or_false]; omega
  · obtain ⟨t', h1, h2⟩ := add_fill hw hv h0
    have hv' : Valid (entries t') := by
      rw [h2]; exact fill_valid hle hw hv
    obtain ⟨h3, h4, h5⟩ := fill_covered (l := entries t) hle
    have hmiss : covered (missing (fill (pageEnd base size) (pageBeg base) (entries t)).2.2
        (pageEnd base size)) = Set.Ico (fill (pageEnd base size) (pageBeg base) (entries t)).2.2
          (pageEnd base size) := by
      unfold missing
      split
      · ext a
        simp only [covered_cons, covered_nil, Set.union_empty, mem_addrs, Set.mem_Ico]
        omega
      · rw [covered_nil, Set.Ico_eq_empty (by omega)]
    rw [h1, (fusion_spec hv').2, h2, covered_append, covered_append, hmiss, pageRange, ← h5,
      covered_append, Set.union_right_comm, Set.union_assoc]

/-- **An add** is right unless the table has become empty, and never then. -/
lemma covered_add_iff {base size : ℕ} (hv : Valid (entries t)) (hw : pageEnd base size < 2 ^ 32) :
    covered (entries (memblockAdd t base size)) = covered (entries t) ∪ pageRange base size ↔
      KeepsSet t (.add base size) := by
  refine ⟨fun h hc h0 => ?_, covered_add hv hw⟩
  have ht : entries t = [] := by simp [entries, hc]
  rcases add_placeholder hw h0 with ⟨-, h1⟩ | ⟨x, l, h1, -, -⟩
  · rw [h1, ht, covered_nil, Set.empty_union] at h
    exact pageRange_eq_empty.mp h.symm
  · rw [ht] at h1
    cases h1

lemma covered_iff (hv : Valid (entries t)) {op : RangeOp} (hw : op.NoWrap) :
    covered (entries (rangeStep t op)) = RangeOp.free (covered (entries t)) op ↔
      KeepsSet t op := by
  cases op with
  | add base size => exact covered_add_iff hv hw
  | reserve base size =>
      simp only [rangeStep, RangeOp.free, del_carve hw hv]
      exact carve_covered_iff (pageBeg_le_pageEnd base size)

lemma ranges_valid (h : Reach ranges t) : Valid (entries t) := by
  refine h.invariant (P := fun t => Valid (entries t)) ?_ fun t op hv hp => valid_rangeStep hv hp.1
  rintro t ⟨behind, rfl⟩
  exact valid_empty behind

/-- **The table implements a set**: in runs whose calls meet the condition the entries cover
exactly what the calls say, and in every state reached a call does to what they cover what
it says if and only if it meets the condition. -/
theorem entries_cover (behind : ℕ → Region) :
    (∀ ops, (ranges.restrict KeepsSet).Takes (emptyTable behind) ops →
      covered (entries (ranges.run (emptyTable behind) ops)) = ops.foldl RangeOp.free ∅) ∧
    ∀ t, Reach ranges t → ∀ op, ranges.pre t op →
      (covered (entries (ranges.step t op)) = RangeOp.free (covered (entries t)) op ↔
        KeepsSet t op) := by
  constructor
  · intro ops ht
    have h0 : covered (entries (emptyTable behind)) = ∅ := by
      rw [entries_empty]
      ext a
      simp
    rw [← h0, ← System.run_restrict ranges KeepsSet]
    refine Reach.run_refines (fun t => covered (entries t)) (fun t op h hp => ?_)
      (.init ⟨behind, rfl⟩) ht
    exact (covered_iff (ranges_valid h.of_restrict) hp.1.1).mpr hp.2
  · intro t h op hp
    exact covered_iff (ranges_valid h) hp.1

theorem entries_cover_run : covered (entries (ranges.run start
    [.add 0x10000 0x4000, .reserve 0x11000 0x1000, .add 0x20000 0x800])) =
    [RangeOp.add 0x10000 0x4000, .reserve 0x11000 0x1000, .add 0x20000 0x800].foldl
      RangeOp.free ∅ :=
  (entries_cover _).1 _ (by decide +kernel)

/-- A page is added and reserved again, and the table is empty. The page added next is not
in it. -/
theorem not_entries_cover : ¬ ∀ t, Reach ranges t → ∀ op, ranges.pre t op →
    covered (entries (ranges.step t op)) = RangeOp.free (covered (entries t)) op := by
  intro h
  have hr : Reach ranges (ranges.run start [.add 0x10000 0x1000, .reserve 0x10000 0x1000]) :=
    Reach.run (.init ⟨_, rfl⟩) (by decide +kernel)
  have h1 := h _ hr (.add 0x20000 0x1000) (by decide +kernel)
  have he : entries (ranges.step (ranges.run start
      [.add 0x10000 0x1000, .reserve 0x10000 0x1000]) (.add 0x20000 0x1000)) = [] := by
    decide +kernel
  rw [he, covered_nil] at h1
  have hmem : 0x20000 ∈ pageRange 0x20000 0x1000 := ⟨by decide, by decide⟩
  have hin : 0x20000 ∈ (∅ : Set ℕ) := by
    rw [h1]
    exact Or.inr hmem
  exact hin

end Elfboot.MemblockRuns
