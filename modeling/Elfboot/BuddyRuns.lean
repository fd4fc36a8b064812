import Elfboot.Run
import Elfboot.BuddyOps
import Elfboot.BuddyBoot

/-!
Runs of the page allocator, from `page_alloc_init` on.

A state is the memory of the allocator and, as history, the blocks handed out and not
freed since. A caller frees what it was given, by the address of the block. Two things can
go wrong on the way. The merge loop takes a buddy for free as a whole when only its first
page's flag says so, and the allocation writes the heads of the buddy's range although
that range may be in use in smaller blocks. Both conditions are on the state before a step.
-/

namespace Elfboot.BuddyRuns

open Elfboot.Run Elfboot.Dyadic Elfboot.Mm Elfboot.PageAlloc
open Elfboot.BuddyInv Elfboot.BuddyOps Elfboot.BuddyBoot

structure State where
  mem : Mem
  live : List Block

inductive Op
  | alloc (order : ℕ)
  | free (b : Block)

def step (σ : State) : Op → State
  | .alloc order =>
    match allocPages σ.mem order with
    | (some page, mem) => ⟨mem, ⟨page, order⟩ :: σ.live⟩
    | (none, mem) => ⟨mem, σ.live⟩
  | .free b => ⟨freePage σ.mem (b.head * pageSize), σ.live.erase b⟩

/-- What callers may ask for: the orders there are, and the blocks they hold. -/
def Asks (σ : State) : Op → Prop
  | .alloc order => order < pageMaxOrder
  | .free b => b ∈ σ.live

/-- The page allocator over the boot regions, whatever the rest of its memory held, except
that no page outside the regions is marked free. -/
def allocator (regions : List Region) : System State Op where
  init σ := ∃ s : Mem, (∀ q, q ∉ regionPages regions → (s.pageMap q).isFree = false) ∧
    σ = ⟨pageAllocInit s regions, []⟩
  pre := Asks
  step := step

/-- A free merges free blocks only: each buddy the loop gets to and finds marked free has
the order the loop is at. -/
def MergesWhole (σ : State) : Op → Prop
  | .alloc _ => True
  | .free b => MergeOk σ.mem.pageMap (pageMaxOrder - 1 - b.order) b.head b.order

/-- An allocation that takes a block off the list of its own order finds no block in use
inside the range of the buddy, other than at its start. -/
def BuddyUnsplit (σ : State) : Op → Prop
  | .alloc order => ∀ page ∈ freeAreaGetFirst σ.mem order, ∀ b ∈ σ.live,
      page ^^^ 2 ^ order ≤ b.head → b.head < (page ^^^ 2 ^ order) + 2 ^ order →
        b.head = page ^^^ 2 ^ order
  | .free _ => True

/-- Every page of a block in use names the first page of the block. -/
def HeadsRight (σ : State) : Prop :=
  ∀ b ∈ σ.live, ∀ q ∈ b.pages, (σ.mem.pageMap q).compoundHead = b.head

variable {regions : List Region} {σ : State}

lemma step_alloc_some {order page : ℕ} {mem : Mem}
    (h : allocPages σ.mem order = (some page, mem)) :
    step σ (.alloc order) = ⟨mem, ⟨page, order⟩ :: σ.live⟩ := by
  simp [step, h]

lemma step_alloc_none {order : ℕ} {mem : Mem} (h : allocPages σ.mem order = (none, mem)) :
    step σ (.alloc order) = ⟨mem, σ.live⟩ := by
  simp [step, h]

/-! ### Four pages -/

def fourPages : List Region := [⟨0x10000, 0x4000⟩]

lemma bootRegions_fourPages : BootRegions fourPages where
  aligned := by simp [fourPages]; decide
  inside := by simp [fourPages]; decide
  apart := by simp [fourPages]

/-- A memory with nothing in it. -/
def blank : Mem where
  pageMap _ := ⟨0, 0, 0, 0, 0⟩
  links := ⟨fun _ => .null, fun _ => .null⟩
  nrFree _ := 0

def boot (regions : List Region) : State := ⟨pageAllocInit blank regions, []⟩

lemma init_boot (regions : List Region) : (allocator regions).init (boot regions) :=
  ⟨blank, fun _ _ => by simp [blank, Page.isFree], rfl⟩

instance : ∀ (σ : State) (op : Op), Decidable (Asks σ op)
  | _, .alloc order => inferInstanceAs (Decidable (order < pageMaxOrder))
  | σ, .free b => inferInstanceAs (Decidable (b ∈ σ.live))

instance (regions : List Region) (σ : State) (op : Op) :
    Decidable ((allocator regions).pre σ op) := inferInstanceAs (Decidable (Asks σ op))

instance decidableMergeOk (pages : ℕ → Page) :
    ∀ n page order, Decidable (MergeOk pages n page order)
  | 0, _, _ => isTrue trivial
  | n + 1, page, order =>
    have := decidableMergeOk pages n (min page (page ^^^ 2 ^ order)) (order + 1)
    inferInstanceAs (Decidable (_ → _ ∧ _))

instance : ∀ (σ : State) (op : Op), Decidable (MergesWhole σ op)
  | _, .alloc _ => isTrue trivial
  | σ, .free b => inferInstanceAs (Decidable (MergeOk σ.mem.pageMap _ b.head b.order))

instance : ∀ (σ : State) (op : Op), Decidable (BuddyUnsplit σ op)
  | σ, .alloc order => inferInstanceAs (Decidable (∀ page ∈ freeAreaGetFirst σ.mem order, _))
  | _, .free _ => isTrue trivial

/-! ### The blocks -/

/-- The blocks in use and the blocks on the free lists tile the boot regions. -/
def Tiled (regions : List Region) (σ : State) : Prop :=
  ∃ F, Inv (regionPages regions) (regionPages regions) σ.mem F [] σ.live

lemma tiled_init (hb : BootRegions regions) (h : (allocator regions).init σ) :
    Tiled regions σ := by
  obtain ⟨s, hs, rfl⟩ := h
  obtain ⟨F, hF, -⟩ := pageAllocInit_spec hb.disjointRegions hs
  exact ⟨F, hF⟩

lemma tiled_step (h : Tiled regions σ) {op : Op} (ha : Asks σ op) (hm : MergesWhole σ op) :
    Tiled regions (step σ op) := by
  obtain ⟨F, hi⟩ := h
  cases op with
  | alloc order =>
      rcases hp : allocPages σ.mem order with ⟨_ | page, mem⟩
      · obtain rfl : mem = σ.mem := by
          simpa [hp] using (allocPages_none hi ha (by rw [hp])).1
        rw [step_alloc_none hp]
        exact ⟨F, hi⟩
      · obtain ⟨F', _, -, -, -, -, h1, -, -⟩ := allocPages_spec hi ha hp
        rw [step_alloc_some hp]
        exact ⟨F', h1⟩
  | free b =>
      obtain ⟨F', h1, -, -⟩ := freePage_spec hi ha hm
      exact ⟨F', h1⟩

lemma reach_tiled (hb : BootRegions regions)
    (h : Reach ((allocator regions).restrict MergesWhole) σ) : Tiled regions σ :=
  h.invariant_restrict (fun _ => tiled_init hb) fun _ _ h1 ha hm =>
    tiled_step h1 ha hm

/-- **Safety**: while every free merges free blocks only, an allocation returns pages of
the boot regions, none of them in a block still in use. -/
theorem alloc_fresh (hb : BootRegions regions)
    (h : Reach ((allocator regions).restrict MergesWhole) σ) {order page : ℕ}
    (ho : order < pageMaxOrder) (ha : (allocPages σ.mem order).1 = some page) :
    ∀ q ∈ (⟨page, order⟩ : Block).pages,
      q ∈ regionPages regions ∧ ∀ b ∈ σ.live, q ∉ b.pages := by
  obtain ⟨F, hi⟩ := reach_tiled hb h
  have hp : allocPages σ.mem order = (some page, (allocPages σ.mem order).2) :=
    Prod.ext ha rfl
  obtain ⟨F', _, -, -, -, -, h1, -, -⟩ := allocPages_spec hi ho hp
  have hnew : (⟨page, order⟩ : Block) ∈ [] ++ ⟨page, order⟩ :: σ.live := by simp
  intro q hq
  refine ⟨h1.tiling.sub _ (Or.inr hnew) hq, fun b hbl hqb => ?_⟩
  have hbm : b ∈ [] ++ ⟨page, order⟩ :: σ.live := by simp [hbl]
  have he := h1.tiling.uniq _ (Or.inr hnew) b (Or.inr hbm) q hq hqb
  have hnd := h1.nodup
  simp only [List.nil_append, List.nodup_cons] at hnd
  exact hnd.1 (he ▸ hbl)

theorem alloc_fresh_run : 17 ∈ regionPages fourPages ∧
    ∀ b ∈ ((allocator fourPages).run (boot fourPages) [.alloc 1, .alloc 0, .free ⟨16, 1⟩]).live,
      17 ∉ b.pages :=
  alloc_fresh bootRegions_fourPages (Reach.run_restrict (init_boot _) (by decide +kernel))
    (show 1 < pageMaxOrder by decide) (show _ = some 16 by decide +kernel) 17
    (by simp [Block.pages])

/-- Two pages in one block and the other two in a block each. With page 18 and then the pair
freed, the merge takes page 18 for a pair. -/
def mergeRun : List Op := [.alloc 1, .alloc 0, .alloc 0, .free ⟨18, 0⟩, .free ⟨16, 1⟩]

/-- Allocating a block of four pages then returns page 19 with the rest. -/
theorem not_alloc_fresh : ¬ ∀ σ, Reach (allocator fourPages) σ → ∀ order page,
    order < pageMaxOrder → (allocPages σ.mem order).1 = some page →
      ∀ q ∈ (⟨page, order⟩ : Block).pages,
        q ∈ regionPages fourPages ∧ ∀ b ∈ σ.live, q ∉ b.pages := by
  intro h
  have hr : Reach (allocator fourPages) ((allocator fourPages).run (boot fourPages) mergeRun) :=
    Reach.run (.init (init_boot _)) (by decide +kernel)
  have h1 := h _ hr 2 16 (by decide) (by decide +kernel) 19 (by simp [Block.pages])
  exact h1.2 ⟨19, 0⟩ (by decide +kernel) (head_mem ⟨19, 0⟩)

/-! ### The heads -/

/-- An allocation, where `BuddyUnsplit` holds, changes no head of a block in use. -/
lemma alloc_heads (h : Tiled regions σ) (hh : HeadsRight σ) {order page : ℕ} {mem : Mem}
    (ho : order < pageMaxOrder) (hu : BuddyUnsplit σ (.alloc order))
    (hp : allocPages σ.mem order = (some page, mem)) :
    (∀ b ∈ σ.live, ∀ q ∈ b.pages, (mem.pageMap q).compoundHead = b.head) ∧
      ∀ q ∈ (⟨page, order⟩ : Block).pages, (mem.pageMap q).compoundHead = page := by
  obtain ⟨F, hi⟩ := h
  obtain ⟨F', i, hki, hil, hfirst, -, h1, -, hheads⟩ := allocPages_spec hi ho hp
  have hnew : (⟨page, order⟩ : Block) ∈ [] ++ ⟨page, order⟩ :: σ.live := by simp
  have hal : 2 ^ order ∣ page := h1.tiling.aligned _ (Or.inr hnew)
  have hpow : 2 ^ (order + 1) = 2 ^ order + 2 ^ order := by ring
  constructor
  · intro b hb q hq
    have hbm : b ∈ [] ++ ⟨page, order⟩ :: σ.live := by simp [hb]
    have hne : b ≠ ⟨page, order⟩ := by
      have hnd := h1.nodup
      simp only [List.nil_append, List.nodup_cons] at hnd
      rintro rfl
      exact hnd.1 hb
    have hout : ¬ (page ≤ q ∧ q < page + 2 ^ order) := fun hm =>
      hne (h1.tiling.uniq b (Or.inr hbm) _ (Or.inr hnew) q hq hm)
    rw [hheads, if_neg hout]
    split
    · next hbud =>
      rcases Nat.eq_or_lt_of_le hki with rfl | hlt
      · -- the block came off the list of its own order
        have hin := h1.tiling.in_buddy (Or.inr hnew) (Or.inr hbm) hq hbud.1 hbud.2
        have hget : freeAreaGetFirst σ.mem order = some page := by
          rw [freeAreaGetFirst_eq hi ho, hfirst]
        exact (hu page (by rw [hget]; rfl) b hb hin.1 hin.2).symm
      · -- the buddy is the other half of the block that was split
        have hpi : page ∈ F i := by
          rcases hF : F i with _ | ⟨x, l⟩
          · simp [hF] at hfirst
          · rw [hF] at hfirst
            simp only [List.head?_cons, Option.some.injEq] at hfirst
            simp [hfirst]
        have hali : 2 ^ i ∣ page := hi.tiling.aligned ⟨page, i⟩ (Or.inl hpi)
        have hle : 2 ^ (order + 1) ≤ 2 ^ i := Nat.pow_le_pow_right (by decide) hlt
        rw [buddy_of_left ((pow_dvd_pow 2 hlt).trans hali)] at hbud
        refine absurd ?_ (free_live_disjoint hi hpi hb hq)
        rw [mem_pages]
        dsimp only
        omega
    · exact hh b hb q hq
  · intro q hq
    have hq' : page ≤ q ∧ q < page + 2 ^ order := hq
    rw [hheads, if_neg, if_pos hq']
    rcases buddy_cases hal with ⟨-, he⟩ | ⟨l, -, hl, he⟩ <;> omega

lemma headsRight_step (h : Tiled regions σ) (hh : HeadsRight σ) {op : Op} (ha : Asks σ op)
    (hm : MergesWhole σ op) (hu : BuddyUnsplit σ op) : HeadsRight (step σ op) := by
  cases op with
  | alloc order =>
      rcases hp : allocPages σ.mem order with ⟨_ | page, mem⟩
      · obtain ⟨F, hi⟩ := h
        obtain rfl : mem = σ.mem := by
          simpa [hp] using (allocPages_none hi ha (by rw [hp])).1
        rw [step_alloc_none hp]
        exact hh
      · obtain ⟨h1, h2⟩ := alloc_heads h hh ha hu hp
        rw [step_alloc_some hp]
        intro b hb
        rcases List.mem_cons.mp hb with rfl | hb
        · exact h2
        · exact h1 b hb
  | free b =>
      obtain ⟨F, hi⟩ := h
      obtain ⟨-, -, -, h1⟩ := freePage_spec hi ha hm
      intro c hc q hq
      exact (h1 c hc q hq).trans (hh c (List.mem_of_mem_erase hc) q hq)

/-- **Compound heads**: while every free merges free blocks only and every allocation finds
the buddy unsplit, the pages of the blocks in use name the first page of their block, and
such an allocation changes none of these heads. -/
theorem heads_right (hb : BootRegions regions)
    (h : Reach ((allocator regions).restrict fun σ op => MergesWhole σ op ∧ BuddyUnsplit σ op) σ) :
    HeadsRight σ ∧ ∀ order < pageMaxOrder, BuddyUnsplit σ (.alloc order) →
      ∀ b ∈ σ.live, ∀ q ∈ b.pages, ((allocPages σ.mem order).2.pageMap q).compoundHead =
        (σ.mem.pageMap q).compoundHead := by
  have hP : Tiled regions σ ∧ HeadsRight σ := by
    refine h.invariant_restrict (P := fun σ => Tiled regions σ ∧ HeadsRight σ)
      (fun τ ht => ⟨tiled_init hb ht, ?_⟩)
      fun τ op hτ ha hok => ⟨tiled_step hτ.1 ha hok.1,
        headsRight_step hτ.1 hτ.2 ha hok.1 hok.2⟩
    obtain ⟨s, -, rfl⟩ := ht
    intro b hb
    cases hb
  obtain ⟨ht, hh⟩ := hP
  refine ⟨hh, fun order ho hu b hb q hq => ?_⟩
  rcases hp : allocPages σ.mem order with ⟨_ | page, mem⟩
  · obtain ⟨F, hi⟩ := ht
    have := (allocPages_none hi ho (by rw [hp])).1
    rw [hp] at this
    rw [this]
  · exact ((alloc_heads ht hh ho hu hp).1 b hb q hq).trans (hh b hb q hq).symm

theorem heads_right_run :
    HeadsRight ((allocator fourPages).run (boot fourPages) [.alloc 1, .alloc 0, .free ⟨16, 1⟩]) :=
  (heads_right bootRegions_fourPages
    (Reach.run_restrict (init_boot _) (by decide +kernel))).1

/-- The same pages, with the two single ones in use when the pair is allocated again. -/
def headRun : List Op := [.alloc 1, .alloc 0, .alloc 0, .free ⟨16, 1⟩, .alloc 1]

/-- The head of page 19 is then page 18. -/
theorem not_heads_right : ¬ ∀ σ, Reach (allocator fourPages) σ → HeadsRight σ := by
  intro h
  have hr : Reach (allocator fourPages) ((allocator fourPages).run (boot fourPages) headRun) :=
    Reach.run (.init (init_boot _)) (by decide +kernel)
  have h1 := h _ hr ⟨19, 0⟩ (by decide +kernel) 19 (head_mem ⟨19, 0⟩)
  revert h1
  decide +kernel

end Elfboot.BuddyRuns
