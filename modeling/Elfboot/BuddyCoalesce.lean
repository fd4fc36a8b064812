import Elfboot.BuddyLists

/-!
The page allocator coalesces fully, and so an allocation fails only if it must: while every
free merges free blocks only, a free aligned run of pages is never cut into smaller blocks.
-/

namespace Elfboot.BuddyCoalesce

open Elfboot.Run Elfboot.Dyadic Elfboot.Mm Elfboot.PageAlloc
open Elfboot.BuddyInv Elfboot.BuddyOps Elfboot.BuddyBoot Elfboot.BuddyRuns Elfboot.BuddyLists

variable {regions : List Region} {σ : State} {F : ℕ → List ℕ} {k : ℕ}

/-- The aligned run of `2 ^ k` pages from `p` on lies in the boot regions and contains no
page of a block in use. -/
def FreeRun (regions : List Region) (live : List Block) (p k : ℕ) : Prop :=
  2 ^ k ∣ p ∧ ∀ q ∈ (⟨p, k⟩ : Block).pages, q ∈ regionPages regions ∧ ∀ b ∈ live, q ∉ b.pages

/-- Where nothing large enough is on the lists, no run is free: it would be made of blocks
that are too small, and two of them would be buddies. -/
lemma no_freeRun (hi : Inv (regionPages regions) (regionPages regions) σ.mem F [] σ.live)
    (hc : Coalesced F) (hk : k < pageMaxOrder) (hnone : ∀ i, k ≤ i → F i = []) (p : ℕ) :
    ¬ FreeRun regions σ.live p k := by
  rintro ⟨hal, hrun⟩
  let S : Set Block := {b | b.head ∈ F b.order}
  have hS : S ⊆ blocksOf F ([] ++ σ.live) := fun b hb => Or.inl hb
  have hcov : ∀ q ∈ (⟨p, k⟩ : Block).pages, ∃ b ∈ S, q ∈ b.pages := by
    intro q hq
    obtain ⟨hR, hlive⟩ := hrun q hq
    obtain ⟨b, hb | hb, hqb⟩ := hi.tiling.cover q hR
    · exact ⟨b, hb, hqb⟩
    · exact absurd hqb (hlive b hb)
  have hco : ∀ b ∈ S, b.order < k → (⟨b.head ^^^ 2 ^ b.order, b.order⟩ : Block) ∉ S :=
    fun b hb hlt => hc b.order (by omega) b.head hb
  obtain ⟨b, hb, hle⟩ := hi.tiling.large_block hS hal hcov hco
  have hmem : b.head ∈ F b.order := hb
  rw [hnone b.order hle] at hmem
  cases hmem

/-- An allocation that succeeds returns a run that was free. -/
lemma alloc_freeRun (hi : Inv (regionPages regions) (regionPages regions) σ.mem F [] σ.live)
    (hk : k < pageMaxOrder) {page : ℕ} (h : (allocPages σ.mem k).1 = some page) :
    FreeRun regions σ.live page k := by
  obtain ⟨F', _, -, -, -, -, h1, -, -⟩ :=
    allocPages_spec hi hk (show allocPages σ.mem k = (some page, _) from Prod.ext h rfl)
  have hnew : (⟨page, k⟩ : Block) ∈ [] ++ ⟨page, k⟩ :: σ.live := by simp
  refine ⟨h1.tiling.aligned _ (Or.inr hnew), fun q hq => ?_⟩
  refine ⟨h1.tiling.sub _ (Or.inr hnew) hq, fun b hb hqb => ?_⟩
  have hbm : b ∈ [] ++ ⟨page, k⟩ :: σ.live := by simp [hb]
  have he := h1.tiling.uniq _ (Or.inr hnew) b (Or.inr hbm) q hq hqb
  have hnd := h1.nodup
  simp only [List.nil_append, List.nodup_cons] at hnd
  exact hnd.1 (he ▸ hb)

/-- The promise in a state: no two buddies that could be merged are on the lists, and an
allocation fails if and only if there is no free run. -/
def Complete (regions : List Region) (σ : State) : Prop :=
  (∃ F, FreeLists σ.mem F ∧ Coalesced F) ∧
    ∀ order < pageMaxOrder, (allocPages σ.mem order).1 = none ↔
      ∀ p, ¬ FreeRun regions σ.live p order

/-- **Coalescing and completeness**, in every state, while every free merges free blocks
only. -/
theorem coalesces (hb : DisjointRegions regions) (ha : ApartRegions regions)
    (h : Reach ((callers regions).restrict MergesWhole) σ) : Complete regions σ := by
  obtain ⟨F, hi, hc⟩ := reach_kept hb h
  refine ⟨⟨F, Inv.freeLists hi, hc ha⟩, fun order ho => ⟨fun hnone p => ?_, fun hno => ?_⟩⟩
  · exact no_freeRun hi (hc ha) ho (allocPages_none hi ho hnone).2 p
  · rcases hp : (allocPages σ.mem order).1 with _ | page
    · rfl
    · exact absurd (alloc_freeRun hi ho hp) (hno page)

theorem coalesces_run : Complete fourPages
    ((callers fourPages).run (boot fourPages) [.alloc 1, .alloc 0, .free ⟨16, 1⟩]) :=
  coalesces bootRegions_fourPages.disjointRegions bootRegions_fourPages.apart
    (Reach.run_restrict (init_boot _) (by decide +kernel))

/-- After the merge of page 18 as a pair an allocation of four pages succeeds, though page
19 is in use and there are only four. -/
theorem not_coalesces : ¬ ∀ σ, Reach (callers fourPages) σ → Complete fourPages σ := by
  intro h
  have hr : Reach (callers fourPages) ((callers fourPages).run (boot fourPages) mergeRun) :=
    Reach.run (.init (init_boot _)) (by decide +kernel)
  have hsome : (allocPages ((callers fourPages).run (boot fourPages) mergeRun).mem 2).1 = some 16 :=
    by decide +kernel
  have hiff := (h _ hr).2 2 (by decide)
  rw [hsome] at hiff
  have hno : ∀ p, ¬ FreeRun fourPages ((callers fourPages).run (boot fourPages) mergeRun).live
      p 2 := by
    rintro p ⟨hal, hrun⟩
    have h16 : p = 16 := by
      obtain ⟨⟨r, hr1, hr2⟩, -⟩ := hrun p (head_mem ⟨p, 2⟩)
      obtain rfl := List.mem_singleton.mp hr1
      simp only [mem_addrs, pageSize] at hr2
      omega
    subst h16
    refine (hrun 19 (by simp)).2 ⟨19, 0⟩ (by decide +kernel) (head_mem ⟨19, 0⟩)
  exact absurd (hiff.mpr hno) (by simp)

end Elfboot.BuddyCoalesce
