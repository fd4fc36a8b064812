import Elfboot.BuddyRuns

/-!
The free lists of the page allocator over whole runs.

While every free merges free blocks only, the lists hold what their counters, and the
orders, flags and addresses of their pages, say, and only pages on a list are taken off one.
Here callers may ask for any order: one that is too large is refused.
-/

namespace Elfboot.BuddyLists

open Elfboot.Run Elfboot.Circular Elfboot.Dyadic Elfboot.Mm Elfboot.PageAlloc
open Elfboot.BuddyInv Elfboot.BuddyOps Elfboot.BuddyBoot Elfboot.BuddyRuns

/-- What callers may do: ask for blocks, and free what they hold. -/
def Holds (σ : State) : Op → Prop
  | .alloc _ => True
  | .free b => b ∈ σ.live

/-- The page allocator with all its callers. -/
def callers (regions : List Region) : System State Op where
  init := (allocator regions).init
  pre := Holds
  step := step

instance : ∀ (σ : State) (op : Op), Decidable (Holds σ op)
  | _, .alloc _ => isTrue trivial
  | σ, .free b => inferInstanceAs (Decidable (b ∈ σ.live))

instance (regions : List Region) (σ : State) (op : Op) :
    Decidable ((callers regions).pre σ op) := inferInstanceAs (Decidable (Holds σ op))

variable {regions : List Region} {σ : State} {R : Set ℕ} {s : Mem} {F : ℕ → List ℕ}
  {held live : List Block} {p k : ℕ}

/-! ### What every run keeps -/

/-- The blocks in use and the blocks on the free lists tile the boot regions; if no two
regions touch, the free ones are coalesced. -/
def Kept (regions : List Region) (σ : State) (F : ℕ → List ℕ) : Prop :=
  Inv (regionPages regions) (regionPages regions) σ.mem F [] σ.live ∧
    (ApartRegions regions → Coalesced F)

lemma alloc_tooLarge {order : ℕ} (h : pageMaxOrder ≤ order) (s : Mem) :
    allocPages s order = (none, s) := by
  unfold allocPages getFreePages
  rw [Nat.sub_eq_zero_of_le h]
  rfl

lemma kept_step (h : Kept regions σ F) {op : Op} (ha : Holds σ op) (hm : MergesWhole σ op) :
    ∃ F', Kept regions (step σ op) F' := by
  obtain ⟨hi, hc⟩ := h
  cases op with
  | alloc order =>
      rcases hp : allocPages σ.mem order with ⟨_ | page, mem⟩
      · have hmem : mem = σ.mem := by
          rcases Nat.lt_or_ge order pageMaxOrder with hlt | hge
          · simpa [hp] using (allocPages_none hi hlt (by rw [hp])).1
          · rw [alloc_tooLarge hge] at hp
            exact (Prod.mk.inj hp).2.symm
        rw [step_alloc_none hp, hmem]
        exact ⟨F, hi, hc⟩
      · have hlt : order < pageMaxOrder := by
          by_contra hge
          rw [alloc_tooLarge (by omega)] at hp
          cases hp
        obtain ⟨F', _, -, -, -, -, h1, h2, -⟩ := allocPages_spec hi hlt hp
        rw [step_alloc_some hp]
        exact ⟨F', h1, h2 ∘ hc⟩
  | free b =>
      obtain ⟨F', h1, h2, -⟩ := freePage_spec hi ha hm
      exact ⟨F', h1, h2 ∘ hc⟩

/-- **What every run keeps.** -/
lemma reach_kept (hb : DisjointRegions regions)
    (h : Reach ((callers regions).restrict MergesWhole) σ) : ∃ F, Kept regions σ F := by
  refine h.invariant_restrict (P := fun τ => ∃ F, Kept regions τ F) ?_ fun τ op hτ ha hm => ?_
  · rintro τ ⟨s, hs, rfl⟩
    exact pageAllocInit_spec hb hs
  · obtain ⟨F, hF⟩ := hτ
    exact kept_step hF ha hm

/-! ### The lists -/

/-- The promise of the free lists. -/
structure FreeLists (s : Mem) (F : ℕ → List ℕ) : Prop where
  list : ∀ k < pageMaxOrder, IsList s.links (.area k) ((F k).map .page)
  count : ∀ k < pageMaxOrder, s.nrFree k = (F k).length
  nodup : ∀ k < pageMaxOrder, (F k).Nodup
  page : ∀ k < pageMaxOrder, ∀ p ∈ F k, (s.pageMap p).order = k ∧ (s.pageMap p).isFree = true ∧
    2 ^ k * pageSize ∣ (s.pageMap p).paddr
  apart : ∀ j < pageMaxOrder, ∀ k < pageMaxOrder, ∀ p, p ∈ F j → p ∈ F k → j = k

lemma Inv.freeLists (hi : Inv R R s F held live) : FreeLists s F where
  list k hk := hi.lists.isList _ (area_mem hk)
  count := hi.count
  nodup _ hk := hi.nodup_free hk
  page k _ p hp := by
    obtain ⟨hfree, hord⟩ := hi.free k p hp
    have hal : 2 ^ k ∣ p := hi.tiling.aligned ⟨p, k⟩ (Or.inl hp)
    refine ⟨hord, hfree, ?_⟩
    rw [hi.paddr p (hi.free_mem hp)]
    exact Nat.mul_dvd_mul_right hal _
  apart j _ k _ p hj hk := hi.tiling.eq_of_head (Or.inl hj) (Or.inl hk)

/-- A page is on one of the lists. -/
def Listed (s : Mem) (p : ℕ) : Prop :=
  ∃ k < pageMaxOrder, ∃ l, IsList s.links (.area k) l ∧ .page p ∈ l

lemma Inv.listed (hi : Inv R R s F held live) (hp : p ∈ F k) : Listed s p :=
  ⟨k, hi.order_lt hp, _, hi.lists.isList _ (area_mem (hi.order_lt hp)), List.mem_map_of_mem hp⟩

/-! ### Pages taken off a list -/

/-- The calls of `list_del` in the search of `get_free_pages`: the memory and the page. -/
def getDels (s : Mem) : ℕ → ℕ → List (Mem × ℕ)
  | 0, _ => []
  | n + 1, porder =>
    match freeAreaGetFirst s porder with
    | none => getDels s n (porder + 1)
    | some page => [(s, page)]

/-- The calls of `list_del` in the loop of `merge_free_page`. -/
def mergeDels : ℕ → Mem → ℕ → List (Mem × ℕ)
  | 0, _, _ => []
  | n + 1, s, page =>
    let buddy := pageBuddy s page (s.pageMap page).order
    if (s.pageMap buddy).isFree then
      let (left, s') := mergePages s page buddy
      (s, page) :: (freePageDel s page, buddy) ::
        mergeDels n (freePageAdd s' left (s'.pageMap left).order) left
    else []

/-- The calls of `list_del` in `free_page`. -/
def freeDels (s : Mem) (addr : ℕ) : List (Mem × ℕ) :=
  let page := physToPage addr
  let s := (freePageAdd s page (s.pageMap page).order).setPage page Page.setFree
  mergeDels (pageMaxOrder - 1 - (s.pageMap page).order) s page

/-- The calls of `list_del` in a step. -/
def dels (σ : State) : Op → List (Mem × ℕ)
  | .alloc order => getDels σ.mem (pageMaxOrder - order) order
  | .free b => freeDels σ.mem (b.head * pageSize)

lemma getDels_spec (hi : Inv R R s F [] live) {n j : ℕ} (hn : j + n ≤ pageMaxOrder) :
    ∀ d ∈ getDels s n j, Listed d.1 d.2 := by
  induction n generalizing j with
  | zero => intro d hd; cases hd
  | succ n ih =>
      unfold getDels
      rw [freeAreaGetFirst_eq hi (by omega)]
      rcases hF : F j with _ | ⟨x, l⟩
      · exact ih (by omega)
      · intro d hd
        obtain rfl := List.mem_singleton.mp hd
        exact Inv.listed hi (k := j) (by rw [hF]; exact List.mem_cons_self)

lemma mergeDels_spec {n : ℕ} : ∀ {s : Mem} {F : ℕ → List ℕ} {l j : ℕ},
    Inv R R s F [] live → l ∈ F j → j + n = pageMaxOrder - 1 → MergeOk s.pageMap n l j →
      ∀ d ∈ mergeDels n s l, Listed d.1 d.2 := by
  induction n with
  | zero => intro s F l j _ _ _ _ d hd; cases hd
  | succ n ih =>
      intro s F l j hi hl hn hok
      unfold mergeDels
      simp only [loop_buddy hi hl]
      by_cases hfree : (s.pageMap (l ^^^ 2 ^ j)).isFree = true
      · obtain ⟨hb, h1, h2, hok', ⟨F', h3, h4, -⟩, -⟩ := merge_turn hi hl hn hok hfree
        have hb' : l ^^^ 2 ^ j ∈ Function.update F j ((F j).erase l) j := by
          rw [Function.update_self, (hi.nodup_free (hi.order_lt hl)).mem_erase_iff]
          exact ⟨buddy_ne l j, hb⟩
        rw [if_pos hfree, h1, h2]
        intro d hd
        rcases List.mem_cons.mp hd with rfl | hd
        · exact Inv.listed hi hl
        · rcases List.mem_cons.mp hd with rfl | hd
          · exact Inv.listed (hi.del hl) hb'
          · exact ih h3 h4 (by omega) hok' d hd
      · rw [if_neg hfree]
        intro d hd
        cases hd

lemma dels_spec (hi : Inv R R σ.mem F [] σ.live) {op : Op} (ha : Holds σ op)
    (hm : MergesWhole σ op) : ∀ d ∈ dels σ op, Listed d.1 d.2 := by
  cases op with
  | alloc order =>
      rcases Nat.lt_or_ge order pageMaxOrder with hlt | hge
      · exact getDels_spec hi (by omega)
      · intro d hd
        simp only [dels, Nat.sub_eq_zero_of_le hge, getDels] at hd
        cases hd
  | free b =>
      obtain ⟨hk, hord, h1, hok⟩ := free_entry hi ha hm
      have hdels : dels σ (.free b) = mergeDels (pageMaxOrder - 1 - b.order)
          ((freePageAdd σ.mem b.head b.order).setPage b.head Page.setFree) b.head := by
        unfold dels freeDels
        simp only [physToPage_mul, (hi.used b ha).2, hord]
      rw [hdels]
      exact mergeDels_spec h1 (by simp) (by simp only [pageMaxOrder] at hk ⊢; omega) hok

/-- The promise in a state: the lists are right, and the next step takes only pages off a
list that are on one. -/
def ListsRight (ok : State → Op → Prop) (σ : State) : Prop :=
  (∃ F, FreeLists σ.mem F) ∧
    ∀ op, Holds σ op → ok σ op → ∀ d ∈ dels σ op, Listed d.1 d.2

/-- **The free lists** are right in every state, while every free merges free blocks only. -/
theorem lists_right (hb : DisjointRegions regions)
    (h : Reach ((callers regions).restrict MergesWhole) σ) : ListsRight MergesWhole σ := by
  obtain ⟨F, hi, -⟩ := reach_kept hb h
  exact ⟨⟨F, Inv.freeLists hi⟩, fun op ha hm => dels_spec hi ha hm⟩

theorem lists_right_run : ListsRight MergesWhole
    ((callers fourPages).run (boot fourPages) [.alloc 1, .alloc 0, .free ⟨16, 1⟩]) :=
  lists_right bootRegions_fourPages.disjointRegions
    (Reach.run_restrict (init_boot _) (by decide +kernel))

/-- Page 18, merged as if it were a pair, keeps its flag. Freeing page 19 then takes it off
a list it is not on, and the counter of another list goes below zero. -/
theorem not_lists_right : ¬ ∀ σ, Reach (callers fourPages) σ → ListsRight (fun _ _ => True) σ := by
  intro h
  have hr : Reach (callers fourPages) ((callers fourPages).run (boot fourPages)
      (mergeRun ++ [.free ⟨19, 0⟩])) :=
    Reach.run (.init (init_boot _)) (by decide +kernel)
  obtain ⟨⟨F, hF⟩, -⟩ := h _ hr
  have hfirst := (hF.list 1 (by decide)).first
  have hnone : listFirst ((callers fourPages).run (boot fourPages)
      (mergeRun ++ [.free ⟨19, 0⟩])).mem.links (.area 1) = none := by decide +kernel
  have hnil : F 1 = [] := by
    rw [hnone] at hfirst
    simpa using hfirst.symm
  have hcount := hF.count 1 (by decide)
  rw [hnil] at hcount
  revert hcount
  decide +kernel

end Elfboot.BuddyLists
