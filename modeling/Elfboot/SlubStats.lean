import Elfboot.SlubBooks

/-!
The statistics of the slabs of a cache, `free_slabs` and `total_slabs`.

A slab is counted when it comes from the page allocator, and stays counted when it goes back.
Between two calls no slab is on the list of the free ones, so none is taken from it either.
-/

namespace Elfboot.SlubStats

open Elfboot.Run Elfboot.Circular Elfboot.Word Elfboot.Mm Elfboot.Slub Elfboot.SlubInv
open Elfboot.SlubOps Elfboot.SlubRuns Elfboot.SlubBooks

variable {C : Caches} {s s' s'' : Mem} {live : List Obj} {f : Node → List Node}
variable {b : Slab} {o : Obj} {c n page : ℕ} {pages : Pages} {σ : State}

/-- The blocks of a cache. -/
def owned (s : Mem) (c : ℕ) : ℕ := (s.slabs.filter (·.cache = c)).length

/-- The statistics of a cache match its slabs. -/
structure Statistics (s : Mem) (c : ℕ) : Prop where
  total : (s.counters c).totalSlabs = owned s c
  free : ∃ xs, IsList s.links (.slabsFree c) xs ∧ (s.counters c).freeSlabs = xs.length

/-- Neither the slabs nor their counters change. -/
structure Same (s s' : Mem) : Prop where
  slabs : s'.slabs = s.slabs
  total : ∀ d, (s'.counters d).totalSlabs = (s.counters d).totalSlabs
  free : ∀ d, (s'.counters d).freeSlabs = (s.counters d).freeSlabs

/-- A cache has got a slab. -/
structure Grown (s s' : Mem) (c : ℕ) : Prop where
  slabs : ∃ b : Slab, b.cache = c ∧ s'.slabs = b :: s.slabs
  total : ∀ d, (s'.counters d).totalSlabs =
    if d = c then u32 ((s.counters d).totalSlabs + 1) else (s.counters d).totalSlabs
  free : ∀ d, (s'.counters d).freeSlabs = (s.counters d).freeSlabs

lemma Same.refl (s : Mem) : Same s s := ⟨rfl, fun _ => rfl, fun _ => rfl⟩

lemma Same.trans (h : Same s s') (h' : Same s' s'') : Same s s'' :=
  ⟨h'.slabs.trans h.slabs, fun d => (h'.total d).trans (h.total d),
    fun d => (h'.free d).trans (h.free d)⟩

lemma Grown.trans_same (h : Grown s s' c) (h' : Same s' s'') : Grown s s'' c := by
  obtain ⟨b, hb, hslabs⟩ := h.slabs
  exact ⟨⟨b, hb, h'.slabs.trans hslabs⟩, fun d => (h'.total d).trans (h.total d),
    fun d => (h'.free d).trans (h.free d)⟩

/-! ### What the functions do to the slabs and their counters -/

/-- A change of the objects that are counted. -/
lemma same_count (s : Mem) (c : ℕ) (g : ℕ → ℕ) :
    Same s (s.count c fun n => { n with freeObjs := g n.freeObjs }) := by
  refine ⟨rfl, fun d => ?_, fun d => ?_⟩
  · dsimp only [Mem.count]
    split <;> rfl
  · dsimp only [Mem.count]
    split <;> rfl

lemma same_fetch (s : Mem) (page : ℕ) : Same s (bmemCacheFetch s page).2 := by
  unfold bmemCacheFetch
  split
  · exact .refl s
  · exact ⟨rfl, fun _ => rfl, fun _ => rfl⟩

lemma same_runCtor (C : Caches) (s : Mem) (c objp : ℕ) : Same s (runCtor C s c objp) := by
  obtain ⟨L, heq, -⟩ := runCtor_eq C s c objp
  rw [heq]
  exact ⟨rfl, fun _ => rfl, fun _ => rfl⟩

lemma same_fixup (C : Caches) (s : Mem) (c page : ℕ) : Same s (bmemCacheFixup C s c page) := by
  unfold bmemCacheFixup
  dsimp only
  split <;> exact ⟨rfl, fun _ => rfl, fun _ => rfl⟩

lemma same_allocObject (C : Caches) (s : Mem) (c page : ℕ) :
    Same s (bmemCacheAllocObject C s c page).2 := by
  have hfetch := same_fetch s page
  unfold bmemCacheAllocObject
  split
  · next s1 heq =>
      rw [heq] at hfetch
      exact hfetch
  · next objp s1 heq =>
      rw [heq] at hfetch
      dsimp only
      exact ((hfetch.trans (same_runCtor C s1 c objp)).trans
        (same_count _ c fun n => sub32 n 1)).trans (same_fixup C _ c page)

lemma grow_stats (C : Caches) (pages : Pages) (s : Mem) (c : ℕ) :
    (∃ s', bmemCacheGrow C pages s c = (none, s') ∧ Same s s') ∨
      ∃ p s', bmemCacheGrow C pages s c = (some p, s') ∧ Grown s s' c := by
  unfold bmemCacheGrow
  split
  · exact .inl ⟨_, rfl, rfl, fun _ => rfl, fun _ => rfl⟩
  · next p pageMap links heq =>
      refine .inr ⟨p, _, rfl, ⟨⟨p, (C.cache c).order, c⟩, rfl, rfl⟩, fun d => ?_, fun d => ?_⟩
      · dsimp only [Mem.count, Mem.setPage, bmemCacheSetup]
        split <;> rfl
      · dsimp only [Mem.count, Mem.setPage, bmemCacheSetup]
        split <;> rfl

/-- No slab is free between two calls. -/
lemma slabsFirst_free (h : Inv C s live f) (hu : Used s) (c : ℕ) :
    slabsFirst s (.slabsFree c) = none := by
  cases hp : slabsFirst s (.slabsFree c) with
  | none => rfl
  | some p =>
      obtain ⟨b, hb, -, hhome⟩ := slabsFirst_eq h ⟨c, .inr (.inr rfl)⟩ hp
      rw [home_used hu hb] at hhome
      split at hhome <;> cases hhome

lemma slabsFree_nil (h : Inv C s live f) (hu : Used s) (c : ℕ) : f (.slabsFree c) = [] := by
  rw [List.eq_nil_iff_forall_not_mem]
  intro x hx
  obtain ⟨b, hb, hhome, -⟩ := (h.listed _ ⟨c, .inr (.inr rfl)⟩ x).mp hx
  rw [home_used hu hb] at hhome
  split at hhome <;> cases hhome

lemma cachePage_snd (h : Inv C s live f) (hu : Used s) (c : ℕ) : (bmemCachePage s c).2 = s := by
  unfold bmemCachePage
  rw [slabsFirst_free h hu]
  split <;> rfl

/-- **An allocation** leaves the slabs as they are, or adds one. -/
lemma alloc_stats (h : Inv C s live f) (hu : Used s) (pages : Pages) (c : ℕ) :
    Same s (bmemCacheAlloc C pages s c).2 ∨ Grown s (bmemCacheAlloc C pages s c).2 c := by
  have hpage := cachePage_snd h hu c
  unfold bmemCacheAlloc
  split
  · next p s1 heq =>
      rw [heq] at hpage
      obtain rfl : s1 = s := hpage
      exact .inl (same_allocObject C s1 c p)
  · next s1 heq =>
      rw [heq] at hpage
      obtain rfl : s1 = s := hpage
      obtain ⟨s2, heq2, hsame⟩ | ⟨p, s2, heq2, hgrown⟩ := grow_stats C pages s1 c
      · rw [heq2]
        exact .inl hsame
      · rw [heq2]
        exact .inr (hgrown.trans_same (same_allocObject C s2 c p))

/-- `bfree` touches neither counter of slabs. -/
lemma bfree_counters (C : Caches) (pages : Pages) (s : Mem) (objp d : ℕ) :
    ((bfree C pages s objp).counters d).totalSlabs = (s.counters d).totalSlabs ∧
      ((bfree C pages s objp).counters d).freeSlabs = (s.counters d).freeSlabs := by
  unfold bfree bfreeObj
  dsimp only
  split
  · dsimp only [Mem.count, Mem.setPage, freePage]
    constructor
    · split <;> rfl
    · split <;> rfl
  · dsimp only [Mem.count, Mem.setPage]
    constructor
    · split <;> rfl
    · split <;> rfl

/-- **A slab goes** with its last object. -/
lemma bfree_owned (h : Inv C s live f) (ho : o ∈ live) (pages : Pages) (c : ℕ) :
    ∃ b ∈ s.slabs, b.cache = o.cache ∧ bmemObjPage s o.addr = b.page ∧
      owned (bfree C pages s o.addr) c +
        (if (s.pageMap b.page).inuse = 1 ∧ b.cache = c then 1 else 0) = owned s c := by
  obtain ⟨b, hb, hc, ha⟩ := h.held o ho
  obtain ⟨s1, n, hn, hslabs, -, -, -, heq⟩ := bfree_eq pages h hb ho ha
  refine ⟨b, hb, hc, objPage_eq h hb ha, ?_⟩
  by_cases hlast : n = 0
  · have hslabs' : (bfree C pages s o.addr).slabs = others s.slabs (b.page * pageSize) := by
      rw [heq, if_pos hlast, ← hslabs]
      rfl
    have hone : (s.pageMap b.page).inuse = 1 := by omega
    have hcons : owned s c = ((b :: s.slabs.erase b).filter (·.cache = c)).length :=
      ((List.perm_cons_erase hb).filter _).length_eq
    rw [owned, hslabs', ((others_eq h hb).filter _).length_eq, hcons, List.filter_cons]
    by_cases hbc : b.cache = c
    · rw [if_pos ⟨hone, hbc⟩, if_pos (decide_eq_true hbc), List.length_cons]
    · rw [if_neg fun hand => hbc hand.2, if_neg (by simpa using hbc), Nat.add_zero]
  · have hslabs' : (bfree C pages s o.addr).slabs = s.slabs := by
      rw [heq, if_neg hlast]
      exact hslabs
    rw [owned, hslabs', if_neg (by omega)]
    rfl

/-! ### Steps -/

/-- There are fewer slabs than a word counts. -/
lemma owned_le (h : Inv C s live f) (c : ℕ) : owned s c ≤ 2 ^ 20 := by
  obtain ⟨S, hcard, hmem⟩ := pages_card h.apart
  have hsub : S ⊆ Finset.range (2 ^ 20) := by
    intro q hq
    obtain ⟨b, hb, hown⟩ := (hmem q).mp hq
    exact Finset.mem_range.mpr (hown.2.trans_le (h.slab b hb).bound)
  have hle := Finset.card_le_card hsub
  rw [hcard, Finset.card_range] at hle
  have hlength : s.slabs.length ≤ (s.slabs.map fun b => 2 ^ b.order).sum := by
    have hones := List.sum_le_sum (l := s.slabs) (f := fun _ => 1) (g := fun b => 2 ^ b.order)
      fun b _ => Nat.one_le_two_pow
    rwa [List.map_const', List.sum_replicate, smul_eq_mul, Nat.mul_one] at hones
  calc (s.slabs.filter fun b => b.cache = c).length
      ≤ s.slabs.length := List.length_filter_le _ _
    _ ≤ (s.slabs.map fun b => 2 ^ b.order).sum := hlength
    _ ≤ 2 ^ 20 := hle

/-- What holds between two calls, whatever the total says. -/
structure Ready (C : Caches) (σ : State) : Prop where
  books : ∃ f, Books C σ.mem σ.live f
  used : Used σ.mem
  free : ∀ c, (σ.mem.counters c).freeSlabs = 0

lemma Ready.free_match (h : Ready C σ) (c : ℕ) :
    ∃ xs, IsList σ.mem.links (.slabsFree c) xs ∧ (σ.mem.counters c).freeSlabs = xs.length := by
  obtain ⟨f, hbooks⟩ := h.books
  have hlist := hbooks.inv.lists.isList (.slabsFree c) (cacheHeads_sub _ ⟨c, .inr (.inr rfl)⟩)
  rw [slabsFree_nil hbooks.inv h.used] at hlist
  exact ⟨[], hlist, h.free c⟩

lemma Ready.total_iff (h : Ready C σ) (c : ℕ) :
    Statistics σ.mem c ↔ (σ.mem.counters c).totalSlabs = owned σ.mem c :=
  ⟨fun hs => hs.total, fun ht => ⟨ht, h.free_match c⟩⟩

/-- An allocation, whichever call makes it. -/
lemma request_stats {r : Request} (h : Inv C s live f) (hu : Used s) (hr : r.Ok C)
    (pages : Pages) :
    Same s (r.run C pages s).2 ∨ Grown s (r.run C pages s).2 r.cache := by
  cases r with
  | bmalloc size =>
      obtain ⟨hc, -, -⟩ := @bmallocCache_room C size hr
      unfold Request.run Slub.bmalloc
      dsimp only
      rw [hc]
      exact alloc_stats h hu pages _
  | cacheAlloc c => exact alloc_stats h hu pages c

lemma step_alloc_mem (C : Caches) (σ : State) (r : Request) (pages : Pages) :
    (step C σ (.alloc r pages)).mem = (r.run C pages σ.mem).2 := by
  unfold step
  dsimp only
  split
  · next heq => rw [heq]
  · next heq => rw [heq]

lemma ready_step (h : Ready C σ) {op : Op} (ha : Asks C σ op) : Ready C (step C σ op) := by
  obtain ⟨f, hbooks⟩ := h.books
  obtain ⟨f', hbooks', hused'⟩ := books_step hbooks h.used ha
  refine ⟨⟨f', hbooks'⟩, hused', fun c => ?_⟩
  cases op with
  | alloc r pages =>
      rw [step_alloc_mem]
      obtain hsame | hgrown := request_stats hbooks.inv h.used ha.1 pages
      · rw [hsame.free, h.free]
      · rw [hgrown.free, h.free]
  | free o pages => exact (bfree_counters C pages σ.mem o.addr c).2.trans (h.free c)
  | write o links => exact h.free c

/-- The object of the cache that is given back is not the last one of its slab. -/
def Keeps (c : ℕ) (σ : State) : Op → Prop
  | .free o _ => o.cache = c → (σ.mem.pageMap (bmemObjPage σ.mem o.addr)).inuse ≠ 1
  | _ => True

lemma statistics_step (h : Ready C σ) (hs : Statistics σ.mem c) {op : Op} (ha : Asks C σ op) :
    Statistics (step C σ op).mem c ↔ Keeps c σ op := by
  obtain ⟨f, hbooks⟩ := h.books
  have hready' := ready_step h ha
  obtain ⟨f', hbooks'⟩ := hready'.books
  have hle := owned_le hbooks'.inv c
  rw [hready'.total_iff]
  cases op with
  | alloc r pages =>
      rw [step_alloc_mem] at hle ⊢
      refine iff_of_true ?_ trivial
      obtain hsame | hgrown := request_stats hbooks.inv h.used ha.1 pages
      · rw [hsame.total, hs.total, owned, owned, hsame.slabs]
      · obtain ⟨b, hb, hslabs⟩ := hgrown.slabs
        rw [owned, hslabs, List.filter_cons] at hle ⊢
        rw [hgrown.total, hs.total, owned]
        by_cases hc : c = r.cache
        · rw [if_pos (decide_eq_true (hb.trans hc.symm)), List.length_cons] at hle ⊢
          rw [if_pos hc, u32_of_lt (by omega)]
        · rw [if_neg hc, if_neg (by simpa [hb] using fun e => hc e.symm)]
  | free o pages =>
      obtain ⟨b, hb, hcache, hpage, howned⟩ := bfree_owned hbooks.inv ha.1 pages c
      have htotal := (bfree_counters C pages σ.mem o.addr c).1
      change ((bfree C pages σ.mem o.addr).counters c).totalSlabs =
        owned (bfree C pages σ.mem o.addr) c ↔ _
      rw [htotal, hs.total, ← howned, Keeps, hpage, ← hcache]
      by_cases hlast : (σ.mem.pageMap b.page).inuse = 1 ∧ b.cache = c
      · rw [if_pos hlast]
        exact iff_of_false (by omega) fun hno => hno hlast.2 hlast.1
      · rw [if_neg hlast, Nat.add_zero]
        exact iff_of_true rfl fun hc hone => hlast ⟨hone, hc⟩
  | write o links => exact iff_of_true hs.total trivial

/-! ### Runs -/

lemma counters_init (h : (allocator C).init σ) (c : ℕ) : σ.mem.counters c = ⟨0, 0, 0⟩ := by
  have hc := congrArg (fun s => s.counters c) (h.1 c)
  dsimp only [bmemCacheInit, Mem.count] at hc
  rw [if_pos rfl] at hc
  exact hc.symm

lemma ready_init (h : (allocator C).init σ) : Ready C σ := by
  obtain ⟨hbooks, hused⟩ := books_init h
  refine ⟨⟨_, hbooks⟩, hused, fun c => ?_⟩
  rw [counters_init h]

lemma statistics_init (h : (allocator C).init σ) (c : ℕ) : Statistics σ.mem c := by
  rw [(ready_init h).total_iff, counters_init h, owned, Mem.slabs_nil h.2.1]
  rfl

/-- **The statistics** of a cache match its slabs in every state of a run if and only if no call of
the run gives back the last object of one of its slabs. -/
theorem statistics_iff (h : (allocator C).init σ) (c : ℕ) {ops : List Op}
    (ht : (allocator C).Takes σ ops) :
    (∀ j, Statistics ((allocator C).run σ (ops.take j)).mem c) ↔
      ((allocator C).restrict (Keeps c)).Takes σ ops :=
  System.always_iff (I := Ready C) (P := fun σ => Statistics σ.mem c)
    (fun _ _ hi ha => ready_step hi ha) (fun _ _ hi hs ha => statistics_step hi hs ha)
    (ready_init h) (statistics_init h c) ht

/-- An object of 4096 bytes, taken and given back. -/
def takeAndGive : List Op :=
  [.alloc (.bmalloc 4096) (grantAt 16), .free ⟨0x10000, 9⟩ (grantAt 16)]

lemma takes_takeAndGive : (allocator bootCaches).Takes ⟨blank, []⟩ takeAndGive := by
  have h0 : Granted blank (grantAt 16) := granted_grantAt (by decide) (by decide) nofun
  have hlive : (⟨0x10000, 9⟩ : Obj) ∈ ((allocator bootCaches).step ⟨blank, []⟩
      (.alloc (.bmalloc 4096) (grantAt 16))).live := by decide +kernel
  exact ⟨⟨show 4096 ≤ 32768 by decide, h0⟩, ⟨hlive, releases_grantAt _ 16⟩, trivial⟩

theorem statistics_iff_takeAndGive :
    (∀ j, Statistics ((allocator bootCaches).run ⟨blank, []⟩ (takeAndGive.take j)).mem 9) ↔
      ((allocator bootCaches).restrict (Keeps 9)).Takes ⟨blank, []⟩ takeAndGive :=
  statistics_iff init_blank 9 takes_takeAndGive

/-- After that the cache has no slab, and counts one. -/
theorem not_statistics_all : ¬ ∀ σ, Reach (allocator bootCaches) σ → ∀ c, Statistics σ.mem c := by
  intro h
  have hreach : Reach (allocator bootCaches)
      ((allocator bootCaches).run ⟨blank, []⟩ takeAndGive) :=
    Reach.run (.init init_blank) takes_takeAndGive
  have htotal := (h _ hreach 9).total
  exact absurd htotal (by decide +kernel)

end Elfboot.SlubStats
