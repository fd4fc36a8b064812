import Elfboot.SlubRuns

/-!
The books of the slab allocator: what the counter of free objects of a cache says, and which
slabs there are between two calls.

A slab counts with the objects it has left. Blocks share no page, so that there are fewer
objects than a word can count, and the counter is exact. Between two calls every slab has an
object in use.
-/

namespace Elfboot.SlubBooks

open Elfboot.Run Elfboot.Circular Elfboot.Word Elfboot.Mm Elfboot.Slub Elfboot.SlubInv
open Elfboot.SlubOps Elfboot.SlubRuns

variable {C : Caches} {s s' : Mem} {live live' : List Obj} {f f' : Node → List Node}
variable {b b' : Slab} {o : Obj} {a c n : ℕ} {pages : Pages} {slabs slabs' : List Slab}
variable {pageMap pageMap' : ℕ → Page}

/-! ### Counting free objects -/

/-- The objects that the slabs of a cache have left. -/
def freeObjs (C : Caches) (pageMap : ℕ → Page) (c : ℕ) (slabs : List Slab) : ℕ :=
  (slabs.map fun b =>
    if b.cache = c then (C.cache b.cache).nums - (pageMap b.page).inuse else 0).sum

lemma freeObjs_cons (C : Caches) (pageMap : ℕ → Page) (c : ℕ) (b : Slab) (slabs : List Slab) :
    freeObjs C pageMap c (b :: slabs) =
      (if b.cache = c then (C.cache b.cache).nums - (pageMap b.page).inuse else 0) +
        freeObjs C pageMap c slabs := by
  unfold freeObjs
  rw [List.map_cons, List.sum_cons]

lemma freeObjs_perm (h : slabs.Perm slabs') :
    freeObjs C pageMap c slabs = freeObjs C pageMap c slabs' :=
  (h.map _).sum_eq

lemma freeObjs_congr (h : ∀ b ∈ slabs, (pageMap' b.page).inuse = (pageMap b.page).inuse) :
    freeObjs C pageMap' c slabs = freeObjs C pageMap c slabs := by
  unfold freeObjs
  congr 1
  refine List.map_congr_left fun b hb => ?_
  rw [h b hb]

/-- The pages of blocks that share none are as many as the blocks say. -/
lemma pages_card (h : slabs.Pairwise Apart) : ∃ S : Finset ℕ,
    S.card = (slabs.map fun b => 2 ^ b.order).sum ∧ ∀ q, q ∈ S ↔ ∃ b ∈ slabs, Owns b q := by
  induction slabs with
  | nil => exact ⟨∅, rfl, by simp⟩
  | cons b slabs ih =>
    rw [List.pairwise_cons] at h
    obtain ⟨S, hcard, hmem⟩ := ih h.2
    have hown : ∀ q, q ∈ Finset.Ico b.page (b.page + 2 ^ b.order) ↔ Owns b q := fun q =>
      Finset.mem_Ico
    have hdis : Disjoint (Finset.Ico b.page (b.page + 2 ^ b.order)) S := by
      refine Finset.disjoint_left.mpr fun q hq hS => ?_
      obtain ⟨b', hb', hq'⟩ := (hmem q).mp hS
      exact (h.1 b' hb').not_owns ((hown q).mp hq) hq'
    refine ⟨Finset.Ico b.page (b.page + 2 ^ b.order) ∪ S, ?_, fun q => ?_⟩
    · rw [Finset.card_union_of_disjoint hdis, Nat.card_Ico, Nat.add_sub_cancel_left, hcard,
        List.map_cons, List.sum_cons]
    · rw [Finset.mem_union, hown, hmem, List.exists_mem_cons_iff]

/-- There are fewer objects than a word counts. -/
lemma freeObjs_le (h : Inv C s live f) (c : ℕ) : freeObjs C s.pageMap c s.slabs ≤ 2 ^ 29 := by
  have hobjs : freeObjs C s.pageMap c s.slabs ≤ (s.slabs.map fun b => 2 ^ b.order * 2 ^ 9).sum := by
    refine List.sum_le_sum fun b hb => ?_
    have hfit := (sized (C.cache b.cache)).fits
    have h8 := Nat.mul_le_mul_left (C.cache b.cache).nums (h.slab b hb).large
    rw [hfit, ← (h.slab b hb).order] at h8
    change _ ≤ 2 ^ b.order * 2 ^ 12 at h8
    split <;> omega
  have hpages : (s.slabs.map fun b => 2 ^ b.order).sum ≤ 2 ^ 20 := by
    obtain ⟨S, hcard, hmem⟩ := pages_card h.apart
    have hsub : S ⊆ Finset.range (2 ^ 20) := by
      intro q hq
      obtain ⟨b, hb, hown⟩ := (hmem q).mp hq
      exact Finset.mem_range.mpr (hown.2.trans_le (h.slab b hb).bound)
    have hle := Finset.card_le_card hsub
    rwa [hcard, Finset.card_range] at hle
  rw [List.sum_map_mul_right] at hobjs
  omega

/-- The invariant, with an exact counter of free objects for every cache. -/
structure Books (C : Caches) (s : Mem) (live : List Obj) (f : Node → List Node) : Prop where
  inv : Inv C s live f
  freeObjs : ∀ c, (s.counters c).freeObjs = freeObjs C s.pageMap c s.slabs

/-- Every slab has an object in use. -/
def Used (s : Mem) : Prop := ∀ b ∈ s.slabs, (s.pageMap b.page).inuse ≠ 0

lemma slabs_nodup (h : Inv C s live f) : s.slabs.Nodup :=
  h.apart.imp fun hab => by
    rintro rfl
    exact not_apart_self _ hab

/-- What a cache has left, by one of its slabs and the others. -/
lemma freeObjs_erase (C : Caches) (pageMap : ℕ → Page) (c : ℕ) (hb : b ∈ slabs) :
    freeObjs C pageMap c slabs =
      (if b.cache = c then (C.cache b.cache).nums - (pageMap b.page).inuse else 0) +
        freeObjs C pageMap c (slabs.erase b) := by
  rw [freeObjs_perm (List.perm_cons_erase hb), freeObjs_cons]

/-- The other slabs do not see a change of one. -/
lemma freeObjs_others (pageMap' : ℕ → Page) (h : Inv C s live f) (hb : b ∈ s.slabs)
    (hmap : ∀ q, q ≠ b.page → (pageMap' q).inuse = (s.pageMap q).inuse) :
    freeObjs C pageMap' c (s.slabs.erase b) = freeObjs C s.pageMap c (s.slabs.erase b) := by
  refine freeObjs_congr fun b' hb' => hmap _ fun he => ?_
  obtain ⟨hne, hmem⟩ := (slabs_nodup h).mem_erase_iff.mp hb'
  exact hne (h.page_inj hmem hb he)

/-! ### Taking an object -/

lemma books_take (h : Books C s live f) (hb : b ∈ s.slabs)
    (hlt : (s.pageMap b.page).inuse < (C.cache b.cache).nums) :
    ∃ a s' f', bmemCacheAllocObject C s b.cache b.page = (some a, s') ∧ s'.slabs = s.slabs ∧
      (∀ q, (s'.pageMap q).inuse =
        if q = b.page then (s.pageMap b.page).inuse + 1 else (s.pageMap q).inuse) ∧
      Books C s' (⟨a, b.cache⟩ :: live) f' := by
  obtain ⟨a, s', f', heq, hs, -, -, hinv⟩ := allocObject_spec h.inv hb hlt
  obtain ⟨a', rest, -, hfirst⟩ := fetch_eq h.inv hb hlt
  have hnums := (sized (C.cache b.cache)).nums_le
  obtain ⟨s1, heq1, -, hcount, hmap, -⟩ := allocObject_eq (C := C) (b := b) hfirst
    (by change (C.cache b.cache).nums ≤ 2 ^ 12 at hnums; omega)
  obtain ⟨-, rfl⟩ := Prod.mk.inj (heq.symm.trans heq1)
  have hin : ∀ q, (s'.pageMap q).inuse =
      if q = b.page then (s.pageMap b.page).inuse + 1 else (s.pageMap q).inuse := by
    intro q
    rw [hmap]
    split <;> rfl
  refine ⟨a, s', f', heq, hs, hin, hinv, fun d => ?_⟩
  have hold := freeObjs_erase C s.pageMap d hb
  have hnew := freeObjs_erase C s'.pageMap d hb
  have hrest := freeObjs_others (c := d) s'.pageMap h.inv hb
    fun q hq => by rw [hin, if_neg hq]
  have hle := freeObjs_le h.inv d
  rw [hin, if_pos rfl, hrest] at hnew
  rw [hcount, h.freeObjs, hs]
  by_cases hd : d = b.cache
  · subst hd
    rw [if_pos rfl] at hold hnew ⊢
    rw [sub32_of_le (by omega) (by omega)]
    omega
  · rw [if_neg fun e => hd e.symm] at hold hnew
    rw [if_neg hd]
    omega

/-! ### Growing a cache -/

lemma books_frame (h : Books C s live f) (hs : s'.slabs = s.slabs) (hc : s'.counters = s.counters)
    (hf : Frame s.slabs s.pageMap s.links s'.pageMap s'.links) : Books C s' live f := by
  refine ⟨inv_frame h.inv hs hf, fun d => ?_⟩
  rw [hc, h.freeObjs, hs]
  exact (freeObjs_congr fun b hb => by rw [hf.pageMap b hb _ (owns_self b)]).symm

lemma books_grow (h : Books C s live f) (hlarge : 8 ≤ (C.cache c).size)
    (hg : Grants s (C.cache c).order (pages.alloc (C.cache c).order s.pageMap s.links)) :
    (∃ s', bmemCacheGrow C pages s c = (none, s') ∧ Books C s' live f ∧
        (Used s → Used s')) ∨
      ∃ b s' f', bmemCacheGrow C pages s c = (some b.page, s') ∧ b ∈ s'.slabs ∧ b.cache = c ∧
        (s'.pageMap b.page).inuse = 0 ∧ Books C s' live f' ∧
        (Used s → ∀ b' ∈ s'.slabs, b' ≠ b → (s'.pageMap b'.page).inuse ≠ 0) := by
  have hspec := grow_spec h.inv hlarge hg
  obtain ⟨hframe, -, -, hapart, -, hpaddr⟩ := hg
  generalize hr : pages.alloc (C.cache c).order s.pageMap s.links = r at *
  obtain ⟨_ | p, pageMap, links⟩ := r
  · have heq : bmemCacheGrow C pages s c = (none, { s with pageMap, links }) := by
      unfold bmemCacheGrow
      rw [hr]
    refine Or.inl ⟨_, heq, books_frame h rfl rfl hframe, fun hu b hb => ?_⟩
    have hsame : (pageMap b.page).inuse = (s.pageMap b.page).inuse :=
      congrArg Page.inuse (hframe.pageMap b hb _ (owns_self b))
    exact fun h0 => hu b hb (hsame.symm.trans h0)
  · right
    obtain ⟨s1, heq, hs, hcount, hmap, -⟩ := grow_eq hr (hpaddr p rfl)
    rcases hspec with ⟨s2, heq2, -⟩ | ⟨b, s2, f2, heq2, hb, hc, h0, hinv⟩
    · rw [heq] at heq2
      cases heq2
    · obtain ⟨hp, rfl⟩ := Prod.mk.inj (heq.symm.trans heq2)
      cases hp
      have hself : b = ⟨b.page, (C.cache c).order, c⟩ :=
        hinv.page_inj hb (hs ▸ List.mem_cons_self ..) rfl
      have hold : ∀ b' ∈ s.slabs, (s1.pageMap b'.page).inuse = (s.pageMap b'.page).inuse := by
        intro b' hb'
        rw [hmap, if_neg (hapart _ rfl c b' hb').page_ne.symm]
        exact congrArg Page.inuse (hframe.pageMap b' hb' _ (owns_self b'))
      refine ⟨b, s1, f2, heq, hb, hc, h0, ⟨hinv, fun d => ?_⟩, fun hu b' hb' hne => ?_⟩
      · have hle := freeObjs_le hinv d
        rw [hs, freeObjs_cons, freeObjs_congr hold] at hle ⊢
        dsimp only at hle ⊢
        rw [hcount, h.freeObjs, h0] at *
        by_cases hd : d = c
        · subst hd
          rw [if_pos rfl] at hle
          rw [if_pos rfl, if_pos rfl, u32_of_lt (by omega)]
          omega
        · rw [if_neg hd, if_neg fun e => hd e.symm, Nat.zero_add]
      · rw [hs] at hb'
        rcases List.mem_cons.mp hb' with rfl | hb'
        · exact absurd hself.symm hne
        · rw [hold b' hb']
          exact hu b' hb'

/-! ### Allocating and freeing -/

/-- **The books of an allocation**. -/
theorem books_alloc (h : Books C s live f) (hu : Used s) (hlarge : 8 ≤ (C.cache c).size)
    (hg : Grants s (C.cache c).order (pages.alloc (C.cache c).order s.pageMap s.links)) :
    (∃ s', bmemCacheAlloc C pages s c = (none, s') ∧ Books C s' live f ∧ Used s') ∨
      ∃ a s' f', bmemCacheAlloc C pages s c = (some a, s') ∧ Books C s' (⟨a, c⟩ :: live) f' ∧
        Used s' := by
  have htake : ∀ {s1 : Mem} {f1 : Node → List Node} {b : Slab}, Books C s1 live f1 →
      b ∈ s1.slabs → b.cache = c → (s1.pageMap b.page).inuse < (C.cache b.cache).nums →
      (∀ b' ∈ s1.slabs, b' ≠ b → (s1.pageMap b'.page).inuse ≠ 0) →
      ∃ a s' f', bmemCacheAllocObject C s1 c b.page = (some a, s') ∧
        Books C s' (⟨a, c⟩ :: live) f' ∧ Used s' := by
    intro s1 f1 b h1 hb hc hlt hothers
    subst hc
    obtain ⟨a, s', f', heq, hs, hin, hbooks⟩ := books_take h1 hb hlt
    refine ⟨a, s', f', heq, hbooks, fun b' hb' => ?_⟩
    rw [hs] at hb'
    rw [hin]
    by_cases hbb : b' = b
    · subst hbb
      rw [if_pos rfl]
      exact Nat.succ_ne_zero _
    · rw [if_neg fun he => hbb (h1.inv.page_inj hb' hb he)]
      exact hothers b' hb' hbb
  unfold bmemCacheAlloc
  split
  · next p s1 hp =>
    obtain ⟨-, h1, b, hb, rfl, hc, hlt⟩ := cachePage_spec h.inv hp
    obtain ⟨-, hmap, hs, hcount⟩ := cachePage_same hp
    have hbooks : Books C s1 live f := ⟨h1, fun d => by rw [hcount, hmap, hs, h.freeObjs]⟩
    refine Or.inr (htake hbooks hb hc hlt fun b' hb' _ => ?_)
    rw [hmap]
    exact hu b' (hs ▸ hb')
  · next s1 hp =>
    obtain rfl := cachePage_none hp
    rcases books_grow h hlarge hg with
      ⟨s', heq, h1, hused⟩ | ⟨b, s', f', heq, hb, hc, h0, h1, hused⟩
    · rw [heq]
      exact Or.inl ⟨s', rfl, h1, hused hu⟩
    · rw [heq]
      have hnums := (sized (C.cache b.cache)).nums_pos
      exact Or.inr (htake h1 hb hc (by omega) (hused hu))

/-- The blocks left are the others. -/
lemma others_eq (h : Inv C s live f) (hb : b ∈ s.slabs) :
    (others s.slabs (b.page * pageSize)).Perm (s.slabs.erase b) := by
  refine (List.perm_ext_iff_of_nodup ((slabs_nodup h).filter _) ((slabs_nodup h).erase b)).mpr
    fun b' => ?_
  rw [(slabs_nodup h).mem_erase_iff]
  exact (mem_others h hb).trans and_comm

/-- What a cache has left once the slab is gone. -/
lemma freeObjs_dropped {pageMap : ℕ → Page} (h : Inv C s live f) (hb : b ∈ s.slabs)
    (hsame : ∀ b' ∈ others s.slabs (b.page * pageSize),
      (pageMap b'.page).inuse = (s.pageMap b'.page).inuse) (d : ℕ) :
    freeObjs C pageMap d (others s.slabs (b.page * pageSize)) =
      freeObjs C s.pageMap d (s.slabs.erase b) := by
  rw [freeObjs_congr hsame, freeObjs_perm (others_eq h hb)]

/-- What a cache has left once an object of the slab is back. -/
lemma freeObjs_given {pageMap : ℕ → Page} (h : Inv C s live f) (hb : b ∈ s.slabs)
    (hin : ∀ q, (pageMap q).inuse = if q = b.page then n else (s.pageMap q).inuse) (d : ℕ) :
    freeObjs C pageMap d s.slabs = (if b.cache = d then (C.cache b.cache).nums - n else 0) +
      freeObjs C s.pageMap d (s.slabs.erase b) := by
  rw [freeObjs_erase C pageMap d hb, hin, if_pos rfl,
    freeObjs_others pageMap h hb fun q hq => by rw [hin, if_neg hq]]

/-- **The books of `bfree`**. -/
theorem books_free (h : Books C s live f) (hu : Used s) (ho : o ∈ live)
    (hp : Releases s.slabs pages) :
    ∃ f', Books C (bfree C pages s o.addr) (live.erase o) f' ∧ Used (bfree C pages s o.addr) := by
  obtain ⟨f', hinv⟩ := bfree_spec h.inv ho hp
  obtain ⟨b, hb, hc, ha⟩ := h.inv.held o ho
  obtain ⟨s1, n, hn, hslabs, hlinks, hcount, hmap, heq⟩ := bfree_eq pages h.inv hb ho ha
  rw [heq] at hinv ⊢
  have hin : ∀ q, (s1.pageMap q).inuse = if q = b.page then n else (s.pageMap q).inuse := by
    intro q
    rw [hmap]
    split <;> rfl
  have hold := fun d => freeObjs_erase C s.pageMap d hb
  have hle := fun d => freeObjs_le h.inv d
  have hnums := (sized (C.cache b.cache)).nums_le
  change (C.cache b.cache).nums ≤ 2 ^ 12 at hnums
  have hused := h.inv.count b hb
  simp only [h.freeObjs] at hcount
  refine ⟨f', ?_⟩
  by_cases hlast : n = 0
  · -- the slab goes
    rw [if_pos hlast] at hinv ⊢
    have hframe := hp (b.page * pageSize) s1.pageMap (listDel .null s1.links (.page b.page))
    have hsame : ∀ b' ∈ others s.slabs (b.page * pageSize),
        ((pages.free (b.page * pageSize) s1.pageMap
          (listDel .null s1.links (.page b.page))).1 b'.page).inuse =
            (s.pageMap b'.page).inuse := by
      intro b' hb'
      obtain ⟨h1, h2⟩ := (mem_others h.inv hb).mp hb'
      rw [hframe.pageMap b' hb' _ (owns_self b'), hin,
        if_neg fun he => h2 (h.inv.page_inj h1 hb he)]
    refine ⟨⟨hinv, fun d => ?_⟩, fun b' hb' => ?_⟩
    · have hsum := freeObjs_dropped h.inv hb hsame d
      rw [← hslabs] at hsum
      refine Eq.trans ?_ hsum.symm
      have hd1 := hold d
      have hd2 := hle d
      rw [hslabs]
      dsimp only [Mem.count, freePage]
      by_cases hd : d = b.cache
      · subst hd
        rw [if_pos rfl] at hd1
        rw [if_pos rfl]
        dsimp only
        rw [hcount, if_pos rfl, u32_of_lt (by omega), sub32_of_le (by omega) (by omega)]
        omega
      · rw [if_neg fun e => hd e.symm] at hd1
        rw [if_neg hd, hcount, if_neg hd]
        omega
    · have hb'' : b' ∈ others s.slabs (b.page * pageSize) := by
        rw [← hslabs]
        exact hb'
      exact fun h0 => hu b' ((mem_others h.inv hb).mp hb'').1 ((hsame b' hb'').symm.trans h0)
  · -- the slab moves
    rw [if_neg hlast] at hinv ⊢
    refine ⟨⟨hinv, fun d => ?_⟩, fun b' hb' => ?_⟩
    · have hd1 := hold d
      have hd2 := hle d
      change (s1.counters d).freeObjs = freeObjs C s1.pageMap d s1.slabs
      rw [hslabs, hcount, freeObjs_given h.inv hb hin]
      by_cases hd : d = b.cache
      · subst hd
        rw [if_pos rfl] at hd1 ⊢
        rw [if_pos rfl, u32_of_lt (by omega)]
        omega
      · rw [if_neg fun e => hd e.symm] at hd1
        rw [if_neg hd, if_neg fun e => hd e.symm]
        omega
    · change b' ∈ s1.slabs at hb'
      dsimp only
      rw [hslabs] at hb'
      rw [hin]
      split
      · exact hlast
      · exact hu b' hb'

/-! ### Runs -/

lemma books_step {σ : State} {f : Node → List Node} (h : Books C σ.mem σ.live f)
    (hu : Used σ.mem) {op : Op} (ha : Asks C σ op) :
    ∃ f', Books C (step C σ op).mem (step C σ op).live f' ∧ Used (step C σ op).mem := by
  cases op with
  | alloc r pages =>
    have hrun : (∃ s', r.run C pages σ.mem = (none, s') ∧ Books C s' σ.live f ∧ Used s') ∨
        ∃ a s' f', r.run C pages σ.mem = (some a, s') ∧ Books C s' (⟨a, r.cache⟩ :: σ.live) f' ∧
          Used s' := by
      cases r with
      | bmalloc size =>
        obtain ⟨hc, -, h8⟩ := @bmallocCache_room C size ha.1
        unfold Request.run Slub.bmalloc
        dsimp only
        rw [hc]
        exact books_alloc h hu h8 (ha.2 _)
      | cacheAlloc c => exact books_alloc h hu ha.1 (ha.2 _)
    unfold step
    dsimp only
    rcases hrun with ⟨s', heq, hs'⟩ | ⟨a, s', f', heq, hs'⟩
    · rw [heq]
      exact ⟨f, hs'⟩
    · rw [heq]
      exact ⟨f', hs'⟩
  | free o pages => exact books_free h hu ha.1 ha.2
  | write o links => exact ⟨f, ⟨inv_write h.inv ha.1 ha.2, h.freeObjs⟩, hu⟩

/-- The caches whose statistics begin with zero. -/
lemma books_init {σ : State} (h : (allocator C).init σ) :
    Books C σ.mem σ.live (fun _ => []) ∧ Used σ.mem := by
  obtain ⟨hinit, hcalls, hlive⟩ := id h
  have hslabs := Mem.slabs_nil hcalls
  refine ⟨⟨inv_init h, fun c => ?_⟩, fun b hb => ?_⟩
  · have hc := congrArg (fun s => (s.counters c).freeObjs) (hinit c)
    dsimp only [bmemCacheInit, Mem.count] at hc
    rw [if_pos rfl] at hc
    rw [← hc, hslabs]
    rfl
  · rw [hslabs] at hb
    cases hb

theorem reach_books {σ : State} (h : Reach (allocator C) σ) :
    ∃ f, Books C σ.mem σ.live f ∧ Used σ.mem :=
  h.invariant (P := fun σ => ∃ f, Books C σ.mem σ.live f ∧ Used σ.mem)
    (fun _ hi => ⟨_, books_init hi⟩) fun _ _ hi ha =>
      books_step hi.choose_spec.1 hi.choose_spec.2 ha

/-- What the lists `f` of slabs and objects, the numbers of objects in use and the counters
are to say between two calls, and that `free_page` has been called for every block that the
page allocator gave and that has no object left. -/
structure Bookkeeping (C : Caches) (s : Mem) (live : List Obj) (f : Node → List Node) : Prop where
  list : ∀ g ∈ heads s.slabs, IsList s.links g (f g)
  slab : ∀ g ∈ cacheHeads, ∀ x ∈ f g, ∃ b ∈ s.slabs, x = .page b.page
  home : ∀ b ∈ s.slabs, ∀ g ∈ cacheHeads, .page b.page ∈ f g ↔
    g = .slabsFull b.cache ∧ (s.pageMap b.page).inuse = (C.cache b.cache).nums ∨
      g = .slabsPartial b.cache ∧ 0 < (s.pageMap b.page).inuse ∧
        (s.pageMap b.page).inuse < (C.cache b.cache).nums
  free : ∀ c, f (.slabsFree c) = []
  obj : ∀ b ∈ s.slabs, ∀ x ∈ f (.freelist b.page), ∃ a, x = .obj a ∧ IsObj C b a
  distinct : ∀ b ∈ s.slabs, (f (.freelist b.page)).Nodup
  length : ∀ b ∈ s.slabs, (s.pageMap b.page).inuse ≤ (C.cache b.cache).nums ∧
    (f (.freelist b.page)).length = (C.cache b.cache).nums - (s.pageMap b.page).inuse
  inuse : ∀ b ∈ s.slabs, (s.pageMap b.page).inuse = live.countP fun o => holds b o.addr
  freeObjs : ∀ c, (s.counters c).freeObjs =
    ((s.slabs.filter (·.cache = c)).map fun b => (f (.freelist b.page)).length).sum
  used : ∀ b ∈ s.slabs, ∃ o ∈ live, holds b o.addr
  returned : ∀ later b earlier, s.calls = later ++ .got b :: earlier →
    (∃ o ∈ live, holds b o.addr) ∨ .gave (b.page * pageSize) ∈ later

lemma freeObjs_eq (h : Inv C s live f) (c : ℕ) : freeObjs C s.pageMap c s.slabs =
    ((s.slabs.filter (·.cache = c)).map fun b => (f (.freelist b.page)).length).sum := by
  have hsum : ∀ slabs : List Slab, (∀ b ∈ slabs, b ∈ s.slabs) → freeObjs C s.pageMap c slabs =
      ((slabs.filter (·.cache = c)).map fun b => (f (.freelist b.page)).length).sum := by
    intro slabs hsub
    induction slabs with
    | nil => rfl
    | cons b slabs ih =>
      rw [List.forall_mem_cons] at hsub
      have hcount := h.count b hsub.1
      rw [freeObjs_cons, ih hsub.2, List.filter_cons]
      by_cases hc : b.cache = c
      · rw [if_pos hc, if_pos (decide_eq_true hc), List.map_cons, List.sum_cons]
        omega
      · rw [if_neg hc, if_neg (by simpa using hc), Nat.zero_add]
  exact hsum s.slabs fun _ hb => hb

/-- Between two calls a slab is on the list of the full ones or of the partial ones. -/
lemma home_used (hu : Used s) {b : Slab} (hb : b ∈ s.slabs) :
    SlubInv.home C b (s.pageMap b.page).inuse =
      if (s.pageMap b.page).inuse = (C.cache b.cache).nums then .slabsFull b.cache
      else .slabsPartial b.cache := by
  unfold SlubInv.home
  rw [if_neg (hu b hb)]

lemma listed_used (h : Inv C s live f) (hu : Used s) {b : Slab} (hb : b ∈ s.slabs) {g : Node}
    (hg : g ∈ cacheHeads) : .page b.page ∈ f g ↔
      g = .slabsFull b.cache ∧ (s.pageMap b.page).inuse = (C.cache b.cache).nums ∨
        g = .slabsPartial b.cache ∧ 0 < (s.pageMap b.page).inuse ∧
          (s.pageMap b.page).inuse < (C.cache b.cache).nums := by
  have hcount := h.count b hb
  have hpos := hu b hb
  have hmem : .page b.page ∈ f g ↔ SlubInv.home C b (s.pageMap b.page).inuse = g := by
    rw [h.listed g hg]
    constructor
    · rintro ⟨b', hb', hh, he⟩
      rwa [h.page_inj hb hb' (Node.page.inj he)]
    · exact fun hh => ⟨b, hb, hh, rfl⟩
  rw [hmem, home_used hu hb]
  split
  · next hfull =>
    constructor
    · rintro rfl
      exact Or.inl ⟨rfl, hfull⟩
    · rintro (⟨rfl, -⟩ | ⟨-, -, hlt⟩)
      · rfl
      · omega
  · next hfull =>
    constructor
    · rintro rfl
      exact Or.inr ⟨rfl, by omega, by omega⟩
    · rintro (⟨-, he⟩ | ⟨rfl, -, -⟩)
      · exact absurd he hfull
      · rfl

/-- **The books are kept** in every state between two calls. -/
theorem bookkeeping {σ : State} (h : Reach (allocator C) σ) :
    ∃ f, Bookkeeping C σ.mem σ.live f := by
  obtain ⟨f, hbooks, hused⟩ := reach_books h
  have hinv := hbooks.inv
  have hobj : ∀ b ∈ σ.mem.slabs, ∃ o ∈ σ.live, holds b o.addr := by
    intro b hb
    have hpos : 0 < σ.live.countP fun o => holds b o.addr := by
      rw [hinv.inuse b hb]
      exact Nat.pos_of_ne_zero (hused b hb)
    exact List.countP_pos_iff.mp hpos
  refine ⟨f, fun g hg => hinv.lists.isList g hg, fun g hg x hx => ?_,
    fun b hb g hg => listed_used hinv hused hb hg, fun c => ?_, fun b hb x hx => ?_,
    fun b hb => ?_, fun b hb => ?_, fun b hb => (hinv.inuse b hb).symm, fun c => ?_,
    hobj, fun later b earlier hcalls => (held_or_gave hcalls).imp_left (hobj b)⟩
  · obtain ⟨b, hb, -, rfl⟩ := (hinv.listed g hg x).mp hx
    exact ⟨b, hb, rfl⟩
  · rw [List.eq_nil_iff_forall_not_mem]
    intro x hx
    obtain ⟨b, hb, hh, -⟩ := (hinv.listed _ ⟨c, Or.inr (Or.inr rfl)⟩ x).mp hx
    rw [home_used hused hb] at hh
    split at hh <;> cases hh
  · obtain ⟨a, rfl, ha, -⟩ := (hinv.free b hb x).mp hx
    exact ⟨a, rfl, ha⟩
  · exact (List.nodup_cons.mp (hinv.lists.isList _ (freelist_mem hb)).nodup).2
  · have hcount := hinv.count b hb
    exact ⟨by omega, by omega⟩
  · rw [hbooks.freeObjs, freeObjs_eq hinv]

/-- Two objects of one slab and one of another; the other is given back, and then the first. -/
def takeThree : List Op :=
  [.alloc (.bmalloc 2000) (grantAt 16), .alloc (.bmalloc 2000) (grantAt 17),
    .alloc (.bmalloc 4096) (grantAt 17), .free ⟨0x11000, 9⟩ (grantAt 17),
    .free ⟨0x10000, 8⟩ (grantAt 17)]

lemma takes_takeThree : (allocator bootCaches).Takes ⟨blank, []⟩ takeThree :=
  ⟨⟨show 2000 ≤ 32768 by decide, granted_grantAt (by decide) (by decide) nofun⟩,
    ⟨show 2000 ≤ 32768 by decide,
      granted_grantAt (by decide) (by decide) (by decide +kernel)⟩,
    ⟨show 4096 ≤ 32768 by decide,
      granted_grantAt (by decide) (by decide) (by decide +kernel)⟩,
    ⟨by decide +kernel, releases_grantAt _ 17⟩, ⟨by decide +kernel, releases_grantAt _ 17⟩,
    trivial⟩

/-- One block has gone back, and the other has an object left. -/
theorem bookkeeping_three :
    ((allocator bootCaches).run ⟨blank, []⟩ takeThree).mem.calls =
        [.gave 0x11000, .got ⟨17, 0, 9⟩, .got ⟨16, 0, 8⟩] ∧
      ((allocator bootCaches).run ⟨blank, []⟩ takeThree).live = [⟨0x10800, 8⟩] ∧
      ∃ f, Bookkeeping bootCaches ((allocator bootCaches).run ⟨blank, []⟩ takeThree).mem
        ((allocator bootCaches).run ⟨blank, []⟩ takeThree).live f :=
  ⟨by decide +kernel, by decide +kernel,
    bookkeeping (Reach.run (.init init_blank) takes_takeThree)⟩

end Elfboot.SlubBooks
