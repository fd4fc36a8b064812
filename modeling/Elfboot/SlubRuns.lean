import Elfboot.Run
import Elfboot.SlubOps

/-!
Runs of the slab allocator.

A state is the memory and, as history, the objects handed out and not freed since. Whoever
holds an object may write to it at any time. The page allocator is a new one at every step,
bound by its contract alone.
-/

namespace Elfboot.SlubRuns

open Elfboot.Run Elfboot.Circular Elfboot.Mm Elfboot.Slub Elfboot.SlubInv Elfboot.SlubOps

structure State where
  mem : Mem
  live : List Obj

/-- The calls that allocate. -/
inductive Request
  | bmalloc (size : ℕ)
  | cacheAlloc (c : ℕ)

/-- The cache an object comes from. -/
def Request.cache : Request → ℕ
  | .bmalloc size => (bmallocIndex size).toNat
  | .cacheAlloc c => c

/-- The bytes that are asked for. -/
def Request.size (C : Caches) : Request → ℕ
  | .bmalloc size => size
  | .cacheAlloc c => (C.cache c).size

def Request.run (C : Caches) (pages : Pages) (s : Mem) : Request → Option ℕ × Mem
  | .bmalloc size => Slub.bmalloc C pages s size
  | .cacheAlloc c => bmemCacheAlloc C pages s c

def Request.Ok (C : Caches) : Request → Prop
  | .bmalloc size => size ≤ 32768
  | .cacheAlloc c => 8 ≤ (C.cache c).size

inductive Op
  | alloc (r : Request) (pages : Pages)
  | free (o : Obj) (pages : Pages)
  | write (o : Obj) (links : Links Node)

def step (C : Caches) (σ : State) : Op → State
  | .alloc r pages =>
    match r.run C pages σ.mem with
    | (some a, mem) => ⟨mem, ⟨a, r.cache⟩ :: σ.live⟩
    | (none, mem) => ⟨mem, σ.live⟩
  | .free o pages => ⟨bfree C pages σ.mem o.addr, σ.live.erase o⟩
  | .write _ links => ⟨{ σ.mem with links }, σ.live⟩

/-- `alloc_pages` keeps to its contract, whatever it is asked for. -/
def Granted (s : Mem) (pages : Pages) : Prop :=
  ∀ order, Grants s order (pages.alloc order s.pageMap s.links)

def Asks (C : Caches) (σ : State) : Op → Prop
  | .alloc r pages => r.Ok C ∧ Granted σ.mem pages
  | .free o pages => o ∈ σ.live ∧ Releases σ.mem.slabs pages
  | .write o links => o ∈ σ.live ∧ Within o.addr (C.cache o.cache).size σ.mem.links links

/-- The slab allocator, from the initialization of its caches on. -/
def allocator (C : Caches) : System State Op where
  init σ := (∀ c, bmemCacheInit σ.mem c = σ.mem) ∧ σ.mem.calls = [] ∧ σ.live = []
  pre := Asks C
  step := step C

variable {C : Caches} {σ : State} {pages : Pages} {r : Request}

/-! ### The invariant in every run -/

lemma inv_init (h : (allocator C).init σ) : Inv C σ.mem σ.live fun _ => [] := by
  obtain ⟨hinit, hcalls, hlive⟩ := h
  have hslabs := Mem.slabs_nil hcalls
  have hself : ∀ g ∈ heads σ.mem.slabs, σ.mem.links.next g = g ∧ σ.mem.links.prev g = g := by
    rw [hslabs]
    rintro g (⟨c, hg⟩ | ⟨b, hb, -⟩)
    · have hc := congrArg Mem.links (hinit c)
      rw [← hc]
      rcases hg with rfl | rfl | rfl <;> simp [bmemCacheInit, listInit]
    · cases hb
  have hlists : Lists σ.mem.links (heads σ.mem.slabs) fun _ => [] := by
    constructor
    · exact fun g hg => ⟨List.nodup_singleton g, hself g hg⟩
    · intro g _ k _ hne
      simpa using hne.symm
  refine ⟨hlists, ?_, ?_, ?_, ?_, ?_, ?_, ?_, ?_⟩
  all_goals simp [hslabs, hlive]

lemma request_spec {f : Node → List Node} (h : Inv C σ.mem σ.live f) (hr : r.Ok C)
    (hp : Granted σ.mem pages) :
    r.size C ≤ (C.cache r.cache).size ∧
      ((∃ s', r.run C pages σ.mem = (none, s') ∧ Inv C s' σ.live f) ∨
        ∃ a s' f', r.run C pages σ.mem = (some a, s') ∧ Inv C s' (⟨a, r.cache⟩ :: σ.live) f') := by
  cases r with
  | bmalloc size =>
      obtain ⟨hc, hroom, h8⟩ := @bmallocCache_room C size hr
      refine ⟨hroom, ?_⟩
      unfold Request.run Slub.bmalloc
      dsimp only
      rw [hc]
      exact bmemCacheAlloc_spec h h8 (hp _)
  | cacheAlloc c => exact ⟨le_rfl, bmemCacheAlloc_spec h hr (hp _)⟩

lemma inv_step {f : Node → List Node} (h : Inv C σ.mem σ.live f) {op : Op} (ha : Asks C σ op) :
    ∃ f', Inv C (step C σ op).mem (step C σ op).live f' := by
  cases op with
  | alloc r pages =>
      rcases (request_spec h ha.1 ha.2).2 with ⟨s', heq, hi⟩ | ⟨a, s', f', heq, hi⟩
      · unfold step
        dsimp only
        rw [heq]
        exact ⟨f, hi⟩
      · unfold step
        dsimp only
        rw [heq]
        exact ⟨f', hi⟩
  | free o pages => exact bfree_spec h ha.1 ha.2
  | write o links => exact ⟨f, inv_write h ha.1 ha.2⟩

theorem reach_inv (h : Reach (allocator C) σ) : ∃ f, Inv C σ.mem σ.live f :=
  h.invariant (P := fun σ => ∃ f, Inv C σ.mem σ.live f) (fun _ hi => ⟨_, inv_init hi⟩)
    fun _ _ hi ha => inv_step hi.choose_spec ha

/-- **Objects never overlap**: an object that is handed out shares no byte with one still
held, lies in one slab of its cache, is aligned to its size if that is at most a page, and
has room for what was asked for. -/
theorem alloc_apart (h : Reach (allocator C) σ) (hr : r.Ok C) (hp : Granted σ.mem pages) {p : ℕ}
    (ha : (r.run C pages σ.mem).1 = some p) :
    (∀ o ∈ σ.live,
        o.addr + (C.cache o.cache).size ≤ p ∨ p + (C.cache r.cache).size ≤ o.addr) ∧
      (∃ b ∈ (r.run C pages σ.mem).2.slabs, b.cache = r.cache ∧
        b.page * pageSize ≤ p ∧
          p + (C.cache r.cache).size ≤ (b.page + 2 ^ b.order) * pageSize) ∧
      ((C.cache r.cache).size ≤ pageSize → (C.cache r.cache).size ∣ p) ∧
      r.size C ≤ (C.cache r.cache).size := by
  obtain ⟨f, hi⟩ := reach_inv h
  obtain ⟨hroom, ⟨s', heq, -⟩ | ⟨a, s', f', heq, hi'⟩⟩ := request_spec hi hr hp
  · rw [heq] at ha
    cases ha
  rw [heq] at ha ⊢
  cases ha
  obtain ⟨b, hb, hc, hobj⟩ := hi'.held ⟨p, r.cache⟩ (List.mem_cons_self ..)
  dsimp only at hc hobj
  have hnd := hi'.nodup
  rw [List.map_cons, List.nodup_cons] at hnd
  refine ⟨fun o ho => ?_, ⟨b, hb, hc, ?_⟩, fun hle => ?_, hroom⟩
  · obtain ⟨b', hb', hc', hobj'⟩ := hi'.held o (List.mem_cons_of_mem _ ho)
    rw [← hc, ← hc']
    refine hi'.objs_apart hb' hb hobj' hobj ?_
    intro he
    exact hnd.1 (List.mem_map.mpr ⟨o, ho, he⟩)
  · rw [← hc]
    exact hobj.inside (hi'.slab b hb).order
  · obtain ⟨i, -, rfl⟩ := hobj
    have hdvd := (sized (C.cache r.cache)).divides hle
    unfold objAddr
    rw [hc]
    exact dvd_add (hdvd.mul_left _) (dvd_mul_right _ _)

/-! ### Two objects -/

/-- The caches of `bmalloc_init`, and behind them caches of eight bytes. -/
def bootCaches : Caches where
  cache i := if h : i < kmallocCacheNum then bmallocCreateCache i h
    else if i = kmallocCacheNum then bmemCacheCreate 64 none else bmemCacheCreate 8 none
  bmalloc i h := by rw [dif_pos h]; rfl

/-- A page allocator that has the block of the given page. -/
def grantAt (p : ℕ) : Pages where
  alloc order pageMap links :=
    if order < 9 then
      (some p, fun q => if p ≤ q ∧ q < p + 2 ^ order then
        { pageMap q with compoundHead := p, paddr := q * pageSize } else pageMap q, links)
    else (none, pageMap, links)
  free _ pageMap links := (pageMap, links)

lemma granted_grantAt {s : Mem} {p : ℕ} (h0 : 0 < p) (hp : p ≤ 2 ^ 10)
    (hs : ∀ b ∈ s.slabs, b.page + 2 ^ b.order ≤ p) : Granted s (grantAt p) := by
  intro order
  unfold grantAt
  dsimp only
  by_cases ho : order < 9
  · have hpow : 2 ^ order < 2 ^ 9 := Nat.pow_lt_pow_right (by decide) ho
    have hpos := Nat.two_pow_pos order
    rw [if_pos ho]
    refine ⟨⟨fun b hb q hq => ?_, fun _ _ => ⟨rfl, rfl⟩⟩, ?_, ?_, ?_, ?_, ?_⟩
    · have hb := hs b hb
      have hq2 := hq.2
      exact if_neg (by omega)
    all_goals
      intro q hq
      cases hq
    · exact h0
    · omega
    · exact fun c b hb => Or.inr (hs b hb)
    · exact fun c q hq => congrArg Page.compoundHead (if_pos hq)
    · exact congrArg Page.paddr (if_pos ⟨le_rfl, by omega⟩)
  · rw [if_neg ho]
    refine ⟨⟨fun _ _ _ _ => rfl, fun _ _ => ⟨rfl, rfl⟩⟩, ?_, ?_, ?_, ?_, ?_⟩
    all_goals
      intro q hq
      cases hq

lemma releases_grantAt (slabs : List Slab) (p : ℕ) : Releases slabs (grantAt p) :=
  fun _ _ _ => ⟨fun _ _ _ _ => rfl, fun _ _ => ⟨rfl, rfl⟩⟩

/-- A memory with every node a list of its own. -/
def blank : Mem where
  pageMap _ := ⟨0, 0, 0, 0⟩
  links := ⟨id, id⟩
  counters _ := ⟨0, 0, 0⟩
  calls := []

lemma init_blank : (allocator bootCaches).init ⟨blank, []⟩ := by
  have hself : ∀ h, listInit blank.links h = blank.links := by
    intro h
    unfold listInit Links.setPrev Links.setNext
    congr 1 <;> funext x <;> dsimp only [blank, id] <;> split_ifs with hx <;> simp [hx]
  refine ⟨fun c => ?_, rfl, rfl⟩
  unfold bmemCacheInit
  rw [hself, hself, hself]
  dsimp only [Mem.count]
  congr 1
  funext d
  split_ifs <;> rfl

theorem alloc_apart_two :
    (∀ o ∈ ((allocator bootCaches).run ⟨blank, []⟩ [.alloc (.bmalloc 4096) (grantAt 16)]).live,
        o.addr + (bootCaches.cache o.cache).size ≤ 0x14000 ∨ 0x14000 + 2048 ≤ o.addr) ∧
      2000 ≤ (bootCaches.cache 8).size := by
  have h0 : Granted blank (grantAt 16) := granted_grantAt (by decide) (by decide) nofun
  have hr : Reach (allocator bootCaches)
      ((allocator bootCaches).run ⟨blank, []⟩ [.alloc (.bmalloc 4096) (grantAt 16)]) :=
    Reach.run (.init init_blank) ⟨⟨show 4096 ≤ 32768 by decide, h0⟩, trivial⟩
  have hroom : (Request.bmalloc 2000).Ok bootCaches := show 2000 ≤ 32768 by decide
  have hgrant := granted_grantAt (p := 20)
    (s := ((allocator bootCaches).run ⟨blank, []⟩ [.alloc (.bmalloc 4096) (grantAt 16)]).mem)
    (by decide) (by decide) (by decide +kernel)
  have h1 := alloc_apart hr hroom hgrant (p := 0x14000) (by decide +kernel)
  exact ⟨h1.1, h1.2.2.2⟩

end Elfboot.SlubRuns
