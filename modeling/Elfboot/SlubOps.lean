import Elfboot.SlubInv

/-!
What the operations of the slab allocator do to its invariant.

Taking an object off a slab and giving one back both change the number of objects in use of
one slab, and with it the list the slab belongs on. Growing a cache adds a slab, and giving
the last object back takes one away.
-/

namespace Elfboot.SlubOps

open Elfboot.Circular Elfboot.Word Elfboot.Mm Elfboot.Slub Elfboot.SlubInv

variable {C : Caches} {s s' : Mem} {live live' : List Obj} {f f' : Node → List Node}
variable {b b' : Slab} {o : Obj} {a c n : ℕ} {pages : Pages}

/-! ### What the page allocator leaves alone -/

/-- A state of the pages that differs outside the blocks of the slabs only. -/
structure Frame (slabs : List Slab) (pageMap : ℕ → Page) (links : Links Node)
    (pageMap' : ℕ → Page) (links' : Links Node) : Prop where
  pageMap : ∀ b ∈ slabs, ∀ q, Owns b q → pageMap' q = pageMap q
  links : ∀ x, (∀ q, x = .page q → ∃ b ∈ slabs, Owns b q) →
    links'.next x = links.next x ∧ links'.prev x = links.prev x

/-- `alloc_pages` keeps to its contract: no block, or one that shares no page with the blocks
not freed yet, and the heads of its pages set. -/
structure Grants (s : Mem) (order : ℕ) (r : Option ℕ × (ℕ → Page) × Links Node) : Prop where
  frame : Frame s.slabs s.pageMap s.links r.2.1 r.2.2
  pos : ∀ p, r.1 = some p → 0 < p
  bound : ∀ p, r.1 = some p → p + 2 ^ order ≤ 2 ^ 20
  apart : ∀ p, r.1 = some p → ∀ c, ∀ b ∈ s.slabs, Apart ⟨p, order, c⟩ b
  head : ∀ p, r.1 = some p → ∀ c q, Owns ⟨p, order, c⟩ q → (r.2.1 q).compoundHead = p
  paddr : ∀ p, r.1 = some p → (r.2.1 p).paddr = p * pageSize

/-- The blocks left when the one at an address is freed. -/
def others (slabs : List Slab) (addr : ℕ) : List Slab :=
  slabs.filter fun b => b.page * pageSize ≠ addr

/-- `free_page` leaves the other blocks alone. -/
def Releases (slabs : List Slab) (pages : Pages) : Prop :=
  ∀ addr pageMap links, Frame (others slabs addr) pageMap links
    (pages.free addr pageMap links).1 (pages.free addr pageMap links).2

lemma lists_frame {slabs : List Slab} {L L' : Links Node} {pageMap pageMap' : ℕ → Page}
    (hl : Lists L (heads slabs) f)
    (hf : Frame slabs pageMap L pageMap' L')
    (hp : ∀ g ∈ heads slabs, ∀ q, .page q ∈ f g → ∃ b ∈ slabs, q = b.page) :
    Lists L' (heads slabs) f := by
  refine hl.congr fun g hg x hx => hf.links x ?_
  rintro q rfl
  rcases List.mem_cons.mp hx with rfl | hx
  · exact absurd hg (page_not_head q slabs)
  · obtain ⟨b, hb, rfl⟩ := hp g hg q hx
    exact ⟨b, hb, owns_self b⟩

lemma inv_frame (h : Inv C s live f) (hs : s'.slabs = s.slabs)
    (hf : Frame s.slabs s.pageMap s.links s'.pageMap s'.links) : Inv C s' live f := by
  have hmap : ∀ b ∈ s.slabs, s'.pageMap b.page = s.pageMap b.page := fun b hb =>
    hf.pageMap b hb _ (owns_self b)
  refine ⟨?_, ?_, ?_, ?_, ?_, ?_, ?_, h.nodup, ?_⟩
  all_goals rw [hs]
  · refine lists_frame h.lists hf fun g hg q hq => ?_
    rcases h.entry hg hq with ⟨b, hb, hx⟩ | ⟨b, hb, a, hx, -⟩
    · cases hx
      exact ⟨b, hb, rfl⟩
    · cases hx
  · exact fun b hb => (h.slab b hb).congr fun q hq => ⟨_, by rw [hf.pageMap b hb q hq]⟩
  · exact h.apart
  · intro g hg x
    rw [h.listed g hg x]
    refine exists_congr fun b => and_congr_right fun hb => ?_
    rw [hmap b hb]
  · exact h.free
  · intro b hb
    rw [hmap b hb]
    exact h.count b hb
  · exact h.held
  · intro b hb
    rw [hmap b hb]
    exact h.inuse b hb

/-! ### One slab changes -/

lemma inv_change (h : Inv C s live f) (hb : b ∈ s.slabs) (hobj : IsObj C b a) (n : ℕ)
    (hs : s'.slabs = s.slabs)
    (hmap : ∀ q, s'.pageMap q = if q = b.page then { s.pageMap q with inuse := n } else s.pageMap q)
    (hl : Lists s'.links (heads s.slabs) f')
    (hlisted : ∀ g ∈ cacheHeads, ∀ x,
      x ∈ f' g ↔ if x = .page b.page then g = home C b n else x ∈ f g)
    (hother : ∀ b' ∈ s.slabs, b' ≠ b → f' (.freelist b'.page) = f (.freelist b'.page))
    (hfree : ∀ x, x ∈ f' (.freelist b.page) ↔
      ∃ a, x = .obj a ∧ IsObj C b a ∧ a ∉ live'.map Obj.addr)
    (hcount : n + (f' (.freelist b.page)).length = (C.cache b.cache).nums)
    (hheld : ∀ o ∈ live', ∃ b ∈ s.slabs, b.cache = o.cache ∧ IsObj C b o.addr)
    (hnodup : (live'.map Obj.addr).Nodup)
    (hmem : ∀ a', a' ≠ a → (a' ∈ live'.map Obj.addr ↔ a' ∈ live.map Obj.addr))
    (hin : live'.countP (fun o => holds b o.addr) = n)
    (hout : ∀ b', holds b' a = false →
      live'.countP (fun o => holds b' o.addr) = live.countP (fun o => holds b' o.addr)) :
    Inv C s' live' f' := by
  have hself : (s'.pageMap b.page).inuse = n := by rw [hmap, if_pos rfl]
  have hne : ∀ b' ∈ s.slabs, b' ≠ b → (s'.pageMap b'.page).inuse = (s.pageMap b'.page).inuse := by
    intro b' hb' hbb
    rw [hmap, if_neg fun he => hbb (h.page_inj hb' hb he)]
  refine ⟨hs ▸ hl, ?_, hs ▸ h.apart, ?_, ?_, ?_, hs ▸ hheld, hnodup, ?_⟩
  all_goals rw [hs]
  · refine fun b' hb' => (h.slab b' hb').congr fun q _ => ?_
    rw [hmap]
    split
    · exact ⟨n, rfl⟩
    · exact ⟨_, rfl⟩
  · intro g hg x
    rw [hlisted g hg x]
    split
    · next hx =>
      subst hx
      constructor
      · rintro rfl
        exact ⟨b, hb, by rw [hself], rfl⟩
      · rintro ⟨b', hb', hh, hx⟩
        obtain rfl := h.page_inj hb hb' (by simpa using hx)
        rw [← hh, hself]
    · next hx =>
      rw [h.listed g hg x]
      refine exists_congr fun b' => and_congr_right fun hb' => and_congr_left fun hx' => ?_
      have hbb : b' ≠ b := by
        rintro rfl
        exact hx hx'
      rw [hne b' hb' hbb]
  · intro b' hb' x
    by_cases hbb : b' = b
    · subst hbb
      exact hfree x
    · rw [hother b' hb' hbb, h.free b' hb' x]
      refine exists_congr fun a' => and_congr_right fun _ => and_congr_right fun ha' => ?_
      rw [hmem]
      rintro rfl
      exact hbb (h.slab_unique hb' hb ha' hobj)
  · intro b' hb'
    by_cases hbb : b' = b
    · subst hbb
      rw [hself]
      exact hcount
    · rw [hne b' hb' hbb, hother b' hb' hbb]
      exact h.count b' hb'
  · intro b' hb'
    by_cases hbb : b' = b
    · subst hbb
      rw [hself]
      exact hin
    · rw [hne b' hb' hbb, ← h.inuse b' hb']
      exact hout b' ((h.apart_of hb hb' (Ne.symm hbb)).not_holds (h.holds_obj hb hobj))

/-! ### Writing to an object -/

/-- A free object is at least eight bytes from any other, so that what is written to that one
is not in its node. -/
lemma lists_within (h : Inv C s live f) (hb : b ∈ s.slabs) (ha : IsObj C b a)
    {L L' : Links Node} (hl : Lists L (heads s.slabs) f')
    (hsub : ∀ g ∈ heads s.slabs, ∀ x ∈ f' g, x ∈ f g ∧ x ≠ .obj a)
    (hw : Within a (C.cache b.cache).size L L') : Lists L' (heads s.slabs) f' := by
  refine hl.congr fun g hg x hx => hw x ?_
  rintro a' rfl
  rcases List.mem_cons.mp hx with rfl | hx
  · exact absurd hg (obj_not_head a' _)
  · obtain ⟨hx, hne⟩ := hsub g hg _ hx
    rcases h.entry hg hx with ⟨b', -, hx⟩ | ⟨b', hb', a'', hx, ha'', -⟩
    · cases hx
    · cases hx
      have h8 := (h.slab b' hb').large
      rcases h.objs_apart hb' hb ha'' ha fun e => hne (e ▸ rfl) with hle | hle
      · exact Or.inl (by omega)
      · exact Or.inr hle

/-- Whoever holds an object writes to it. -/
lemma inv_write (h : Inv C s live f) (ho : o ∈ live) {L : Links Node}
    (hw : Within o.addr (C.cache o.cache).size s.links L) : Inv C { s with links := L } live f := by
  obtain ⟨b, hb, hc, hobj⟩ := h.held o ho
  have hl : Lists L (heads s.slabs) f := by
    refine lists_within h hb hobj h.lists (fun g hg x hx => ⟨hx, ?_⟩) (hc ▸ hw)
    rintro rfl
    rcases h.entry hg hx with ⟨b', -, hx⟩ | ⟨b', hb', a', hx, -, hnot⟩
    · cases hx
    · cases hx
      exact hnot (List.mem_map_of_mem ho)
  exact ⟨hl, h.slab, h.apart, h.listed, h.free, h.count, h.held, h.nodup, h.inuse⟩

lemma inv_count (h : Inv C s live f) (c : ℕ) (g : Counters → Counters) :
    Inv C (s.count c g) live f :=
  ⟨h.lists, h.slab, h.apart, h.listed, h.free, h.count, h.held, h.nodup, h.inuse⟩

/-! ### Taking an object -/

lemma fetch_eq (h : Inv C s live f) (hb : b ∈ s.slabs)
    (hlt : (s.pageMap b.page).inuse < (C.cache b.cache).nums) :
    ∃ a rest, f (.freelist b.page) = .obj a :: rest ∧ freelistFirst s b.page = some a := by
  have hlen := h.count b hb
  have hfirst := h.lists.first (freelist_mem hb)
  obtain ⟨x, rest, hx⟩ := List.exists_cons_of_length_pos (l := f (.freelist b.page)) (by omega)
  obtain ⟨a, rfl, -⟩ := (h.free b hb x).mp (by rw [hx]; simp)
  refine ⟨a, rest, hx, ?_⟩
  unfold freelistFirst
  rw [hfirst, hx]
  rfl

/-- The state after a constructor, as one of the links. -/
lemma runCtor_eq (C : Caches) (s : Mem) (c objp : ℕ) :
    ∃ L, runCtor C s c objp = { s with links := L } ∧
      Within objp (C.cache c).size s.links L := by
  unfold runCtor
  cases (C.cache c).ctor with
  | none => exact ⟨s.links, rfl, fun _ _ => ⟨rfl, rfl⟩⟩
  | some ctor => exact ⟨_, rfl, ctor.within objp s.links⟩

/-- Where the slab goes when its number of objects in use is at least one. -/
lemma fixup_eq (C : Caches) (s : Mem) (b : Slab) (h : 0 < (s.pageMap b.page).inuse) :
    bmemCacheFixup C s b.cache b.page =
      { s with
        links := listMove .null s.links (.page b.page) (home C b (s.pageMap b.page).inuse) } := by
  unfold bmemCacheFixup home listMove
  dsimp only
  split_ifs with h1 h2
  · rfl
  · omega
  · rfl

/-- The step, as what it does to the pages and to the links. -/
lemma allocObject_eq {b : Slab} (hfirst : freelistFirst s b.page = some a)
    (hlt : (s.pageMap b.page).inuse + 1 < 2 ^ 32) :
    ∃ s', bmemCacheAllocObject C s b.cache b.page = (some a, s') ∧ s'.slabs = s.slabs ∧
      (∀ d, (s'.counters d).freeObjs = if d = b.cache then sub32 (s.counters d).freeObjs 1
        else (s.counters d).freeObjs) ∧
      (∀ q, s'.pageMap q = if q = b.page then
        { s.pageMap q with inuse := (s.pageMap b.page).inuse + 1 } else s.pageMap q) ∧
      ∃ L, Within a (C.cache b.cache).size (listDel .null s.links (.obj a)) L ∧
        s'.links = listMove .null L (.page b.page) (home C b ((s.pageMap b.page).inuse + 1)) := by
  have hu := u32_of_lt hlt
  unfold bmemCacheAllocObject bmemCacheFetch
  rw [hfirst]
  dsimp only
  generalize hs1 : Mem.setPage _ _ _ = s1
  obtain ⟨L, hL, hw⟩ := runCtor_eq C s1 b.cache a
  have hin : (s1.pageMap b.page).inuse = (s.pageMap b.page).inuse + 1 := by
    rw [← hs1, ← hu]
    exact congrArg Page.inuse (if_pos rfl)
  rw [hL, fixup_eq C _ b (by change 0 < (s1.pageMap b.page).inuse; omega)]
  refine ⟨_, rfl, ?_, ?_, ?_, L, ?_, ?_⟩
  · rw [← hs1]
    rfl
  · intro d
    subst hs1
    dsimp only [Mem.count, Mem.setPage]
    split_ifs <;> rfl
  · intro q
    subst hs1
    dsimp only [Mem.count, Mem.setPage]
    split_ifs with hq
    · rw [hq, hu]
    · rfl
  · rw [← hs1] at hw
    exact hw
  · change listMove .null L _ (home C b (s1.pageMap b.page).inuse) = _
    rw [hin]

/-- The links once an object is off its freelist and has been written to. -/
lemma lists_take (h : Inv C s live f) (hb : b ∈ s.slabs) (hobj : IsObj C b a) {rest : List Node}
    (hcons : f (.freelist b.page) = .obj a :: rest) {L : Links Node}
    (hw : Within a (C.cache b.cache).size (listDel .null s.links (.obj a)) L) :
    Lists L (heads s.slabs) (Function.update f (.freelist b.page) rest) := by
  have hfm := freelist_mem hb
  have hnd := (List.nodup_cons.mp (h.lists.isList _ hfm).nodup).2
  rw [hcons, List.nodup_cons] at hnd
  have hdel := h.lists.del .null hfm (n := .obj a) (by rw [hcons]; simp)
  rw [hcons, List.erase_cons_head] at hdel
  refine lists_within h hb hobj hdel (fun g hg x hx => ?_) hw
  by_cases hgb : g = .freelist b.page
  · subst hgb
    rw [Function.update_self] at hx
    refine ⟨by rw [hcons]; exact List.mem_cons_of_mem _ hx, ?_⟩
    rintro rfl
    exact hnd.1 hx
  · rw [Function.update_of_ne hgb] at hx
    refine ⟨hx, ?_⟩
    rintro rfl
    exact h.lists.apart g hg _ hfm hgb (List.mem_cons_of_mem _ hx) (by rw [hcons]; simp)

/-- **An object is taken off a slab** that has one left: it is one that nobody holds. -/
theorem allocObject_spec (h : Inv C s live f) (hb : b ∈ s.slabs)
    (hlt : (s.pageMap b.page).inuse < (C.cache b.cache).nums) :
    ∃ a s' f', bmemCacheAllocObject C s b.cache b.page = (some a, s') ∧ s'.slabs = s.slabs ∧
      IsObj C b a ∧ a ∉ live.map Obj.addr ∧ Inv C s' (⟨a, b.cache⟩ :: live) f' := by
  obtain ⟨a, rest, hcons, hfirst⟩ := fetch_eq h hb hlt
  obtain ⟨a', ha', hobj, hnot⟩ := (h.free b hb (.obj a)).mp (by rw [hcons]; simp)
  cases ha'
  have hnums := (sized (C.cache b.cache)).nums_le
  have hlen := h.count b hb
  rw [hcons, List.length_cons] at hlen
  have hfm := freelist_mem hb
  have hnd := (List.nodup_cons.mp (h.lists.isList _ hfm).nodup).2
  rw [hcons, List.nodup_cons] at hnd
  obtain ⟨s', heq, hs, -, hmap, L, hw, hlinks⟩ := allocObject_eq (C := C) (b := b) hfirst
    (by change (C.cache b.cache).nums ≤ 2 ^ 12 at hnums; omega)
  -- the object leaves the freelist, the constructor writes to it, and the slab moves
  have htake := lists_take h hb hobj hcons hw
  set f1 := Function.update f (.freelist b.page) rest with hf1
  have hf1b : f1 (.freelist b.page) = rest := Function.update_self _ _ _
  have hf1off : ∀ g, g ≠ .freelist b.page → f1 g = f g := fun g hg => Function.update_of_ne hg _ _
  have hpage : Node.page b.page ∈ f1 (home C b (s.pageMap b.page).inuse) := by
    rw [hf1off _ (home_ne_freelist _ _)]
    exact h.page_mem hb
  obtain ⟨f2, hl2, hmem2, hoff2⟩ := htake.move .null
    (cacheHeads_sub _ (home_mem b _)) hpage
    (cacheHeads_sub s.slabs (home_mem (C := C) b ((s.pageMap b.page).inuse + 1)))
  have hfree2 : ∀ p, f2 (.freelist p) = f1 (.freelist p) := fun p =>
    hoff2 _ (home_ne_freelist _ p).symm (home_ne_freelist _ p).symm
  refine ⟨a, s', f2, heq, hs, hobj, hnot, ?_⟩
  refine inv_change h hb hobj ((s.pageMap b.page).inuse + 1) hs hmap (hlinks ▸ hl2) ?_ ?_ ?_ ?_ ?_
    ?_ ?_ ?_ ?_
  · intro g hg x
    rw [hmem2 g (cacheHeads_sub _ hg) x, hf1off g fun e => freelist_not_cacheHead _ (e ▸ hg)]
  · intro b' hb' hbb
    rw [hfree2, hf1off]
    intro e
    exact hbb (h.page_inj hb' hb (by simpa using e))
  · intro x
    have hx := h.free b hb x
    rw [hcons, List.mem_cons] at hx
    rw [hfree2, hf1b, List.map_cons]
    constructor
    · intro hr
      obtain ⟨a', rfl, ha', hn'⟩ := hx.mp (Or.inr hr)
      refine ⟨a', rfl, ha', ?_⟩
      rw [List.mem_cons, not_or]
      refine ⟨?_, hn'⟩
      rintro rfl
      exact hnd.1 hr
    · rintro ⟨a', rfl, ha', hn'⟩
      rw [List.mem_cons, not_or] at hn'
      rcases hx.mpr ⟨a', rfl, ha', hn'.2⟩ with he | hr
      · cases he
        exact absurd rfl hn'.1
      · exact hr
  · rw [hfree2, hf1b]
    omega
  · intro o ho
    rcases List.mem_cons.mp ho with rfl | ho
    · exact ⟨b, hb, rfl, hobj⟩
    · exact h.held o ho
  · rw [List.map_cons]
    exact List.nodup_cons.mpr ⟨hnot, h.nodup⟩
  · intro a' hne
    rw [List.map_cons, List.mem_cons]
    exact or_iff_right hne
  · rw [List.countP_cons_of_pos, h.inuse b hb]
    exact h.holds_obj hb hobj
  · intro b' hb'
    rw [List.countP_cons_of_neg (by simp [hb'])]

/-! ### Growing a cache -/

lemma objAddr_lt {i j : ℕ} (h : i < j) : objAddr C b i < objAddr C b j :=
  Nat.add_lt_add_left (Nat.mul_lt_mul_of_pos_left h (sized _).pos) _

/-- The address that the loop of `bmem_cache_setup` computes does not wrap. -/
lemma u32_objAddr (ho : b.order = (C.cache b.cache).order) (hbound : b.page + 2 ^ b.order ≤ 2 ^ 20)
    (hn : n < (C.cache b.cache).nums) :
    u32 (b.page * pageSize + (C.cache b.cache).size * n) = objAddr C b n := by
  have hobj : IsObj C b (objAddr C b n) := ⟨n, hn, rfl⟩
  have hin := hobj.inside ho
  have hmul := Nat.mul_le_mul_right pageSize hbound
  have hpos := (sized (C.cache b.cache)).pos
  exact u32_of_lt (by change objAddr C b n < 2 ^ 32; change _ ≤ 2 ^ 32 at hmul; omega)

/-- The loop that links the objects of a new slab to its freelist. -/
lemma setupLoop_lists {L : Links Node} {hs : Set Node} {g : Node → List Node} (hl : Lists L hs g)
    (hp : .freelist b.page ∈ hs) (h0 : g (.freelist b.page) = [])
    (ho : b.order = (C.cache b.cache).order) (hbound : b.page + 2 ^ b.order ≤ 2 ^ 20)
    (hfresh : ∀ a, IsObj C b a → Fresh hs g (.obj a)) :
    ∀ n ≤ (C.cache b.cache).nums,
      Lists (setupLoop (b.page * pageSize) (C.cache b.cache).size b.page n L) hs
        (Function.update g (.freelist b.page) ((List.range n).map fun i => .obj (objAddr C b i)))
  | 0, _ => by
    rw [List.range_zero, List.map_nil, ← h0, Function.update_eq_self]
    exact hl
  | n + 1, hn => by
    have ih := setupLoop_lists hl hp h0 ho hbound hfresh n (by omega)
    have hobj : IsObj C b (objAddr C b n) := ⟨n, hn, rfl⟩
    have haddr := u32_objAddr ho hbound hn
    have hfr : Fresh hs (Function.update g (.freelist b.page)
        ((List.range n).map fun i => .obj (objAddr C b i))) (.obj (objAddr C b n)) := by
      intro k hk hmem
      rcases List.mem_cons.mp hmem with rfl | hmem
      · exact hfresh _ hobj _ hk (by simp)
      · by_cases hkb : k = .freelist b.page
        · subst hkb
          rw [Function.update_self, List.mem_map] at hmem
          obtain ⟨i, hi, he⟩ := hmem
          have hlt := objAddr_lt (C := C) (b := b) (List.mem_range.mp hi)
          have heq := Node.obj.inj he
          omega
        · rw [Function.update_of_ne hkb] at hmem
          exact hfresh _ hobj k hk (List.mem_cons_of_mem _ hmem)
    have hadd := ih.addTail hp hfr
    rw [Function.update_self, Function.update_idem] at hadd
    unfold setupLoop
    rw [haddr, List.range_succ, List.map_append, List.map_singleton]
    exact hadd

lemma heads_cons (b : Slab) (slabs : List Slab) :
    heads (b :: slabs) = insert (.freelist b.page) (heads slabs) := by
  ext x
  constructor
  · rintro (hx | ⟨b', hb', rfl⟩)
    · exact Or.inr (Or.inl hx)
    · rcases List.mem_cons.mp hb' with rfl | hb'
      · exact Or.inl rfl
      · exact Or.inr (freelist_mem hb')
  · rintro (rfl | hx | ⟨b', hb', rfl⟩)
    · exact freelist_mem (List.mem_cons_self ..)
    · exact Or.inl hx
    · exact freelist_mem (List.mem_cons_of_mem _ hb')

/-- A slab with all of its objects free is added. -/
lemma inv_add (h : Inv C s live f) (hb : SlabOk C s'.pageMap b) (hap : ∀ b' ∈ s.slabs, Apart b b')
    (hs : s'.slabs = b :: s.slabs)
    (hmap : ∀ q, q ≠ b.page → s'.pageMap q = s.pageMap q)
    (h0 : (s'.pageMap b.page).inuse = 0)
    (hl : Lists s'.links (heads (b :: s.slabs)) f')
    (hfree : f' (.freelist b.page) =
      (List.range (C.cache b.cache).nums).map fun i => .obj (objAddr C b i))
    (hlist : f' (.slabsFree b.cache) = .page b.page :: f (.slabsFree b.cache))
    (hoff : ∀ g, g ≠ .freelist b.page → g ≠ .slabsFree b.cache → f' g = f g) :
    Inv C s' live f' := by
  have hnums := (sized (C.cache b.cache)).nums_pos
  have hhome : home C b 0 = .slabsFree b.cache := by
    unfold home
    rw [if_neg (by omega), if_pos rfl]
  have hold : ∀ b' ∈ s.slabs, b'.page ≠ b.page := fun b' hb' => (hap b' hb').page_ne.symm
  have hnone : ∀ o ∈ live, holds b o.addr = false := by
    intro o ho
    obtain ⟨b', hb', -, hobj⟩ := h.held o ho
    exact (hap b' hb').symm.not_holds (h.holds_obj hb' hobj)
  refine ⟨hs ▸ hl, ?slab, ?apart, ?listed, ?free, ?count, ?held, h.nodup, ?inuse⟩
  all_goals rw [hs]
  case slab =>
    intro b' hb'
    rcases List.mem_cons.mp hb' with rfl | hb'
    · exact hb
    · refine (h.slab b' hb').congr fun q hq => ⟨(s.pageMap q).inuse, ?_⟩
      rw [hmap]
      rintro rfl
      exact (hap b' hb').not_owns (owns_self b) hq
  case apart => exact List.pairwise_cons.mpr ⟨hap, h.apart⟩
  case listed =>
    -- the new slab is at home on the list of the free ones, the others where they were
    intro g hg x
    have hgf : g ≠ .freelist b.page := by
      rintro rfl
      exact freelist_not_cacheHead _ hg
    have hold' : (∃ b' ∈ s.slabs, home C b' (s'.pageMap b'.page).inuse = g ∧ x = .page b'.page) ↔
        x ∈ f g := by
      rw [h.listed g hg x]
      refine exists_congr fun b' => and_congr_right fun hb' => ?_
      rw [hmap _ (hold b' hb')]
    rw [List.exists_mem_cons_iff, h0, hhome, hold']
    by_cases hgl : g = .slabsFree b.cache
    · subst hgl
      rw [hlist, List.mem_cons]
      simp
    · rw [hoff g hgf hgl]
      exact (or_iff_right fun hx => hgl hx.1.symm).symm
  case free =>
    intro b' hb' x
    rcases List.mem_cons.mp hb' with rfl | hb'
    · -- nobody holds an object of the new slab
      rw [hfree, List.mem_map]
      constructor
      · rintro ⟨i, hi, rfl⟩
        have hobj : IsObj C b' (objAddr C b' i) := ⟨i, List.mem_range.mp hi, rfl⟩
        refine ⟨_, rfl, hobj, fun hm => ?_⟩
        obtain ⟨o, ho, he⟩ := List.mem_map.mp hm
        have hn := hnone o ho
        rw [he, hobj.holds hb.order] at hn
        exact absurd hn (by decide)
      · rintro ⟨a, rfl, ⟨i, hi, rfl⟩, -⟩
        exact ⟨i, List.mem_range.mpr hi, rfl⟩
    · rw [hoff _ (by simpa using hold b' hb') (by simp)]
      exact h.free b' hb' x
  case count =>
    intro b' hb'
    rcases List.mem_cons.mp hb' with rfl | hb'
    · rw [h0, hfree, List.length_map, List.length_range, Nat.zero_add]
    · rw [hoff _ (by simpa using hold b' hb') (by simp), hmap _ (hold b' hb')]
      exact h.count b' hb'
  case held =>
    intro o ho
    obtain ⟨b', hb', hc, hobj⟩ := h.held o ho
    exact ⟨b', List.mem_cons_of_mem _ hb', hc, hobj⟩
  case inuse =>
    intro b' hb'
    rcases List.mem_cons.mp hb' with rfl | hb'
    · rw [h0]
      exact List.countP_eq_zero.mpr fun o ho => by simp [hnone o ho]
    · rw [hmap _ (hold b' hb')]
      exact h.inuse b' hb'

/-- The step, as what it does to the pages and to the links. -/
lemma grow_eq {p : ℕ} {pageMap : ℕ → Page} {links : Links Node}
    (hr : pages.alloc (C.cache c).order s.pageMap s.links = (some p, pageMap, links))
    (hpaddr : (pageMap p).paddr = p * pageSize) :
    ∃ s', bmemCacheGrow C pages s c = (some p, s') ∧
      s'.slabs = ⟨p, (C.cache c).order, c⟩ :: s.slabs ∧
      (∀ d, (s'.counters d).freeObjs =
        if d = c then u32 ((s.counters d).freeObjs + (C.cache c).nums)
        else (s.counters d).freeObjs) ∧
      (∀ q, s'.pageMap q = if q = p then { pageMap q with slabCache := c, inuse := 0 }
        else pageMap q) ∧
      s'.links = listAdd (setupLoop (p * pageSize) (C.cache c).size p (C.cache c).nums
        (listInit links (.freelist p))) (.page p) (.slabsFree c) := by
  unfold bmemCacheGrow
  rw [hr]
  refine ⟨_, rfl, rfl, fun d => ?_, fun q => rfl, ?_⟩
  · dsimp only [Mem.count, Mem.setPage, bmemCacheSetup]
    split_ifs <;> rfl
  rw [← hpaddr]
  have hset : (if p = p then { pageMap p with slabCache := c, inuse := 0 } else pageMap p).paddr =
      (pageMap p).paddr := by rw [if_pos rfl]
  rw [← hset]
  rfl

/-- The links once some objects of a new slab are on its freelist. -/
lemma lists_setup (h : Inv C s live f) (hap : ∀ b' ∈ s.slabs, Apart b b')
    (ho : b.order = (C.cache b.cache).order) (hbound : b.page + 2 ^ b.order ≤ 2 ^ 20)
    (hn : n ≤ (C.cache b.cache).nums) :
    Lists (setupLoop (b.page * pageSize) (C.cache b.cache).size b.page n
      (listInit s.links (.freelist b.page))) (heads (b :: s.slabs))
      (Function.update f (.freelist b.page)
        ((List.range n).map fun i => .obj (objAddr C b i))) := by
  have hold : ∀ b' ∈ s.slabs, b'.page ≠ b.page := fun b' hb' => (hap b' hb').page_ne.symm
  have hinit := h.lists.init (h.fresh_freelist hold)
  rw [← heads_cons b s.slabs] at hinit
  have hobj : ∀ a, IsObj C b a → Fresh (heads (b :: s.slabs))
      (Function.update f (.freelist b.page) []) (.obj a) := by
    intro a ha g hg
    rw [heads_cons] at hg
    by_cases hgb : g = .freelist b.page
    · subst hgb
      simp
    · rw [Function.update_of_ne hgb]
      refine h.fresh_obj (fun b' hb' ha' => ?_) g (hg.resolve_left hgb)
      have hn := (hap b' hb').not_holds (ha.holds ho)
      rw [ha'.holds (h.slab b' hb').order] at hn
      exact absurd hn (by decide)
  have hsetup := setupLoop_lists hinit (freelist_mem (List.mem_cons_self ..))
    (Function.update_self ..) ho hbound hobj n hn
  rwa [Function.update_idem] at hsetup

/-- Once all of them are, the slab is on no list yet. -/
lemma lists_grow (h : Inv C s live f) (hap : ∀ b' ∈ s.slabs, Apart b b')
    (ho : b.order = (C.cache b.cache).order) (hbound : b.page + 2 ^ b.order ≤ 2 ^ 20) :
    Lists (setupLoop (b.page * pageSize) (C.cache b.cache).size b.page (C.cache b.cache).nums
        (listInit s.links (.freelist b.page))) (heads (b :: s.slabs))
        (Function.update f (.freelist b.page)
          ((List.range (C.cache b.cache).nums).map fun i => .obj (objAddr C b i))) ∧
      Fresh (heads (b :: s.slabs)) (Function.update f (.freelist b.page)
        ((List.range (C.cache b.cache).nums).map fun i => .obj (objAddr C b i)))
        (.page b.page) := by
  refine ⟨lists_setup h hap ho hbound le_rfl, fun g hg => ?_⟩
  rw [heads_cons] at hg
  by_cases hgb : g = .freelist b.page
  · subst hgb
    simp
  · rw [Function.update_of_ne hgb]
    have hold : ∀ b' ∈ s.slabs, b'.page ≠ b.page := fun b' hb' => (hap b' hb').page_ne.symm
    exact h.fresh_page hold g (hg.resolve_left hgb)

/-- **Growing a cache** gives it a slab with no object in use, or leaves it as it is. -/
theorem grow_spec (h : Inv C s live f) (hlarge : 8 ≤ (C.cache c).size)
    (hg : Grants s (C.cache c).order (pages.alloc (C.cache c).order s.pageMap s.links)) :
    (∃ s', bmemCacheGrow C pages s c = (none, s') ∧ Inv C s' live f) ∨
      ∃ b s' f', bmemCacheGrow C pages s c = (some b.page, s') ∧ b ∈ s'.slabs ∧ b.cache = c ∧
        (s'.pageMap b.page).inuse = 0 ∧ Inv C s' live f' := by
  obtain ⟨hframe, hpos, hbound, hapart, hhead, hpaddr⟩ := hg
  generalize hr : pages.alloc (C.cache c).order s.pageMap s.links = r at *
  obtain ⟨_ | p, pageMap, links⟩ := r
  · left
    unfold bmemCacheGrow
    rw [hr]
    exact ⟨_, rfl, inv_frame h rfl hframe⟩
  · right
    obtain ⟨s', heq, hs, -, hmap, hlinks⟩ := grow_eq hr (hpaddr p rfl)
    set b : Slab := ⟨p, (C.cache c).order, c⟩ with hb
    have hap : ∀ b' ∈ s.slabs, Apart b b' := hapart p rfl c
    have hinv : Inv C { s with pageMap, links } live f := inv_frame h rfl hframe
    have hself : s'.pageMap p = { pageMap p with slabCache := c, inuse := 0 } := by
      rw [hmap, if_pos rfl]
    have hok : SlabOk C s'.pageMap b := by
      refine ⟨hpos p rfl, hbound p rfl, rfl, hlarge, ?_, ?_, fun q hq => ?_⟩
      · rw [hself]
      · rw [hself]
        exact hpaddr p rfl
      · have hq' := hhead p rfl c q hq
        rw [hmap]
        split_ifs <;> exact hq'
    obtain ⟨hsetup, hpage⟩ := lists_grow hinv hap rfl (hbound p rfl)
    set g1 := Function.update f (.freelist b.page)
      ((List.range (C.cache c).nums).map fun i => Node.obj (objAddr C b i)) with hg1
    have hhead' : Node.slabsFree c ∈ heads (b :: s.slabs) :=
      cacheHeads_sub _ ⟨c, Or.inr (Or.inr rfl)⟩
    refine ⟨b, s', Function.update g1 (.slabsFree c) (.page p :: g1 (.slabsFree c)), heq,
      hs ▸ List.mem_cons_self .., rfl, congrArg Page.inuse hself, ?_⟩
    refine inv_add hinv hok hap hs (fun q hq => ?_) (congrArg Page.inuse hself)
      (hlinks ▸ hsetup.add hhead' hpage) ?_ ?_ ?_
    · rw [hmap, if_neg hq]
    · rw [Function.update_of_ne (by simp), hg1, Function.update_self]
    · rw [Function.update_self, hg1, Function.update_of_ne (by simp)]
    · intro g h1 h2
      rw [Function.update_of_ne h2, hg1, Function.update_of_ne h1]

/-! ### Giving an object back -/

/-- The slab an object is found to belong to. -/
lemma objPage_eq (h : Inv C s live f) (hb : b ∈ s.slabs) (ha : IsObj C b a) :
    bmemObjPage s a = b.page :=
  (h.slab b hb).head _ (owns_of_holds (h.holds_obj hb ha))

lemma mem_erase_addr (h : (live.map Obj.addr).Nodup) (ho : o ∈ live) (a : ℕ) :
    a ∈ (live.erase o).map Obj.addr ↔ a ∈ live.map Obj.addr ∧ a ≠ o.addr := by
  have hperm := (List.perm_cons_erase ho).map Obj.addr
  have hnd := hperm.nodup_iff.mp h
  rw [List.map_cons, List.nodup_cons] at hnd
  rw [hperm.mem_iff, List.map_cons, List.mem_cons]
  constructor
  · intro ha
    exact ⟨Or.inr ha, fun e => hnd.1 (e ▸ ha)⟩
  · rintro ⟨rfl | ha, hne⟩
    · exact absurd rfl hne
    · exact ha

lemma countP_erase (ho : o ∈ live) (p : Obj → Bool) :
    live.countP p = (live.erase o).countP p + if p o then 1 else 0 := by
  rw [(List.perm_cons_erase ho).countP_eq p, List.countP_cons]

/-- The links once an object is back on its freelist. -/
lemma lists_give (h : Inv C s live f) (hb : b ∈ s.slabs) (ho : o ∈ live) :
    Lists (listAddTail s.links (.obj o.addr) (.freelist b.page)) (heads s.slabs)
      (Function.update f (.freelist b.page) (f (.freelist b.page) ++ [.obj o.addr])) :=
  h.lists.addTail (freelist_mem hb)
    (h.fresh_obj fun _ _ _ => List.mem_map_of_mem ho)

/-- An object is given back to a slab with others in use. -/
lemma give_spec (h : Inv C s live f) (hb : b ∈ s.slabs) (ho : o ∈ live) (ha : IsObj C b o.addr)
    (hs : s'.slabs = s.slabs) (n : ℕ) (hn : (s.pageMap b.page).inuse = n + 1) (hn0 : n ≠ 0)
    (hmap : ∀ q, s'.pageMap q = if q = b.page then { s.pageMap q with inuse := n } else s.pageMap q)
    (hlinks : s'.links = listMove .null (listAddTail s.links (.obj o.addr) (.freelist b.page))
      (.page b.page) (.slabsPartial b.cache)) : ∃ f', Inv C s' (live.erase o) f' := by
  have hcount := h.count b hb
  have hhome : home C b n = .slabsPartial b.cache := by
    unfold home
    rw [if_neg (by omega), if_neg hn0]
  have hpage : Node.page b.page ∈ Function.update f (.freelist b.page)
      (f (.freelist b.page) ++ [.obj o.addr]) (home C b (s.pageMap b.page).inuse) := by
    rw [Function.update_of_ne (home_ne_freelist _ _)]
    exact h.page_mem hb
  obtain ⟨f2, hl2, hmem2, hoff2⟩ := (lists_give h hb ho).move .null
    (cacheHeads_sub _ (home_mem b _)) hpage (cacheHeads_sub s.slabs (home_mem (C := C) b n))
  have hfree2 : ∀ p, f2 (.freelist p) = Function.update f (.freelist b.page)
      (f (.freelist b.page) ++ [.obj o.addr]) (.freelist p) := fun p =>
    hoff2 _ (home_ne_freelist _ p).symm (home_ne_freelist _ p).symm
  have hin := countP_erase ho fun o' => holds b o'.addr
  rw [h.inuse b hb, h.holds_obj hb ha, if_pos rfl] at hin
  refine ⟨f2, inv_change h hb ha n hs hmap ?_ ?_ ?_ ?_ ?_ ?_ ?_ ?_ ?_ ?_⟩
  · rw [hlinks, ← hhome]
    exact hl2
  · intro g hg x
    rw [hmem2 g (cacheHeads_sub _ hg) x, Function.update_of_ne]
    rintro rfl
    exact freelist_not_cacheHead _ hg
  · intro b' hb' hbb
    rw [hfree2, Function.update_of_ne]
    intro e
    exact hbb (h.page_inj hb' hb (Node.freelist.inj e))
  · intro x
    rw [hfree2, Function.update_self, List.mem_append, List.mem_singleton, h.free b hb x]
    constructor
    · rintro (⟨a', rfl, ha', hn'⟩ | rfl)
      · exact ⟨a', rfl, ha', fun hm => hn' ((mem_erase_addr h.nodup ho a').mp hm).1⟩
      · exact ⟨o.addr, rfl, ha, fun hm => ((mem_erase_addr h.nodup ho o.addr).mp hm).2 rfl⟩
    · rintro ⟨a', rfl, ha', hn'⟩
      rw [mem_erase_addr h.nodup ho, not_and_or, not_not] at hn'
      rcases hn' with hn' | rfl
      · exact Or.inl ⟨a', rfl, ha', hn'⟩
      · exact Or.inr rfl
  · rw [hfree2, Function.update_self, List.length_append, List.length_singleton]
    omega
  · exact fun o' ho' => h.held o' (List.mem_of_mem_erase ho')
  · exact h.nodup.sublist (List.erase_sublist.map _)
  · intro a' hne
    rw [mem_erase_addr h.nodup ho]
    exact and_iff_left hne
  · omega
  · intro b' hb'
    have hout := countP_erase ho fun o' => holds b' o'.addr
    rw [hb'] at hout
    exact hout.symm

lemma mem_others (h : Inv C s live f) (hb : b ∈ s.slabs) :
    b' ∈ others s.slabs (b.page * pageSize) ↔ b' ∈ s.slabs ∧ b' ≠ b := by
  unfold others
  rw [List.mem_filter, decide_eq_true_iff]
  refine and_congr_right fun hb' => not_congr ?_
  constructor
  · intro he
    exact h.page_inj hb' hb (Nat.eq_of_mul_eq_mul_right (by decide) he)
  · rintro rfl
    rfl

/-- Nobody else holds an object of a slab with one in use. -/
lemma none_left (h : Inv C s live f) (hb : b ∈ s.slabs) (ho : o ∈ live) (ha : IsObj C b o.addr)
    (hn : (s.pageMap b.page).inuse = 1) : ∀ o' ∈ live.erase o, holds b o'.addr = false := by
  have hin := countP_erase ho fun o' => holds b o'.addr
  rw [h.inuse b hb, h.holds_obj hb ha, if_pos rfl, hn] at hin
  have hzero : (live.erase o).countP (fun o' => holds b o'.addr) = 0 := by omega
  intro o' ho'
  simpa using List.countP_eq_zero.mp hzero o' ho'

/-- The links once the object is back and the slab is off its list. -/
lemma lists_drop (h : Inv C s live f) (hb : b ∈ s.slabs) (ho : o ∈ live) : ∃ f',
    Lists (listDel .null (listAddTail s.links (.obj o.addr) (.freelist b.page)) (.page b.page))
        (heads s.slabs) f' ∧
      (∀ g ∈ cacheHeads, ∀ x, x ∈ f' g ↔ x ∈ f g ∧ x ≠ .page b.page) ∧
      ∀ p, p ≠ b.page → f' (.freelist p) = f (.freelist p) := by
  have hpage : Node.page b.page ∈ Function.update f (.freelist b.page)
      (f (.freelist b.page) ++ [.obj o.addr]) (home C b (s.pageMap b.page).inuse) := by
    rw [Function.update_of_ne (home_ne_freelist _ _)]
    exact h.page_mem hb
  obtain ⟨f', hl, hmem, hoff, -⟩ := (lists_give h hb ho).remove .null
    (cacheHeads_sub _ (home_mem b _)) hpage
  refine ⟨f', hl, fun g hg x => ?_, fun p hp => ?_⟩
  · rw [hmem g (cacheHeads_sub _ hg) x, Function.update_of_ne]
    rintro rfl
    exact freelist_not_cacheHead _ hg
  · rw [hoff _ (home_ne_freelist _ _).symm, Function.update_of_ne]
    exact fun e => hp (Node.freelist.inj e)

/-- The slab that goes has been taken off its list, so what is left there are the others. -/
lemma pages_drop (h : Inv C s live f) (hb : b ∈ s.slabs)
    (hs : s'.slabs = others s.slabs (b.page * pageSize)) {f2 : Node → List Node}
    (hlist2 : ∀ g ∈ cacheHeads, ∀ x, x ∈ f2 g ↔ x ∈ f g ∧ x ≠ .page b.page)
    (hfree2 : ∀ b' ∈ s'.slabs, f2 (.freelist b'.page) = f (.freelist b'.page)) :
    ∀ g ∈ heads s'.slabs, ∀ q, .page q ∈ f2 g → ∃ b' ∈ s'.slabs, q = b'.page := by
  rintro g (hg | ⟨b', hb', rfl⟩) q hq
  · obtain ⟨hq, hne⟩ := (hlist2 g hg _).mp hq
    obtain ⟨b', hb', -, hx⟩ := (h.listed g hg _).mp hq
    refine ⟨b', hs ▸ (mem_others h hb).mpr ⟨hb', ?_⟩, Node.page.inj hx⟩
    rintro rfl
    exact hne hx
  · -- on the list of a slab's free objects there is no page
    have hold : b' ∈ s.slabs := ((mem_others h hb).mp (hs ▸ hb')).1
    rw [hfree2 b' hb'] at hq
    obtain ⟨a', hx, -⟩ := (h.free b' hold _).mp hq
    cases hx

/-- The last object is given back, and the slab goes. -/
lemma drop_spec (pageMap : ℕ → Page) (h : Inv C s live f) (hb : b ∈ s.slabs) (ho : o ∈ live)
    (ha : IsObj C b o.addr) (hn : (s.pageMap b.page).inuse = 1)
    (hs : s'.slabs = others s.slabs (b.page * pageSize))
    (hmap : ∀ q, q ≠ b.page → pageMap q = s.pageMap q)
    (hframe : Frame s'.slabs pageMap
      (listDel .null (listAddTail s.links (.obj o.addr) (.freelist b.page)) (.page b.page))
      s'.pageMap s'.links) : ∃ f', Inv C s' (live.erase o) f' := by
  have hmem : ∀ {b'}, b' ∈ s'.slabs ↔ b' ∈ s.slabs ∧ b' ≠ b := by
    intro b'
    rw [hs]
    exact mem_others h hb
  obtain ⟨f2, hl2, hlist2, hoff2⟩ := lists_drop h hb ho
  have hsub : heads s'.slabs ⊆ heads s.slabs := by
    rintro x (hx | ⟨b', hb', rfl⟩)
    · exact Or.inl hx
    · exact freelist_mem (hmem.mp hb').1
  have hfree2 : ∀ b' ∈ s'.slabs, f2 (.freelist b'.page) = f (.freelist b'.page) := fun b' hb' =>
    hoff2 _ fun e => (hmem.mp hb').2 (h.page_inj (hmem.mp hb').1 hb e)
  have hmap' : ∀ b' ∈ s'.slabs, ∀ q, Owns b' q → s'.pageMap q = s.pageMap q := by
    intro b' hb' q hq
    rw [hframe.pageMap b' hb' q hq, hmap]
    rintro rfl
    obtain ⟨h1, h2⟩ := hmem.mp hb'
    exact (h.apart_of h1 hb h2).not_owns hq (owns_self b)
  have hnone := none_left h hb ho ha hn
  have hpageOf := pages_drop h hb hs hlist2 hfree2
  refine ⟨f2, lists_frame (hl2.mono hsub) hframe hpageOf, ?slab, ?apart, ?listed, ?free, ?count,
    ?held, ?nodup, ?inuse⟩
  case slab =>
    exact fun b' hb' => (h.slab b' (hmem.mp hb').1).congr fun q hq => ⟨_, by rw [hmap' b' hb' q hq]⟩
  case apart =>
    rw [hs]
    exact h.apart.sublist (List.filter_sublist)
  case listed =>
    intro g hg x
    rw [hlist2 g hg x, h.listed g hg x]
    constructor
    · rintro ⟨⟨b', hb', hh, rfl⟩, hne⟩
      have hb'' : b' ∈ s'.slabs := hmem.mpr ⟨hb', fun e => hne (e ▸ rfl)⟩
      exact ⟨b', hb'', by rw [hmap' b' hb'' _ (owns_self b'), hh], rfl⟩
    · rintro ⟨b', hb', hh, rfl⟩
      obtain ⟨h1, h2⟩ := hmem.mp hb'
      rw [hmap' b' hb' _ (owns_self b')] at hh
      exact ⟨⟨b', h1, hh, rfl⟩, fun e => h2 (h.page_inj h1 hb (Node.page.inj e))⟩
  case free =>
    -- the object is one of the slab that goes, so the others have the same free ones
    intro b' hb' x
    obtain ⟨h1, h2⟩ := hmem.mp hb'
    rw [hfree2 b' hb', h.free b' h1 x]
    refine exists_congr fun a' => and_congr_right fun _ => and_congr_right fun ha' => ?_
    rw [mem_erase_addr h.nodup ho, and_iff_left]
    rintro rfl
    exact h2 (h.slab_unique h1 hb ha' ha)
  case count =>
    intro b' hb'
    rw [hmap' b' hb' _ (owns_self b'), hfree2 b' hb']
    exact h.count b' (hmem.mp hb').1
  case held =>
    -- nobody holds another object of the slab that goes
    intro o' ho'
    obtain ⟨b', hb', hc, hobj⟩ := h.held o' (List.mem_of_mem_erase ho')
    refine ⟨b', hmem.mpr ⟨hb', ?_⟩, hc, hobj⟩
    rintro rfl
    have hno := hnone o' ho'
    rw [h.holds_obj hb' hobj] at hno
    exact absurd hno (by decide)
  case nodup => exact h.nodup.sublist (List.erase_sublist.map _)
  case inuse =>
    intro b' hb'
    obtain ⟨h1, h2⟩ := hmem.mp hb'
    have hout := countP_erase ho fun o' => holds b' o'.addr
    have hno : holds b' o.addr = false :=
      (h.apart_of hb h1 (Ne.symm h2)).not_holds (h.holds_obj hb ha)
    rw [hno] at hout
    rw [hmap' b' hb' _ (owns_self b'), ← h.inuse b' h1]
    exact hout.symm

/-- `__bfree` up to where it looks at how many objects are in use. -/
def given (s : Mem) (page c objp : ℕ) : Mem :=
  let s := { s with links := listAddTail s.links (.obj objp) (.freelist page) }
  let s := s.count c fun n => { n with freeObjs := u32 (n.freeObjs + 1) }
  s.setPage page fun pg => { pg with inuse := sub32 pg.inuse 1 }

lemma given_spec (h : Inv C s live f) (hb : b ∈ s.slabs) (ho : o ∈ live) (ha : IsObj C b o.addr) :
    ∃ n, (s.pageMap b.page).inuse = n + 1 ∧ (given s b.page b.cache o.addr).slabs = s.slabs ∧
      (given s b.page b.cache o.addr).links =
        listAddTail s.links (.obj o.addr) (.freelist b.page) ∧
      (∀ d, ((given s b.page b.cache o.addr).counters d).freeObjs =
        if d = b.cache then u32 ((s.counters d).freeObjs + 1) else (s.counters d).freeObjs) ∧
      ∀ q, (given s b.page b.cache o.addr).pageMap q =
        if q = b.page then { s.pageMap q with inuse := n } else s.pageMap q := by
  have hcount := h.count b hb
  have hnums := (sized (C.cache b.cache)).nums_le
  have hpos : 0 < (s.pageMap b.page).inuse := by
    rw [← h.inuse b hb, List.countP_pos_iff]
    exact ⟨o, ho, h.holds_obj hb ha⟩
  have hsub : sub32 (s.pageMap b.page).inuse 1 = (s.pageMap b.page).inuse - 1 :=
    sub32_of_le hpos (by change (C.cache b.cache).nums ≤ 2 ^ 12 at hnums; omega)
  refine ⟨(s.pageMap b.page).inuse - 1, by omega, rfl, rfl, fun d => ?_, fun q => ?_⟩
  · dsimp only [given, Mem.count, Mem.setPage]
    split_ifs <;> rfl
  · dsimp only [given, Mem.count, Mem.setPage]
    split_ifs with hq
    · rw [hq, hsub]
    · rfl

/-- The step, as what it does to the pages, the links and the statistics: `s1` is the state
before the slab goes or moves. -/
lemma bfree_eq (pages : Pages) (h : Inv C s live f) (hb : b ∈ s.slabs) (ho : o ∈ live)
    (ha : IsObj C b o.addr) :
    ∃ (s1 : Mem) (n : ℕ), (s.pageMap b.page).inuse = n + 1 ∧ s1.slabs = s.slabs ∧
      s1.links = listAddTail s.links (.obj o.addr) (.freelist b.page) ∧
      (∀ d, (s1.counters d).freeObjs = if d = b.cache then u32 ((s.counters d).freeObjs + 1)
        else (s.counters d).freeObjs) ∧
      (∀ q, s1.pageMap q = if q = b.page then { s.pageMap q with inuse := n } else s.pageMap q) ∧
      bfree C pages s o.addr =
        if n = 0 then
          (freePage pages { s1 with links := listDel .null s1.links (.page b.page) }
            (b.page * pageSize)).count b.cache fun n =>
              { n with freeObjs := sub32 n.freeObjs (C.cache b.cache).nums }
        else
          { s1 with links := listMove .null s1.links (.page b.page) (.slabsPartial b.cache) } := by
  obtain ⟨n, hn, hslabs, hlinks, hcounters, hmap⟩ := given_spec h hb ho ha
  have hself := hmap b.page
  rw [if_pos rfl] at hself
  have hinuse : ((given s b.page b.cache o.addr).pageMap b.page).inuse = n := by rw [hself]
  have hpaddr : ((given s b.page b.cache o.addr).pageMap b.page).paddr = b.page * pageSize := by
    rw [hself, (h.slab b hb).paddr]
  refine ⟨_, n, hn, hslabs, hlinks, hcounters, hmap, ?_⟩
  rw [← hinuse, ← hpaddr]
  unfold bfree
  dsimp only
  rw [objPage_eq h hb ha, (h.slab b hb).cache]
  rfl

/-- What is left to show of giving an object back is that `free_page` leaves the other slabs
alone, if it is called. -/
lemma bfree_frame (h : Inv C s live f) (hb : b ∈ s.slabs) (ho : o ∈ live) (ha : IsObj C b o.addr)
    (hp : ∀ s1 : Mem, (s.pageMap b.page).inuse = 1 → s1.slabs = s.slabs →
      (∀ q, s1.pageMap q = if q = b.page then { s.pageMap q with inuse := 0 } else s.pageMap q) →
      s1.links = listDel .null (listAddTail s.links (.obj o.addr) (.freelist b.page))
        (.page b.page) →
      Frame (others s.slabs (b.page * pageSize)) s1.pageMap s1.links
        (pages.free (b.page * pageSize) s1.pageMap s1.links).1
        (pages.free (b.page * pageSize) s1.pageMap s1.links).2) :
    ∃ f', Inv C (bfree C pages s o.addr) (live.erase o) f' := by
  obtain ⟨s1, n, hn, hslabs, hlinks, -, hmap, heq⟩ := bfree_eq pages h hb ho ha
  rw [heq]
  by_cases hlast : n = 0
  · rw [if_pos hlast]
    have hdrop : ∃ f', Inv C (freePage pages
        { s1 with links := listDel .null s1.links (.page b.page) } (b.page * pageSize))
        (live.erase o) f' := by
      refine drop_spec s1.pageMap h hb ho ha (by omega) ?_ (fun q hq => ?_) ?_
      · rw [← hslabs]
        rfl
      · rw [hmap, if_neg hq]
      · rw [← hlinks]
        have hfr := hp { s1 with links := listDel .null s1.links (.page b.page) } (by omega) hslabs
          (fun q => by rw [← hlast]; exact hmap q) (by rw [hlinks])
        rw [← hslabs] at hfr
        exact hfr
    exact hdrop.imp fun _ hinv => inv_count hinv _ _
  · rw [if_neg hlast]
    refine give_spec h hb ho ha hslabs n hn hlast hmap ?_
    rw [← hlinks]

/-- **An object is given back**, and its slab goes with the last one. -/
theorem bfree_spec (h : Inv C s live f) (ho : o ∈ live) (hp : Releases s.slabs pages) :
    ∃ f', Inv C (bfree C pages s o.addr) (live.erase o) f' := by
  obtain ⟨b, hb, hc, ha⟩ := h.held o ho
  exact bfree_frame h hb ho ha fun _ _ _ _ _ => hp _ _ _

/-! ### Allocating -/

lemma slabsFirst_eq (h : Inv C s live f) {g : Node} (hg : g ∈ cacheHeads) {p : ℕ}
    (hp : slabsFirst s g = some p) :
    ∃ b ∈ s.slabs, b.page = p ∧ home C b (s.pageMap b.page).inuse = g := by
  unfold slabsFirst at hp
  rw [h.lists.first (cacheHeads_sub _ hg)] at hp
  cases hx : (f g).head? with
  | none => rw [hx] at hp; cases hp
  | some x =>
    obtain ⟨b, hb, hh, rfl⟩ := (h.listed g hg x).mp (List.mem_of_head? hx)
    rw [hx] at hp
    cases hp
    exact ⟨b, hb, rfl, hh⟩

/-- A slab that is not on the full list has an object left. -/
lemma inuse_lt (h : Inv C s live f) (hb : b ∈ s.slabs)
    (hne : ∀ c, home C b (s.pageMap b.page).inuse ≠ .slabsFull c) :
    (s.pageMap b.page).inuse < (C.cache b.cache).nums := by
  have hcount := h.count b hb
  have hfull : (s.pageMap b.page).inuse ≠ (C.cache b.cache).nums := fun e =>
    hne b.cache (if_pos e)
  omega

lemma home_cache (h : home C b n = .slabsPartial c ∨ home C b n = .slabsFree c) : b.cache = c := by
  unfold home at h
  split_ifs at h
  · simp at h
  · simpa using h
  · simpa using h

/-- The slab that `bmem_cache_page` finds is one of the cache with an object left. -/
lemma cachePage_spec (h : Inv C s live f) {p : ℕ} (hp : bmemCachePage s c = (some p, s')) :
    s'.slabs = s.slabs ∧ Inv C s' live f ∧ ∃ b ∈ s'.slabs, b.page = p ∧ b.cache = c ∧
      (s'.pageMap b.page).inuse < (C.cache b.cache).nums := by
  unfold bmemCachePage at hp
  split at hp
  · next hfirst =>
    cases hp
    obtain ⟨b, hb, rfl, hh⟩ := slabsFirst_eq h ⟨c, Or.inr (Or.inl rfl)⟩ hfirst
    have hlt := inuse_lt h hb fun d e => by
      rw [hh] at e
      cases e
    exact ⟨rfl, h, b, hb, rfl, home_cache (Or.inl hh), hlt⟩
  · split at hp
    · next hfirst =>
      cases hp
      obtain ⟨b, hb, rfl, hh⟩ := slabsFirst_eq h ⟨c, Or.inr (Or.inr rfl)⟩ hfirst
      have hlt := inuse_lt h hb fun d e => by
        rw [hh] at e
        cases e
      exact ⟨rfl, inv_count h _ _, b, hb, rfl, home_cache (Or.inr hh), hlt⟩
    · cases hp

lemma cachePage_none (hp : bmemCachePage s c = (none, s')) : s' = s := by
  unfold bmemCachePage at hp
  split at hp
  · cases hp
  · split at hp <;> cases hp
    rfl

/-- Looking for a slab writes statistics only. -/
lemma cachePage_same {r : Option ℕ} (hp : bmemCachePage s c = (r, s')) :
    s'.links = s.links ∧ s'.pageMap = s.pageMap ∧ s'.slabs = s.slabs ∧
      ∀ d, (s'.counters d).freeObjs = (s.counters d).freeObjs := by
  unfold bmemCachePage at hp
  split at hp
  · cases hp
    exact ⟨rfl, rfl, rfl, fun _ => rfl⟩
  · split at hp
    · cases hp
      refine ⟨rfl, rfl, rfl, fun d => ?_⟩
      dsimp only [Mem.count]
      split <;> rfl
    · cases hp
      exact ⟨rfl, rfl, rfl, fun _ => rfl⟩

/-- **An allocation** gives an object of the cache that nobody holds, or nothing. -/
theorem bmemCacheAlloc_spec (h : Inv C s live f) (hlarge : 8 ≤ (C.cache c).size)
    (hg : Grants s (C.cache c).order (pages.alloc (C.cache c).order s.pageMap s.links)) :
    (∃ s', bmemCacheAlloc C pages s c = (none, s') ∧ Inv C s' live f) ∨
      ∃ a s' f', bmemCacheAlloc C pages s c = (some a, s') ∧ Inv C s' (⟨a, c⟩ :: live) f' := by
  have htake : ∀ {s1 : Mem} {f1 : Node → List Node} {b : Slab}, Inv C s1 live f1 → b ∈ s1.slabs →
      b.cache = c → (s1.pageMap b.page).inuse < (C.cache b.cache).nums →
      ∃ a s' f', bmemCacheAllocObject C s1 c b.page = (some a, s') ∧
        Inv C s' (⟨a, c⟩ :: live) f' := by
    intro s1 f1 b h1 hb hc hlt
    subst hc
    obtain ⟨a, s', f', heq, -, -, -, hinv⟩ := allocObject_spec h1 hb hlt
    exact ⟨a, s', f', heq, hinv⟩
  unfold bmemCacheAlloc
  split
  · next p s1 hp =>
    obtain ⟨-, h1, b, hb, rfl, hc, hlt⟩ := cachePage_spec h hp
    exact Or.inr (htake h1 hb hc hlt)
  · next s1 hp =>
    obtain rfl := cachePage_none hp
    rcases grow_spec h hlarge hg with ⟨s', heq, hinv⟩ | ⟨b, s', f', heq, hb, hc, h0, hinv⟩
    · rw [heq]
      exact Or.inl ⟨s', rfl, hinv⟩
    · rw [heq]
      have hnums := (sized (C.cache b.cache)).nums_pos
      exact Or.inr (htake hinv hb hc (by omega))

/-! ### Sizes -/

lemma roundUpPow2_room {size k : ℕ} (h0 : 0 < size) (hk : k < 32) (h : size ≤ 2 ^ k) :
    size ≤ roundUpPow2 size ∧ roundUpPow2 size ≤ 2 ^ k := by
  have hk' : 2 ^ k < 2 ^ 32 := Nat.pow_lt_pow_right (by decide) hk
  have hs : sub32 size 1 = size - 1 := sub32_of_le h0 (by omega)
  have hfls : fls (size - 1) ≤ k := by
    unfold fls
    split_ifs with hz
    · omega
    · exact (Nat.log2_lt hz).mpr (by omega)
  have hlt : size - 1 < 2 ^ fls (size - 1) := by
    unfold fls
    split_ifs with hz
    · omega
    · exact Nat.lt_log2_self
  have hpow : 2 ^ fls (size - 1) < 2 ^ 32 := Nat.pow_lt_pow_right (by decide) (by omega)
  unfold roundUpPow2 shl32
  rw [hs, Nat.mod_eq_of_lt (show fls (size - 1) < 32 by omega), Nat.one_shiftLeft,
    Nat.mod_eq_of_lt hpow]
  exact ⟨by omega, Nat.pow_le_pow_right (by decide) hfls⟩

lemma bmallocIndex_room {size : ℕ} (h : size ≤ 2 ^ 15) :
    ∃ i : ℕ, i < kmallocCacheNum ∧ bmallocIndex size = i ∧ size ≤ 2 ^ (i + 3) := by
  unfold bmallocIndex
  split_ifs with h0
  · exact ⟨0, by decide, rfl, by omega⟩
  · obtain ⟨hround, htop⟩ := roundUpPow2_room (Nat.pos_of_ne_zero h0) (by decide) h
    obtain ⟨k, hk, hpow⟩ := roundUpPow2_eq size
    dsimp only
    rw [hpow] at hround htop ⊢
    split_ifs with h1 h2
    · exact ⟨0, by decide, rfl, hround.trans h1⟩
    · have h3 : 3 < k := (Nat.pow_lt_pow_iff_right (by decide : 1 < 2)).mp h2.1
      have h15 : k ≤ 15 := (Nat.pow_le_pow_iff_right (by decide : 1 < 2)).mp h2.2
      refine ⟨k - 3, by change k - 3 < 13; omega, ?_, ?_⟩
      · rw [log2_two_pow]
        omega
      · rw [Nat.sub_add_cancel h3.le]
        exact hround
    · exact absurd ⟨not_le.mp h1, htop⟩ h2

/-- Above 32 KiB there is no cache, up to where the size is no longer rounded up right. -/
lemma bmallocCache_none {size : ℕ} (h : 2 ^ 15 < size) (h' : size ≤ 2 ^ 31) :
    bmallocCache size = none := by
  obtain ⟨hround, -⟩ := roundUpPow2_room (Nat.zero_lt_of_lt h) (by decide) h'
  have hidx : bmallocIndex size = -1 := by
    have hmin : kmallocMinSize = 2 ^ 3 := rfl
    unfold bmallocIndex
    rw [if_neg (by omega)]
    dsimp only
    rw [if_neg (by omega), if_neg (by omega)]
  unfold bmallocCache
  rw [hidx]
  rfl

lemma bmallocInfo_le (i : ℕ) : bmallocInfo.getD i 0 ≤ 2 ^ 15 := by
  by_cases hi : i < kmallocCacheNum
  · rw [bmallocInfo_eq i hi]
    exact Nat.pow_le_pow_right (by decide) (by change i < 13 at hi; omega)
  · rw [List.getD_eq_default _ _ (not_lt.mp hi)]
    exact Nat.zero_le _

/-- The cache that `bmalloc` takes an object from has room for the size asked for. -/
lemma bmallocCache_room {size : ℕ} (h : size ≤ 2 ^ 15) :
    bmallocCache size = some (bmallocIndex size).toNat ∧
      size ≤ (C.cache (bmallocIndex size).toNat).size ∧
      8 ≤ (C.cache (bmallocIndex size).toNat).size := by
  obtain ⟨i, hi, hidx, hle⟩ := bmallocIndex_room h
  have hsize : (C.cache i).size = 2 ^ (i + 3) := (C.bmalloc i hi).trans (bmallocInfo_eq i hi)
  have h8 : 2 ^ 3 ≤ 2 ^ (i + 3) := Nat.pow_le_pow_right (by decide) (by omega)
  unfold bmallocCache
  rw [hidx, Int.toNat_natCast, hsize]
  exact ⟨if_neg (by omega), hle, h8⟩

end Elfboot.SlubOps
