import Elfboot.LinkFrame
import Elfboot.SlubOps

/-!
What the slab allocator writes.

It writes the heads of its lists, the list nodes of its slabs, and nodes that lie in objects which
nobody holds: the one that is handed out or given back, and those next to it on a freelist.
-/

namespace Elfboot.SlubFrame

open Elfboot.Circular Elfboot.Word Elfboot.Mm Elfboot.Slub Elfboot.SlubInv Elfboot.SlubOps

variable {C : Caches} {s s' t : Mem} {live live' : List Obj} {f : Node → List Node}
variable {b : Slab} {slabs slabs' : List Slab} {o : Obj} {a c n : ℕ} {pages : Pages}
variable {L L' : Links Node}

/-- A node that lies in an object of a given size, in whole or in part. -/
def Near (a size : ℕ) (x : Node) : Prop := ∃ a', x = .obj a' ∧ a < a' + 8 ∧ a' < a + size

/-- The nodes that the slab allocator writes. -/
def territory (C : Caches) (slabs : List Slab) (live : List Obj) : Set Node :=
  {x | x ∈ heads slabs ∨ (∃ b ∈ slabs, x = .page b.page) ∨
    ∃ b ∈ slabs, ∃ a, IsObj C b a ∧ a ∉ live.map Obj.addr ∧ Near a (C.cache b.cache).size x}

/-- A step that writes no other list node, and of no page its address or its head. -/
structure Keeps (W : Set Node) (s s' : Mem) : Prop where
  links : Only W s.links s'.links
  paddr : ∀ q, (s'.pageMap q).paddr = (s.pageMap q).paddr
  head : ∀ q, (s'.pageMap q).compoundHead = (s.pageMap q).compoundHead

lemma head_territory {x : Node} (h : x ∈ heads slabs) : x ∈ territory C slabs live := Or.inl h

lemma page_territory (hb : b ∈ slabs) : Node.page b.page ∈ territory C slabs live :=
  Or.inr (Or.inl ⟨b, hb, rfl⟩)

lemma obj_territory (hb : b ∈ slabs) (ha : IsObj C b a) (hn : a ∉ live.map Obj.addr) :
    Node.obj a ∈ territory C slabs live := by
  refine Or.inr (Or.inr ⟨b, hb, a, ha, hn, a, rfl, by omega, ?_⟩)
  exact Nat.lt_add_of_pos_right (sized (C.cache b.cache)).pos

lemma territory_mono (hs : slabs ⊆ slabs') (hl : live' ⊆ live) :
    territory C slabs live ⊆ territory C slabs' live' := by
  rintro x (hx | ⟨b, hb, rfl⟩ | ⟨b, hb, a, ha, hn, hx⟩)
  · rcases hx with hx | ⟨b, hb, rfl⟩
    · exact Or.inl (cacheHeads_sub slabs' hx)
    · exact Or.inl (freelist_mem (hs hb))
  · exact page_territory (hs hb)
  · exact Or.inr (Or.inr ⟨b, hs hb, a, ha, fun hm => hn (List.map_subset _ hl hm), hx⟩)

/-- The lists have nodes of the territory only. -/
lemma Inv.nodes_sub (h : Inv C s live f) :
    nodes (heads s.slabs) f ⊆ territory C s.slabs live := by
  rintro x ⟨g, hg, hx⟩
  rcases List.mem_cons.mp hx with rfl | hx
  · exact head_territory hg
  · rcases h.entry hg hx with ⟨b, hb, rfl⟩ | ⟨b, hb, a, rfl, ha, hn⟩
    · exact page_territory hb
    · exact obj_territory hb ha hn

lemma only_within (hb : b ∈ slabs) (ha : IsObj C b a) (hn : a ∉ live.map Obj.addr)
    (hw : Within a (C.cache b.cache).size L L') : Only (territory C slabs live) L L' := by
  intro x hx
  refine hw x fun a' hxa => ?_
  by_contra hnear
  rw [not_or, not_le, not_le] at hnear
  exact hx (Or.inr (Or.inr ⟨b, hb, a, ha, hn, a', hxa, hnear.1, hnear.2⟩))

/-! ### Taking an object -/

/-- **An object is taken off a slab**: what is held is not written to. -/
theorem allocObject_keeps (h : Inv C s live f) (hb : b ∈ s.slabs)
    (hlt : (s.pageMap b.page).inuse < (C.cache b.cache).nums) :
    Keeps (territory C s.slabs live) s (bmemCacheAllocObject C s b.cache b.page).2 := by
  obtain ⟨a, rest, hcons, hfirst⟩ := fetch_eq h hb hlt
  obtain ⟨a', ha', hobj, hnot⟩ := (h.free b hb (.obj a)).mp (by rw [hcons]; simp)
  cases ha'
  have hnums := (sized (C.cache b.cache)).nums_le
  obtain ⟨s', heq, -, -, hmap, L, hw, hlinks⟩ := allocObject_eq (C := C) (b := b) hfirst
    (by change (C.cache b.cache).nums ≤ 2 ^ 12 at hnums; omega)
  have hsub := Inv.nodes_sub h
  have htake := lists_take h hb hobj hcons hw
  -- the freelist has an entry less, and the other lists are as before
  have hsub' : nodes (heads s.slabs) (Function.update f (.freelist b.page) rest) ⊆
      territory C s.slabs live := by
    rintro x ⟨g, hg, hx⟩
    rcases List.mem_cons.mp hx with rfl | hx
    · exact head_territory hg
    · by_cases hgb : g = .freelist b.page
      · subst hgb
        rw [Function.update_self] at hx
        exact hsub (entry_mem_nodes hg (by rw [hcons]; exact List.mem_cons_of_mem _ hx))
      · rw [Function.update_of_ne hgb] at hx
        exact hsub (entry_mem_nodes hg hx)
  have hpage : Node.page b.page ∈ Function.update f (.freelist b.page) rest
      (home C b (s.pageMap b.page).inuse) := by
    rw [Function.update_of_ne (home_ne_freelist _ _)]
    exact h.page_mem hb
  rw [heq]
  refine ⟨?_, fun q => ?_, fun q => ?_⟩
  · have hdel : Only (territory C s.slabs live) s.links (listDel .null s.links (.obj a)) :=
      h.lists.only_del hsub (freelist_mem hb) (by rw [hcons]; simp)
    have hmove : Only (territory C s.slabs live) L (listMove .null L (.page b.page)
        (home C b ((s.pageMap b.page).inuse + 1))) :=
      htake.only_move hsub' (cacheHeads_sub _ (home_mem b _)) hpage
        (cacheHeads_sub _ (home_mem b _))
    rw [hlinks]
    exact (hdel.trans (only_within hb hobj hnot hw)).trans hmove
  · rw [hmap]
    split_ifs <;> rfl
  · rw [hmap]
    split_ifs <;> rfl

/-! ### Growing a cache -/

lemma grow_nodes (h : Inv C s live f) (hap : ∀ b' ∈ s.slabs, Apart b b')
    (ho : b.order = (C.cache b.cache).order) (hn : n ≤ (C.cache b.cache).nums) :
    nodes (heads (b :: s.slabs)) (Function.update f (.freelist b.page)
      ((List.range n).map fun i => .obj (objAddr C b i))) ⊆ territory C (b :: s.slabs) live := by
  have hmono : territory C s.slabs live ⊆ territory C (b :: s.slabs) live :=
    territory_mono (List.subset_cons_self ..) (List.Subset.refl _)
  rintro x ⟨g, hg, hx⟩
  rcases List.mem_cons.mp hx with rfl | hx
  · exact head_territory hg
  by_cases hgb : g = .freelist b.page
  · subst hgb
    rw [Function.update_self, List.mem_map] at hx
    obtain ⟨i, hi, rfl⟩ := hx
    have hobj : IsObj C b (objAddr C b i) := ⟨i, (List.mem_range.mp hi).trans_le hn, rfl⟩
    refine obj_territory (List.mem_cons_self ..) hobj fun hm => ?_
    obtain ⟨o, ho', he⟩ := List.mem_map.mp hm
    obtain ⟨b', hb', -, hobj'⟩ := h.held o ho'
    have hno := (hap b' hb').not_holds (hobj.holds ho)
    rw [← he, h.holds_obj hb' hobj'] at hno
    cases hno
  · rw [Function.update_of_ne hgb] at hx
    rw [heads_cons] at hg
    exact hmono (Inv.nodes_sub h (entry_mem_nodes (hg.resolve_left hgb) hx))

/-- The loop writes to the new slab. -/
lemma setup_only (h : Inv C s live f) (hap : ∀ b' ∈ s.slabs, Apart b b')
    (ho : b.order = (C.cache b.cache).order) (hbound : b.page + 2 ^ b.order ≤ 2 ^ 20) :
    ∀ n ≤ (C.cache b.cache).nums, Only (territory C (b :: s.slabs) live) s.links
      (setupLoop (b.page * pageSize) (C.cache b.cache).size b.page n
        (listInit s.links (.freelist b.page))) := by
  have hfree := freelist_mem (List.mem_cons_self (a := b) (l := s.slabs))
  intro n
  induction n with
  | zero => exact fun _ => only_init s.links (head_territory hfree)
  | succ n ih =>
    intro hn
    have hlists := lists_setup h hap ho hbound (n := n) (by omega)
    -- the object that is appended is on the freelist after the turn
    have hobj := grow_nodes h hap ho hn
    have hmem : Node.obj (objAddr C b n) ∈ territory C (b :: s.slabs) live :=
      hobj (entry_mem_nodes hfree (by
        rw [Function.update_self, List.mem_map]
        exact ⟨n, List.mem_range.mpr (by omega), rfl⟩))
    unfold setupLoop
    rw [u32_objAddr ho hbound hn]
    exact (ih (by omega)).trans
      (hlists.only_addTail (grow_nodes h hap ho (by omega)) hfree hmem)

/-- **A cache grows** by the block it has been given. -/
theorem grow_keeps {p : ℕ} (h : Inv C s live f)
    (hr : pages.alloc (C.cache c).order s.pageMap s.links = (some p, s.pageMap, s.links))
    (hpaddr : (s.pageMap p).paddr = p * pageSize)
    (hap : ∀ b ∈ s.slabs, Apart ⟨p, (C.cache c).order, c⟩ b)
    (hbound : p + 2 ^ (C.cache c).order ≤ 2 ^ 20) :
    Keeps (territory C (⟨p, (C.cache c).order, c⟩ :: s.slabs) live) s
      (Slub.bmemCacheGrow C pages s c).2 := by
  obtain ⟨s', heq, -, -, hmap, hlinks⟩ := grow_eq hr hpaddr
  set b : Slab := ⟨p, (C.cache c).order, c⟩ with hb
  have hmem : b ∈ b :: s.slabs := List.mem_cons_self ..
  have hsetup := setup_only h hap rfl hbound (C.cache c).nums le_rfl
  have hadd := (lists_grow h hap rfl hbound).1.only_add (grow_nodes h hap rfl le_rfl)
    (cacheHeads_sub _ ⟨c, Or.inr (Or.inr rfl)⟩) (page_territory hmem)
  rw [heq]
  refine ⟨?_, fun q => ?_, fun q => ?_⟩
  · rw [hlinks]
    exact hsetup.trans hadd
  · rw [hmap]
    split_ifs <;> rfl
  · rw [hmap]
    split_ifs <;> rfl

/-! ### Giving an object back -/

/-- The links once an object is back, and its slab is off its list or on another one. -/
lemma give_only (h : Inv C s live f) (hb : b ∈ s.slabs) (ho : o ∈ live) (ha : IsObj C b o.addr) :
    let L := listAddTail s.links (.obj o.addr) (.freelist b.page)
    Only (territory C s.slabs (live.erase o)) s.links (listDel .null L (.page b.page)) ∧
      Only (territory C s.slabs (live.erase o)) s.links
        (listMove .null L (.page b.page) (.slabsPartial b.cache)) := by
  intro L
  have hfree := freelist_mem hb
  have hmono : territory C s.slabs live ⊆ territory C s.slabs (live.erase o) :=
    territory_mono (List.Subset.refl _) List.erase_subset
  have hsub := (Inv.nodes_sub h).trans hmono
  have hobj : Node.obj o.addr ∈ territory C s.slabs (live.erase o) := by
    refine obj_territory hb ha fun hm => ?_
    exact ((mem_erase_addr h.nodup ho o.addr).mp hm).2 rfl
  have hadd : Only (territory C s.slabs (live.erase o)) s.links L :=
    h.lists.only_addTail hsub hfree hobj
  have hgive := lists_give h hb ho
  have hsub' : nodes (heads s.slabs) (Function.update f (.freelist b.page)
      (f (.freelist b.page) ++ [.obj o.addr])) ⊆ territory C s.slabs (live.erase o) := by
    rintro x ⟨g, hg, hx⟩
    rcases List.mem_cons.mp hx with rfl | hx
    · exact head_territory hg
    by_cases hgb : g = .freelist b.page
    · subst hgb
      rw [Function.update_self] at hx
      rcases List.mem_append.mp hx with hx | hx
      · exact hsub (entry_mem_nodes hg hx)
      · rw [List.mem_singleton.mp hx]
        exact hobj
    · rw [Function.update_of_ne hgb] at hx
      exact hsub (entry_mem_nodes hg hx)
  have hpage : Node.page b.page ∈ Function.update f (.freelist b.page)
      (f (.freelist b.page) ++ [.obj o.addr]) (home C b (s.pageMap b.page).inuse) := by
    rw [Function.update_of_ne (home_ne_freelist _ _)]
    exact h.page_mem hb
  have hhome := cacheHeads_sub s.slabs (home_mem (C := C) b (s.pageMap b.page).inuse)
  constructor
  · exact hadd.trans (hgive.only_del hsub' hhome hpage)
  · exact hadd.trans (hgive.only_move hsub' hhome hpage
      (cacheHeads_sub s.slabs ⟨b.cache, Or.inr (Or.inl rfl)⟩))

end Elfboot.SlubFrame
