import Elfboot.Circular

/-!
What the operations on circular lists write, and memories of links under other names.

An operation on one list of a family writes the entry it is given and nodes of that list. So a
family with no node in common with the first is left alone, whoever works on it. Where two programs
have names of their own for the nodes of one memory, each sees it under its names.
-/

namespace Elfboot.Circular

variable {ν μ : Type*} {L L' L'' : Links ν} {W W' : Set ν} {hs : Set ν} {f : ν → List ν} {h n : ν}

/-- Two memories that differ at nodes of a set at most. -/
def Only (W : Set ν) (L L' : Links ν) : Prop :=
  ∀ x, x ∉ W → L'.next x = L.next x ∧ L'.prev x = L.prev x

lemma Only.refl (W : Set ν) (L : Links ν) : Only W L L := fun _ _ => ⟨rfl, rfl⟩

lemma Only.trans (h : Only W L L') (h' : Only W L' L'') : Only W L L'' := by
  intro x hx
  exact ⟨(h' x hx).1.trans (h x hx).1, (h' x hx).2.trans (h x hx).2⟩

/-- The nodes of a family of lists. -/
def nodes (hs : Set ν) (f : ν → List ν) : Set ν := {x | ∃ h ∈ hs, x ∈ h :: f h}

lemma head_mem_nodes (hh : h ∈ hs) : h ∈ nodes hs f := ⟨h, hh, List.mem_cons_self ..⟩

lemma entry_mem_nodes (hh : h ∈ hs) (hn : n ∈ f h) : n ∈ nodes hs f :=
  ⟨h, hh, List.mem_cons_of_mem _ hn⟩

/-- Lists are left alone by what writes none of their nodes. -/
lemma Lists.only (hl : Lists L hs f) (ho : Only W L L') (hd : Disjoint W (nodes hs f)) :
    Lists L' hs f :=
  hl.congr fun h hh x hx => ho x fun hm => Set.disjoint_left.mp hd hm ⟨h, hh, hx⟩

section ops

variable [DecidableEq ν] {null : ν}

lemma only_init (L : Links ν) (hn : n ∈ W) : Only W L (listInit L n) := by
  intro x hx
  exact listInit_off L fun e => hx (e ▸ hn)

lemma only_linkBetween (L : Links ν) {p q : ν} (hn : n ∈ W) (hp : p ∈ W) (hq : q ∈ W) :
    Only W L (linkBetween L n p q) := by
  intro x hx
  exact linkBetween_off L (fun e => hx (e ▸ hn)) (fun e => hx (e ▸ hp)) fun e => hx (e ▸ hq)

lemma Lists.only_add (hl : Lists L hs f) (hW : nodes hs f ⊆ W) (hh : h ∈ hs) (hn : n ∈ W) :
    Only W L (listAdd L n h) := by
  have hnext := ((hl.isList h hh).neighbours (List.mem_cons_self ..)).2
  exact only_linkBetween L hn (hW (head_mem_nodes hh)) (hW ⟨h, hh, hnext⟩)

lemma Lists.only_addTail (hl : Lists L hs f) (hW : nodes hs f ⊆ W) (hh : h ∈ hs) (hn : n ∈ W) :
    Only W L (listAddTail L n h) := by
  have hprev := ((hl.isList h hh).neighbours (List.mem_cons_self ..)).1
  exact only_linkBetween L hn (hW ⟨h, hh, hprev⟩) (hW (head_mem_nodes hh))

lemma Lists.only_del (hl : Lists L hs f) (hW : nodes hs f ⊆ W) (hh : h ∈ hs) (hn : n ∈ f h) :
    Only W L (listDel null L n) := by
  obtain ⟨hprev, hnext⟩ := (hl.isList h hh).neighbours (List.mem_cons_of_mem _ hn)
  intro x hx
  refine listDel_off L ?_ ?_ ?_
  · rintro rfl
    exact hx (hW (entry_mem_nodes hh hn))
  · rintro rfl
    exact hx (hW ⟨h, hh, hprev⟩)
  · rintro rfl
    exact hx (hW ⟨h, hh, hnext⟩)

lemma Lists.only_move (hl : Lists L hs f) (hW : nodes hs f ⊆ W) {g : ν} (hg : g ∈ hs)
    (hn : n ∈ f g) (hh : h ∈ hs) : Only W L (listMove null L n h) := by
  obtain ⟨f', hl', hmem, -, -⟩ := hl.remove null hg hn
  have hW' : nodes hs f' ⊆ W := by
    rintro x ⟨k, hk, hx⟩
    rcases List.mem_cons.mp hx with rfl | hx
    · exact hW (head_mem_nodes hk)
    · exact hW (entry_mem_nodes hk ((hmem k hk x).mp hx).1)
  exact (hl.only_del hW hg hn).trans (hl'.only_add hW' hh (hW (entry_mem_nodes hg hn)))

end ops

/-! ### Other names -/

/-- The same memory under other names of its nodes. -/
def Links.relabel (e : ν ≃ μ) (L : Links ν) : Links μ where
  prev x := e (L.prev (e.symm x))
  next x := e (L.next (e.symm x))

@[simp] lemma Links.relabel_symm (e : ν ≃ μ) (L : Links μ) :
    (L.relabel e.symm).relabel e = L := by
  simp [Links.relabel]

@[simp] lemma Links.symm_relabel (e : ν ≃ μ) (L : Links ν) :
    (L.relabel e).relabel e.symm = L := by
  simp [Links.relabel]

lemma Only.relabel (h : Only W L L') (e : ν ≃ μ) :
    Only {x | e.symm x ∈ W} (L.relabel e) (L'.relabel e) := by
  intro x hx
  obtain ⟨h1, h2⟩ := h (e.symm x) hx
  exact ⟨congrArg e h1, congrArg e h2⟩

/-- A memory that has the links of another under other names, beside links of its own. -/
structure Embeds (e : ν → μ) (L : Links ν) (K : Links μ) : Prop where
  next : ∀ x, K.next (e x) = e (L.next x)
  prev : ∀ x, K.prev (e x) = e (L.prev x)

section ops

variable [DecidableEq ν] [DecidableEq μ] {e : ν → μ} {K : Links μ}

lemma Embeds.setNext (h : Embeds e L K) (he : Function.Injective e) (a b : ν) :
    Embeds e (L.setNext a b) (K.setNext (e a) (e b)) := by
  refine ⟨fun x => ?_, h.prev⟩
  rw [Links.setNext_next, Links.setNext_next, apply_ite e, h.next]
  exact if_congr he.eq_iff rfl rfl

lemma Embeds.setPrev (h : Embeds e L K) (he : Function.Injective e) (a b : ν) :
    Embeds e (L.setPrev a b) (K.setPrev (e a) (e b)) := by
  refine ⟨h.next, fun x => ?_⟩
  rw [Links.setPrev_prev, Links.setPrev_prev, apply_ite e, h.prev]
  exact if_congr he.eq_iff rfl rfl

/-- **Adding at the end** does the same under the other names. -/
lemma Embeds.listAddTail (h : Embeds e L K) (he : Function.Injective e) (n g : ν) :
    Embeds e (listAddTail L n g) (listAddTail K (e n) (e g)) := by
  unfold Circular.listAddTail linkBetween
  rw [h.prev]
  exact (((h.setPrev he _ _).setNext he _ _).setPrev he _ _).setNext he _ _

end ops

end Elfboot.Circular
