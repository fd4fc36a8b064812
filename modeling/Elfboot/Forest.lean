import Mathlib

/-!
Forests, given by the parent of each node, and how many nodes are below each.

Linking a root under a node of another tree adds its tree to what is below that node and below
everything above it, and cutting it off again is the same read backwards.
-/

namespace Elfboot.Forest

open Relation

variable {ν : Type*}

/-- On the way up from `m`, after a step at least, lies `n`. -/
def Below (parent : ν → Option ν) : ν → ν → Prop := TransGen fun a b => parent a = some b

def AtOrBelow (parent : ν → Option ν) : ν → ν → Prop := ReflTransGen fun a b => parent a = some b

def Acyclic (parent : ν → Option ν) : Prop := ∀ n, ¬ Below parent n n

open Classical in
/-- The proper descendants of a node among the nodes `N`. -/
noncomputable def descendants (parent : ν → Option ν) (N : Finset ν) (n : ν) : Finset ν :=
  N.filter (Below parent · n)

variable {parent : ν → Option ν} {N : Finset ν} {m n c p : ν}

lemma mem_descendants : m ∈ descendants parent N n ↔ m ∈ N ∧ Below parent m n := by
  classical
  exact Finset.mem_filter

lemma atOrBelow_iff : AtOrBelow parent m n ↔ m = n ∨ Below parent m n := by
  rw [AtOrBelow, reflTransGen_iff_eq_or_transGen]
  exact or_congr eq_comm Iff.rfl

lemma Below.of_root (hroot : parent m = none) : ¬ Below parent m n := by
  intro h
  obtain ⟨b, hb, -⟩ := TransGen.head'_iff.mp h
  rw [hroot] at hb
  cases hb

lemma AtOrBelow.of_root (hroot : parent m = none) (h : AtOrBelow parent m n) : m = n :=
  (atOrBelow_iff.mp h).resolve_right (Below.of_root hroot)

lemma Below.of_parent (hp : parent m = some p) : Below parent m n ↔ AtOrBelow parent p n := by
  constructor
  · intro h
    obtain ⟨b, hb, hbn⟩ := TransGen.head'_iff.mp h
    rw [hp] at hb
    exact Option.some_inj.mp hb ▸ hbn
  · exact fun h => TransGen.head' hp h

/-- The way up from a node is one line. -/
lemma AtOrBelow.total {k : ν} (hm : AtOrBelow parent k m) (hn : AtOrBelow parent k n) :
    AtOrBelow parent m n ∨ AtOrBelow parent n m :=
  ReflTransGen.total_of_right_unique
    (fun _ _ _ h1 h2 => Option.some_inj.mp (h1.symm.trans h2)) hm hn

/-- Something is below a node exactly if some node has it for its parent. -/
lemma exists_below : (∃ m, Below parent m n) ↔ ∃ m, parent m = some n := by
  constructor
  · rintro ⟨m, hm⟩
    obtain ⟨b, -, hb⟩ := TransGen.tail'_iff.mp hm
    exact ⟨b, hb⟩
  · rintro ⟨m, hm⟩
    exact ⟨m, .single hm⟩

lemma card_descendants_lt (h : Acyclic parent) (hn : n ∈ N) :
    (descendants parent N n).card < N.card := by
  refine Finset.card_lt_card ⟨fun x hx => (mem_descendants.mp hx).1, fun hsub => ?_⟩
  exact h n (mem_descendants.mp (hsub hn)).2

/-! ### Linking a root -/

variable [DecidableEq ν]

/-- The root `c` becomes a child of `p`. -/
def link (parent : ν → Option ν) (c p : ν) : ν → Option ν := Function.update parent c (some p)

lemma link_old {a b : ν} (hroot : parent c = none) (h : parent a = some b) :
    link parent c p a = some b := by
  have hne : a ≠ c := by
    rintro rfl
    rw [hroot] at h
    cases h
  rw [link, Function.update_of_ne hne, h]

lemma AtOrBelow.link (hroot : parent c = none) (h : AtOrBelow parent m n) :
    AtOrBelow (link parent c p) m n :=
  ReflTransGen.mono (fun _ _ => link_old hroot) _ _ h

/-- **Linking**: what is below a node then was so before, or is in the tree that is linked. -/
lemma below_link (hroot : parent c = none) : Below (link parent c p) m n ↔
    Below parent m n ∨ AtOrBelow parent m c ∧ AtOrBelow parent p n := by
  have hstep : ∀ {a b}, link parent c p a = some b → a = c ∧ b = p ∨ parent a = some b := by
    intro a b h
    by_cases ha : a = c
    · subst ha
      rw [link, Function.update_self] at h
      exact .inl ⟨rfl, (Option.some_inj.mp h).symm⟩
    · rw [link, Function.update_of_ne ha] at h
      exact .inr h
  constructor
  · intro h
    induction h with
    | single h =>
      rcases hstep h with ⟨rfl, rfl⟩ | h
      · exact .inr ⟨.refl, .refl⟩
      · exact .inl (.single h)
    | tail _ h ih =>
      rcases hstep h with ⟨rfl, rfl⟩ | h
      · exact .inr ⟨ih.elim TransGen.to_reflTransGen And.left, .refl⟩
      · exact ih.imp (·.tail h) fun ih => ⟨ih.1, ih.2.tail h⟩
  · rintro (h | ⟨hm, hn⟩)
    · exact TransGen.mono (fun _ _ => link_old hroot) _ _ h
    · refine TransGen.trans_right (hm.link hroot) (TransGen.head' ?_ (hn.link hroot))
      exact Function.update_self ..

lemma Acyclic.link (h : Acyclic parent) (hroot : parent c = none)
    (hother : ¬ AtOrBelow parent p c) : Acyclic (link parent c p) := by
  intro m hm
  rcases (below_link hroot).mp hm with hm | ⟨hmc, hpm⟩
  · exact h m hm
  · exact hother (ReflTransGen.trans hpm hmc)

/-- A forest whose node `c` has been cut off from `p` gives the forest back when it is linked. -/
lemma link_cut (h : parent c = some p) : link (Function.update parent c none) c p = parent := by
  rw [link, Function.update_idem, ← h, Function.update_eq_self]

lemma Acyclic.cut (h : Acyclic parent) : Acyclic (Function.update parent c none) := by
  refine fun n hn => h n (TransGen.mono (fun a b hab => ?_) _ _ hn)
  by_cases ha : a = c
  · subst ha
    rw [Function.update_self] at hab
    cases hab
  · rwa [Function.update_of_ne ha] at hab

/-- A node is not below what hangs under it. -/
lemma Acyclic.other (h : Acyclic parent) (hp : parent c = some p) :
    ¬ AtOrBelow (Function.update parent c none) p c := by
  intro hpc
  refine h c ?_
  rw [← link_cut hp, below_link (Function.update_self ..)]
  exact .inr ⟨.refl, hpc⟩

/-! ### Counting -/

/-- **The linked tree is counted** at the node it is linked under and at everything above, and
nowhere else. -/
lemma card_link (hroot : parent c = none) (hother : ¬ AtOrBelow parent p c) (hc : c ∈ N)
    (hn : AtOrBelow parent p n) : (descendants (link parent c p) N n).card =
      (descendants parent N n).card + ((descendants parent N c).card + 1) := by
  have hnew : c ∉ descendants parent N c := fun h => Below.of_root hroot (mem_descendants.mp h).2
  have hdisj : Disjoint (descendants parent N n) (insert c (descendants parent N c)) := by
    rw [Finset.disjoint_left]
    intro x hx hxc
    have hxn : AtOrBelow parent x n := (mem_descendants.mp hx).2.to_reflTransGen
    have hxc : AtOrBelow parent x c := by
      rw [atOrBelow_iff]
      exact (Finset.mem_insert.mp hxc).imp_right fun h => (mem_descendants.mp h).2
    rcases AtOrBelow.total hxn hxc with h | h
    · exact hother (ReflTransGen.trans hn h)
    · exact hother (AtOrBelow.of_root hroot h ▸ hn)
  have hset : descendants (link parent c p) N n =
      descendants parent N n ∪ insert c (descendants parent N c) := by
    ext x
    rw [mem_descendants, below_link hroot, and_iff_left hn, atOrBelow_iff, Finset.mem_union,
      Finset.mem_insert, mem_descendants, mem_descendants]
    constructor
    · rintro ⟨hx, h | rfl | h⟩
      · exact .inl ⟨hx, h⟩
      · exact .inr (.inl rfl)
      · exact .inr (.inr ⟨hx, h⟩)
    · rintro (⟨hx, h⟩ | rfl | ⟨hx, h⟩)
      · exact ⟨hx, .inl h⟩
      · exact ⟨hc, .inr (.inl rfl)⟩
      · exact ⟨hx, .inr (.inr h)⟩
  rw [hset, Finset.card_union_of_disjoint hdisj, Finset.card_insert_of_notMem hnew]

lemma descendants_link (hroot : parent c = none) (hn : ¬ AtOrBelow parent p n) :
    descendants (link parent c p) N n = descendants parent N n := by
  ext x
  rw [mem_descendants, below_link hroot, mem_descendants, or_iff_left fun h => hn h.2]

end Elfboot.Forest
