import Elfboot.Circular
import Elfboot.Word

/-!
The tree of file system nodes: `tree.h`, inside `struct fs_node`.

A node holds the head of the list of its children and an entry for the list of its
siblings. A pointer to a node is made from one to the tree inside it by subtraction, and of
the null pointer that makes a pointer to nothing.
-/

namespace Elfboot.FsTree

open Elfboot.Circular

/-- The two list nodes inside a node. -/
inductive TreeLink
  | children (n : ℕ)
  | siblings (n : ℕ)
  deriving DecidableEq

/-- `struct fs_node`, as far as the lookup reads it: the name, a string, and the tree. -/
structure FsNode where
  name : List UInt8
  parent : Option ℕ
  childrenCount : ℕ
  isString : 0 ∉ name

/-- The nodes and the lists they are on. -/
structure Vfs where
  node : ℕ → FsNode
  links : Links TreeLink

/-- A pointer to a node; `wild` is what `container_of` makes of a pointer that is not to the
tree of a node. -/
inductive Ptr
  | null
  | node (n : ℕ)
  | wild
  deriving DecidableEq

/-! ### `tree.h` -/

/-- `tree_entry` of the list node that `siblings` is. -/
def treeEntry : TreeLink → Ptr
  | .siblings n => .node n
  | .children _ => .wild

def treeParentEntry (v : Vfs) (n : ℕ) : Ptr :=
  match (v.node n).parent with
  | some p => .node p
  | none => .wild

def treeFirstChildEntryOrNull (v : Vfs) (n : ℕ) : Ptr :=
  if v.links.next (.children n) ≠ .children n then treeEntry (v.links.next (.children n))
  else .null

def treeNextSiblingEntryOrNull (v : Vfs) (c : ℕ) : Ptr :=
  match (v.node c).parent with
  | some p =>
    if v.links.next (.siblings c) ≠ .children p then treeEntry (v.links.next (.siblings c))
    else .null
  | none => treeEntry (v.links.next (.siblings c))

def treeNodeInsert (v : Vfs) (new parent : ℕ) : Vfs where
  node n :=
    if n = new then { v.node new with parent := some parent }
    else if n = parent then
      { v.node parent with
        childrenCount := Word.u32 ((v.node parent).childrenCount +
          ((v.node new).childrenCount + 1)) }
    else v.node n
  links := listAddTail v.links (.siblings new) (.children parent)

/-! ### Trees -/

/-- The heads of the lists of children. -/
def heads (N : Finset ℕ) : Set TreeLink := {h | ∃ n ∈ N, h = .children n}

/-- The children as list nodes. -/
def kidLists (kids : ℕ → List ℕ) : TreeLink → List TreeLink
  | .children n => (kids n).map .siblings
  | .siblings _ => []

/-- The nodes `N` form a tree with the given root and children. -/
structure IsTree (v : Vfs) (root : ℕ) (N : Finset ℕ) (kids : ℕ → List ℕ) : Prop where
  lists : Lists v.links (heads N) (kidLists kids)
  kid : ∀ n ∈ N, ∀ c ∈ kids n, c ∈ N ∧ (v.node c).parent = some n
  parent : ∀ n ∈ N, ∀ p ∈ (v.node n).parent, p ∈ N ∧ n ∈ kids p
  top : ∀ n ∈ N, (v.node n).parent = none ↔ n = root
  root : root ∈ N

/-- The nodes of `N` and their list nodes are the same. -/
structure SameOn (N : Finset ℕ) (v w : Vfs) : Prop where
  node : ∀ n ∈ N, w.node n = v.node n
  children : ∀ n ∈ N, w.links.next (.children n) = v.links.next (.children n) ∧
    w.links.prev (.children n) = v.links.prev (.children n)
  siblings : ∀ n ∈ N, w.links.next (.siblings n) = v.links.next (.siblings n) ∧
    w.links.prev (.siblings n) = v.links.prev (.siblings n)

variable {v w : Vfs} {root n c e : ℕ} {N : Finset ℕ} {kids : ℕ → List ℕ}

lemma head_mem (h : n ∈ N) : TreeLink.children n ∈ heads N := ⟨n, h, rfl⟩

lemma kidLists_update (kids : ℕ → List ℕ) (n : ℕ) (l : List ℕ) :
    Function.update (kidLists kids) (.children n) (l.map .siblings) =
      kidLists (Function.update kids n l) := by
  funext h
  cases h with
  | children m =>
      by_cases hm : m = n
      · subst hm; simp [kidLists]
      · simp [kidLists, Function.update_of_ne, hm]
  | siblings m => simp [kidLists, Function.update_of_ne]

lemma IsTree.isList (h : IsTree v root N kids) (hn : n ∈ N) :
    IsList v.links (.children n) ((kids n).map .siblings) :=
  h.lists.isList _ (head_mem hn)

/-- There are no more children than nodes. -/
lemma IsTree.length_le (h : IsTree v root N kids) (hn : n ∈ N) : (kids n).length ≤ N.card := by
  have hnd : (kids n).Nodup :=
    List.Nodup.of_map _ (List.nodup_cons.mp (h.isList hn).nodup).2
  rw [← List.toFinset_card_of_nodup hnd]
  refine Finset.card_le_card fun c hc => ?_
  exact (h.kid n hn c (List.mem_toFinset.mp hc)).1

lemma IsTree.congr (h : IsTree v root N kids) (hs : SameOn N v w) : IsTree w root N kids where
  lists := h.lists.congr fun g hg x hx => by
    obtain ⟨n, hn, rfl⟩ := hg
    rcases List.mem_cons.mp hx with rfl | hx
    · exact hs.children n hn
    · obtain ⟨c, hc, rfl⟩ := List.mem_map.mp hx
      exact hs.siblings c (h.kid n hn c hc).1
  kid n hn c hc := by
    obtain ⟨hcN, hp⟩ := h.kid n hn c hc
    exact ⟨hcN, by rw [hs.node c hcN, hp]⟩
  parent n hn := by rw [hs.node n hn]; exact h.parent n hn
  top n hn := by rw [hs.node n hn]; exact h.top n hn
  root := h.root

/-! ### Putting a node in -/

lemma insert_parent_new (v : Vfs) (e n : ℕ) :
    ((treeNodeInsert v e n).node e).parent = some n := by
  simp [treeNodeInsert]

lemma insert_parent_old {m : ℕ} (hm : m ≠ e) :
    ((treeNodeInsert v e n).node m).parent = (v.node m).parent := by
  unfold treeNodeInsert
  by_cases hn : m = n
  · subst hn; simp [hm]
  · simp [hm, hn]

/-- Whose child is whose, when a node without children is put in. -/
lemma mem_insert_kids (hne : n ≠ e) {m : ℕ} :
    c ∈ Function.update (Function.update kids e []) n (kids n ++ [e]) m ↔
      (m = n ∧ c = e) ∨ (m ≠ e ∧ c ∈ kids m) := by
  by_cases hm : m = n
  · subst hm
    simp [hne, or_comm]
  · by_cases hme : m = e
    · subst hme
      simp [hm]
    · simp [hm, hme]

lemma kidLists_old {m : ℕ} (hme : m ≠ e) :
    kidLists (Function.update kids e []) (.children m) = kidLists kids (.children m) := by
  simp [kidLists, Function.update_of_ne hme]

lemma kidLists_new : kidLists (Function.update kids e []) (.children e) = [] := by
  simp [kidLists]

/-- The empty list of a node that is not in the tree is one more list beside those of the tree. -/
lemma IsTree.lists_new (h : IsTree v root N kids) (he : e ∉ N)
    (hlist : IsList v.links (.children e) []) :
    Lists v.links (heads (Insert.insert e N)) (kidLists (Function.update kids e [])) := by
  have hold : ∀ m ∈ N, kidLists (Function.update kids e []) (.children m) =
      kidLists kids (.children m) := fun m hm => kidLists_old fun hme => he (hme ▸ hm)
  have hapart : ∀ m ∈ N,
      TreeLink.children e ∉ TreeLink.children m :: kidLists kids (.children m) := by
    intro m hm hx
    rcases List.mem_cons.mp hx with hx | hx
    · exact he (TreeLink.children.inj hx ▸ hm)
    · simp [kidLists] at hx
  constructor
  case isList =>
    rintro g ⟨m, hm, rfl⟩
    rcases Finset.mem_insert.mp hm with rfl | hm
    · rw [kidLists_new]
      exact hlist
    · rw [hold m hm]
      exact h.isList hm
  case apart =>
    rintro g ⟨m, hm, rfl⟩ g' ⟨m', hm', rfl⟩ hg
    -- which of the two lists is the new one
    rcases Finset.mem_insert.mp hm with hme | hmN
    · rcases Finset.mem_insert.mp hm' with hme' | hmN'
      · exact absurd (by rw [hme, hme']) hg
      · rw [hme, kidLists_new, hold m' hmN', List.disjoint_left]
        intro x hx
        rw [List.mem_singleton.mp hx]
        exact hapart m' hmN'
    · rcases Finset.mem_insert.mp hm' with hme' | hmN'
      · rw [hme', kidLists_new, hold m hmN, List.disjoint_right]
        intro x hx
        rw [List.mem_singleton.mp hx]
        exact hapart m hmN
      · rw [hold m hmN, hold m' hmN']
        exact h.lists.apart _ (head_mem hmN) _ (head_mem hmN') hg

/-- A node that is not in the tree is on none of its lists. -/
lemma IsTree.fresh_new (h : IsTree v root N kids) (he : e ∉ N) :
    Fresh (heads (Insert.insert e N)) (kidLists (Function.update kids e [])) (.siblings e) := by
  rintro g ⟨m, hm, rfl⟩ hx
  rcases Finset.mem_insert.mp hm with rfl | hm
  · simp [kidLists] at hx
  · have hme : m ≠ e := fun hme => he (hme ▸ hm)
    simp only [kidLists, Function.update_of_ne hme, List.mem_cons, List.mem_map] at hx
    rcases hx with hx | ⟨c, hc, hce⟩
    · cases hx
    · exact he (h.kid m hm e (TreeLink.siblings.inj hce ▸ hc)).1

/-- **A new node**, with no children, becomes the last child of a node of the tree. -/
lemma IsTree.insert (h : IsTree v root N kids) (hn : n ∈ N) (he : e ∉ N)
    (hlist : IsList v.links (.children e) []) :
    IsTree (treeNodeInsert v e n) root (insert e N)
      (Function.update (Function.update kids e []) n (kids n ++ [e])) := by
  have hne : n ≠ e := fun hne => he (hne ▸ hn)
  constructor
  case lists =>
    have hadd := (h.lists_new he hlist).addTail (head_mem (Finset.mem_insert_of_mem hn))
      (h.fresh_new he)
    rw [kidLists_old hne, show kidLists kids (.children n) = (kids n).map .siblings from rfl,
      show [TreeLink.siblings e] = [e].map .siblings from rfl, ← List.map_append,
      kidLists_update] at hadd
    exact hadd
  case kid =>
    intro m hm c hc
    rcases (mem_insert_kids hne).mp hc with ⟨rfl, rfl⟩ | ⟨hme, hc⟩
    · exact ⟨Finset.mem_insert_self _ _, insert_parent_new ..⟩
    · have hmN : m ∈ N := Finset.mem_of_mem_insert_of_ne hm hme
      obtain ⟨hcN, hp⟩ := h.kid m hmN c hc
      have hce : c ≠ e := fun hce => he (hce ▸ hcN)
      exact ⟨Finset.mem_insert_of_mem hcN, by rw [insert_parent_old hce, hp]⟩
  case parent =>
    intro m hm p hp
    by_cases hme : m = e
    · subst hme
      rw [insert_parent_new] at hp
      obtain rfl := Option.mem_some_iff.mp hp
      exact ⟨Finset.mem_insert_of_mem hn, (mem_insert_kids hne).mpr (Or.inl ⟨rfl, rfl⟩)⟩
    · rw [insert_parent_old hme] at hp
      obtain ⟨hpN, hmk⟩ := h.parent m (Finset.mem_of_mem_insert_of_ne hm hme) p hp
      have hpe : p ≠ e := fun hpe => he (hpe ▸ hpN)
      exact ⟨Finset.mem_insert_of_mem hpN, (mem_insert_kids hne).mpr (Or.inr ⟨hpe, hmk⟩)⟩
  case top =>
    intro m hm
    by_cases hme : m = e
    · subst hme
      rw [insert_parent_new]
      have hroot : m ≠ root := fun hr => he (hr ▸ h.root)
      simp [hroot]
    · rw [insert_parent_old hme]
      exact h.top m (Finset.mem_of_mem_insert_of_ne hm hme)
  case root => exact Finset.mem_insert_of_mem h.root

end Elfboot.FsTree
