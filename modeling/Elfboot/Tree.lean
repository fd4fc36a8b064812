import Elfboot.Forest
import Elfboot.FsTree
import Elfboot.LinkFrame
import Elfboot.Run

/-!
The trees of `tree.h`, and the count that each node keeps.

Inserting a node adds what is below it, and itself, to the count of the parent, and removing it
takes that away again; the counts further up are not changed. So they are right as long as nodes
are inserted under roots and removed from roots.
-/

namespace Elfboot.Tree

open Elfboot.Circular Elfboot.Forest Elfboot.Run Elfboot.Word

/-- The list nodes inside the tree nodes. -/
inductive Node
  | null
  | children (n : ℕ)
  | siblings (n : ℕ)
  deriving DecidableEq

/-- `struct tree_node`, less its list nodes. -/
structure TreeNode where
  parent : ℕ
  childrenCount : ℕ

structure State where
  node : ℕ → TreeNode
  links : Links Node

def State.setNode (s : State) (n : ℕ) (f : TreeNode → TreeNode) : State :=
  { s with node := Function.update s.node n (f (s.node n)) }

def treeNodeInit (s : State) (node : ℕ) : State where
  node := Function.update s.node node ⟨0, 0⟩
  links := listInit (listInit s.links (.children node)) (.siblings node)

def treeNodeIsLeaf (s : State) (node : ℕ) : Bool := (s.node node).childrenCount = 0

def treeNodeInsert (s : State) (new parent : ℕ) : State :=
  let size := (s.node new).childrenCount + 1
  let s := s.setNode parent fun t => { t with childrenCount := u32 (t.childrenCount + size) }
  let s := s.setNode new fun t => { t with parent }
  { s with links := listAddTail s.links (.siblings new) (.children parent) }

/-- `tree_node_remove`. The parent is read before the node. -/
def treeNodeRemove (s : State) (node : ℕ) : State :=
  let size := u32 ((s.node node).childrenCount + 1)
  let s := s.setNode (s.node node).parent fun t =>
    { t with childrenCount := sub32 t.childrenCount size }
  let s := s.setNode node fun t => { t with parent := 0 }
  { s with links := listDel .null s.links (.siblings node) }

/-! ### The nodes of file systems -/

/-- A list node of a file system, whose nodes have their trees at these addresses. -/
def nodeAt (tree : ℕ → ℕ) : FsTree.TreeLink → Node
  | .children n => .children (tree n)
  | .siblings n => .siblings (tree n)

lemma nodeAt_injective {tree : ℕ → ℕ} (ht : Function.Injective tree) :
    Function.Injective (nodeAt tree) := by
  intro x y h
  cases x with
  | children n =>
    cases y with
    | children m => exact congrArg FsTree.TreeLink.children (ht (Node.children.inj h))
    | siblings m => cases h
  | siblings n =>
    cases y with
    | children m => cases h
    | siblings m => exact congrArg FsTree.TreeLink.siblings (ht (Node.siblings.inj h))

/-- The trees inside the nodes of a file system. -/
structure Holds (tree : ℕ → ℕ) (v : FsTree.Vfs) (s : State) : Prop where
  node : ∀ n, s.node (tree n) =
    ⟨((v.node n).parent.map tree).getD 0, (v.node n).childrenCount⟩
  links : Embeds (nodeAt tree) v.links s.links

/-- **Inserting a node** of a file system inserts the tree inside it. -/
theorem holds_insert {tree : ℕ → ℕ} {v : FsTree.Vfs} {s : State} {new parent : ℕ}
    (ht : Function.Injective tree) (h : Holds tree v s) (hne : new ≠ parent) :
    Holds tree (FsTree.treeNodeInsert v new parent)
      (treeNodeInsert s (tree new) (tree parent)) := by
  refine ⟨fun n => ?_, h.links.listAddTail (nodeAt_injective ht) (.siblings new) (.children parent)⟩
  have hne' : tree new ≠ tree parent := ht.ne hne
  unfold FsTree.treeNodeInsert treeNodeInsert State.setNode
  dsimp only
  by_cases hn : n = new
  · subst hn
    rw [Function.update_self, Function.update_of_ne hne', h.node, if_pos rfl]
    rfl
  · rw [Function.update_of_ne (ht.ne hn), if_neg hn]
    by_cases hp : n = parent
    · subst hp
      rw [Function.update_self, h.node, h.node, if_pos rfl]
    · rw [Function.update_of_ne (ht.ne hp), h.node, if_neg hp]

/-! ### Runs -/

/-- The memory, and the nodes that `tree_node_init` has been called for. -/
structure Trees where
  mem : State
  nodes : Finset ℕ

/-- The parent of a node, if it has one. -/
def up (t : Trees) (n : ℕ) : Option ℕ :=
  if n ∈ t.nodes ∧ (t.mem.node n).parent ≠ 0 then some (t.mem.node n).parent else none

inductive Op
  | init (node : ℕ)
  | insert (new parent : ℕ)
  | remove (node : ℕ)

/-- A node is a pointer that is not null. A root is inserted under a node of another tree, and
what is removed has a parent. -/
def Allowed (t : Trees) : Op → Prop
  | .init n => 0 < n ∧ n < 2 ^ 32 ∧ n ∉ t.nodes
  | .insert new parent => new ∈ t.nodes ∧ parent ∈ t.nodes ∧ (t.mem.node new).parent = 0 ∧
      ¬ AtOrBelow (up t) parent new
  | .remove n => n ∈ t.nodes ∧ (t.mem.node n).parent ≠ 0

def step (t : Trees) : Op → Trees
  | .init n => ⟨treeNodeInit t.mem n, insert n t.nodes⟩
  | .insert new parent => { t with mem := treeNodeInsert t.mem new parent }
  | .remove n => { t with mem := treeNodeRemove t.mem n }

def trees : System Trees Op where
  init t := t.nodes = ∅
  pre := Allowed
  step := step

/-- The counts are right: each is the number of proper descendants, and the leaves are the nodes
whose list of children is empty. -/
structure Counted (t : Trees) : Prop where
  count : ∀ n ∈ t.nodes, (t.mem.node n).childrenCount = (descendants (up t) t.nodes n).card
  leaf : ∀ n ∈ t.nodes, treeNodeIsLeaf t.mem n = true ↔
    t.mem.links.next (.children n) = .children n

/-- A node is inserted under a root, or removed from one. -/
def AtRoot (t : Trees) : Op → Prop
  | .init _ => True
  | .insert _ parent => (t.mem.node parent).parent = 0
  | .remove n => (t.mem.node (t.mem.node n).parent).parent = 0

/-! ### What the operations do to the forest -/

/-- The heads of the lists of children. -/
def heads (N : Finset ℕ) : Set Node := {h | ∃ n ∈ N, h = .children n}

/-- The children as list nodes. -/
def kidLists (kids : ℕ → List ℕ) : Node → List Node
  | .children n => (kids n).map .siblings
  | _ => []

/-- The nodes form a forest, with the given children. -/
structure IsForest (t : Trees) (kids : ℕ → List ℕ) : Prop where
  lists : Lists t.mem.links (heads t.nodes) (kidLists kids)
  kid : ∀ n ∈ t.nodes, ∀ c, c ∈ kids n ↔ up t c = some n
  parent : ∀ c n, up t c = some n → n ∈ t.nodes
  acyclic : Acyclic (up t)
  bound : ∀ n ∈ t.nodes, 0 < n ∧ n < 2 ^ 32

variable {t : Trees} {kids : ℕ → List ℕ} {n m c p new parent : ℕ} {op : Op}

@[simp] lemma init_node (s : State) (n m : ℕ) : (treeNodeInit s n).node m =
    if m = n then ⟨0, 0⟩ else s.node m := by
  simp [treeNodeInit, Function.update_apply]

@[simp] lemma insert_parent (s : State) (new parent m : ℕ) :
    ((treeNodeInsert s new parent).node m).parent =
      if m = new then parent else (s.node m).parent := by
  by_cases hm : m = new
  · simp [treeNodeInsert, State.setNode, hm]
  · by_cases hp : m = parent
    · subst hp
      simp [treeNodeInsert, State.setNode, hm]
    · simp [treeNodeInsert, State.setNode, hm, hp]

@[simp] lemma insert_count (s : State) (new parent m : ℕ) :
    ((treeNodeInsert s new parent).node m).childrenCount =
      if m = parent then u32 ((s.node parent).childrenCount + ((s.node new).childrenCount + 1))
      else (s.node m).childrenCount := by
  by_cases hp : m = parent
  · subst hp
    by_cases hm : m = new
    · subst hm
      simp [treeNodeInsert, State.setNode]
    · simp [treeNodeInsert, State.setNode, hm]
  · by_cases hm : m = new
    · subst hm
      simp [treeNodeInsert, State.setNode, hp]
    · simp [treeNodeInsert, State.setNode, hm, hp]

@[simp] lemma remove_parent (s : State) (n m : ℕ) :
    ((treeNodeRemove s n).node m).parent = if m = n then 0 else (s.node m).parent := by
  by_cases hm : m = n
  · simp [treeNodeRemove, State.setNode, hm]
  · by_cases hp : m = (s.node n).parent
    · subst hp
      simp [treeNodeRemove, State.setNode, hm]
    · simp [treeNodeRemove, State.setNode, hm, hp]

@[simp] lemma remove_count (s : State) (n m : ℕ) :
    ((treeNodeRemove s n).node m).childrenCount =
      if m = (s.node n).parent then
        sub32 (s.node m).childrenCount (u32 ((s.node n).childrenCount + 1))
      else (s.node m).childrenCount := by
  by_cases hp : m = (s.node n).parent
  · by_cases hm : m = n
    · subst hm
      simp [treeNodeRemove, State.setNode, ← hp]
    · subst hp
      simp [treeNodeRemove, State.setNode, hm]
  · by_cases hm : m = n
    · subst hm
      simp [treeNodeRemove, State.setNode, hp]
    · simp [treeNodeRemove, State.setNode, hm, hp]

lemma up_some : up t c = some p ↔ c ∈ t.nodes ∧ (t.mem.node c).parent ≠ 0 ∧
    (t.mem.node c).parent = p := by
  unfold up
  split_ifs with h
  · rw [Option.some_inj, and_iff_right h.1, and_iff_right h.2]
  · exact iff_of_false nofun fun h' => h ⟨h'.1, h'.2.1⟩

lemma up_none (hn : n ∈ t.nodes) : up t n = none ↔ (t.mem.node n).parent = 0 := by
  unfold up
  rw [ite_eq_right_iff]
  simp [hn]

lemma up_out (hn : n ∉ t.nodes) : up t n = none := if_neg fun h => hn h.1

lemma up_congr {t' : Trees} (hnodes : m ∈ t'.nodes ↔ m ∈ t.nodes)
    (hparent : (t'.mem.node m).parent = (t.mem.node m).parent) : up t' m = up t m := by
  refine Option.ext fun p => ?_
  rw [up_some, up_some, hnodes, hparent]

lemma up_init (hn : n ∉ t.nodes) : up (step t (.init n)) = up t := by
  funext m
  by_cases hm : m = n
  · subst hm
    have hnew : up (step t (.init m)) m = none := if_neg fun h => h.2 (by simp [step])
    rw [hnew]
    exact (up_out hn).symm
  · refine up_congr ?_ ?_
    · simp [step, hm]
    · simp [step, hm]

lemma up_insert (hnew : new ∈ t.nodes) (h0 : parent ≠ 0) :
    up (step t (.insert new parent)) = link (up t) new parent := by
  funext m
  rw [link]
  by_cases hm : m = new
  · subst hm
    rw [Function.update_self, up_some]
    simp [step, hnew, h0]
  · rw [Function.update_of_ne hm]
    exact up_congr Iff.rfl (by simp [step, hm])

lemma up_remove (t : Trees) (n : ℕ) :
    up (step t (.remove n)) = Function.update (up t) n none := by
  funext m
  by_cases hm : m = n
  · subst hm
    rw [Function.update_self]
    exact if_neg fun h => h.2 (by simp [step])
  · rw [Function.update_of_ne hm]
    exact up_congr Iff.rfl (by simp [step, hm])

lemma kidLists_update (kids : ℕ → List ℕ) (n : ℕ) (l : List ℕ) :
    Function.update (kidLists kids) (.children n) (l.map .siblings) =
      kidLists (Function.update kids n l) := by
  funext h
  cases h with
  | null => simp [kidLists, Function.update_of_ne]
  | children m =>
    by_cases hm : m = n
    · subst hm; simp [kidLists]
    · simp [kidLists, Function.update_of_ne, hm]
  | siblings m => simp [kidLists, Function.update_of_ne]

/-- A node without a parent is on no list. -/
lemma IsForest.fresh (h : IsForest t kids) (hroot : up t c = none) :
    Fresh (heads t.nodes) (kidLists kids) (.siblings c) := by
  rintro g ⟨n, hn, rfl⟩ hx
  rcases List.mem_cons.mp hx with hx | hx
  · cases hx
  · obtain ⟨d, hd, he⟩ := List.mem_map.mp hx
    obtain rfl := Node.siblings.inj he
    rw [h.kid n hn, hroot] at hd
    cases hd

lemma IsForest.init (h : IsForest t kids) (hpos : 0 < n) (hlt : n < 2 ^ 32) (hn : n ∉ t.nodes) :
    IsForest (step t (.init n)) (Function.update kids n []) := by
  have hroot := up_out hn
  have hhead : Fresh (heads t.nodes) (kidLists kids) (.children n) := by
    rintro g ⟨m, hm, rfl⟩ hx
    rcases List.mem_cons.mp hx with hx | hx
    · exact hn (Node.children.inj hx ▸ hm)
    · obtain ⟨d, -, he⟩ := List.mem_map.mp hx
      cases he
  have hne : ∀ m ∈ t.nodes, m ≠ n := fun m hm hmn => hn (hmn ▸ hm)
  refine ⟨?_, ?_, ?_, ?_, ?_⟩
  · have hlists := h.lists.init hhead
    have hheads : insert (Node.children n) (heads t.nodes) = heads (insert n t.nodes) := by
      ext g
      simp [heads]
    rw [hheads, show ([] : List Node) = List.map .siblings [] from rfl, kidLists_update] at hlists
    refine hlists.congr ?_
    rintro g ⟨m, hm, rfl⟩ x hx
    refine listInit_off _ ?_
    rintro rfl
    rcases List.mem_cons.mp hx with hx | hx
    · cases hx
    · obtain ⟨d, hd, he⟩ := List.mem_map.mp hx
      obtain rfl := Node.siblings.inj he
      rcases Finset.mem_insert.mp hm with rfl | hm
      · rw [Function.update_self] at hd
        cases hd
      · rw [Function.update_of_ne (hne m hm), h.kid m hm, hroot] at hd
        cases hd
  · intro m hm c
    rw [up_init hn]
    rcases Finset.mem_insert.mp hm with rfl | hm
    · rw [Function.update_self]
      exact iff_of_false List.not_mem_nil fun hc => hn (h.parent c _ hc)
    · rw [Function.update_of_ne (hne m hm), h.kid m hm]
  · intro c m hc
    rw [up_init hn] at hc
    exact Finset.mem_insert_of_mem (h.parent c m hc)
  · rw [up_init hn]
    exact h.acyclic
  · intro m hm
    rcases Finset.mem_insert.mp hm with rfl | hm
    · exact ⟨hpos, hlt⟩
    · exact h.bound m hm

lemma IsForest.insert (h : IsForest t kids) (hnew : new ∈ t.nodes) (hparent : parent ∈ t.nodes)
    (hroot : up t new = none) (hother : ¬ AtOrBelow (up t) parent new) :
    IsForest (step t (.insert new parent))
      (Function.update kids parent (kids parent ++ [new])) := by
  have hup := up_insert hnew (h.bound parent hparent).1.ne'
  refine ⟨?_, ?_, ?_, ?_, h.bound⟩
  · have hlists := h.lists.addTail ⟨parent, hparent, rfl⟩ (h.fresh hroot)
    rw [← kidLists_update, List.map_append]
    exact hlists
  · intro n hn c
    rw [hup, link]
    by_cases hc : c = new
    · subst hc
      rw [Function.update_self, Option.some_inj]
      by_cases hnp : n = parent
      · subst hnp
        simp
      · rw [Function.update_of_ne hnp, h.kid n hn, hroot]
        exact iff_of_false (Option.some_ne_none n).symm (Ne.symm hnp)
    · rw [Function.update_of_ne hc, ← h.kid n hn]
      by_cases hnp : n = parent
      · subst hnp
        simp [hc]
      · rw [Function.update_of_ne hnp]
  · intro c n hc
    rw [hup, link] at hc
    by_cases hcn : c = new
    · subst hcn
      rw [Function.update_self, Option.some_inj] at hc
      exact hc ▸ hparent
    · rw [Function.update_of_ne hcn] at hc
      exact h.parent c n hc
  · rw [hup]
    exact h.acyclic.link hroot hother

lemma IsForest.remove (h : IsForest t kids) (hup : up t n = some p) :
    IsForest (step t (.remove n)) (Function.update kids p ((kids p).erase n)) := by
  have hp := h.parent n p hup
  have hmem : n ∈ kids p := (h.kid p hp n).mpr hup
  have hlist : IsList t.mem.links (.children p) ((kids p).map .siblings) :=
    h.lists.isList _ ⟨p, hp, rfl⟩
  have hnodup : (kids p).Nodup := List.Nodup.of_map _ (List.nodup_cons.mp hlist.nodup).2
  refine ⟨?_, ?_, ?_, ?_, h.bound⟩
  · have hlisted : Node.siblings n ∈ kidLists kids (.children p) := List.mem_map_of_mem hmem
    have hlists := h.lists.del .null ⟨p, hp, rfl⟩ hlisted
    have herase : (kidLists kids (.children p)).erase (.siblings n) =
        ((kids p).erase n).map .siblings :=
      (List.map_erase (fun _ _ => Node.siblings.inj) (kids p)).symm
    rw [herase, kidLists_update] at hlists
    exact hlists
  · intro m hm c
    rw [up_remove]
    by_cases hc : c = n
    · subst hc
      rw [Function.update_self]
      refine iff_of_false (fun hcm => ?_) nofun
      by_cases hmp : m = p
      · subst hmp
        rw [Function.update_self] at hcm
        exact (hnodup.mem_erase_iff.mp hcm).1 rfl
      · rw [Function.update_of_ne hmp, h.kid m hm, hup] at hcm
        exact hmp (Option.some_inj.mp hcm).symm
    · rw [Function.update_of_ne hc, ← h.kid m hm]
      by_cases hmp : m = p
      · subst hmp
        rw [Function.update_self, List.mem_erase_of_ne hc]
      · rw [Function.update_of_ne hmp]
  · intro c m hc
    rw [up_remove] at hc
    by_cases hcn : c = n
    · subst hcn
      rw [Function.update_self] at hc
      cases hc
    · rw [Function.update_of_ne hcn] at hc
      exact h.parent c m hc
  · rw [up_remove]
    exact h.acyclic.cut

/-- The nodes stay a forest. -/
lemma IsForest.step (h : IsForest t kids) (ha : Allowed t op) :
    ∃ kids', IsForest (step t op) kids' := by
  cases op with
  | init n => exact ⟨_, h.init ha.1 ha.2.1 ha.2.2⟩
  | insert new parent =>
    obtain ⟨hnew, hparent, h0, hother⟩ := ha
    exact ⟨_, h.insert hnew hparent ((up_none hnew).mpr h0) hother⟩
  | remove n => exact ⟨_, h.remove (up_some.mpr ⟨ha.1, ha.2, rfl⟩)⟩

/-! ### Counting -/

lemma IsForest.card_lt (h : IsForest t kids) : t.nodes.card < 2 ^ 32 := by
  have hsub : t.nodes ⊆ Finset.Ioo 0 (2 ^ 32) := fun n hn => Finset.mem_Ioo.mpr (h.bound n hn)
  have hcard := Finset.card_le_card hsub
  rw [Nat.card_Ioo] at hcard
  omega

lemma IsForest.parent_ne (h : IsForest t kids) (hup : up t c = some p) : p ≠ c := by
  rintro rfl
  exact h.acyclic p (.single hup)

/-- A list of children is empty exactly if nothing is below the node. -/
lemma IsForest.next_iff (h : IsForest t kids) (hn : n ∈ t.nodes) :
    t.mem.links.next (.children n) = .children n ↔ (descendants (up t) t.nodes n).card = 0 := by
  have hfirst := h.lists.first ⟨n, hn, rfl⟩
  have hnext : t.mem.links.next (.children n) = .children n ↔ kids n = [] := by
    rw [← List.head?_eq_none_iff, ← Option.map_eq_none_iff (f := Node.siblings), ← List.head?_map]
    change _ ↔ (kidLists kids (.children n)).head? = none
    rw [← hfirst, listFirst, ite_eq_left_iff]
    simp
  have hbelow : descendants (up t) t.nodes n = ∅ ↔ ¬ ∃ m, Below (up t) m n := by
    rw [Finset.eq_empty_iff_forall_notMem, not_exists]
    refine forall_congr' fun m => not_congr ?_
    rw [mem_descendants]
    refine and_iff_right_of_imp fun hm => ?_
    by_contra hout
    exact Below.of_root (up_out hout) hm
  rw [hnext, Finset.card_eq_zero, hbelow, exists_below, List.eq_nil_iff_forall_not_mem,
    not_exists]
  exact forall_congr' fun c => not_congr (h.kid n hn c)

/-- The leaves are right where the counts are. -/
lemma IsForest.counted (h : IsForest t kids)
    (hc : ∀ n ∈ t.nodes, (t.mem.node n).childrenCount = (descendants (up t) t.nodes n).card) :
    Counted t := by
  refine ⟨hc, fun n hn => ?_⟩
  rw [h.next_iff hn, ← hc n hn]
  exact decide_eq_true_iff

lemma counted_init (h : IsForest t kids) (hc : Counted t) (ha : Allowed t (.init n)) :
    Counted (step t (.init n)) := by
  obtain ⟨hpos, hlt, hn⟩ := ha
  refine (h.init hpos hlt hn).counted fun m hm => ?_
  have hsame : descendants (up t) (insert n t.nodes) m = descendants (up t) t.nodes m := by
    ext x
    rw [mem_descendants, mem_descendants, Finset.mem_insert]
    refine and_congr_left fun hx => or_iff_right ?_
    rintro rfl
    exact Below.of_root (up_out hn) hx
  rw [up_init hn]
  change (treeNodeInit t.mem n |>.node m).childrenCount =
    (descendants (up t) (insert n t.nodes) m).card
  rw [hsame, init_node]
  by_cases hmn : m = n
  · subst hmn
    rw [if_pos rfl, eq_comm, Finset.card_eq_zero, Finset.eq_empty_iff_forall_notMem]
    intro x hx
    obtain ⟨y, hy⟩ := exists_below.mp ⟨x, (mem_descendants.mp hx).2⟩
    exact hn (h.parent y _ hy)
  · rw [if_neg hmn]
    exact hc.count m (Finset.mem_of_mem_insert_of_ne hm hmn)

/-- **Inserting** keeps the counts right exactly if it is under a root. -/
lemma counted_insert (h : IsForest t kids) (hc : Counted t) (ha : Allowed t (.insert new parent)) :
    Counted (step t (.insert new parent)) ↔ AtRoot t (.insert new parent) := by
  obtain ⟨hnew, hparent, h0, hother⟩ := ha
  have hroot := (up_none hnew).mpr h0
  have hne : parent ≠ new := fun he => hother (he ▸ .refl)
  have hup := up_insert hnew (h.bound parent hparent).1.ne'
  have hforest := h.insert hnew hparent hroot hother
  have hlt := hforest.card_lt
  have hsize : ∀ n, AtOrBelow (up t) parent n →
      (descendants (up (step t (.insert new parent))) t.nodes n).card =
        (descendants (up t) t.nodes n).card + ((descendants (up t) t.nodes new).card + 1) := by
    intro n hn
    rw [hup, card_link hroot hother hnew hn]
  constructor
  · intro hc'
    by_contra hdeep
    -- the count of the node above the parent stays as it was
    have hup2 : up t parent = some (t.mem.node parent).parent :=
      up_some.mpr ⟨hparent, hdeep, rfl⟩
    have hg := h.parent _ _ hup2
    have hgp := h.parent_ne hup2
    have hcount := hc'.count _ hg
    have hold := hc.count _ hg
    change ((treeNodeInsert t.mem new parent).node _).childrenCount =
      (descendants (up (step t (.insert new parent))) t.nodes _).card at hcount
    rw [hsize _ (.single hup2), insert_count, if_neg hgp] at hcount
    omega
  · intro htop
    have htop := (up_none hparent).mpr htop
    refine hforest.counted fun n hn => ?_
    have hold := hc.count n hn
    change ((treeNodeInsert t.mem new parent).node n).childrenCount =
      (descendants (up (step t (.insert new parent))) t.nodes n).card
    rw [insert_count]
    by_cases hnp : n = parent
    · subst hnp
      have hcard := card_descendants_lt hforest.acyclic hn
      change (descendants (up (step t (.insert new n))) t.nodes n).card < t.nodes.card at hcard
      change t.nodes.card < 2 ^ 32 at hlt
      rw [hsize n .refl] at hcard ⊢
      rw [if_pos rfl, hold, hc.count new hnew, u32_of_lt (by omega)]
    · rw [if_neg hnp, hup, descendants_link hroot fun hpn => hnp (hpn.of_root htop).symm, hold]

/-- **Removing** keeps them right exactly if it is from a root. -/
lemma counted_remove (h : IsForest t kids) (hc : Counted t) (ha : Allowed t (.remove n)) :
    Counted (step t (.remove n)) ↔ AtRoot t (.remove n) := by
  obtain ⟨hn, h0⟩ := ha
  obtain ⟨p, hp⟩ : ∃ p, (t.mem.node n).parent = p := ⟨_, rfl⟩
  have hupn : up t n = some p := up_some.mpr ⟨hn, h0, hp⟩
  have hpN := h.parent n p hupn
  have hforest := h.remove hupn
  have hother := h.acyclic.other hupn
  have hroot : Function.update (up t) n none n = none := Function.update_self ..
  have hpn : p ≠ n := fun he => hother (he ▸ .refl)
  -- what hangs under the node stays there
  have hself : descendants (up t) t.nodes n =
      descendants (Function.update (up t) n none) t.nodes n := by
    conv_lhs => rw [← link_cut hupn]
    exact descendants_link hroot hother
  have hsize : ∀ m, AtOrBelow (Function.update (up t) n none) p m →
      (descendants (up t) t.nodes m).card =
        (descendants (up (step t (.remove n))) t.nodes m).card +
          ((descendants (up t) t.nodes n).card + 1) := by
    intro m hm
    rw [hself, up_remove, ← card_link hroot hother hn hm, link_cut hupn]
  have hdeep : up (step t (.remove n)) p = up t p := by
    rw [up_remove, Function.update_of_ne hpn]
  constructor
  · intro hc'
    by_contra htop
    change ¬ (t.mem.node (t.mem.node n).parent).parent = 0 at htop
    rw [hp] at htop
    have hup2 : up t p = some (t.mem.node p).parent := up_some.mpr ⟨hpN, htop, rfl⟩
    have hg := h.parent _ _ hup2
    have hgp := h.parent_ne hup2
    have hcount := hc'.count _ hg
    have hold := hc.count _ hg
    change ((treeNodeRemove t.mem n).node _).childrenCount =
      (descendants (up (step t (.remove n))) t.nodes _).card at hcount
    rw [remove_count, hp, if_neg hgp] at hcount
    have hcard := hsize _ (.single (by rw [Function.update_of_ne hpn, hup2]))
    omega
  · intro htop
    change (t.mem.node (t.mem.node n).parent).parent = 0 at htop
    rw [hp, ← up_none hpN] at htop
    have hlt := h.card_lt
    refine hforest.counted fun m (hm : m ∈ t.nodes) => ?_
    have hold := hc.count m hm
    change ((treeNodeRemove t.mem n).node m).childrenCount =
      (descendants (up (step t (.remove n))) t.nodes m).card
    rw [remove_count, hp]
    by_cases hmp : m = p
    · subst hmp
      have hcard := card_descendants_lt h.acyclic hm
      have hsum := hsize m .refl
      rw [if_pos rfl, hold, hc.count n hn, u32_of_lt (by omega), sub32_of_le (by omega) (by omega)]
      omega
    · have hoff : ¬ AtOrBelow (Function.update (up t) n none) p m := by
        intro hpm
        refine hmp (AtOrBelow.of_root ?_ hpm).symm
        rw [Function.update_of_ne hpn, htop]
      rw [if_neg hmp, up_remove, ← descendants_link hroot hoff, link_cut hupn, hold]

/-- **One step** keeps the counts right exactly if it is at a root. -/
lemma counted_step (h : IsForest t kids) (hc : Counted t) (ha : Allowed t op) :
    Counted (step t op) ↔ AtRoot t op := by
  cases op with
  | init n => exact iff_of_true (counted_init h hc ha) trivial
  | insert new parent => exact counted_insert h hc ha
  | remove n => exact counted_remove h hc ha

lemma isForest_empty (h : t.nodes = ∅) : IsForest t fun _ => [] := by
  have hup : ∀ n, up t n = none := fun n => if_neg (by simp [h])
  refine ⟨?_, by simp [h], fun c n hc => ?_, fun n hn => Below.of_root (hup n) hn, by simp [h]⟩
  · have hheads : heads t.nodes = ∅ := by simp [heads, h]
    rw [hheads]
    exact lists_empty _ _
  · rw [hup] at hc
    cases hc

lemma counted_run (h : IsForest t kids) (hc : Counted t) {ops : List Op} (ht : trees.Takes t ops) :
    (∀ k, Counted (trees.run t (ops.take k))) ↔ (trees.restrict AtRoot).Takes t ops := by
  induction ops generalizing t kids with
  | nil => exact iff_of_true (fun k => by simpa [System.run] using hc) trivial
  | cons op ops ih =>
    obtain ⟨ha, ht⟩ := ht
    obtain ⟨kids', h'⟩ := h.step ha
    have hstep := counted_step h hc ha
    constructor
    · intro hall
      have hc' : Counted (step t op) := hall 1
      exact ⟨⟨ha, hstep.mp hc'⟩, (ih h' hc' ht).mp fun k => hall (k + 1)⟩
    · rintro ⟨⟨-, hroot⟩, hrest⟩ k
      have hc' := hstep.mpr hroot
      cases k with
      | zero => exact hc
      | succ k => exact (ih h' hc' ht).mpr hrest k

/-- **The counts are right** in every state of a run exactly if each node is inserted under a
root, and each is removed from a root. -/
theorem counts_iff (hinit : trees.init t) {ops : List Op} (ht : trees.Takes t ops) :
    (∀ k, Counted (trees.run t (ops.take k))) ↔ (trees.restrict AtRoot).Takes t ops := by
  have hempty : t.nodes = ∅ := hinit
  have h := isForest_empty hempty
  exact counted_run h (h.counted (by simp [hempty])) ht

/-- No nodes. -/
def noTrees : Trees := ⟨⟨fun _ => ⟨0, 0⟩, ⟨fun _ => .null, fun _ => .null⟩⟩, ∅⟩

lemma takes_pair : trees.Takes noTrees [.init 1, .init 2, .insert 2 1] := by
  refine ⟨⟨by decide, by decide, by decide⟩, ⟨by decide, by decide, by decide⟩,
    ⟨by decide, by decide, by decide, fun h => ?_⟩, trivial⟩
  exact absurd (h.of_root (by decide)) (by decide)

theorem counts_iff_pair :
    (∀ k, Counted (trees.run noTrees ([Op.init 1, .init 2, .insert 2 1].take k))) ↔
      (trees.restrict AtRoot).Takes noTrees [.init 1, .init 2, .insert 2 1] :=
  counts_iff (t := noTrees) rfl takes_pair

/-- A child of a child that is removed with what hangs under it: the count of the root wraps. -/
theorem not_counted : ¬ ∀ t, Reach trees t → Counted t := by
  intro h
  have htakes : trees.Takes noTrees [.init 1, .init 2, .init 3, .insert 2 1, .insert 3 2,
      .remove 2] := by
    refine ⟨⟨by decide, by decide, by decide⟩, ⟨by decide, by decide, by decide⟩,
      ⟨by decide, by decide, by decide⟩, ⟨by decide, by decide, by decide, fun h => ?_⟩,
      ⟨by decide, by decide, by decide, fun h => ?_⟩, ⟨by decide, by decide⟩, trivial⟩
    · exact absurd (h.of_root (by decide)) (by decide)
    · rcases (atOrBelow_iff.mp h) with h | h
      · exact absurd h (by decide)
      · exact absurd ((((Below.of_parent (p := 1) (by decide)).mp h)).of_root (by decide))
          (by decide)
  have hleaf := (h _ (Reach.run (s := noTrees) (.init rfl) htakes)).leaf 1 (by decide)
  exact absurd (hleaf.mpr (by decide)) (by decide)

end Elfboot.Tree
