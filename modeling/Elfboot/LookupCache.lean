import Elfboot.LookupFollows

/-!
The tree of nodes as a cache of path lookups: runs of `vfs_open`.

A lookup only adds children, behind the ones that are there, and asks a file system only for
names that no child has. What a path has led to is found by the loop over the children from
then on, without a file system.
-/

namespace Elfboot.LookupCache

open Elfboot.Circular Elfboot.Buffer Elfboot.Str Elfboot.FsTree Elfboot.Lookup
  Elfboot.LookupFollows
open Relation (ReflTransGen)

variable (fd : Finddir)

/-- `vfs_lookup_node`: the node, or the null pointer when the lookup fails. -/
def vfsLookupNode (n : ℕ) (m : Bmalloc) (p : Option ℕ) (vfs : Vfs) (node : Ptr)
    (path : Option (Bytes × ℕ)) : Option (Ptr × Vfs) :=
  match vfsLookupTree fd n m p vfs { flags := 0, path := path, node := node } with
  | none => none
  | some (st, req, vfs) => some (if st ≠ 0 then .null else req.node, vfs)

/-- `vfs_open`, which is `vfs_lookup`; `root` is `fs_root`. -/
def vfsOpen (n : ℕ) (m : Bmalloc) (p : Option ℕ) (root : ℕ) (vfs : Vfs)
    (path : Option (Bytes × ℕ)) : Option (Ptr × Vfs) :=
  vfsLookupNode fd n m p vfs (.node root) path

/-! ### Runs -/

/-- A call of `vfs_open`: the path, what `bmalloc` gives, and what `strtok` has kept. -/
structure Open where
  m : Bmalloc
  p : Option ℕ
  b : Bytes
  str : ℕ
  path : List UInt8
  isPath : CStr b str path

/-- There is memory for the copy of the path. -/
def Open.memory (o : Open) : Bool := (o.m.call 0 (o.path.length + 1)).isSome

/-- The call returns the pointer, and leaves the nodes. -/
def Returns (root : ℕ) (v : Vfs) (o : Open) (res : Ptr) (w : Vfs) : Prop :=
  ∃ k, ∀ n ≥ k, vfsOpen fd n o.m o.p root v (some (o.b, o.str)) = some (res, w)

/-- A run of calls, with what they return: the parts of a path are not too long for the name of
a node, and do not lead to `..` at the root. -/
inductive Run (root : ℕ) : Vfs → List (Open × Ptr) → Vfs → Prop
  | nil {v} : Run root v [] v
  | cons {v o res w os u} (hlen : ∀ c ∈ components o.path, c.length ≤ 63)
      (htop : ¬ MeetsTop fd v root (components o.path)) (h : Returns fd root v o res w)
      (hr : Run root w os u) : Run root v ((o, res) :: os) u

/-- A string that fits in the name of a node. -/
def IsName (c : List UInt8) : Prop := 0 ∉ c ∧ c.length ≤ 63

/-- A file system is asked for a name that no child of a node has; what it finds is put into
the tree. -/
inductive Asks : Vfs × Finset ℕ → Vfs × Finset ℕ → Prop
  | miss {v N q c l w} (hq : q ∈ N) (hn : IsName c) (hc : c ≠ dot) (hc' : c ≠ dotdot)
      (hl : Kids v q l) (h : childOf v l c = none) (hf : fd v q c = (none, w)) :
      Asks (v, N) (w, N)
  | hit {v N q c l e w} (hq : q ∈ N) (hn : IsName c) (hc : c ≠ dot) (hc' : c ≠ dotdot)
      (hl : Kids v q l) (h : childOf v l c = none) (hf : fd v q c = (some e, w)) :
      Asks (v, N) (treeNodeInsert w e q, insert e N)

/-- What is found is a new node without children that has the name; the tree is not changed. -/
def Finds (v : Vfs) (N : Finset ℕ) : Prop :=
  ∀ q ∈ N, ∀ c l, IsName c → c ≠ dot → c ≠ dotdot → Kids v q l → childOf v l c = none →
    SameOn N v (fd v q c).2 ∧ ∀ e ∈ (fd v q c).1, e ∉ N ∧
      IsList (fd v q c).2.links (.children e) [] ∧ ((fd v q c).2.node e).name = c

/-- The file systems do so from now on. -/
def Behaves (s : Vfs × Finset ℕ) : Prop := ∀ t, ReflTransGen (Asks fd) s t → Finds fd t.1 t.2

/-- The nodes form a tree in which no directory has two children of the same name. -/
structure Sound (root : ℕ) (v : Vfs) (N : Finset ℕ) (kids : ℕ → List ℕ) : Prop where
  tree : IsTree v root N kids
  distinct : ∀ q ∈ N, ∀ a ∈ kids q, ∀ b ∈ kids q, (v.node a).name = (v.node b).name → a = b

variable {fd} {v w u : Vfs} {root q r e : ℕ} {N M : Finset ℕ} {kids : ℕ → List ℕ}
  {c : List UInt8} {cs : List (List UInt8)} {s t : Vfs × Finset ℕ}

/-! ### How the tree grows -/

/-- The nodes keep their names and parents, and their children come first. -/
structure Extends (N : Finset ℕ) (v w : Vfs) : Prop where
  name : ∀ q ∈ N, (w.node q).name = (v.node q).name
  parent : ∀ q ∈ N, (w.node q).parent = (v.node q).parent
  kids : ∀ q ∈ N, ∀ l, Kids v q l → ∃ l', Kids w q (l ++ l')

lemma Extends.refl (N : Finset ℕ) (v : Vfs) : Extends N v v :=
  ⟨fun _ _ => rfl, fun _ _ => rfl, fun _ _ l hl => ⟨[], by rwa [List.append_nil]⟩⟩

lemma Extends.trans (h : Extends N v w) (h' : Extends M w u) (hsub : N ⊆ M) : Extends N v u where
  name q hq := (h'.name q (hsub hq)).trans (h.name q hq)
  parent q hq := (h'.parent q (hsub hq)).trans (h.parent q hq)
  kids q hq l hl := by
    obtain ⟨l1, h1⟩ := h.kids q hq l hl
    obtain ⟨l2, h2⟩ := h'.kids q (hsub hq) _ h1
    exact ⟨l1 ++ l2, by rwa [← List.append_assoc]⟩

lemma insert_name (v : Vfs) (e n m : ℕ) :
    ((treeNodeInsert v e n).node m).name = (v.node m).name := by
  unfold treeNodeInsert
  dsimp only
  split_ifs with h1 h2
  · rw [h1]
  · rw [h2]
  · rfl

lemma Sound.kids_eq (h : Sound root v N kids) (hq : q ∈ N) {l : List ℕ} (hl : Kids v q l) :
    l = kids q := Kids.unique hl (h.tree.isList hq)

/-- A file system that finds nothing leaves the tree as it is. -/
lemma Sound.miss (h : Sound root v N kids) (hs : SameOn N v w) :
    Sound root w N kids ∧ Extends N v w := by
  have ht := h.tree.congr hs
  refine ⟨⟨ht, fun q hq a ha b hb heq => ?_⟩, fun q hq => ?_, fun q hq => ?_, fun q hq l hl => ?_⟩
  · rw [hs.node a (h.tree.kid q hq a ha).1, hs.node b (h.tree.kid q hq b hb).1] at heq
    exact h.distinct q hq a ha b hb heq
  · rw [hs.node q hq]
  · rw [hs.node q hq]
  · rw [h.kids_eq hq hl]
    exact ⟨[], by rw [List.append_nil]; exact ht.isList hq⟩

lemma childOf_none {l : List ℕ} (h : childOf v l c = none) : ∀ a ∈ l, (v.node a).name ≠ c := by
  intro a ha
  simpa using List.find?_eq_none.mp h a ha

/-- **A node that is found** becomes a child whose name no other child has. -/
lemma Sound.hit (h : Sound root v N kids) (hs : SameOn N v w) (hq : q ∈ N) (he : e ∉ N)
    (hlist : IsList w.links (.children e) []) (hname : (w.node e).name = c)
    (hnone : childOf v (kids q) c = none) :
    (∃ kids', Sound root (treeNodeInsert w e q) (insert e N) kids') ∧
      Extends N v (treeNodeInsert w e q) := by
  obtain ⟨hsound, hext⟩ := h.miss hs
  have ht := hsound.tree.insert hq he hlist
  have hne : ∀ a ∈ N, a ≠ e := fun a ha hae => he (hae ▸ ha)
  have hkids : ∀ a, a ∈ N → a ≠ q →
      Function.update (Function.update kids e []) q (kids q ++ [e]) a = kids a := by
    intro a ha haq
    rw [Function.update_of_ne haq, Function.update_of_ne (hne a ha)]
  have hnew : ∀ a ∈ kids q, (w.node a).name ≠ (w.node e).name := by
    intro a ha
    rw [hname, hext.name a (h.tree.kid q hq a ha).1]
    exact childOf_none hnone a ha
  constructor
  · refine ⟨_, ht, fun x hx a ha b hb heq => ?_⟩
    rw [insert_name, insert_name] at heq
    by_cases hxq : x = q
    · rw [hxq, Function.update_self, List.mem_append, List.mem_singleton] at ha hb
      rcases ha with ha | rfl <;> rcases hb with hb | rfl
      · exact hsound.distinct q hq a ha b hb heq
      · exact absurd heq (hnew a ha)
      · exact absurd heq.symm (hnew b hb)
      · rfl
    · rw [Function.update_of_ne hxq] at ha hb
      by_cases hxe : x = e
      · rw [hxe, Function.update_self] at ha
        cases ha
      · rw [Function.update_of_ne hxe] at ha hb
        exact hsound.distinct x (Finset.mem_of_mem_insert_of_ne hx hxe) a ha b hb heq
  · refine ⟨fun x hx => ?_, fun x hx => ?_, fun x hx l hl => ?_⟩
    · rw [insert_name]
      exact hext.name x hx
    · rw [insert_parent_old (hne x hx)]
      exact hext.parent x hx
    · have hlist' := ht.isList (Finset.mem_insert_of_mem hx)
      rw [h.kids_eq hx hl]
      by_cases hxq : x = q
      · rw [hxq, Function.update_self] at hlist'
        exact ⟨[e], hxq ▸ hlist'⟩
      · rw [hkids x hx hxq] at hlist'
        exact ⟨[], by rw [List.append_nil]; exact hlist'⟩

/-- What a file system is asked for keeps the tree sound, and extends it. -/
lemma Sound.asks (h : Sound root s.1 s.2 kids) (hf : Finds fd s.1 s.2) (ha : Asks fd s t) :
    s.2 ⊆ t.2 ∧ (∃ kids', Sound root t.1 t.2 kids') ∧ Extends s.2 s.1 t.1 := by
  cases ha with
  | miss hq hn hc hc' hl hnone hfd =>
      have hsame := (hf _ hq _ _ hn hc hc' hl hnone).1
      rw [hfd] at hsame
      obtain ⟨hsound, hext⟩ := h.miss hsame
      exact ⟨subset_rfl, ⟨_, hsound⟩, hext⟩
  | hit hq hn hc hc' hl hnone hfd =>
      obtain ⟨hsame, hnew⟩ := hf _ hq _ _ hn hc hc' hl hnone
      rw [hfd] at hsame hnew
      obtain ⟨he, hlist, hname⟩ := hnew _ rfl
      rw [h.kids_eq hq hl] at hnone
      obtain ⟨hsound, hext⟩ := h.hit hsame hq he hlist hname hnone
      exact ⟨Finset.subset_insert _ _, hsound, hext⟩

lemma Behaves.finds (h : Behaves fd s) : Finds fd s.1 s.2 := h s .refl

lemma Behaves.reach (h : Behaves fd s) (hr : ReflTransGen (Asks fd) s t) : Behaves fd t :=
  fun x hx => h x (hr.trans hx)

/-- **The tree stays sound** whatever the file systems are asked for, and is extended. -/
lemma Sound.reach (h : Sound root s.1 s.2 kids) (hb : Behaves fd s)
    (hr : ReflTransGen (Asks fd) s t) :
    s.2 ⊆ t.2 ∧ (∃ kids', Sound root t.1 t.2 kids') ∧ Extends s.2 s.1 t.1 := by
  induction hr with
  | refl => exact ⟨subset_rfl, ⟨_, h⟩, .refl ..⟩
  | tail hr ha ih =>
      obtain ⟨hsub, ⟨kids', hsound⟩, hext⟩ := ih
      obtain ⟨hsub', hsound', hext'⟩ := hsound.asks (hb _ hr) ha
      exact ⟨hsub.trans hsub', hsound', hext.trans hext' hsub⟩

/-! ### What is cached -/

/-- The part leads to the node without a file system. -/
def Cached (v : Vfs) (q : ℕ) (c : List UInt8) (r : ℕ) : Prop :=
  c = dot ∧ r = q ∨ c = dotdot ∧ (v.node q).parent = some r ∨
    c ≠ dot ∧ c ≠ dotdot ∧ ∃ l, Kids v q l ∧ childOf v l c = some r

/-- So do the parts, one after the other. -/
def CachedPath (v : Vfs) : ℕ → List (List UInt8) → ℕ → Prop
  | q, [], r => q = r
  | q, c :: cs, r => ∃ x, Cached v q c x ∧ CachedPath v x cs r

lemma Cached.goes (h : Cached v q c r) : Goes fd v q c v r := by
  rcases h with ⟨rfl, rfl⟩ | ⟨rfl, hp⟩ | ⟨hc, hc', l, hl, hchild⟩
  · exact .here
  · exact .up hp
  · exact .child hc hc' hl hchild

lemma Cached.not_lacks (h : Cached v q c r) : ¬ Lacks fd v q c w := by
  intro hlacks
  rcases h with ⟨rfl, rfl⟩ | ⟨rfl, hp⟩ | ⟨hc, hc', l, hl, hchild⟩
  · cases hlacks with
    | dir hc => exact hc rfl
  · cases hlacks with
    | top hp' =>
        rw [hp] at hp'
        cases hp'
    | dir _ hc' => exact hc' rfl
  · cases hlacks with
    | top => exact hc' rfl
    | dir _ _ hl' hnone =>
        rw [Kids.unique hl hl', hnone] at hchild
        cases hchild

/-- A cached part leads to a node of the tree. -/
lemma Cached.mem (h : Cached v q c r) (hs : Sound root v N kids) (hq : q ∈ N) : r ∈ N := by
  rcases h with ⟨rfl, rfl⟩ | ⟨rfl, hp⟩ | ⟨hc, hc', l, hl, hchild⟩
  · exact hq
  · exact (hs.tree.parent q hq r hp).1
  · rw [hs.kids_eq hq hl] at hchild
    exact (hs.tree.kid q hq r (List.mem_of_find?_eq_some hchild)).1

lemma childOf_extends {l l' : List ℕ} (hname : ∀ a ∈ l, (w.node a).name = (v.node a).name)
    (h : childOf v l c = some r) : childOf w (l ++ l') c = some r := by
  have hl : childOf w l c = some r := by
    unfold childOf at h ⊢
    rw [← h]
    exact List.find?_congr fun a ha => by rw [hname a ha]
  unfold childOf at hl ⊢
  rw [List.find?_append, hl, Option.some_or]

/-- What is cached stays cached. -/
lemma Cached.extends (h : Cached v q c r) (hs : Sound root v N kids) (hq : q ∈ N)
    (he : Extends N v w) : Cached w q c r := by
  rcases h with ⟨hc, hr⟩ | ⟨hc, hp⟩ | ⟨hc, hc', l, hl, hchild⟩
  · exact Or.inl ⟨hc, hr⟩
  · exact Or.inr (Or.inl ⟨hc, (he.parent q hq).trans hp⟩)
  · obtain ⟨l', hl'⟩ := he.kids q hq l hl
    refine Or.inr (Or.inr ⟨hc, hc', _, hl', childOf_extends (fun a ha => ?_) hchild⟩)
    rw [hs.kids_eq hq hl] at ha
    exact he.name a (hs.tree.kid q hq a ha).1

lemma CachedPath.extends (h : CachedPath v q cs r) (hs : Sound root v N kids) (hq : q ∈ N)
    (he : Extends N v w) : CachedPath w q cs r := by
  induction cs generalizing q with
  | nil => exact h
  | cons c cs ih =>
      obtain ⟨x, hx, hrest⟩ := h
      exact ⟨x, hx.extends hs hq he, ih hrest (hx.mem hs hq)⟩

lemma Cached.not_top (h : Cached v q c r) : ¬ (c = dotdot ∧ (v.node q).parent = none) := by
  rintro ⟨hdd, hnone⟩
  rcases h with ⟨hc, -⟩ | ⟨-, hp⟩ | ⟨-, hc', -⟩
  · exact absurd (hc.symm.trans hdd) (by decide)
  · rw [hnone] at hp
    cases hp
  · exact hc' hdd

lemma CachedPath.not_meetsTop (h : CachedPath v q cs r) : ¬ MeetsTop fd v q cs := by
  induction cs generalizing q with
  | nil => intro hm; cases hm
  | cons c cs ih =>
      obtain ⟨x, hx, hrest⟩ := h
      intro hm
      cases hm with
      | here hp => exact hx.not_top ⟨rfl, hp⟩
      | later hg hm =>
          obtain ⟨rfl, rfl⟩ := Goes.unique hx.goes hg
          exact ih hrest hm

/-- What is cached is what a lookup leads to. -/
lemma CachedPath.resolves {res : ℤ × ℕ × Vfs} (h : CachedPath v q cs r)
    (hr : Resolves fd v q cs res) : res = (0, r, v) := by
  induction cs generalizing q with
  | nil =>
      cases hr
      rw [show q = r from h]
  | cons c cs ih =>
      obtain ⟨x, hx, hrest⟩ := h
      cases hr with
      | go hg hr =>
          obtain ⟨rfl, rfl⟩ := Goes.unique hx.goes hg
          exact ih hrest hr
      | fail hl => exact absurd hl hx.not_lacks

/-- A child of the tree is cached under its name. -/
lemma Sound.cached (h : Sound root v N kids) (he : e ∈ N) (hp : (v.node e).parent = some q)
    (hname : (v.node e).name = c) (hc : c ≠ dot) (hc' : c ≠ dotdot) : Cached v q c e := by
  obtain ⟨hq, hmem⟩ := h.tree.parent e he q hp
  refine Or.inr (Or.inr ⟨hc, hc', kids q, h.tree.isList hq, ?_⟩)
  unfold childOf
  obtain ⟨x, hx⟩ := Option.isSome_iff_exists.mp
    (List.find?_isSome.mpr ⟨e, hmem, decide_eq_true hname⟩ :
      ((kids q).find? fun m => (v.node m).name = c).isSome)
  have hxname : (v.node x).name = c := by simpa using List.find?_some hx
  rw [hx, h.distinct q hq x (List.mem_of_find?_eq_some hx) e hmem (hxname.trans hname.symm)]

/-! ### What a lookup does to the tree -/

/-- A part leads to a node of the tree, which is extended at most. -/
lemma Sound.goes (h : Sound root v N kids) (hq : q ∈ N) (hn : IsName c) (hg : Goes fd v q c w r) :
    ReflTransGen (Asks fd) (v, N) (w, insert r N) := by
  have hself : ∀ x ∈ N, ReflTransGen (Asks fd) (v, N) (v, insert x N) := by
    intro x hx
    rw [Finset.insert_eq_self.mpr hx]
  cases hg with
  | here => exact hself q hq
  | up hp => exact hself r (h.tree.parent q hq r hp).1
  | top => exact hself q hq
  | child _ _ hl hchild =>
      rw [h.kids_eq hq hl] at hchild
      exact hself r (h.tree.kid q hq r (List.mem_of_find?_eq_some hchild)).1
  | dir hc hc' hl hnone hf => exact .single (.hit hq hn hc hc' hl hnone hf)

lemma lacks_asks (hq : q ∈ N) (hn : IsName c) (hl : Lacks fd v q c w) :
    ReflTransGen (Asks fd) (v, N) (w, N) := by
  cases hl with
  | top => exact .refl
  | dir hc hc' hl hnone hf => exact .single (.miss hq hn hc hc' hl hnone hf)

/-- **The part is cached** from then on, unless it is `..` at the root. -/
lemma Sound.goes_cached (h : Sound root v N kids) (hb : Behaves fd (v, N)) (hq : q ∈ N)
    (hn : IsName c) (hg : Goes fd v q c w r) (htop : ¬ (c = dotdot ∧ (v.node q).parent = none)) :
    Cached w q c r := by
  cases hg with
  | here => exact Or.inl ⟨rfl, rfl⟩
  | up hp => exact Or.inr (Or.inl ⟨rfl, hp⟩)
  | top hp => exact absurd ⟨rfl, hp⟩ htop
  | child hc hc' hl hchild => exact Or.inr (Or.inr ⟨hc, hc', _, hl, hchild⟩)
  | dir hc hc' hl hnone hf =>
      obtain ⟨-, hnew⟩ := hb.finds q hq c _ hn hc hc' hl hnone
      rw [hf] at hnew
      obtain ⟨-, -, hname⟩ := hnew r rfl
      obtain ⟨-, ⟨kids', hsound⟩, -⟩ := h.reach hb (.single (.hit hq hn hc hc' hl hnone hf))
      refine hsound.cached (Finset.mem_insert_self _ _) (insert_parent_new ..) ?_ hc hc'
      rw [insert_name]
      exact hname

/-- What the loop of the lookup asks of the file systems. -/
lemma Sound.dirsOk (h : Sound root v N kids) (hb : Behaves fd (v, N)) (hq : q ∈ N)
    (hn : ∀ c ∈ cs, IsName c) : DirsOk fd v N q cs := by
  induction cs generalizing v N q kids with
  | nil => trivial
  | cons c cs ih =>
      obtain ⟨hnc, hncs⟩ := List.forall_mem_cons.mp hn
      refine ⟨fun hc hc' l hl hnone => ?_, fun w r hg => ?_⟩
      · obtain ⟨hsame, hnew⟩ := hb.finds q hq c l hnc hc hc' hl hnone
        exact ⟨hsame, fun e he => ⟨(hnew e he).1, (hnew e he).2.1⟩⟩
      · have hr := h.goes hq hnc hg
        obtain ⟨-, ⟨kids', hsound⟩, -⟩ := h.reach hb hr
        exact ih hsound (hb.reach hr) (Finset.mem_insert_self _ _) hncs

/-- **A lookup** extends the tree at most, and what it leads to is cached. -/
lemma Sound.resolves {st : ℤ} {q' : ℕ} (h : Sound root v N kids) (hb : Behaves fd (v, N))
    (hq : q ∈ N) (hn : ∀ c ∈ cs, IsName c) (htop : ¬ MeetsTop fd v q cs)
    (hr : Resolves fd v q cs (st, q', w)) :
    ∃ M, ReflTransGen (Asks fd) (v, N) (w, M) ∧ (st = 0 → CachedPath w q cs q') := by
  induction cs generalizing v N q kids with
  | nil =>
      cases hr
      exact ⟨N, .refl, fun _ => rfl⟩
  | cons c cs ih =>
      obtain ⟨hnc, hncs⟩ := List.forall_mem_cons.mp hn
      cases hr with
      | @go _ _ _ x y _ _ hg hr =>
          have hreach := h.goes hq hnc hg
          have hcached := h.goes_cached hb hq hnc hg fun ⟨hdd, hp⟩ => htop (by
            rw [hdd]
            exact .here hp)
          obtain ⟨-, ⟨kids', hsound⟩, -⟩ := h.reach hb hreach
          have hb' := hb.reach hreach
          obtain ⟨M, hreach', hpath⟩ := ih hsound hb' (Finset.mem_insert_self _ _) hncs
            (fun hm => htop (.later hg hm)) hr
          obtain ⟨-, -, hext⟩ := hsound.reach hb' hreach'
          exact ⟨M, hreach.trans hreach', fun hst =>
            ⟨y, hcached.extends hsound (Finset.mem_insert_of_mem hq) hext, hpath hst⟩⟩
      | fail hl => exact ⟨N, lacks_asks hq hnc hl, fun hst => absurd hst (by decide)⟩

lemma Lacks.unique {w' : Vfs} (h : Lacks fd v q c w) (h' : Lacks fd v q c w') : w = w' := by
  cases h with
  | top =>
      cases h' with
      | top => rfl
      | dir _ hc' => exact absurd rfl hc'
  | dir _ hc' _ _ hf =>
      cases h' with
      | top => exact absurd rfl hc'
      | dir _ _ _ _ hf' =>
          rw [hf] at hf'
          exact (Prod.mk.inj hf').2

lemma Goes.not_lacks_top {w' : Vfs} (h : Goes fd v q c w r) (h' : Lacks fd v q c w') :
    c = dotdot ∧ (v.node q).parent = none := by
  obtain rfl := Goes.not_lacks h h'
  cases h' with
  | top hp => exact ⟨rfl, hp⟩
  | dir _ hc' => exact absurd rfl hc'

/-- A lookup that does not meet `..` at the root leads to one thing only. -/
lemma Resolves.unique {res res' : ℤ × ℕ × Vfs} (h : Resolves fd v q cs res)
    (h' : Resolves fd v q cs res') (htop : ¬ MeetsTop fd v q cs) : res = res' := by
  have hmeets : ∀ {v q c cs}, c = dotdot ∧ (Vfs.node v q).parent = none →
      MeetsTop fd v q (c :: cs) := by
    rintro v q c cs ⟨rfl, hp⟩
    exact .here hp
  induction h with
  | done =>
      cases h'
      rfl
  | go hg hr ih =>
      cases h' with
      | go hg' hr' =>
          obtain ⟨rfl, rfl⟩ := Goes.unique hg hg'
          exact ih hr' fun hm => htop (.later hg hm)
      | fail hl => exact absurd (hmeets (Goes.not_lacks_top hg hl)) htop
  | fail hl =>
      cases h' with
      | go hg' => exact absurd (hmeets (Goes.not_lacks_top hg' hl)) htop
      | fail hl' => rw [Lacks.unique hl hl']

/-! ### Calls -/

lemma components_names {l : List UInt8} (h0 : 0 ∉ l) (hlen : ∀ c ∈ components l, c.length ≤ 63) :
    ∀ c ∈ components l, IsName c := by
  refine fun c hc => ⟨fun hz => h0 ?_, hlen c hc⟩
  clear hlen
  induction hl : l.length using Nat.strong_induction_on generalizing l with
  | h j ih =>
      subst hl
      rcases components_cases l with ⟨-, h⟩ | ⟨u, t, s, rfl, -, -, hne, -, h⟩
      · rw [h] at hc
        cases hc
      · rw [h] at hc
        rw [List.mem_append, List.mem_append]
        rcases List.mem_cons.mp hc with rfl | hc
        · exact Or.inr (Or.inl hz)
        · have hpos : 0 < t.length := List.length_pos_iff.mpr hne
          refine Or.inr (Or.inr (List.mem_of_mem_tail
            (ih s.tail.length ?_ (fun h => h0 ?_) hc rfl)))
          · simp only [List.length_append, List.length_tail]
            omega
          · exact List.mem_append_right _ (List.mem_append_right _ (List.mem_of_mem_tail h))

variable {o o' : Open} {res : Ptr} {os : List (Open × Ptr)}

lemma Open.names (o : Open) (hlen : ∀ c ∈ components o.path, c.length ≤ 63) :
    ∀ c ∈ components o.path, IsName c :=
  components_names (fun h => o.isPath.ne_zero h rfl) hlen

/-- Without memory for the copy nothing is looked up. -/
lemma open_nomem (fd : Finddir) (root : ℕ) (v : Vfs) (hmem : o.memory = false) {n : ℕ}
    (hn : o.path.length ≤ n) :
    vfsOpen fd n o.m o.p root v (some (o.b, o.str)) = some (.null, v) := by
  have hcall : o.m.call 0 (o.path.length + 1) = none := by
    simpa [Open.memory] using hmem
  have hdup : bstrdup n o.m o.b o.str = none := by
    unfold bstrdup
    simp only [strlen_eq o.isPath hn, hcall]
  have hvalid : vfsLookupRequestValid ⟨0, some (o.b, o.str), .node root⟩ = 0 := rfl
  unfold vfsOpen vfsLookupNode vfsLookupTree
  rw [if_neg (not_not.mpr hvalid)]
  dsimp only
  rw [hdup]
  rfl

/-- With memory the call returns what the parts of the path lead to. -/
lemma open_resolves (h : Sound root v N kids) (hb : Behaves fd (v, N))
    (hlen : ∀ c ∈ components o.path, c.length ≤ 63)
    (htop : ¬ MeetsTop fd v root (components o.path)) (hmem : o.memory = true) {n : ℕ}
    (hn : N.card + o.path.length < n) :
    ∃ st q w, vfsOpen fd n o.m o.p root v (some (o.b, o.str)) =
        some (if st ≠ 0 then .null else .node q, w) ∧
      Resolves fd v root (components o.path) (st, q, w) := by
  have hcount := length_components o.path
  have hvalid : vfsLookupRequestValid ⟨0, some (o.b, o.str), .node root⟩ = 0 := rfl
  obtain ⟨part, p', name, hat, hloop⟩ := lookupTree_loop (n := n) fd v o.p hvalid rfl o.isPath hmem
    (by omega)
  have hon : On n root N ⟨v, ⟨0, some (o.b, o.str), .node root⟩, name, part, p'⟩ v root
      (components o.path) := ⟨⟨kids, h.tree⟩, h.tree.root, rfl, rfl, hat⟩
  obtain ⟨st, req, q, w, hres, hreq, hgo⟩ := loop_follows (k := n) hon (by omega) (by omega)
    (h.dirsOk hb h.tree.root (o.names hlen)) htop
  refine ⟨st, q, w, ?_, hgo⟩
  unfold vfsOpen vfsLookupNode
  rw [hloop, hres]
  dsimp only
  rw [hreq]

/-- **A call returns**, if `..` is not met at the root. -/
theorem open_returns (h : Sound root v N kids) (hb : Behaves fd (v, N))
    (hlen : ∀ c ∈ components o.path, c.length ≤ 63)
    (htop : ¬ MeetsTop fd v root (components o.path)) :
    ∃ res w, Returns fd root v o res w := by
  cases hmem : o.memory with
  | false => exact ⟨.null, v, o.path.length, fun n hn => open_nomem fd root v hmem hn⟩
  | true =>
      obtain ⟨st, q, w, -, hgo⟩ := open_resolves h hb hlen htop hmem
        (Nat.lt_succ_self (N.card + o.path.length))
      refine ⟨if st ≠ 0 then .null else .node q, w, N.card + o.path.length + 1, fun n hn => ?_⟩
      obtain ⟨st', q', w', hopen, hgo'⟩ := open_resolves h hb hlen htop hmem
        (Nat.lt_of_succ_le hn)
      obtain ⟨rfl, rfl, rfl⟩ : st = st' ∧ q = q' ∧ w = w' := by
        simpa using Resolves.unique hgo hgo' htop
      exact hopen

/-- A call extends the tree at most, and the path of a node that it returns is cached. -/
lemma Sound.returns (h : Sound root v N kids) (hb : Behaves fd (v, N))
    (hlen : ∀ c ∈ components o.path, c.length ≤ 63)
    (htop : ¬ MeetsTop fd v root (components o.path)) (hr : Returns fd root v o res w) :
    ∃ M, ReflTransGen (Asks fd) (v, N) (w, M) ∧
      ∀ r, res = .node r → CachedPath w root (components o.path) r := by
  obtain ⟨k, hk⟩ := hr
  have hrun := hk (max k (N.card + o.path.length + 1)) (le_max_left _ _)
  have hn : N.card + o.path.length < max k (N.card + o.path.length + 1) :=
    Nat.lt_of_succ_le (le_max_right _ _)
  cases hmem : o.memory with
  | false =>
      rw [open_nomem fd root v hmem (by omega)] at hrun
      obtain ⟨rfl, rfl⟩ := Prod.mk.inj (Option.some_inj.mp hrun)
      exact ⟨N, .refl, fun r hr => by cases hr⟩
  | true =>
      obtain ⟨st, q, w', hopen, hgo⟩ := open_resolves h hb hlen htop hmem hn
      rw [hopen] at hrun
      obtain ⟨hres, rfl⟩ := Prod.mk.inj (Option.some_inj.mp hrun)
      obtain ⟨M, hreach, hpath⟩ := h.resolves hb h.tree.root (o.names hlen) htop hgo
      refine ⟨M, hreach, fun r hr => ?_⟩
      by_cases hst : st = 0
      · rw [if_neg (not_not.mpr hst), hr] at hres
        exact Ptr.node.inj hres ▸ hpath hst
      · rw [if_pos hst, hr] at hres
        cases hres

/-- A path that is cached is opened without a change to the nodes. -/
lemma Sound.reopens (h : Sound root v N kids) (hb : Behaves fd (v, N))
    (hlen : ∀ c ∈ components o.path, c.length ≤ 63)
    (hc : CachedPath v root (components o.path) r) :
    Returns fd root v o (if o.memory then .node r else .null) v := by
  cases hmem : o.memory with
  | false => exact ⟨o.path.length, fun n hn => open_nomem fd root v hmem hn⟩
  | true =>
      refine ⟨N.card + o.path.length + 1, fun n hn => ?_⟩
      obtain ⟨st, q, w, hopen, hgo⟩ := open_resolves h hb hlen hc.not_meetsTop hmem
        (Nat.lt_of_succ_le hn)
      obtain ⟨rfl, rfl, rfl⟩ : st = 0 ∧ q = r ∧ w = v := by simpa using hc.resolves hgo
      exact hopen

/-! ### Runs of calls -/

/-- **A run** extends the tree at most, and the paths of all nodes that it returned are cached. -/
lemma Run.cached (hrun : Run fd root v os w) (h : Sound root v N kids) (hb : Behaves fd (v, N)) :
    ∃ M, ReflTransGen (Asks fd) (v, N) (w, M) ∧ ∀ o r, (o, Ptr.node r) ∈ os →
      (∀ c ∈ components o.path, c.length ≤ 63) ∧ CachedPath w root (components o.path) r := by
  induction hrun generalizing N kids with
  | nil => exact ⟨N, .refl, fun o r ho => by cases ho⟩
  | @cons v o res w os u hlen htop hr _ ih =>
      obtain ⟨M, hreach, hpath⟩ := h.returns hb hlen htop hr
      obtain ⟨-, ⟨kids', hsound⟩, -⟩ := h.reach hb hreach
      have hb' := hb.reach hreach
      obtain ⟨M', hreach', hrest⟩ := ih hsound hb'
      obtain ⟨-, -, hext⟩ := hsound.reach hb' hreach'
      refine ⟨M', hreach.trans hreach', fun o' r ho => ?_⟩
      rcases List.mem_cons.mp ho with heq | ho
      · obtain ⟨rfl, hres⟩ := Prod.mk.inj heq
        exact ⟨hlen, (hpath r hres.symm).extends hsound hsound.tree.root hext⟩
      · exact hrest o' r ho

/-- **Lookups are idempotent**: after any run the nodes form a tree without two children of one
name, and a path that has been opened is opened again at the same node and without a change,
unless there is no memory for its copy. -/
theorem opens_idempotent (fd : Finddir) (root : ℕ) (v : Vfs) (N : Finset ℕ) (kids : ℕ → List ℕ)
    (h : Sound root v N kids) (hb : Behaves fd (v, N)) (os : List (Open × Ptr)) (w : Vfs)
    (hrun : Run fd root v os w) :
    (∃ M kids', Sound root w M kids') ∧ ∀ o r, (o, Ptr.node r) ∈ os → ∀ o' : Open,
      o'.path = o.path → Returns fd root w o' (if o'.memory then .node r else .null) w := by
  obtain ⟨M, hreach, hcached⟩ := hrun.cached h hb
  obtain ⟨-, ⟨kids', hsound⟩, -⟩ := h.reach hb hreach
  refine ⟨⟨M, kids', hsound⟩, fun o r ho o' hpath => ?_⟩
  obtain ⟨hlen, hc⟩ := hcached o r ho
  rw [← hpath] at hlen hc
  exact hsound.reopens (hb.reach hreach) hlen hc

/-! ### One node -/

/-- A file system with one file `a` in the root, for which it makes node 1. -/
def findA : Finddir := fun v q c =>
  if q = 0 ∧ c = chars ['a'] ∧ (v.node 1).parent = none then
    (some 1, { v with node := Function.update v.node 1 ⟨chars ['a'], none, 0, by decide⟩ })
  else (none, v)

lemma findA_none (h : ¬ (q = 0 ∧ c = chars ['a'] ∧ (v.node 1).parent = none)) :
    findA v q c = (none, v) := if_neg h

lemma sameOn_refl (N : Finset ℕ) (v : Vfs) : SameOn N v v :=
  ⟨fun _ _ => rfl, fun _ _ => ⟨rfl, rfl⟩, fun _ _ => ⟨rfl, rfl⟩⟩

/-- As long as node 1 has no parent it is not in the tree, and has no children. -/
lemma findA_finds (h : (v.node 1).parent = none → 1 ∉ N ∧ IsList v.links (.children 1) []) :
    Finds findA v N := by
  intro q hq c l hn hc hc' hl hnone
  by_cases hfd : q = 0 ∧ c = chars ['a'] ∧ (v.node 1).parent = none
  · obtain ⟨h1, hlist⟩ := h hfd.2.2
    unfold findA
    rw [if_pos hfd]
    refine ⟨⟨fun x hx => ?_, fun _ _ => ⟨rfl, rfl⟩, fun _ _ => ⟨rfl, rfl⟩⟩, ?_⟩
    · have hx1 : x ≠ 1 := fun hx1 => h1 (hx1 ▸ hx)
      exact Function.update_of_ne hx1 _ _
    · intro e he
      obtain rfl := Option.mem_some_iff.mp he
      refine ⟨h1, hlist, ?_⟩
      rw [hfd.2.1]
      simp
  · rw [findA_none hfd]
    exact ⟨sameOn_refl N v, fun e he => by cases he⟩

lemma findA_behaves : Behaves findA (oneNode, {0}) := by
  have hkeep : ∀ t, ReflTransGen (Asks findA) (oneNode, {0}) t → (t.1.node 1).parent = none →
      1 ∉ t.2 ∧ IsList t.1.links (.children 1) [] := by
    intro t ht
    induction ht with
    | refl => exact fun _ => ⟨by decide, by simp, rfl, rfl⟩
    | tail _ ha ih =>
        cases ha with
        | @miss v N q c l w hq hn hc hc' hl hnone hf =>
            have hsame : w = v := by
              unfold findA at hf
              split at hf
              · cases hf
              · exact (Prod.mk.inj hf).2.symm
            rw [hsame]
            exact ih
        | @hit v N q c l e w hq hn hc hc' hl hnone hf =>
            have he : e = 1 := by
              unfold findA at hf
              split at hf
              · exact (Option.some_inj.mp (Prod.mk.inj hf).1).symm
              · cases hf
            intro hp
            rw [he, insert_parent_new] at hp
            cases hp
  exact fun t ht => findA_finds (hkeep t ht)

lemma oneNode_sound : Sound 0 oneNode {0} fun _ => [] :=
  ⟨tree_oneNode, fun _ _ a ha => by cases ha⟩

/-- A call with the path at the start of a buffer. -/
def openAt (m : Bmalloc) (l : List UInt8) (h : ∀ d ∈ l, d ≠ 0) : Open :=
  ⟨m, none, pathBuffer l, 0, l, cstr_pathBuffer h⟩

lemma a_ne : ∀ d ∈ chars ['a'], d ≠ 0 := List.all_iff_forall_prop.mp (by decide)

def openA : Open := openAt plenty (chars ['a']) a_ne

lemma openA_components : components openA.path = [chars ['a']] := by decide

/-- The nodes when node 1 has been put into the tree. -/
def withA : Vfs := treeNodeInsert (findA oneNode 0 (chars ['a'])).2 1 0

lemma openA_run : Run findA 0 oneNode [(openA, .node 1)] withA := by
  have hlen : ∀ c ∈ components openA.path, c.length ≤ 63 := by
    rw [openA_components]
    decide
  have htop : ¬ MeetsTop findA oneNode 0 (components openA.path) := by
    rw [openA_components]
    intro hm
    cases hm with
    | later _ hm => cases hm
  have hnil : Kids oneNode 0 [] := tree_oneNode.isList (Finset.mem_singleton_self 0)
  have hgoes : Resolves findA oneNode 0 (components openA.path) (0, 1, withA) := by
    rw [openA_components]
    exact .go (.dir (by decide) (by decide) hnil rfl rfl) .done
  refine .cons hlen htop ⟨100, fun n hn => ?_⟩ .nil
  obtain ⟨st, q, w, hopen, hgo⟩ := open_resolves oneNode_sound findA_behaves hlen htop rfl
    (show ({0} : Finset ℕ).card + openA.path.length < n from Nat.lt_of_lt_of_le (by decide) hn)
  obtain ⟨rfl, rfl, rfl⟩ : 0 = st ∧ 1 = q ∧ withA = w := by
    simpa using Resolves.unique hgoes hgo htop
  exact hopen

theorem opens_idempotent_a : (∃ M kids', Sound 0 withA M kids') ∧
    ∀ o r, (o, Ptr.node r) ∈ [(openA, Ptr.node 1)] → ∀ o' : Open, o'.path = o.path →
      Returns findA 0 withA o' (if o'.memory then .node r else .null) withA :=
  opens_idempotent findA 0 oneNode {0} _ oneNode_sound findA_behaves _ withA openA_run

/-- Without memory for the copy of its path a second call does not return the node. -/
theorem not_opens_idempotent : ¬ ∀ fd root v N kids os w, Sound root v N kids →
    Behaves fd (v, N) → Run fd root v os w → ∀ o r, (o, Ptr.node r) ∈ os → ∀ o' : Open,
      o'.path = o.path → Returns fd root w o' (.node r) w := by
  intro h
  obtain ⟨k, hk⟩ := h findA 0 oneNode {0} _ _ withA oneNode_sound findA_behaves openA_run openA 1
    (List.mem_singleton_self _) (openAt ⟨fun _ _ => false, fun _ _ => 0⟩ (chars ['a']) a_ne) rfl
  have hrun := hk (max k 1) (le_max_left _ _)
  rw [open_nomem findA 0 withA rfl (le_max_right k 1)] at hrun
  cases hrun

end Elfboot.LookupCache
