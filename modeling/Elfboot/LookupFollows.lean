import Elfboot.Lookup

/-!
Path lookup follows the tree, but for two things: it does not start where an absolute
request says, and at the root `..` leads to a pointer to nothing.

A turn of the loop does what a part of the path means, and the tree stays one. After `..` at
the root no turn leads back to a node.
-/

namespace Elfboot.LookupFollows

open Elfboot.Errno Elfboot.Loop Elfboot.Circular Elfboot.Buffer Elfboot.Str Elfboot.FsTree
open Elfboot.Lookup

variable {fd : Finddir} {n : ℕ} {v w : Vfs} {root q r : ℕ} {N : Finset ℕ} {kids : ℕ → List ℕ}
  {b : Bytes} {i : ℕ} {c l : List UInt8} {cs : List (List UInt8)}

/-! ### Where a part leads -/

lemma Kids.unique {l l' : List ℕ} (h : Kids v q l) (h' : Kids v q l') : l = l' :=
  List.map_injective_iff.mpr (fun _ _ => TreeLink.siblings.inj) (IsList.unique h h')

lemma Goes.unique {r' : ℕ} {w' : Vfs} (h : Goes fd v q c w r) (h' : Goes fd v q c w' r') :
    w = w' ∧ r = r' := by
  cases h with
  | here =>
      cases h' with
      | here => exact ⟨rfl, rfl⟩
      | child hc => exact absurd rfl hc
      | dir hc => exact absurd rfl hc
  | up hp =>
      cases h' with
      | up hp' => exact ⟨rfl, Option.some.inj (hp.symm.trans hp')⟩
      | top hp' => exact absurd (hp.symm.trans hp') (by simp)
      | child _ hc => exact absurd rfl hc
      | dir _ hc => exact absurd rfl hc
  | top hp =>
      cases h' with
      | up hp' => exact absurd (hp.symm.trans hp') (by simp)
      | top => exact ⟨rfl, rfl⟩
      | child _ hc => exact absurd rfl hc
      | dir _ hc => exact absurd rfl hc
  | child hc hc' hl hf =>
      cases h' with
      | here => exact absurd rfl hc
      | up => exact absurd rfl hc'
      | top => exact absurd rfl hc'
      | child _ _ hl' hf' =>
          rw [Kids.unique hl hl', hf'] at hf
          exact ⟨rfl, (Option.some.inj hf).symm⟩
      | dir _ _ hl' hf' =>
          rw [Kids.unique hl hl', hf'] at hf
          cases hf
  | dir hc hc' hl hn hf =>
      cases h' with
      | here => exact absurd rfl hc
      | up => exact absurd rfl hc'
      | top => exact absurd rfl hc'
      | child _ _ hl' hf' =>
          rw [Kids.unique hl hl', hf'] at hn
          cases hn
      | dir _ _ hl' _ hf' =>
          rw [hf'] at hf
          cases hf
          exact ⟨rfl, rfl⟩

/-- A part that leads somewhere does not also lead nowhere, but for `..` at the root. -/
lemma Goes.not_lacks {w' : Vfs} (h : Goes fd v q c w r) (h' : Lacks fd v q c w') :
    c = dotdot := by
  cases h' with
  | top => rfl
  | dir hc hc' hl hn hf =>
      cases h with
      | here => exact absurd rfl hc
      | up => rfl
      | top => rfl
      | child _ _ hl' hf' =>
          rw [Kids.unique hl hl', hf'] at hn
          cases hn
      | dir _ _ _ _ hf' =>
          rw [hf'] at hf
          cases hf

/-! ### The parts of a path -/

lemma slash_mem {d : UInt8} : d ∈ slash ↔ d = 47 := by
  simp [slash, chars]

lemma components_slashes {u : List UInt8} (hu : ∀ d ∈ u, d ∈ slash) (x : List UInt8) :
    components (u ++ x) = components x := by
  induction u with
  | nil => rfl
  | cons d u ih =>
      obtain ⟨hd, hu'⟩ := List.forall_mem_cons.mp hu
      obtain rfl := slash_mem.mp hd
      rw [← ih hu']
      have hsep : ((47 : UInt8) == 47) = true := by simp
      have hsplit := List.splitOnP_append_cons (p := fun d => d == 47) ([] : List UInt8) (u ++ x)
        hsep
      unfold components List.splitOn
      rw [List.cons_append, show (47 :: (u ++ x) : List UInt8) = [] ++ 47 :: (u ++ x) from rfl,
        hsplit]
      simp

lemma components_part {t s : List UInt8} (ht : ∀ d ∈ t, d ∉ slash) (hne : t ≠ [])
    (hs : ∀ d ∈ s.head?, d ∈ slash) : components (t ++ s) = t :: components s.tail := by
  have hsingle : t.splitOnP (fun d => d == 47) = [t] := by
    refine List.splitOnP_eq_singleton fun d hd => ?_
    have := ht d hd
    rw [slash_mem] at this
    simpa using this
  cases s with
  | nil =>
      rw [List.append_nil]
      unfold components List.splitOn
      rw [hsingle]
      simp [hne]
  | cons d s =>
      obtain rfl := slash_mem.mp (hs d rfl)
      unfold components List.splitOn
      rw [List.splitOnP_append_cons t s (by simp), hsingle]
      simp [hne]

/-- Nothing but slashes, or a part and what is behind it. -/
lemma components_cases (l : List UInt8) : ((∀ d ∈ l, d ∈ slash) ∧ components l = []) ∨
    ∃ u t s, l = u ++ (t ++ s) ∧ (∀ d ∈ u, d ∈ slash) ∧ (∀ d ∈ t, d ∉ slash) ∧ t ≠ [] ∧
      (∀ d ∈ s.head?, d ∈ slash) ∧ components l = t :: components s.tail := by
  have hu : ∀ d ∈ l.takeWhile (· ∈ slash), d ∈ slash := fun d hd => by
    simpa using List.mem_takeWhile_imp hd
  have hl : l.takeWhile (· ∈ slash) ++ l.dropWhile (· ∈ slash) = l :=
    List.takeWhile_append_dropWhile
  generalize l.takeWhile (· ∈ slash) = u at hu hl
  rcases hrest : l.dropWhile (· ∈ slash) with _ | ⟨d, rest⟩
  · left
    rw [hrest, List.append_nil] at hl
    subst hl
    exact ⟨hu, by simpa [components] using components_slashes hu []⟩
  · right
    have hd : d ∉ slash := by
      have := List.head?_dropWhile_not (· ∈ slash) l
      rw [hrest] at this
      simpa using this
    have ht : ∀ x ∈ (d :: rest).takeWhile (· ∉ slash), x ∉ slash := fun x hx => by
      simpa using List.mem_takeWhile_imp hx
    have hne : (d :: rest).takeWhile (· ∉ slash) ≠ [] := by simp [hd]
    have hs : ∀ x ∈ ((d :: rest).dropWhile (· ∉ slash)).head?, x ∈ slash := by
      intro x hx
      have := List.head?_dropWhile_not (· ∉ slash) (d :: rest)
      rw [Option.mem_def.mp hx] at this
      simpa using this
    have hsplit : (d :: rest).takeWhile (· ∉ slash) ++ (d :: rest).dropWhile (· ∉ slash) =
        d :: rest := List.takeWhile_append_dropWhile
    refine ⟨u, _, _, ?_, hu, ht, hne, hs, ?_⟩
    · rw [hsplit, ← hrest, hl]
    · rw [← components_part ht hne hs, hsplit, ← hl, components_slashes hu, hrest]

/-- The part the loop is at, and the parts to come. -/
def At (n : ℕ) (b : Bytes) (part p : Option ℕ) : List (List UInt8) → Prop
  | [] => part = none
  | c :: cs => ∃ i l, part = some i ∧ CStr b i c ∧ c.length ≤ n ∧ Rest b p l ∧ l.length ≤ n ∧
      components l = cs

lemma strtok_at (str : Option ℕ) {p : Option ℕ} (h : Rest b (str.or p) l) (hn : l.length ≤ n) :
    ∃ part p' b', strtok b n str slash p = (part, p', b') ∧ At n b' part p' (components l) := by
  rcases components_cases l with ⟨hall, hnil⟩ | ⟨u, t, s, rfl, hu, ht, hne, hs, hcons⟩
  · exact ⟨none, none, b, strtok_none h hall hn, by rw [hnil]; rfl⟩
  · rcases h with ⟨-, hl⟩ | ⟨q, hq, hcstr⟩
    · exact absurd (by simpa using hl : u = [] ∧ t = [] ∧ s = []).2.1 hne
    · obtain ⟨b', p', h1, h2, h3⟩ := strtok_token hq hcstr hu ht hne hs hn
      rw [hcons]
      simp only [List.length_append] at hn
      refine ⟨_, p', b', h1, _, s.tail, rfl, h2, by omega, h3, ?_, rfl⟩
      rw [List.length_tail]
      omega

/-! ### One part -/

/-- The loop over the children finds the first of that name. -/
lemma fastLoop_eq {l : List ℕ} {a : TreeLink} {k : ℕ}
    (hseg : Seg v.links a (l.map .siblings) (.children q))
    (hpar : ∀ m ∈ l, (v.node m).parent = some q) (hb : CStr b i c) (hk : l.length < k) :
    fastLoop v b i k (if v.links.next a ≠ .children q then treeEntry (v.links.next a) else .null) =
      some (match childOf v l c with
        | some m => .node m
        | none => .null) := by
  induction l generalizing a k with
  | nil =>
      obtain ⟨k, rfl⟩ : ∃ j, k = j + 1 := ⟨k - 1, by simp at hk; omega⟩
      rw [if_neg (not_not.mpr hseg.1)]
      rfl
  | cons x l ih =>
      obtain ⟨k, rfl⟩ : ∃ j, k = j + 1 := ⟨k - 1, by omega⟩
      obtain ⟨h1, -, h3⟩ := hseg
      rw [h1, if_pos (by simp)]
      have hstr := strcmp_eq_zero hb (v.node x).isString
      have hfind : childOf v (x :: l) c =
          if (v.node x).name = c then some x else childOf v l c := by
        unfold childOf
        rw [List.find?_cons]
        by_cases h : (v.node x).name = c <;> simp [h]
      simp only [treeEntry, fastLoop]
      rw [hfind]
      by_cases h : (v.node x).name = c
      · rw [if_neg (not_not.mpr (hstr.mpr h.symm)), if_pos h]
      · rw [if_pos fun h0 => h (hstr.mp h0).symm, if_neg h]
        have hnext : treeNextSiblingEntryOrNull v x =
            if v.links.next (.siblings x) ≠ .children q then treeEntry (v.links.next (.siblings x))
            else .null := by
          unfold treeNextSiblingEntryOrNull
          rw [hpar x List.mem_cons_self]
        rw [hnext]
        exact ih h3 (fun m hm => hpar m (List.mem_cons_of_mem _ hm)) (by simpa using hk)

lemma dot_string : 0 ∉ dot := by decide

lemma dotdot_string : 0 ∉ dotdot := by decide

/-- `vfs_lookup_tree_node` at a node of the tree. -/
lemma lookupNode_eq (ht : IsTree v root N kids) (hq : q ∈ N) (hb : CStr b i c)
    (hn : N.card < n) : vfsLookupTreeNode n v (.node q) b i =
      some (if c = dot then .node q else if c = dotdot then treeParentEntry v q
        else match childOf v (kids q) c with
          | some m => .node m
          | none => .null) := by
  unfold vfsLookupTreeNode
  simp only [strcmp_eq_zero hb dot_string, strcmp_eq_zero hb dotdot_string]
  split
  · rfl
  · split
    · rfl
    · have hl := ht.length_le hq
      unfold vfsLookupTreeFast treeFirstChildEntryOrNull
      exact fastLoop_eq (ht.isList hq).seg (fun m hm => (ht.kid q hq m hm).2) hb (by omega)

/-- `vfs_lookup_tree_slow` at a node that finds one. -/
lemma lookupSlow_some {e : ℕ} (hb : CStr b i c) (hc : c.length ≤ n)
    (hf : fd v q c = (some e, w)) :
    vfsLookupTreeSlow fd n v (.node q) b i = some (some e, treeNodeInsert w e q) := by
  unfold vfsLookupTreeSlow
  dsimp only
  rw [cstring_eq hb hc, hf]

lemma lookupSlow_none (hb : CStr b i c) (hc : c.length ≤ n) (hf : fd v q c = (none, w)) :
    vfsLookupTreeSlow fd n v (.node q) b i = some (none, w) := by
  unfold vfsLookupTreeSlow
  dsimp only
  rw [cstring_eq hb hc, hf]

/-! ### A turn -/

/-- The variables of the loop: the request is at node `q`, and the parts `cs` are to come. -/
structure On (n : ℕ) (root : ℕ) (N : Finset ℕ) (s : Walk) (v : Vfs) (q : ℕ)
    (cs : List (List UInt8)) : Prop where
  tree : ∃ kids, IsTree v root N kids
  mem : q ∈ N
  vfs : s.vfs = v
  node : s.req.node = .node q
  parts : At n s.name s.part s.p cs

/-- What a turn does that moves the request to a node. -/
lemma turn_found {s : Walk} (part : ℕ) (node : Ptr) {l : List UInt8}
    (hrest : Rest s.name s.p l) (hl : l.length ≤ n) (w : Vfs) :
    (found n s w part node).vfs = w ∧ (found n s w part node).req.node = node ∧
      At n (found n s w part node).name (found n s w part node).part (found n s w part node).p
        (components l) := by
  obtain ⟨next, p', b', h1, h2⟩ := strtok_at none hrest hl
  unfold found
  rw [h1]
  exact ⟨rfl, rfl, h2⟩

/-- **A turn** does what the part means, but for `..` at the root. -/
lemma turn_spec {s : Walk} (h : On n root N s v q (c :: cs)) (hn : N.card < n)
    (hd : DirsOk fd v N q (c :: cs)) :
    (∃ w r s', Goes fd v q c w r ∧ turn fd n s = some (.next s') ∧
        On n root (insert r N) s' w r cs ∧ ¬ (c = dotdot ∧ (v.node q).parent = none)) ∨
      (∃ w, Lacks fd v q c w ∧ c ≠ dotdot ∧ turn fd n s = some (.leave (-enoent, s.req, w))) ∨
      (c = dotdot ∧ (v.node q).parent = none ∧
        ∃ s', turn fd n s = some (.next s') ∧ s'.req.node = .wild) := by
  obtain ⟨⟨kids, ht⟩, hq, hv, hnode, i, l, hpart, hb, hc, hrest, hl, rfl⟩ := h
  have hlook := lookupNode_eq ht hq hb hn
  have hself : ∀ r ∈ N, insert r N = N := fun r hr => Finset.insert_eq_self.mpr hr
  unfold turn
  rw [hpart, hv, hnode]
  dsimp only
  rw [hlook]
  by_cases hdot : c = dot
  · left
    obtain ⟨h1, h2, h3⟩ := turn_found i (.node q) hrest hl v
    rw [if_pos hdot]
    refine ⟨v, q, _, hdot ▸ .here, rfl, ⟨⟨kids, ?_⟩, ?_, h1, h2, h3⟩, ?_⟩
    · rwa [hself q hq]
    · rwa [hself q hq]
    · rintro ⟨h, -⟩
      exact absurd (hdot.symm.trans h) (by decide)
  · rw [if_neg hdot]
    by_cases hdd : c = dotdot
    · rw [if_pos hdd]
      unfold treeParentEntry
      rcases hp : (v.node q).parent with _ | r
      · right; right
        exact ⟨hdd, rfl, _, rfl, (turn_found i .wild hrest hl v).2.1⟩
      · left
        have hr := (ht.parent q hq r hp).1
        obtain ⟨h1, h2, h3⟩ := turn_found i (.node r) hrest hl v
        refine ⟨v, r, _, hdd ▸ .up hp, rfl, ⟨⟨kids, ?_⟩, ?_, h1, h2, h3⟩, ?_⟩
        · rwa [hself r hr]
        · rwa [hself r hr]
        · simp
    · rw [if_neg hdd]
      have hkids : Kids v q (kids q) := ht.isList hq
      rcases hchild : childOf v (kids q) c with _ | r
      · obtain ⟨hsame, hnew⟩ := hd.1 hdot hdd _ hkids hchild
        dsimp only
        rcases hfd : fd v q c with ⟨_ | e, w⟩
        · right; left
          rw [lookupSlow_none hb hc hfd]
          exact ⟨w, .dir hdot hdd hkids hchild hfd, hdd, rfl⟩
        · left
          rw [hfd] at hsame hnew
          obtain ⟨he, hlist⟩ := hnew e rfl
          have ht' := (ht.congr hsame).insert hq he hlist
          obtain ⟨h1, h2, h3⟩ := turn_found i (.node e) hrest hl
            (treeNodeInsert w e q)
          rw [lookupSlow_some hb hc hfd]
          refine ⟨_, e, _, .dir hdot hdd hkids hchild hfd, rfl,
            ⟨⟨_, ht'⟩, Finset.mem_insert_self _ _, h1, h2, h3⟩, fun h => hdd h.1⟩
      · left
        have hr : r ∈ N := (ht.kid q hq r (List.mem_of_find?_eq_some hchild)).1
        obtain ⟨h1, h2, h3⟩ := turn_found i (.node r) hrest hl v
        refine ⟨v, r, _, .child hdot hdd hkids hchild, rfl, ⟨⟨kids, ?_⟩, ?_, h1, h2, h3⟩,
          fun h => hdd h.1⟩
        · rwa [hself r hr]
        · rwa [hself r hr]

/-! ### The loop -/

/-- No turn leads from a pointer to nothing back to a node. -/
lemma loop_wild {s : Walk} (h : s.req.node = .wild) : ∀ {k : ℕ} {res},
    loop (turn fd n) k s = some res → res.2.1.node = .wild := by
  intro k
  induction k generalizing s with
  | zero => intro res hres; cases hres
  | succ k ih =>
      intro res hres
      rcases hpart : s.part with _ | part
      · have hturn : turn fd n s = some (.leave (0, s.req, s.vfs)) := by
          unfold turn
          rw [hpart]
        rw [loop_leave hturn] at hres
        obtain rfl := Option.some.inj hres
        exact h
      · by_cases hdot : strcmp s.name part dot = 0
        · have hturn : turn fd n s = some (.next (found n s s.vfs part .wild)) := by
            unfold turn vfsLookupTreeNode
            rw [hpart, h]
            dsimp only
            rw [if_pos hdot]
          rw [loop_next hturn] at hres
          exact ih (by rfl) hres
        · have hturn : turn fd n s = none := by
            unfold turn vfsLookupTreeNode
            rw [hpart, h]
            dsimp only
            rw [if_neg hdot]
            split
            · next hnone => rfl
            · next hnull => simp at hnull
            · next _ node hne heq => simp at heq
          rw [loop, hturn] at hres
          cases hres

/-- Without a node the loop ends at once, or not at all. -/
lemma loop_null {s : Walk} (h : s.req.node = .null) {k : ℕ} {res}
    (hres : loop (turn fd n) k s = some res) : res.2.1.node = .null := by
  cases k with
  | zero => cases hres
  | succ k =>
      rcases hpart : s.part with _ | part
      · have hturn : turn fd n s = some (.leave (0, s.req, s.vfs)) := by
          unfold turn
          rw [hpart]
        rw [loop_leave hturn] at hres
        obtain rfl := Option.some.inj hres
        exact h
      · have hturn : turn fd n s = none := by
          unfold turn vfsLookupTreeNode
          rw [hpart, h]
          by_cases hdot : strcmp s.name part dot = 0
          · simp only [if_pos hdot]
            rfl
          · simp only [if_neg hdot, ite_self]
        rw [loop, hturn] at hres
        cases hres

/-- **The loop** leads where the parts lead, if `..` is not met at the root. -/
lemma loop_follows : ∀ {cs : List (List UInt8)} {k : ℕ} {N : Finset ℕ} {s : Walk} {v : Vfs}
    {q : ℕ}, On n root N s v q cs → N.card + cs.length ≤ n → cs.length < k →
      DirsOk fd v N q cs → ¬ MeetsTop fd v q cs →
        ∃ st r q' w, loop (turn fd n) k s = some (st, r, w) ∧ r.node = .node q' ∧
          Resolves fd v q cs (st, q', w)
  | [], k, N, s, v, q, h, _, hk, _, _ => by
    obtain ⟨k, rfl⟩ : ∃ j, k = j + 1 := ⟨k - 1, by omega⟩
    have hturn : turn fd n s = some (.leave (0, s.req, s.vfs)) := by
      unfold turn
      rw [show s.part = none from h.parts]
    refine ⟨0, s.req, q, s.vfs, loop_leave hturn, h.node, ?_⟩
    rw [h.vfs]
    exact .done
  | c :: cs, k, N, s, v, q, h, hn, hk, hd, hm => by
    rw [List.length_cons] at hn hk
    obtain ⟨k, rfl⟩ : ∃ j, k = j + 1 := ⟨k - 1, by omega⟩
    rcases turn_spec h (by omega) hd with ⟨w, r, s', hg, hturn, hs', -⟩ |
      ⟨w, hl, -, hturn⟩ | ⟨rfl, hp, -⟩
    · have hcard := Finset.card_insert_le r N
      obtain ⟨st, req, q', w', h1, h2, h3⟩ := loop_follows (k := k) hs' (by omega) (by omega)
        (hd.2 w r hg) fun hm' => hm (.later hg hm')
      exact ⟨st, req, q', w', by rw [loop_next hturn, h1], h2, .go hg h3⟩
    · exact ⟨_, s.req, q, w, loop_leave hturn, h.node, .fail hl⟩
    · exact absurd (.here hp) hm

/-- Where `..` is met at the root the loop ends at a pointer to nothing, if it ends. -/
lemma loop_meets : ∀ {cs : List (List UInt8)} {k : ℕ} {N : Finset ℕ} {s : Walk} {v : Vfs}
    {q : ℕ}, On n root N s v q cs → N.card + cs.length ≤ n → DirsOk fd v N q cs →
      MeetsTop fd v q cs → ∀ res, loop (turn fd n) k s = some res → res.2.1.node = .wild
  | [], k, N, s, v, q, _, _, _, hm, _, _ => by cases hm
  | c :: cs, 0, N, s, v, q, _, _, _, _, _, hres => by cases hres
  | c :: cs, k + 1, N, s, v, q, h, hn, hd, hm, res, hres => by
    rw [List.length_cons] at hn
    rcases turn_spec h (by omega) hd with ⟨w, r, s', hg, hturn, hs', hntop⟩ |
      ⟨w, hl, hndd, hturn⟩ | ⟨-, -, s', hturn, hwild⟩
    · have hcard := Finset.card_insert_le r N
      rw [loop_next hturn] at hres
      refine loop_meets hs' (by omega) (hd.2 w r hg) ?_ res hres
      cases hm with
      | here hp => exact absurd ⟨rfl, hp⟩ hntop
      | later hg' hm' =>
          obtain ⟨rfl, rfl⟩ := Goes.unique hg hg'
          exact hm'
    · cases hm with
      | here hp => exact absurd rfl hndd
      | later hg' => exact absurd (Goes.not_lacks hg' hl) hndd
    · rw [loop_next hturn] at hres
      exact loop_wild hwild hres

/-! ### The lookup -/

/-- `bstrdup` copies the string. -/
lemma bstrdup_cstr {m : Bmalloc} {buf : Bytes} {str : ℕ} (h : CStr b str l) (hn : l.length ≤ n)
    (hm : m.call 0 (l.length + 1) = some buf) :
    ∃ name, bstrdup n m b str = some name ∧ CStr name 0 l := by
  refine ⟨memcpy buf 0 b str (l.length + 1), ?_, cstr_memcpy h⟩
  unfold bstrdup
  simp only [strlen_eq h hn, hm]

/-- The parts of a path are no more than its characters. -/
lemma length_components (l : List UInt8) : (components l).length ≤ l.length := by
  induction hl : l.length using Nat.strong_induction_on generalizing l with
  | h j ih =>
      subst hl
      rcases components_cases l with ⟨-, h⟩ | ⟨u, t, s, rfl, -, -, hne, -, h⟩
      · simp [h]
      · have hpos : 0 < t.length := List.length_pos_iff.mpr hne
        have hlt : s.tail.length < (u ++ (t ++ s)).length := by simp; omega
        have := ih _ hlt s.tail rfl
        rw [h]
        simp only [List.length_cons, List.length_append, List.length_tail] at this ⊢
        omega

variable {m : Bmalloc} {vfs : Vfs} {req : FsLookupRequest} {str : ℕ} {p : Option ℕ}

/-- A valid lookup runs the loop from the first part of a copy of the path. -/
lemma lookupTree_loop (fd : Finddir) (vfs : Vfs) (p : Option ℕ)
    (hvalid : vfsLookupRequestValid req = 0) (hpath : req.path = some (b, str)) (hl : CStr b str l)
    (hm : (m.call 0 (l.length + 1)).isSome) (hn : l.length ≤ n) :
    ∃ part p' name, At n name part p' (components l) ∧
      vfsLookupTree fd n m p vfs req = loop (turn fd n) n ⟨vfs, req, name, part, p'⟩ := by
  obtain ⟨buf, hbuf⟩ := Option.isSome_iff_exists.mp hm
  obtain ⟨name, hdup, hname⟩ := bstrdup_cstr hl hn hbuf
  obtain ⟨part, p', name', htok, hat⟩ := strtok_at (some 0) (p := p) (Or.inr ⟨0, rfl, hname⟩) hn
  refine ⟨part, p', name', hat, ?_⟩
  unfold vfsLookupTree
  rw [if_neg (not_not.mpr hvalid), hpath]
  dsimp only
  rw [hdup]
  dsimp only
  rw [htok]

/-- **Path lookup** follows the tree if and only if `..` is not met at the root, where the
request starts at its own node; a request without one is never followed. -/
theorem follows_iff (ht : IsTree vfs root N kids) (hpath : req.path = some (b, str))
    (hl : CStr b str l) (hm : (m.call 0 (l.length + 1)).isSome) (hn : N.card + l.length < n) :
    (∀ s ∈ N, req.node = .node s → startOf root req = .node s →
      DirsOk fd vfs N s (components l) →
        (Follows fd n m p vfs root req l ↔ ¬ MeetsTop fd vfs s (components l))) ∧
      (req.node = .null → ¬ Follows fd n m p vfs root req l) := by
  have hlen := length_components l
  have hrun := fun hv => lookupTree_loop (n := n) fd vfs p hv hpath hl hm (by omega)
  constructor
  · intro s hs hnode hstart hd
    have hvalid : vfsLookupRequestValid req = 0 := by
      unfold vfsLookupRequestValid
      rw [hpath, hnode]
      rfl
    obtain ⟨part, p', name', hat, hloop⟩ := hrun hvalid
    have hon : On n root N ⟨vfs, req, name', part, p'⟩ vfs s (components l) :=
      ⟨⟨kids, ht⟩, hs, rfl, hnode, hat⟩
    constructor
    · rintro ⟨s', st, r, q, w, -, hres, hr, -⟩ hmeets
      rw [hloop] at hres
      have hwild := loop_meets hon (by omega) hd hmeets _ hres
      rw [hr] at hwild
      cases hwild
    · intro hmeets
      obtain ⟨st, r, q, w, hres, hr, hgo⟩ := loop_follows (k := n) hon (by omega) (by omega)
        hd hmeets
      exact ⟨s, st, r, q, w, hstart, by rw [hloop, hres], hr, hgo⟩
  · rintro hnull ⟨s, st, r, q, w, -, hres, hr, -⟩
    have hrnull : r.node = .null := by
      by_cases hvalid : vfsLookupRequestValid req = 0
      · obtain ⟨part, p', name', -, hloop⟩ := hrun hvalid
        rw [hloop] at hres
        exact loop_null hnull hres
      · unfold vfsLookupTree at hres
        rw [if_pos hvalid] at hres
        cases hres
        exact hnull
    rw [hr] at hrnull
    cases hrnull

/-! ### One node -/

/-- A root without children; every other node is as it is made. -/
def oneNode : Vfs := ⟨fun _ => ⟨[], none, 0, by simp⟩, ⟨id, id⟩⟩

lemma tree_oneNode : IsTree oneNode 0 {0} fun _ => [] where
  lists := by
    constructor
    · rintro h ⟨q, hq, rfl⟩
      exact ⟨by simp [kidLists], rfl, rfl⟩
    · rintro g ⟨q, hq, rfl⟩ h ⟨r, hr, rfl⟩ hne
      rw [Finset.mem_singleton.mp hq, Finset.mem_singleton.mp hr] at hne
      exact absurd rfl hne
  kid := by simp
  parent q _ r hr := by cases hr
  top q hq := by simpa [oneNode] using Finset.mem_singleton.mp hq
  root := Finset.mem_singleton_self 0

/-- A file system that finds node 1, whatever it is asked for. -/
def findOne : Finddir := fun v _ _ => (some 1, v)

/-- A path in a buffer that is zero behind it. -/
def pathBuffer (l : List UInt8) : Bytes := fun j => l.getD j 0

def requestAt (node : Ptr) (l : List UInt8) : FsLookupRequest := ⟨0, some (pathBuffer l, 0), node⟩

lemma cstr_pathBuffer (h : ∀ d ∈ l, d ≠ 0) : CStr (pathBuffer l) 0 l := by
  refine CStr.of_get (fun j hj => ?_) h ?_
  · simp [pathBuffer, hj]
  · simp [pathBuffer]

/-- A name that is looked up in the root and found there. -/
theorem follows_iff_one :
    Follows findOne 100 plenty none oneNode 0 (requestAt (.node 0) (chars ['a']))
      (chars ['a']) := by
  have hcomp : components (chars ['a']) = [chars ['a']] := by decide
  have hnew : IsList oneNode.links (.children 1) [] := ⟨by simp, rfl, rfl⟩
  have hstr : ∀ c ∈ chars ['a'], c ≠ 0 := List.all_iff_forall_prop.mp (by decide)
  refine ((follows_iff tree_oneNode rfl (cstr_pathBuffer hstr) rfl (by decide)).1 0
    (Finset.mem_singleton_self 0) rfl rfl ?_).mpr ?_
  · rw [hcomp]
    refine ⟨fun _ _ l _ _ => ⟨⟨fun _ _ => rfl, fun _ _ => ⟨rfl, rfl⟩, fun _ _ => ⟨rfl, rfl⟩⟩, ?_⟩,
      fun _ _ _ => trivial⟩
    intro e he
    obtain rfl := Option.mem_some_iff.mp he
    exact ⟨by decide, hnew⟩
  · rw [hcomp]
    intro hm
    cases hm with
    | later _ hm => cases hm

/-- From the root `..` leads to a pointer to nothing. -/
theorem not_follows : ¬ ∀ fd n m p vfs root N kids b str l req, IsTree vfs root N kids →
    req.path = some (b, str) → vfsLookupRequestValid req = 0 →
    (req.node = .null ∨ ∃ s ∈ N, req.node = .node s) → CStr b str l →
    (m.call 0 (l.length + 1)).isSome → N.card + l.length < n →
    (∀ s ∈ N, DirsOk fd vfs N s (components l)) → Follows fd n m p vfs root req l := by
  intro h
  have hcomp : components dotdot = [dotdot] := by decide
  obtain ⟨s, st, r, q, w, -, hres, hr, -⟩ := h findOne 100 plenty none oneNode 0 {0} (fun _ => [])
    (pathBuffer dotdot) 0 dotdot (requestAt (.node 0) dotdot) tree_oneNode rfl rfl
    (Or.inr ⟨0, Finset.mem_singleton_self 0, rfl⟩)
    (cstr_pathBuffer (List.all_iff_forall_prop.mp (by decide))) rfl (by decide)
    (fun s _ => by
      rw [hcomp]
      exact ⟨fun _ hne => absurd rfl hne, fun _ _ _ => trivial⟩)
  have hwild : (vfsLookupTree findOne 100 plenty none oneNode
      (requestAt (.node 0) dotdot)).map (fun res => res.2.1.node) = some .wild := by
    decide +kernel
  rw [hres, Option.map_some, hr] at hwild
  cases hwild

end Elfboot.LookupFollows
