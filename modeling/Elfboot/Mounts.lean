import Elfboot.LookupCache
import Elfboot.Objects

/-!
File systems and what is mounted: `fs_register`, `vfs_mount` and their kin in `fs.c`.

A type of file systems is registered at the front of a list. A device is offered to the types of
the list one after the other, each time with a superblock of its own, which is freed when the type
refuses the device; the node that the first of the others gives becomes a child of the node that a
path leads to.
-/

namespace Elfboot.Mounts

open Elfboot.Errno Elfboot.Circular Elfboot.Objects Elfboot.Str Elfboot.FsTree Elfboot.Lookup
  Elfboot.LookupFollows Elfboot.LookupCache
open Relation (ReflTransGen)

/-- The head of the list `filesystems`, the list nodes of the types, and the null pointer. -/
inductive FsLink
  | filesystems
  | fs (t : ℕ)
  | null
  deriving DecidableEq

/-- `struct fs_type`: `fill_super` for a device or none, and the name of the node it is to give. -/
structure FsType where
  name : List UInt8
  fillSuper : Vfs → Option ℕ → List UInt8 → Option ℕ × Vfs

/-- What is around: `vfs_finddir`, the types, `fs_root`, `fs_node_alloc`, and whether there is
memory for a superblock. -/
structure Env where
  fd : Finddir
  type : ℕ → FsType
  root : ℕ
  fsNodeAlloc : Vfs → List UInt8 → Option ℕ × Vfs
  memory : ℕ → Bool

/-- The nodes, the list of the types, and the superblocks on the heap. -/
structure State where
  vfs : Vfs
  types : Links FsLink
  heap : Heap

variable (env : Env)

def fsRegister (t : ℕ) (s : State) : State :=
  { s with types := listAdd s.types (.fs t) .filesystems }

def fsUnregister (t : ℕ) (s : State) : State :=
  { s with types := listDel .null s.types (.fs t) }

/-- The loop of `vfs_find_type`, at an entry of the list. Two names are compared by `strcmp`. -/
def findTypeLoop (types : Links FsLink) (name : List UInt8) : ℕ → FsLink → Option (Option ℕ)
  | 0, _ => none
  | _ + 1, .filesystems => some none
  | _ + 1, .null => none
  | k + 1, .fs t =>
    if (env.type t).name ≠ name then findTypeLoop types name k (types.next (.fs t))
    else some (some t)

def vfsFindType (n : ℕ) (types : Links FsLink) (name : List UInt8) : Option (Option ℕ) :=
  findTypeLoop env types name n (types.next .filesystems)

/-- `superblock_alloc`. What it copies from the device is not looked at again, and that it reads
through a null pointer without a device is left out. -/
def superblockAlloc (s : State) : Option ℕ × State :=
  if env.memory s.heap.time then (some s.heap.time, { s with heap := s.heap.alloc })
  else (none, { s with heap := s.heap.tick })

def bfree (sb : ℕ) (s : State) : State := { s with heap := s.heap.free sb }

/-- A superblock and what `fill_super` makes of it; the superblock is freed if that is nothing. -/
def fill (t : ℕ) (bdev : Option ℕ) (name : List UInt8) (sb : ℕ) (s : State) : Option ℕ × State :=
  match (env.type t).fillSuper s.vfs bdev name with
  | (none, vfs) => (none, bfree sb { s with vfs })
  | (some node, vfs) => (some node, { s with vfs })

/-- `vfs_mount_node`, with a type. -/
def vfsMountNode (t : ℕ) (bdev : Option ℕ) (parent : ℕ) (name : List UInt8) (s : State) :
    Option ℕ × State :=
  match superblockAlloc env s with
  | (none, s) => (none, s)
  | (some sb, s) =>
    match fill env t bdev name sb s with
    | (none, s) => (none, s)
    | (some node, s) => (some node, { s with vfs := treeNodeInsert s.vfs node parent })

/-- The loop of `vfs_mount_bdev`, at an entry of the list. -/
def mountBdevLoop (bdev : ℕ) (name : List UInt8) : ℕ → FsLink → State → Option (Option ℕ × State)
  | 0, _, _ => none
  | _ + 1, .filesystems, s => some (none, s)
  | _ + 1, .null, _ => none
  | k + 1, .fs t, s =>
    match superblockAlloc env s with
    | (none, s) => some (none, s)
    | (some sb, s) =>
      match fill env t (some bdev) name sb s with
      | (none, s) => mountBdevLoop bdev name k (s.types.next (.fs t)) s
      | (some node, s) => some (some node, s)

def vfsMountBdev (n bdev : ℕ) (name : List UInt8) (s : State) : Option (Option ℕ × State) :=
  mountBdevLoop env bdev name n (s.types.next .filesystems) s

/-- `vfs_lookup`: the node, if any. A pointer to anything else cannot be used. -/
def vfsLookup (n : ℕ) (o : Open) (s : State) : Option (Option ℕ × State) :=
  match vfsOpen env.fd n o.m o.p env.root s.vfs (some (o.b, o.str)) with
  | none => none
  | some (.null, vfs) => some (none, { s with vfs })
  | some (.node q, vfs) => some (some q, { s with vfs })
  | some (.wild, _) => none

/-- `vfs_mount`: its status, and the node it has mounted. -/
def vfsMount (n bdev : ℕ) (o : Open) (name : List UInt8) (s : State) :
    Option ((ℤ × Option ℕ) × State) :=
  match vfsLookup env n o s with
  | none => none
  | some (none, s) => some ((-enoent, none), s)
  | some (some node, s) =>
    match vfsMountBdev env n bdev name s with
    | none => none
    | some (none, s) => some ((-enoent, none), s)
    | some (some nent, s) =>
      some ((0, some nent), { s with vfs := treeNodeInsert s.vfs nent node })

/-- `vfs_mount_cdev`. -/
def vfsMountCdev (n : ℕ) (o : Open) (name : List UInt8) (s : State) :
    Option ((ℤ × Option ℕ) × State) :=
  match vfsLookup env n o s with
  | none => none
  | some (none, s) => some ((-enoent, none), s)
  | some (some node, s) =>
    match env.fsNodeAlloc s.vfs name with
    | (none, vfs) => some ((-efault, none), { s with vfs })
    | (some nent, vfs) => some ((0, some nent), { s with vfs := treeNodeInsert vfs nent node })

/-- `vfs_mount_type`; its status is whether `vfs_mount_node` gives no node. -/
def vfsMountType (n : ℕ) (fsName : List UInt8) (bdev : Option ℕ) (o : Open) (name : List UInt8)
    (s : State) : Option ((ℤ × Option ℕ) × State) :=
  match vfsFindType env n s.types fsName with
  | none => none
  | some none => some ((-enoent, none), s)
  | some (some t) =>
    match vfsLookup env n o s with
    | none => none
    | some (none, s) => some ((-enoent, none), s)
    | some (some node, s) =>
      match vfsMountNode env t bdev node name s with
      | (none, s) => some ((1, none), s)
      | (some nent, s) => some ((0, some nent), s)

/-! ### Runs -/

inductive Call
  | register (t : ℕ)
  | unregister (t : ℕ)
  | lookup (o : Open)
  | mount (bdev : ℕ) (o : Open) (name : List UInt8)
  | mountCdev (o : Open) (name : List UInt8)
  | mountType (fs : List UInt8) (bdev : Option ℕ) (o : Open) (name : List UInt8)

/-- A status, and the node that was opened or mounted. -/
abbrev Result := ℤ × Option ℕ

/-- A call, where loops and strings are bounded by `n`. -/
def Call.exec (n : ℕ) (s : State) : Call → Option (Result × State)
  | .register t => some ((0, none), fsRegister t s)
  | .unregister t => some ((0, none), fsUnregister t s)
  | .lookup o => (vfsLookup env n o s).map fun r => ((0, r.1), r.2)
  | .mount bdev o name => vfsMount env n bdev o name s
  | .mountCdev o name => vfsMountCdev env n o name s
  | .mountType fs bdev o name => vfsMountType env n fs bdev o name s

/-- The parts of the path of the node that a call returns. -/
def Call.path : Call → List (List UInt8)
  | .register _ | .unregister _ => []
  | .lookup o => components o.path
  | .mount _ o name | .mountCdev o name | .mountType _ _ o name => components o.path ++ [name]

/-- The list has the types, the one that was registered last in front. -/
def Registered (types : Links FsLink) (ts : List ℕ) : Prop :=
  IsList types .filesystems (ts.map .fs)

/-- What a call does to the types. -/
def Call.types (ts : List ℕ) : Call → List ℕ
  | .register t => t :: ts
  | .unregister t => ts.erase t
  | _ => ts

/-- No child has the name. -/
def Free (v : Vfs) (q : ℕ) (name : List UInt8) : Prop :=
  ∀ l, Kids v q l → childOf v l name = none

/-- The parts of a path are not too long for the name of a node, and do not lead to `..` at the
root. -/
structure PathFits (s : State) (o : Open) : Prop where
  names : ∀ c ∈ components o.path, c.length ≤ 63
  top : ¬ MeetsTop env.fd s.vfs env.root (components o.path)

/-- Something can be mounted under the name: it is not taken. -/
structure MountFits (s : State) (o : Open) (name : List UInt8) : Prop extends PathFits env s o where
  isName : IsName name
  dot : name ≠ dot
  dotdot : name ≠ dotdot
  free : ∀ q w, Returns env.fd env.root s.vfs o (.node q) w → Free w q name

/-- What a caller has to see to. -/
def Call.Fits (s : State) : Call → Prop
  | .register t => ∀ ts, Registered s.types ts → t ∉ ts
  | .unregister t => ∀ ts, Registered s.types ts → t ∈ ts
  | .lookup o => PathFits env s o
  | .mount _ o name | .mountCdev o name | .mountType _ _ o name => MountFits env s o name

/-- A call has a result, when the bound is large enough. -/
def Call.Steps (s : State) (c : Call) (r : Result) (s' : State) : Prop :=
  ∃ k, ∀ n ≥ k, c.exec env n s = some (r, s')

inductive Run : State → List (Call × Result) → State → Prop
  | nil {s} : Run s [] s
  | cons {s c r s' cs u} (hfits : c.Fits env s) (h : c.Steps env s r s') (hr : Run s' cs u) :
      Run s ((c, r) :: cs) u

/-! ### New nodes -/

/-- What makes a new node of a name. -/
inductive Maker : (Vfs → List UInt8 → Option ℕ × Vfs) → Prop
  | alloc : Maker env.fsNodeAlloc
  | type (t : ℕ) (bdev : Option ℕ) : Maker fun v name => (env.type t).fillSuper v bdev name

/-- How the nodes may change: by lookups, by types that refuse, and by nodes that are mounted under
a name that is not taken. -/
inductive Grows : Vfs × Finset ℕ → Vfs × Finset ℕ → Prop
  | asks {s t} (h : Asks env.fd s t) : Grows s t
  | refuses {v N m name w} (hm : Maker env m) (hn : IsName name) (h : m v name = (none, w)) :
      Grows (v, N) (w, N)
  | mounts {v N m name w q e} (hm : Maker env m) (hn : IsName name) (hc : name ≠ dot)
      (hc' : name ≠ dotdot) (h : m v name = (some e, w)) (hq : q ∈ N) (hfree : Free v q name) :
      Grows (v, N) (treeNodeInsert w e q, insert e N)

/-- What is made is a new node without children that has the name; the tree is not changed. -/
def Makes (v : Vfs) (N : Finset ℕ) : Prop :=
  ∀ m name, Maker env m → IsName name → SameOn N v (m v name).2 ∧ ∀ e ∈ (m v name).1, e ∉ N ∧
    IsList (m v name).2.links (.children e) [] ∧ ((m v name).2.node e).name = name

/-- Lookups find and types make new nodes only, from now on. -/
def Steady (s : Vfs × Finset ℕ) : Prop :=
  ∀ t, ReflTransGen (Grows env) s t → Finds env.fd t.1 t.2 ∧ Makes env t.1 t.2

/-- A device is offered to types one after the other. -/
inductive Offers (bdev : Option ℕ) (name : List UInt8) : List ℕ → State → Option ℕ → State → Prop
  | done {s} : Offers bdev name [] s none s
  | nomem {t ts s s'} (h : superblockAlloc env s = (none, s')) :
      Offers bdev name (t :: ts) s none s'
  | refuses {t ts s s₁ s₂ sb r s'} (h : superblockAlloc env s = (some sb, s₁))
      (hf : fill env t bdev name sb s₁ = (none, s₂)) (hr : Offers bdev name ts s₂ r s') :
      Offers bdev name (t :: ts) s r s'
  | accepts {t ts s s₁ sb e s'} (h : superblockAlloc env s = (some sb, s₁))
      (hf : fill env t bdev name sb s₁ = (some e, s')) :
      Offers bdev name (t :: ts) s (some e) s'

/-- There is one superblock more, if there is a node. -/
def Takes (h h' : Heap) : Option ℕ → Prop
  | none => h'.live = h.live
  | some _ => ∃ sb ∉ h.live, h'.live = insert sb h.live

/-- The node that a superblock has been kept for. -/
def Call.kept (r : Result) : Call → Option ℕ
  | .mount .. | .mountType .. => r.2
  | _ => none

/-- What a call leaves: the list of types, the superblocks, and how the tree has grown; the path of
the node that it returns is cached. -/
structure Leaves (c : Call) (s : State) (N : Finset ℕ) (ts : List ℕ) (r : Result) (s' : State)
    (M : Finset ℕ) : Prop where
  types : Registered s'.types (c.types ts)
  heap : Takes s.heap s'.heap (c.kept r)
  grows : ReflTransGen (Grows env) (s.vfs, N) (s'.vfs, M)
  cached : ∀ e, r.2 = some e → CachedPath s'.vfs env.root c.path e

/-- What a run leaves. -/
structure Left (s s' : State) (ts : List ℕ) (cs : List (Call × Result)) (M : Finset ℕ) :
    Prop where
  sound : ∃ kids, Sound env.root s'.vfs M kids
  steady : Steady env (s'.vfs, M)
  types : Registered s'.types (cs.foldl (fun ts c => c.1.types ts) ts)
  heap : s'.heap.live.card = s.heap.live.card + (cs.filterMap fun c => c.1.kept c.2).length
  cached : ∀ c ∈ cs, ∀ e, c.2.2 = some e →
    (∀ part ∈ c.1.path, part.length ≤ 63) ∧ CachedPath s'.vfs env.root c.1.path e

variable {env} {s s' : State} {v w : Vfs} {N M : Finset ℕ} {kids : ℕ → List ℕ} {root q e : ℕ}
  {name : List UInt8} {ts : List ℕ} {x y : Vfs × Finset ℕ} {o : Open}

lemma Steady.reach (h : Steady env x) (hr : ReflTransGen (Grows env) x y) : Steady env y :=
  fun z hz => h z (hr.trans hz)

lemma grows_asks (h : ReflTransGen (Asks env.fd) x y) : ReflTransGen (Grows env) x y :=
  Relation.ReflTransGen.mono (fun _ _ => Grows.asks) _ _ h

lemma Steady.behaves (h : Steady env x) : Behaves env.fd x := fun y hy => (h y (grows_asks hy)).1

lemma Steady.makes (h : Steady env x) : Makes env x.1 x.2 := (h x .refl).2

/-- A new node is mounted, or the types refuse: the tree stays sound and is extended. -/
lemma sound_step (h : Sound root x.1 x.2 kids) (hb : Steady env x) (hg : Grows env x y) :
    x.2 ⊆ y.2 ∧ (∃ kids', Sound root y.1 y.2 kids') ∧ Extends x.2 x.1 y.1 := by
  cases hg with
  | asks ha => exact h.asks hb.behaves.finds ha
  | refuses hm hn hnone =>
      have hsame := (hb.makes _ _ hm hn).1
      rw [hnone] at hsame
      obtain ⟨hsound, hext⟩ := h.miss hsame
      exact ⟨subset_rfl, ⟨_, hsound⟩, hext⟩
  | mounts hm hn hc hc' hsome hq hfree =>
      obtain ⟨hsame, hnew⟩ := hb.makes _ _ hm hn
      rw [hsome] at hsame hnew
      obtain ⟨he, hlist, hname⟩ := hnew _ rfl
      obtain ⟨hsound, hext⟩ := h.hit hsame hq he hlist hname (hfree _ (h.tree.isList hq))
      exact ⟨Finset.subset_insert _ _, hsound, hext⟩

/-- **The tree stays sound** in a run, and is extended. -/
lemma sound_reach (h : Sound root x.1 x.2 kids) (hb : Steady env x)
    (hr : ReflTransGen (Grows env) x y) :
    x.2 ⊆ y.2 ∧ (∃ kids', Sound root y.1 y.2 kids') ∧ Extends x.2 x.1 y.1 := by
  induction hr with
  | refl => exact ⟨subset_rfl, ⟨_, h⟩, .refl ..⟩
  | tail hr hg ih =>
      obtain ⟨hsub, ⟨kids', hsound⟩, hext⟩ := ih
      obtain ⟨hsub', hsound', hext'⟩ := sound_step hsound (hb.reach hr) hg
      exact ⟨hsub.trans hsub', hsound', hext.trans hext' hsub⟩

lemma cachedPath_append {cs : List (List UInt8)} {c : List UInt8} {r : ℕ}
    (h : CachedPath v root cs q) (hc : Cached v q c r) : CachedPath v root (cs ++ [c]) r := by
  induction cs generalizing root with
  | nil =>
      obtain rfl : root = q := h
      exact ⟨r, hc, rfl⟩
  | cons d cs ih =>
      obtain ⟨z, hz, hrest⟩ := h
      exact ⟨z, hz, ih hrest⟩

lemma cachedPath_mem {cs : List (List UInt8)} {r : ℕ} (h : CachedPath v q cs r)
    (hs : Sound root v N kids) (hq : q ∈ N) : r ∈ N := by
  induction cs generalizing q with
  | nil => exact (show q = r from h) ▸ hq
  | cons c cs ih =>
      obtain ⟨z, hz, hrest⟩ := h
      exact ih hrest (hz.mem hs hq)

/-! ### Lookups -/

/-- A call of `vfs_open` returns no pointer but to a node. -/
lemma returns_ne_wild (h : Sound env.root v N kids) (hb : Behaves env.fd (v, N))
    (hlen : ∀ c ∈ components o.path, c.length ≤ 63)
    (htop : ¬ MeetsTop env.fd v env.root (components o.path))
    (hr : Returns env.fd env.root v o .wild w) : False := by
  obtain ⟨k, hk⟩ := hr
  have hrun := hk (max k (N.card + o.path.length + 1)) (le_max_left _ _)
  have hn : N.card + o.path.length < max k (N.card + o.path.length + 1) :=
    Nat.lt_of_succ_le (le_max_right _ _)
  cases hmem : o.memory with
  | false =>
      rw [open_nomem env.fd env.root v hmem (by omega)] at hrun
      cases hrun
  | true =>
      obtain ⟨st, q, w', hopen, -⟩ := open_resolves h hb hlen htop hmem hn
      rw [hopen] at hrun
      split_ifs at hrun <;> cases hrun

/-- **A lookup** ends; it extends the tree at most, and the path of its node is cached. -/
lemma lookup_spec (h : Sound env.root s.vfs N kids) (hb : Steady env (s.vfs, N))
    (hfits : PathFits env s o) :
    ∃ r w, (∃ k, ∀ n ≥ k, vfsLookup env n o s = some (r, { s with vfs := w })) ∧
      ∃ M, ReflTransGen (Grows env) (s.vfs, N) (w, M) ∧
        ∀ q, r = some q → q ∈ M ∧ CachedPath w env.root (components o.path) q ∧
          Returns env.fd env.root s.vfs o (.node q) w := by
  obtain ⟨hlen, htop⟩ := hfits
  obtain ⟨res, w, hr⟩ := open_returns h hb.behaves hlen htop
  obtain ⟨M, hreach, hcached⟩ := h.returns hb.behaves hlen htop hr
  have hgrows := grows_asks hreach
  obtain ⟨-, ⟨kids', hsound⟩, -⟩ := sound_reach h hb hgrows
  obtain ⟨k, hk⟩ := id hr
  cases res with
  | null =>
      refine ⟨none, w, ⟨k, fun n hn => ?_⟩, M, hgrows, nofun⟩
      unfold vfsLookup
      rw [hk n hn]
  | node q =>
      refine ⟨some q, w, ⟨k, fun n hn => ?_⟩, M, hgrows, ?_⟩
      · unfold vfsLookup
        rw [hk n hn]
      · rintro _ ⟨⟩
        exact ⟨cachedPath_mem (hcached q rfl) hsound hsound.tree.root, hcached q rfl, hr⟩
  | wild => exact (returns_ne_wild h hb.behaves hlen htop hr).elim

/-! ### The list of types -/

lemma findTypeLoop_eq {types : Links FsLink} {a : FsLink} {k : ℕ}
    (h : Seg types a (ts.map .fs) .filesystems) (hk : ts.length < k) :
    findTypeLoop env types name k (types.next a) =
      some (ts.find? fun t => (env.type t).name = name) := by
  induction ts generalizing a k with
  | nil =>
      obtain ⟨k, rfl⟩ := Nat.exists_eq_succ_of_ne_zero (Nat.ne_of_gt hk)
      rw [h.1]
      rfl
  | cons t ts ih =>
      obtain ⟨k, rfl⟩ := Nat.exists_eq_succ_of_ne_zero (Nat.ne_zero_of_lt hk)
      obtain ⟨hnext, -, hrest⟩ := h
      rw [hnext, findTypeLoop, List.find?_cons]
      by_cases hname : (env.type t).name = name
      · rw [if_neg (not_not.mpr hname), decide_eq_true hname]
      · rw [if_pos hname, decide_eq_false hname]
        exact ih hrest (Nat.lt_of_succ_lt_succ hk)

lemma superblockAlloc_keeps (env : Env) (s : State) :
    (superblockAlloc env s).2.types = s.types ∧ (superblockAlloc env s).2.vfs = s.vfs := by
  unfold superblockAlloc
  split_ifs <;> exact ⟨rfl, rfl⟩

lemma fill_types (env : Env) (t : ℕ) (bdev : Option ℕ) (name : List UInt8) (sb : ℕ) (s : State) :
    (fill env t bdev name sb s).2.types = s.types := by
  unfold fill
  split <;> rfl

/-- **The loop offers the device** to the types of the list, in its order. -/
lemma mountBdevLoop_offers (env : Env) (bdev : ℕ) (name : List UInt8) {a : FsLink}
    (h : Seg s.types a (ts.map .fs) .filesystems) :
    ∃ r s', (∀ k > ts.length, mountBdevLoop env bdev name k (s.types.next a) s = some (r, s')) ∧
      s'.types = s.types ∧ Offers env (some bdev) name ts s r s' := by
  induction ts generalizing a s with
  | nil =>
      refine ⟨none, s, fun k hk => ?_, rfl, .done⟩
      obtain ⟨k, rfl⟩ := Nat.exists_eq_succ_of_ne_zero (Nat.ne_of_gt hk)
      rw [h.1]
      rfl
  | cons t ts ih =>
      obtain ⟨hnext, -, hrest⟩ := h
      have hturn : ∀ k > (t :: ts).length, ∃ k' > ts.length, k = k' + 1 := by
        intro k hk
        obtain ⟨k', rfl⟩ := Nat.exists_eq_succ_of_ne_zero (Nat.ne_zero_of_lt hk)
        exact ⟨k', Nat.lt_of_succ_lt_succ hk, rfl⟩
      have hkeeps := (superblockAlloc_keeps env s).1
      rcases halloc : superblockAlloc env s with ⟨_ | sb, s₁⟩
      · rw [halloc] at hkeeps
        refine ⟨none, s₁, fun k hk => ?_, hkeeps, .nomem halloc⟩
        obtain ⟨k', -, rfl⟩ := hturn k hk
        rw [hnext, mountBdevLoop, halloc]
      · rw [halloc] at hkeeps
        have htypes := fill_types env t (some bdev) name sb s₁
        rcases hfill : fill env t (some bdev) name sb s₁ with ⟨_ | e, s₂⟩
        · rw [hfill] at htypes
          have hsame : s₂.types = s.types := htypes.trans hkeeps
          rw [← hsame] at hrest
          obtain ⟨r, s', hloop, htypes', hoffers⟩ := ih hrest
          refine ⟨r, s', fun k hk => ?_, htypes'.trans hsame, .refuses halloc hfill hoffers⟩
          obtain ⟨k', hk', rfl⟩ := hturn k hk
          rw [hnext, mountBdevLoop, halloc]
          dsimp only
          rw [hfill]
          exact hloop k' hk'
        · rw [hfill] at htypes
          refine ⟨some e, s₂, fun k hk => ?_, htypes.trans hkeeps, .accepts halloc hfill⟩
          obtain ⟨k', -, rfl⟩ := hturn k hk
          rw [hnext, mountBdevLoop, halloc]
          dsimp only
          rw [hfill]

lemma alloc_none (h : superblockAlloc env s = (none, s')) :
    s' = { s with heap := s.heap.tick } := by
  unfold superblockAlloc at h
  split_ifs at h
  · cases h
  · exact (Prod.mk.inj h).2.symm

lemma alloc_some {sb : ℕ} (h : superblockAlloc env s = (some sb, s')) :
    sb = s.heap.time ∧ s' = { s with heap := s.heap.alloc } := by
  unfold superblockAlloc at h
  split_ifs at h
  · cases h
    exact ⟨rfl, rfl⟩
  · cases h

lemma fill_none {t sb : ℕ} {bdev : Option ℕ} (h : fill env t bdev name sb s = (none, s')) :
    (env.type t).fillSuper s.vfs bdev name = (none, s'.vfs) ∧ s'.heap = s.heap.free sb := by
  unfold fill at h
  rcases hf : (env.type t).fillSuper s.vfs bdev name with ⟨_ | e, w⟩
  · rw [hf] at h
    cases h
    exact ⟨rfl, rfl⟩
  · rw [hf] at h
    cases h

lemma fill_some {t sb : ℕ} {bdev : Option ℕ} (h : fill env t bdev name sb s = (some e, s')) :
    (env.type t).fillSuper s.vfs bdev name = (some e, s'.vfs) ∧ s'.heap = s.heap := by
  unfold fill at h
  rcases hf : (env.type t).fillSuper s.vfs bdev name with ⟨_ | e, w⟩
  · rw [hf] at h
    cases h
  · rw [hf] at h
    cases h
    exact ⟨rfl, rfl⟩

lemma sameOn_trans {u : Vfs} (h : SameOn N v w) (h' : SameOn N w u) : SameOn N v u where
  node n hn := (h'.node n hn).trans (h.node n hn)
  children n hn := ⟨(h'.children n hn).1.trans (h.children n hn).1,
    (h'.children n hn).2.trans (h.children n hn).2⟩
  siblings n hn := ⟨(h'.siblings n hn).1.trans (h.siblings n hn).1,
    (h'.siblings n hn).2.trans (h.siblings n hn).2⟩

/-- **What is left of an offer**: types that refused have changed nothing in the tree and kept no
superblock, and the node is what one of the types makes. -/
lemma Offers.spec {bdev : Option ℕ} {r : Option ℕ} (h : Offers env bdev name ts s r s')
    (hb : Steady env (s.vfs, N)) (hn : IsName name) :
    Takes s.heap s'.heap r ∧ ∃ v, ReflTransGen (Grows env) (s.vfs, N) (v, N) ∧ SameOn N s.vfs v ∧
      (r = none → s'.vfs = v) ∧
      ∀ e, r = some e → ∃ m, Maker env m ∧ m v name = (some e, s'.vfs) := by
  induction h with
  | done => exact ⟨rfl, _, .refl, sameOn_refl _ _, fun _ => rfl, nofun⟩
  | nomem h =>
      cases alloc_none h
      exact ⟨rfl, _, .refl, sameOn_refl _ _, fun _ => rfl, nofun⟩
  | @refuses t ts s s₁ s₂ sb r s' h hf _ ih =>
      obtain ⟨rfl, rfl⟩ := alloc_some h
      obtain ⟨hrefused, hheap⟩ := fill_none hf
      have hmaker : Maker env fun v name => (env.type t).fillSuper v bdev name := .type t _
      have hsame := (hb.makes _ _ hmaker hn).1
      have hgrows : Grows env (s.vfs, N) (s₂.vfs, N) := .refuses hmaker hn hrefused
      rw [show (env.type t).fillSuper s.vfs bdev name = _ from hrefused] at hsame
      obtain ⟨htakes, v, hreach, hsame', hnone, hsome⟩ := ih (hb.reach (.single hgrows))
      have hfreed : s₂.heap.live = s.heap.live := by
        rw [hheap]
        exact (Same.free_alloc (Same.refl _)).live
      refine ⟨?_, v, .head hgrows hreach, sameOn_trans hsame hsame', hnone, hsome⟩
      cases r with
      | none => exact Eq.trans htakes hfreed
      | some e =>
        obtain ⟨sb, hsb, hlive⟩ := htakes
        rw [hfreed] at hsb hlive
        exact ⟨sb, hsb, hlive⟩
  | @accepts t ts s s₁ sb e s' h hf =>
      obtain ⟨rfl, rfl⟩ := alloc_some h
      obtain ⟨hmade, hheap⟩ := fill_some hf
      refine ⟨⟨s.heap.time, time_notMem _, by rw [hheap]; rfl⟩, s.vfs, .refl, sameOn_refl _ _,
        nofun, ?_⟩
      rintro _ ⟨⟩
      exact ⟨_, .type t bdev, hmade⟩

end Elfboot.Mounts
