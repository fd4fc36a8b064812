import Elfboot.Mounts

/-!
Runs of registrations, lookups and mounts.

The tree of nodes grows and nothing of it is lost: a path that a node was opened or mounted at
leads to this node from then on. A device goes to the type that was registered last of those that
do not refuse it.
-/

namespace Elfboot.Mounts

open Elfboot.Errno Elfboot.Circular Elfboot.Objects Elfboot.Str Elfboot.FsTree Elfboot.Lookup
  Elfboot.LookupFollows Elfboot.LookupCache
open Relation (ReflTransGen)

/-- Types refuse a device one after the other. -/
inductive Refused (env : Env) (bdev : Option ℕ) (name : List UInt8) : List ℕ → Vfs → Vfs → Prop
  | nil {v} : Refused env bdev name [] v v
  | cons {t ts v w u} (h : (env.type t).fillSuper v bdev name = (none, w))
      (hr : Refused env bdev name ts w u) : Refused env bdev name (t :: ts) v u

/-- The first type that does not refuse the device makes a node, and until then there is memory
for a superblock each time. -/
def Accepted (env : Env) (bdev : Option ℕ) (name : List UInt8) (ts : List ℕ) (time : ℕ) (v : Vfs)
    (e : ℕ) : Prop :=
  ∃ l₁ t l₂ w u, ts = l₁ ++ t :: l₂ ∧ Refused env bdev name l₁ v w ∧
    (env.type t).fillSuper w bdev name = (some e, u) ∧ ∀ i ≤ l₁.length, env.memory (time + i) = true

variable {env : Env} {s s' : State} {v w : Vfs} {N M : Finset ℕ} {kids : ℕ → List ℕ} {root q e : ℕ}
  {name : List UInt8} {ts : List ℕ} {x y : Vfs × Finset ℕ} {o : Open}

/-! ### Mounting -/

lemma Free.sameOn (h : Free v q name) (hs : Sound root v N kids) (hsame : SameOn N v w)
    (hq : q ∈ N) : Free w q name := by
  intro l hl
  obtain ⟨hsound, -⟩ := hs.miss hsame
  have hnone := h _ (hs.tree.isList hq)
  rw [hsound.kids_eq hq hl]
  unfold childOf at hnone ⊢
  rw [← hnone]
  refine List.find?_congr fun a ha => ?_
  rw [hsame.node a (hs.tree.kid q hq a ha).1]

/-- **A node that is mounted** extends the tree, and its path is cached. -/
lemma mounted_spec {m : Vfs → List UInt8 → Option ℕ × Vfs} {u : Vfs} {cs : List (List UInt8)}
    (h : Sound root v N kids) (hb : Steady env (v, N))
    (hreach : ReflTransGen (Grows env) (v, N) (w, N)) (hsame : SameOn N v w) (hm : Maker env m)
    (hmade : m w name = (some e, u)) (hn : IsName name) (hc : name ≠ dot) (hc' : name ≠ dotdot)
    (hq : q ∈ N) (hfree : Free v q name) (hpath : CachedPath v root cs q) (hroot : root ∈ N) :
    ReflTransGen (Grows env) (v, N) (treeNodeInsert u e q, insert e N) ∧
      CachedPath (treeNodeInsert u e q) root (cs ++ [name]) e := by
  have hgrows : Grows env (w, N) (treeNodeInsert u e q, insert e N) :=
    .mounts hm hn hc hc' hmade hq (hfree.sameOn h hsame hq)
  have hall := hreach.tail hgrows
  obtain ⟨-, ⟨kids', hsound⟩, hext⟩ := sound_reach h hb hall
  obtain ⟨-, hnew⟩ := (hb.reach hreach).makes _ _ hm hn
  dsimp only at hnew
  rw [hmade] at hnew
  obtain ⟨-, -, hname⟩ := hnew e rfl
  refine ⟨hall, cachedPath_append (hpath.extends h hroot hext) ?_⟩
  refine hsound.cached (Finset.mem_insert_self _ _) (insert_parent_new ..) ?_ hc hc'
  rw [insert_name]
  exact hname

lemma mountNode_offers (env : Env) (t : ℕ) (bdev : Option ℕ) (q : ℕ) (name : List UInt8)
    (s : State) :
    ∃ r s', Offers env bdev name [t] s r s' ∧ s'.types = s.types ∧
      vfsMountNode env t bdev q name s =
        (r, match r with
          | none => s'
          | some e => { s' with vfs := treeNodeInsert s'.vfs e q }) := by
  have hkeeps := (superblockAlloc_keeps env s).1
  unfold vfsMountNode
  rcases halloc : superblockAlloc env s with ⟨_ | sb, s₁⟩
  · rw [halloc] at hkeeps
    exact ⟨none, s₁, .nomem halloc, hkeeps, rfl⟩
  · rw [halloc] at hkeeps
    have htypes := fill_types env t bdev name sb s₁
    dsimp only
    rcases hfill : fill env t bdev name sb s₁ with ⟨_ | e, s₂⟩
    · rw [hfill] at htypes
      exact ⟨none, s₂, .refuses halloc hfill .done, htypes.trans hkeeps, rfl⟩
    · rw [hfill] at htypes
      exact ⟨some e, s₂, .accepts halloc hfill, htypes.trans hkeeps, rfl⟩

/-- What types make of an offer is mounted where a path leads to. -/
lemma offers_mounted {bdev : Option ℕ} {r : Option ℕ} (h : Sound env.root s.vfs N kids)
    (hb : Steady env (s.vfs, N)) (hfits : MountFits env s o name) (hgrows : ReflTransGen (Grows env)
      (s.vfs, N) (w, M)) (hq : q ∈ M) (hpath : CachedPath w env.root (components o.path) q)
    (hret : Returns env.fd env.root s.vfs o (.node q) w)
    (hoffers : Offers env bdev name ts { s with vfs := w } r s') :
    Takes s.heap s'.heap r ∧
      (r = none → ∃ M, ReflTransGen (Grows env) (s.vfs, N) (s'.vfs, M)) ∧
      ∀ e, r = some e → ∃ M, ReflTransGen (Grows env) (s.vfs, N) (treeNodeInsert s'.vfs e q, M) ∧
        CachedPath (treeNodeInsert s'.vfs e q) env.root (components o.path ++ [name]) e := by
  obtain ⟨-, ⟨kids', hsound⟩, -⟩ := sound_reach h hb hgrows
  have hb' := hb.reach hgrows
  obtain ⟨htakes, v, hreach, hsame, hnone, hsome⟩ := hoffers.spec hb' hfits.isName
  refine ⟨htakes, fun hr => ⟨M, hnone hr ▸ hgrows.trans hreach⟩, fun e hr => ?_⟩
  obtain ⟨m, hm, hmade⟩ := hsome e hr
  obtain ⟨hall, hcached⟩ := mounted_spec hsound hb' hreach hsame hm hmade hfits.isName hfits.dot
    hfits.dotdot hq (hfits.free q w hret) hpath hsound.tree.root
  exact ⟨_, hgrows.trans hall, hcached⟩

lemma mount_lacks {n bdev : ℕ} {s₁ : State} (hlook : vfsLookup env n o s = some (none, s₁)) :
    vfsMount env n bdev o name s = some ((-enoent, none), s₁) := by
  unfold vfsMount
  rw [hlook]

lemma mount_refused {n bdev : ℕ} {s₁ : State} (hlook : vfsLookup env n o s = some (some q, s₁))
    (hmount : vfsMountBdev env n bdev name s₁ = some (none, s')) :
    vfsMount env n bdev o name s = some ((-enoent, none), s') := by
  unfold vfsMount
  rw [hlook]
  dsimp only
  rw [hmount]

lemma mount_accepted {n bdev : ℕ} {s₁ : State} (hlook : vfsLookup env n o s = some (some q, s₁))
    (hmount : vfsMountBdev env n bdev name s₁ = some (some e, s')) :
    vfsMount env n bdev o name s =
      some ((0, some e), { s' with vfs := treeNodeInsert s'.vfs e q }) := by
  unfold vfsMount
  rw [hlook]
  dsimp only
  rw [hmount]

/-- **`vfs_mount`** ends. -/
lemma mount_spec (bdev : ℕ) (h : Sound env.root s.vfs N kids) (hb : Steady env (s.vfs, N))
    (hreg : Registered s.types ts) (hfits : MountFits env s o name) :
    ∃ r s' M, Call.Steps env s (.mount bdev o name) r s' ∧
      Leaves env (.mount bdev o name) s N ts r s' M := by
  obtain ⟨r, w, ⟨k, hk⟩, M, hgrows, hnode⟩ := lookup_spec h hb hfits.toPathFits
  cases r with
  | none =>
      exact ⟨(-enoent, none), { s with vfs := w }, M, ⟨k, fun n hn => mount_lacks (hk n hn)⟩, hreg,
        rfl, hgrows, nofun⟩
  | some q =>
      obtain ⟨hq, hpath, hret⟩ := hnode q rfl
      have hseg : Seg { s with vfs := w }.types .filesystems (ts.map .fs) .filesystems := hreg.seg
      obtain ⟨r, s', hloop, htypes, hoffers⟩ := mountBdevLoop_offers env bdev name hseg
      obtain ⟨htakes, hnone, hsome⟩ := offers_mounted h hb hfits hgrows hq hpath hret hoffers
      have hlook : ∀ n ≥ max k (ts.length + 1), vfsLookup env n o s =
          some (some q, { s with vfs := w }) := fun n hn => hk n ((le_max_left _ _).trans hn)
      have hmount : ∀ n ≥ max k (ts.length + 1), vfsMountBdev env n bdev name { s with vfs := w } =
          some (r, s') := fun n hn => hloop n (lt_of_lt_of_le (le_max_right k _) hn)
      rw [← htypes] at hreg
      cases r with
      | none =>
          obtain ⟨M', hgrows'⟩ := hnone rfl
          exact ⟨(-enoent, none), s', M', ⟨max k (ts.length + 1), fun n hn =>
            mount_refused (hlook n hn) (hmount n hn)⟩, hreg, htakes, hgrows', nofun⟩
      | some e =>
          obtain ⟨M', hgrows', hcached⟩ := hsome e rfl
          refine ⟨(0, some e), { s' with vfs := treeNodeInsert s'.vfs e q }, M',
            ⟨max k (ts.length + 1), fun n hn => mount_accepted (hlook n hn) (hmount n hn)⟩, hreg,
            htakes, hgrows', ?_⟩
          rintro _ ⟨⟩
          exact hcached

/-- **`vfs_mount_cdev`** ends. -/
lemma mountCdev_spec (h : Sound env.root s.vfs N kids) (hb : Steady env (s.vfs, N))
    (hreg : Registered s.types ts) (hfits : MountFits env s o name) :
    ∃ r s' M, Call.Steps env s (.mountCdev o name) r s' ∧
      Leaves env (.mountCdev o name) s N ts r s' M := by
  obtain ⟨r, w, ⟨k, hk⟩, M, hgrows, hnode⟩ := lookup_spec h hb hfits.toPathFits
  cases r with
  | none =>
      refine ⟨(-enoent, none), { s with vfs := w }, M, ⟨k, fun n hn => ?_⟩, hreg, rfl, hgrows,
        nofun⟩
      show vfsMountCdev env n o name s = _
      unfold vfsMountCdev
      rw [hk n hn]
  | some q =>
      obtain ⟨hq, hpath, hret⟩ := hnode q rfl
      obtain ⟨-, ⟨kids', hsound⟩, -⟩ := sound_reach h hb hgrows
      have hb' := hb.reach hgrows
      rcases hmade : env.fsNodeAlloc w name with ⟨_ | e, u⟩
      · have hrefuses : Grows env (w, M) (u, M) := .refuses .alloc hfits.isName hmade
        refine ⟨(-efault, none), { s with vfs := u }, M, ⟨k, fun n hn => ?_⟩, hreg, rfl,
          hgrows.tail hrefuses, nofun⟩
        show vfsMountCdev env n o name s = _
        unfold vfsMountCdev
        rw [hk n hn]
        dsimp only
        rw [hmade]
      · obtain ⟨hall, hcached⟩ := mounted_spec hsound hb' .refl (sameOn_refl _ _) .alloc hmade
          hfits.isName hfits.dot hfits.dotdot hq (hfits.free q w hret) hpath hsound.tree.root
        refine ⟨(0, some e), { s with vfs := treeNodeInsert u e q }, _, ⟨k, fun n hn => ?_⟩, hreg,
          rfl, hgrows.trans hall, ?_⟩
        · show vfsMountCdev env n o name s = _
          unfold vfsMountCdev
          rw [hk n hn]
          dsimp only
          rw [hmade]
        · rintro _ ⟨⟩
          exact hcached

/-- **`vfs_mount_type`** ends. -/
lemma mountType_spec (fs : List UInt8) (bdev : Option ℕ) (h : Sound env.root s.vfs N kids)
    (hb : Steady env (s.vfs, N)) (hreg : Registered s.types ts) (hfits : MountFits env s o name) :
    ∃ r s' M, Call.Steps env s (.mountType fs bdev o name) r s' ∧
      Leaves env (.mountType fs bdev o name) s N ts r s' M := by
  obtain ⟨r, w, ⟨k, hk⟩, M, hgrows, hnode⟩ := lookup_spec h hb hfits.toPathFits
  have hfind : ∀ n ≥ max k (ts.length + 1), vfsFindType env n s.types fs =
      some (ts.find? fun t => (env.type t).name = fs) := fun n hn =>
    findTypeLoop_eq hreg.seg (lt_of_lt_of_le (le_max_right k _) hn)
  have hlook : ∀ n ≥ max k (ts.length + 1), vfsLookup env n o s =
      some (r, { s with vfs := w }) := fun n hn => hk n ((le_max_left _ _).trans hn)
  cases ht : ts.find? fun t => (env.type t).name = fs with
  | none =>
      refine ⟨(-enoent, none), s, N, ⟨max k (ts.length + 1), fun n hn => ?_⟩, hreg, rfl, .refl,
        nofun⟩
      show vfsMountType env n fs bdev o name s = _
      unfold vfsMountType
      rw [hfind n hn, ht]
  | some t =>
    cases r with
    | none =>
        refine ⟨(-enoent, none), { s with vfs := w }, M, ⟨max k (ts.length + 1), fun n hn => ?_⟩,
          hreg, rfl, hgrows, nofun⟩
        show vfsMountType env n fs bdev o name s = _
        unfold vfsMountType
        rw [hfind n hn, ht]
        dsimp only
        rw [hlook n hn]
    | some q =>
        obtain ⟨hq, hpath, hret⟩ := hnode q rfl
        obtain ⟨r, s', hoffers, htypes, hmount⟩ :=
          mountNode_offers env t bdev q name { s with vfs := w }
        obtain ⟨htakes, hnone, hsome⟩ := offers_mounted h hb hfits hgrows hq hpath hret hoffers
        have hreg' : Registered s'.types ts := htypes ▸ hreg
        cases r with
        | none =>
            obtain ⟨M', hgrows'⟩ := hnone rfl
            refine ⟨(1, none), s', M', ⟨max k (ts.length + 1), fun n hn => ?_⟩, hreg', htakes,
              hgrows', nofun⟩
            show vfsMountType env n fs bdev o name s = _
            unfold vfsMountType
            rw [hfind n hn, ht]
            dsimp only
            rw [hlook n hn]
            dsimp only
            rw [hmount]
        | some e =>
            obtain ⟨M', hgrows', hcached⟩ := hsome e rfl
            refine ⟨(0, some e), { s' with vfs := treeNodeInsert s'.vfs e q }, M',
              ⟨max k (ts.length + 1), fun n hn => ?_⟩, hreg', htakes, hgrows', ?_⟩
            · show vfsMountType env n fs bdev o name s = _
              unfold vfsMountType
              rw [hfind n hn, ht]
              dsimp only
              rw [hlook n hn]
              dsimp only
              rw [hmount]
            · rintro _ ⟨⟩
              exact hcached

/-! ### Runs of calls -/

lemma registered_add {types : Links FsLink} {t : ℕ} (h : Registered types ts) (ht : t ∉ ts) :
    Registered (listAdd types (.fs t) .filesystems) (t :: ts) := by
  refine IsList.add h ?_
  simpa using ht

lemma registered_del {types : Links FsLink} {t : ℕ} (h : Registered types ts) (ht : t ∈ ts) :
    Registered (listDel .null types (.fs t)) (ts.erase t) := by
  have hnodup : ts.Nodup := List.Nodup.of_map _ (List.nodup_cons.mp h.nodup).2
  obtain ⟨l₁, l₂, rfl⟩ := List.append_of_mem ht
  have hnot : t ∉ l₁ := fun hmem => List.disjoint_of_nodup_append hnodup hmem List.mem_cons_self
  rw [List.erase_append_right _ hnot, List.erase_cons_head]
  unfold Registered at h ⊢
  rw [List.map_append, List.map_cons] at h
  rw [List.map_append]
  exact h.del

/-- **Every call ends**, and the tree has grown at most. -/
lemma call_spec {c : Call} (h : Sound env.root s.vfs N kids) (hb : Steady env (s.vfs, N))
    (hreg : Registered s.types ts) (hfits : c.Fits env s) :
    ∃ r s' M, c.Steps env s r s' ∧ Leaves env c s N ts r s' M := by
  cases c with
  | register t =>
      exact ⟨(0, none), fsRegister t s, N, ⟨0, fun _ _ => rfl⟩, registered_add hreg (hfits ts hreg),
        rfl, .refl, nofun⟩
  | unregister t =>
      exact ⟨(0, none), fsUnregister t s, N, ⟨0, fun _ _ => rfl⟩,
        registered_del hreg (hfits ts hreg), rfl, .refl, nofun⟩
  | lookup o =>
      obtain ⟨r, w, ⟨k, hk⟩, M, hgrows, hnode⟩ := lookup_spec h hb hfits
      refine ⟨(0, r), { s with vfs := w }, M, ⟨k, fun n hn => ?_⟩, hreg, rfl, hgrows,
        fun q hq => (hnode q hq).2.1⟩
      show (vfsLookup env n o s).map _ = _
      rw [hk n hn]
      rfl
  | mount bdev o name => exact mount_spec bdev h hb hreg hfits
  | mountCdev o name => exact mountCdev_spec h hb hreg hfits
  | mountType fs bdev o name => exact mountType_spec fs bdev h hb hreg hfits

lemma Call.Steps.unique {c : Call} {r r' : Result} {s'' : State} (h : c.Steps env s r s')
    (h' : c.Steps env s r' s'') : r = r' ∧ s' = s'' := by
  obtain ⟨k, hk⟩ := h
  obtain ⟨k', hk'⟩ := h'
  have heq := (hk (max k k') (le_max_left _ _)).symm.trans (hk' (max k k') (le_max_right _ _))
  exact Prod.mk.inj (Option.some_inj.mp heq)

lemma takes_card {h h' : Heap} {r : Option ℕ} (ht : Takes h h' r) :
    h'.live.card = h.live.card + r.toList.length := by
  cases r with
  | none => rw [show h'.live = h.live from ht]; rfl
  | some e =>
      obtain ⟨sb, hsb, hlive⟩ := ht
      rw [hlive, Finset.card_insert_of_notMem hsb]
      rfl

/-- The parts of the path of a call are names. -/
lemma Call.Fits.names {c : Call} (h : c.Fits env s) : ∀ part ∈ c.path, part.length ≤ 63 := by
  have happend : ∀ {o name}, MountFits env s o name →
      ∀ part ∈ components o.path ++ [name], part.length ≤ 63 := by
    intro o name h part hpart
    rcases List.mem_append.mp hpart with hpart | hpart
    · exact h.names part hpart
    · rw [List.mem_singleton.mp hpart]
      exact h.isName.2
  cases c with
  | register t => exact nofun
  | unregister t => exact nofun
  | lookup o => exact PathFits.names h
  | mount _ _ _ => exact happend h
  | mountCdev _ _ => exact happend h
  | mountType _ _ _ _ => exact happend h

lemma run_spec {cs : List (Call × Result)} (hrun : Run env s cs s')
    (h : Sound env.root s.vfs N kids) (hb : Steady env (s.vfs, N)) (hreg : Registered s.types ts) :
    ∃ M, ReflTransGen (Grows env) (s.vfs, N) (s'.vfs, M) ∧ Left env s s' ts cs M := by
  induction hrun generalizing N kids ts with
  | nil => exact ⟨N, .refl, ⟨_, h⟩, hb, hreg, rfl, nofun⟩
  | @cons s c r s₁ cs u hfits hstep _ ih =>
      obtain ⟨r', s₁', M, hstep', htypes, hheap, hgrows, hcached⟩ := call_spec h hb hreg hfits
      obtain ⟨rfl, rfl⟩ := hstep.unique hstep'
      obtain ⟨-, ⟨kids₁, hsound⟩, -⟩ := sound_reach h hb hgrows
      have hb₁ := hb.reach hgrows
      obtain ⟨M', hgrows', hleft⟩ := ih hsound hb₁ htypes
      obtain ⟨-, -, hext⟩ := sound_reach hsound hb₁ hgrows'
      refine ⟨M', hgrows.trans hgrows', hleft.sound, hleft.steady, hleft.types, ?_,
        fun d hd e he => ?_⟩
      · rw [hleft.heap, takes_card hheap, List.filterMap_cons]
        cases c.kept r with
        | none => simp
        | some e => simp; omega
      · rcases List.mem_cons.mp hd with rfl | hd
        · exact ⟨hfits.names, (hcached e he).extends hsound hsound.tree.root hext⟩
        · exact hleft.cached d hd e he

/-- **What is mounted stays mounted.** After any run of registrations, lookups and mounts the nodes
form a tree without two children of one name, the list has the types that are registered, with the
last one in front, there is a superblock for each mounted file system and no other, every further
call ends, and the path of every node that was mounted or opened leads to that node without a change
to the tree. -/
theorem mounts_stay (env : Env) (s : State) (N : Finset ℕ) (kids : ℕ → List ℕ) (ts : List ℕ)
    (h : Sound env.root s.vfs N kids) (hb : Steady env (s.vfs, N)) (hreg : Registered s.types ts)
    (cs : List (Call × Result)) (s' : State) (hrun : Run env s cs s') :
    (∃ M kids', Sound env.root s'.vfs M kids') ∧
      Registered s'.types (cs.foldl (fun ts c => c.1.types ts) ts) ∧
      s'.heap.live.card = s.heap.live.card + (cs.filterMap fun c => c.1.kept c.2).length ∧
      (∀ c : Call, c.Fits env s' → ∃ r s'', c.Steps env s' r s'') ∧
      ∀ c r e, (c, r) ∈ cs → r.2 = some e → ∀ o : Open, components o.path = c.path →
        Returns env.fd env.root s'.vfs o (if o.memory then .node e else .null) s'.vfs := by
  obtain ⟨M, -, ⟨kids', hsound⟩, hsteady, htypes, hheap, hcached⟩ := run_spec hrun h hb hreg
  refine ⟨⟨M, kids', hsound⟩, htypes, hheap, fun c hfits => ?_, fun c r e hc hr o hpath => ?_⟩
  · obtain ⟨r, s'', -, hstep, -⟩ := call_spec hsound hsteady htypes hfits
    exact ⟨r, s'', hstep⟩
  · obtain ⟨hlen, hpath'⟩ := hcached (c, r) hc e hr
    dsimp only at hlen hpath'
    rw [← hpath] at hlen hpath'
    exact hsound.reopens hsteady.behaves hlen hpath'

/-! ### Which type is mounted -/

lemma alloc_memory {sb : ℕ} (h : superblockAlloc env s = (some sb, s')) :
    env.memory s.heap.time = true := by
  unfold superblockAlloc at h
  split_ifs at h with hmem
  · exact hmem
  · cases h

lemma Offers.accepted {bdev : Option ℕ} {r : Option ℕ} (h : Offers env bdev name ts s r s')
    (hr : r = some e) : Accepted env bdev name ts s.heap.time s.vfs e := by
  induction h with
  | done => cases hr
  | nomem h => cases hr
  | @refuses t ts s s₁ s₂ sb r s' h hf _ ih =>
      have hmem := alloc_memory h
      obtain ⟨rfl, rfl⟩ := alloc_some h
      obtain ⟨hrefused, hheap⟩ := fill_none hf
      obtain ⟨l₁, t', l₂, w, u, rfl, hall, hmade, htimes⟩ := ih hr
      have htime : s₂.heap.time = s.heap.time + 1 := by rw [hheap]; rfl
      refine ⟨t :: l₁, t', l₂, w, u, rfl, .cons hrefused hall, hmade, fun i hi => ?_⟩
      cases i with
      | zero => exact hmem
      | succ i =>
        have hnext := htimes i (Nat.le_of_succ_le_succ hi)
        rwa [htime, Nat.add_right_comm] at hnext
  | @accepts t ts s s₁ sb e' s' h hf =>
      have hmem := alloc_memory h
      obtain ⟨rfl, rfl⟩ := alloc_some h
      obtain ⟨hmade, -⟩ := fill_some hf
      cases hr
      refine ⟨[], t, ts, s.vfs, s'.vfs, rfl, .nil, hmade, fun i hi => ?_⟩
      rw [Nat.le_zero.mp hi]
      exact hmem

/-- Where the device is accepted, an offer ends with the node. -/
lemma Offers.of_accepted {bdev : Option ℕ} {r : Option ℕ} (h : Offers env bdev name ts s r s')
    (ha : Accepted env bdev name ts s.heap.time s.vfs e) : r = some e := by
  obtain ⟨l₁, t', l₂, w, u, hts, hall, hmade, htimes⟩ := ha
  induction h generalizing l₁ with
  | done => exact absurd hts.symm (List.append_ne_nil_of_right_ne_nil _ (List.cons_ne_nil _ _))
  | @nomem t ts s s' h =>
      have hmem := htimes 0 (Nat.zero_le _)
      rw [Nat.add_zero] at hmem
      unfold superblockAlloc at h
      rw [if_pos hmem] at h
      cases h
  | @refuses t ts s s₁ s₂ sb r s' h hf _ ih =>
      obtain ⟨rfl, rfl⟩ := alloc_some h
      obtain ⟨hrefused, hheap⟩ := fill_none hf
      have htime : s₂.heap.time = s.heap.time + 1 := by rw [hheap]; rfl
      cases hall with
      | nil =>
          obtain ⟨rfl, -⟩ := List.cons.inj hts
          dsimp only at hrefused
          rw [hmade] at hrefused
          cases hrefused
      | @cons _ l₁ _ w' _ hfirst hrest =>
          obtain ⟨rfl, hrests⟩ := List.cons.inj hts
          dsimp only at hrefused
          rw [hfirst] at hrefused
          obtain rfl := (Prod.mk.inj hrefused).2
          refine ih l₁ hrests hrest fun i hi => ?_
          rw [htime, Nat.add_right_comm]
          exact htimes (i + 1) (Nat.succ_le_succ hi)
  | @accepts t ts s s₁ sb e' s' h hf =>
      obtain ⟨rfl, rfl⟩ := alloc_some h
      obtain ⟨hmade', -⟩ := fill_some hf
      cases hall with
      | nil =>
          obtain ⟨rfl, -⟩ := List.cons.inj hts
          dsimp only at hmade'
          rw [hmade] at hmade'
          exact (Prod.mk.inj hmade').1.symm
      | cons hfirst _ =>
          obtain ⟨rfl, -⟩ := List.cons.inj hts
          dsimp only at hmade'
          rw [hfirst] at hmade'
          cases hmade'

lemma lookup_of_returns (h : Returns env.fd env.root s.vfs o (.node q) w) :
    ∃ k, ∀ n ≥ k, vfsLookup env n o s = some (some q, { s with vfs := w }) := by
  obtain ⟨k, hk⟩ := h
  refine ⟨k, fun n hn => ?_⟩
  unfold vfsLookup
  rw [hk n hn]

/-- **`vfs_mount` succeeds** after any run if and only if the path leads to a node and the device is
accepted by a registered type, of which the last one that was registered is asked first. -/
theorem mount_iff (env : Env) (s : State) (N : Finset ℕ) (kids : ℕ → List ℕ) (ts : List ℕ)
    (h : Sound env.root s.vfs N kids) (hb : Steady env (s.vfs, N)) (hreg : Registered s.types ts)
    (cs : List (Call × Result)) (s' : State) (hrun : Run env s cs s') (bdev : ℕ) (o : Open)
    (name : List UInt8) (hfits : MountFits env s' o name) (e : ℕ) :
    (∃ s'', Call.Steps env s' (.mount bdev o name) (0, some e) s'') ↔
      ∃ q w, Returns env.fd env.root s'.vfs o (.node q) w ∧
        Accepted env (some bdev) name (cs.foldl (fun ts c => c.1.types ts) ts) s'.heap.time w
          e := by
  obtain ⟨M, -, ⟨kids', hsound⟩, hsteady, htypes, -, -⟩ := run_spec hrun h hb hreg
  obtain ⟨ts', hts'⟩ : ∃ ts', ts' = cs.foldl (fun ts c => c.1.types ts) ts := ⟨_, rfl⟩
  rw [← hts'] at htypes ⊢
  obtain ⟨r, w, ⟨k, hk⟩, M', _, hnode⟩ := lookup_spec hsound hsteady hfits.toPathFits
  have hseg : Seg { s' with vfs := w }.types .filesystems (ts'.map .fs) .filesystems := htypes.seg
  obtain ⟨r', s₂, hloop, -, hoffers⟩ := mountBdevLoop_offers env bdev name hseg
  have hmount : ∀ n > ts'.length, vfsMountBdev env n bdev name { s' with vfs := w } =
      some (r', s₂) := hloop
  constructor
  · rintro ⟨s'', k', hk'⟩
    obtain ⟨n, hn⟩ : ∃ n, n = max k (max k' (ts'.length + 1)) := ⟨_, rfl⟩
    have hlook := hk n (by omega)
    have hexec : vfsMount env n bdev o name s' = some ((0, some e), s'') := hk' n (by omega)
    cases r with
    | none =>
        rw [mount_lacks hlook] at hexec
        cases hexec
    | some q =>
      cases r' with
      | none =>
          rw [mount_refused hlook (hmount n (by omega))] at hexec
          cases hexec
      | some e' =>
          rw [mount_accepted hlook (hmount n (by omega))] at hexec
          obtain rfl : e' = e := by
            cases hexec
            rfl
          exact ⟨q, w, (hnode q rfl).2.2, hoffers.accepted rfl⟩
  · rintro ⟨q, w', hret, haccepted⟩
    obtain ⟨k', hk'⟩ := lookup_of_returns hret
    have hsame := (hk (max k k') (le_max_left _ _)).symm.trans (hk' (max k k') (le_max_right _ _))
    obtain ⟨rfl, hstate⟩ := Prod.mk.inj (Option.some_inj.mp hsame)
    obtain rfl : w = w' := congrArg State.vfs hstate
    obtain rfl := hoffers.of_accepted haccepted
    exact ⟨_, max k (ts'.length + 1), fun n hn =>
      mount_accepted (hk n (by omega)) (hmount n (by omega))⟩

/-! ### The first mount -/

/-- Node 1, if it is not in the tree yet. -/
def makeOne (v : Vfs) (c : List UInt8) : Option ℕ × Vfs :=
  if h : 0 ∉ c ∧ (v.node 1).parent = none then
    (some 1, { v with node := Function.update v.node 1 ⟨c, none, 0, h.1⟩ })
  else (none, v)

/-- `ramfs`, which takes no device and finds nothing, and a type that takes all devices. -/
def ramEnv : Env where
  fd v _ _ := (none, v)
  type t :=
    if t = 0 then ⟨chars ['r', 'a', 'm', 'f', 's'], fun v bdev c =>
      if bdev.isSome then (none, v) else makeOne v c⟩
    else ⟨chars ['d', 'i', 's', 'k'], fun v bdev c =>
      if bdev.isSome then makeOne v c else (none, v)⟩
  root := 0
  fsNodeAlloc := makeOne
  memory _ := true

lemma ramEnv_maker {m : Vfs → List UInt8 → Option ℕ × Vfs} (hm : Maker ramEnv m) (v : Vfs)
    (c : List UInt8) : m v c = makeOne v c ∨ m v c = (none, v) := by
  cases hm with
  | alloc => exact .inl rfl
  | type t bdev =>
      unfold ramEnv
      dsimp only
      split_ifs <;> cases bdev <;> simp

/-- As long as node 1 has no parent it is not in the tree, and has no children. -/
def Spare (x : Vfs × Finset ℕ) : Prop :=
  (x.1.node 1).parent = none → 1 ∉ x.2 ∧ IsList x.1.links (.children 1) []

lemma Spare.makes (h : Spare (v, N)) : Makes ramEnv v N := by
  intro m c hm hn
  have hkeeps : SameOn N v v ∧ ∀ e ∈ (none : Option ℕ), e ∉ N ∧
      IsList v.links (.children e) [] ∧ (v.node e).name = c := ⟨sameOn_refl N v, nofun⟩
  rcases ramEnv_maker hm v c with heq | heq <;> rw [heq]
  · unfold makeOne
    split_ifs with hspare
    · obtain ⟨h1, hlist⟩ := h hspare.2
      refine ⟨⟨fun z hz => ?_, fun _ _ => ⟨rfl, rfl⟩, fun _ _ => ⟨rfl, rfl⟩⟩, ?_⟩
      · have hz1 : z ≠ 1 := fun heq => h1 (heq ▸ hz)
        exact Function.update_of_ne hz1 _ _
      · rintro _ ⟨⟩
        exact ⟨h1, hlist, by simp⟩
    · exact hkeeps
  · exact hkeeps

lemma Spare.grows (h : Spare x) (hg : Grows ramEnv x y) : Spare y := by
  have hnone : ∀ {v w : Vfs} {c}, makeOne v c = (none, w) → w = v := by
    intro v w c hmake
    unfold makeOne at hmake
    split_ifs at hmake
    · cases hmake
    · exact (Prod.mk.inj hmake).2.symm
  cases hg with
  | asks ha =>
      cases ha with
      | miss _ _ _ _ _ _ hf => cases hf; exact h
      | hit _ _ _ _ _ _ hf => cases hf
  | @refuses v N m c w hm _ hmade =>
      rcases ramEnv_maker hm v c with heq | heq <;> rw [heq] at hmade
      · rw [hnone hmade]
        exact h
      · cases hmade
        exact h
  | @mounts v N m c w q e hm _ _ _ hmade _ _ =>
      rcases ramEnv_maker hm v c with heq | heq <;> rw [heq] at hmade
      · unfold makeOne at hmade
        split_ifs at hmade
        · cases hmade
          intro hp
          rw [insert_parent_new] at hp
          cases hp
        · cases hmade
      · cases hmade

lemma ramEnv_steady (h : Spare x) : Steady ramEnv x := by
  intro y hy
  have hspare : Spare y := by
    induction hy with
    | refl => exact h
    | tail _ hg ih => exact ih.grows hg
  exact ⟨fun q _ c l _ _ _ _ _ => ⟨sameOn_refl _ _, nofun⟩, hspare.makes⟩

/-- The root, and no types. -/
def bare : State where
  vfs := oneNode
  types := ⟨fun _ => .filesystems, fun _ => .filesystems⟩
  heap := ⟨0, ∅, nofun⟩

lemma bare_registered : Registered bare.types [] := ⟨by simp, rfl, rfl⟩

lemma bare_steady : Steady ramEnv (bare.vfs, {0}) :=
  ramEnv_steady fun _ => ⟨by decide, by simp, rfl, rfl⟩

lemma bare_sound : Sound ramEnv.root bare.vfs {0} fun _ => [] := oneNode_sound

lemma slash_ne : ∀ d ∈ slash, d ≠ 0 := List.all_iff_forall_prop.mp (by decide)

def openRoot : Open := openAt Buffer.plenty slash slash_ne

lemma openRoot_components : components openRoot.path = [] := by decide

/-- The call that mounts `dev`, as `vfs_init` makes it. -/
def mountDev : Call :=
  .mountType (chars ['r', 'a', 'm', 'f', 's']) none openRoot (chars ['d', 'e', 'v'])

lemma register_fits {t : ℕ} (hreg : Registered s.types ts) (ht : t ∉ ts) :
    Call.Fits env s (.register t) := by
  intro ts' hts'
  have hsame : ts' = ts := List.map_injective_iff.mpr (fun _ _ => FsLink.fs.inj)
    (IsList.unique hts' hreg)
  rwa [hsame]

lemma register_steps (t : ℕ) (s : State) :
    Call.Steps env s (.register t) (0, none) (fsRegister t s) := ⟨0, fun _ _ => rfl⟩

/-- Anything can be mounted in the root before something is. -/
lemma root_fits (hs : s.vfs = oneNode) (hn : IsName name) (hc : name ≠ dot) (hc' : name ≠ dotdot) :
    MountFits ramEnv s openRoot name := by
  have hnames : ∀ c ∈ components openRoot.path, c.length ≤ 63 := by
    rw [openRoot_components]
    exact nofun
  have htop : ¬ MeetsTop ramEnv.fd s.vfs 0 (components openRoot.path) := by
    rw [openRoot_components]
    exact nofun
  refine ⟨⟨hnames, htop⟩, hn, hc, hc', ?_⟩
  rw [hs] at htop ⊢
  rintro q w ⟨k, hk⟩ l hl
  have hrun := hk (max k 100) (le_max_left _ _)
  have hlen : ({0} : Finset ℕ).card + openRoot.path.length < max k 100 :=
    lt_of_lt_of_le (by decide) (le_max_right _ _)
  obtain ⟨st, q', w', hopen, hgo⟩ :=
    open_resolves bare_sound bare_steady.behaves hnames htop rfl hlen
  rw [openRoot_components] at hgo
  cases hgo
  rw [show vfsOpen ramEnv.fd _ openRoot.m openRoot.p ramEnv.root oneNode _ = _ from hopen] at hrun
  cases hrun
  rw [Kids.unique hl (tree_oneNode.isList (Finset.mem_singleton_self 0))]
  rfl

lemma mountDev_fits : mountDev.Fits ramEnv (fsRegister 0 bare) :=
  root_fits rfl ⟨by decide, by decide⟩ (by decide) (by decide)

/-- `ramfs` is registered and mounted at `/dev`, as `vfs_init` does. -/
theorem mounts_stay_dev : ∃ r s',
    Run ramEnv bare [(.register 0, (0, none)), (mountDev, r)] s' ∧
      (∃ M kids', Sound 0 s'.vfs M kids') ∧ Registered s'.types [0] ∧
      s'.heap.live.card = 0 + ([(Call.register 0, ((0, none) : Result)), (mountDev, r)].filterMap
        fun c => c.1.kept c.2).length ∧
      (∀ c : Call, c.Fits ramEnv s' → ∃ r s'', c.Steps ramEnv s' r s'') ∧
      ∀ c r' e, (c, r') ∈ [(Call.register 0, ((0, none) : Result)), (mountDev, r)] → r'.2 = some e →
        ∀ o : Open, components o.path = c.path →
          Returns ramEnv.fd 0 s'.vfs o (if o.memory then .node e else .null) s'.vfs := by
  have hreg : Registered (fsRegister 0 bare).types [0] :=
    registered_add bare_registered List.not_mem_nil
  have hsound : Sound ramEnv.root (fsRegister 0 bare).vfs {0} fun _ => [] := bare_sound
  obtain ⟨r, s', -, hstep, -⟩ := call_spec hsound bare_steady hreg mountDev_fits
  have hrun : Run ramEnv bare [(.register 0, (0, none)), (mountDev, r)] s' :=
    .cons (register_fits bare_registered List.not_mem_nil) (register_steps 0 bare)
      (.cons mountDev_fits hstep .nil)
  exact ⟨r, s', hrun,
    mounts_stay ramEnv bare {0} _ [] bare_sound bare_steady bare_registered _ s' hrun⟩

/-- A device that `ramfs`, which was registered last, refuses and the other type takes. -/
theorem mount_iff_disk :
    (∃ s'', Call.Steps ramEnv (fsRegister 0 (fsRegister 1 bare))
        (.mount 7 openRoot (chars ['r', 'o', 'o', 't'])) (0, some 1) s'') ↔
      ∃ q w, Returns ramEnv.fd 0 oneNode openRoot (.node q) w ∧
        Accepted ramEnv (some 7) (chars ['r', 'o', 'o', 't']) [0, 1] 0 w 1 := by
  have hreg : Registered (fsRegister 1 bare).types [1] :=
    registered_add bare_registered List.not_mem_nil
  exact mount_iff ramEnv bare {0} _ [] bare_sound bare_steady bare_registered
    [(.register 1, (0, none)), (.register 0, (0, none))] _
    (.cons (register_fits bare_registered List.not_mem_nil) (register_steps 1 bare)
      (.cons (register_fits hreg (by decide)) (register_steps 0 _) .nil)) 7 openRoot _
    (root_fits rfl ⟨by decide, by decide⟩ (by decide) (by decide)) 1

end Elfboot.Mounts
