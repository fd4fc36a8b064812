import Elfboot.Devices
import Elfboot.LinkFrame

/-!
Runs of the calls that drivers and file systems make.

To the file systems a device is one more node that is mounted; a run is seen as one of mounts. What
it adds is kept beside the tree: the lists of devices, and the fields of their nodes.
-/

namespace Elfboot.Mounts

open Elfboot.Circular Elfboot.Objects Elfboot.Str Elfboot.FsTree Elfboot.Lookup
  Elfboot.LookupFollows Elfboot.LookupCache
open Relation (ReflTransGen)

variable {env : Env} {s s' : State} {v : Vfs} {N : Finset ℕ} {kids : ℕ → List ℕ} {root q e : ℕ}
  {name : List UInt8} {ts : List ℕ} {o : Open}

lemma cachedPath_unique {cs : List (List UInt8)} {r r' : ℕ} (h : CachedPath v q cs r)
    (h' : CachedPath v q cs r') : r = r' := by
  induction cs generalizing q with
  | nil => exact (show q = r from h).symm.trans h'
  | cons c cs ih =>
      obtain ⟨x, hx, hrest⟩ := h
      obtain ⟨x', hx', hrest'⟩ := h'
      have hfd : Goes (fun v _ _ => (none, v)) v q c v x := hx.goes
      obtain rfl := (Goes.unique hfd hx'.goes).2
      exact ih hrest hrest'

lemma cachedPath_last {cs : List (List UInt8)} {c : List UInt8} {r : ℕ}
    (h : CachedPath v q (cs ++ [c]) r) : ∃ x, CachedPath v q cs x ∧ Cached v x c r := by
  induction cs generalizing q with
  | nil =>
      obtain ⟨x, hx, rfl⟩ := h
      exact ⟨q, rfl, hx⟩
  | cons d cs ih =>
      obtain ⟨z, hz, hrest⟩ := h
      obtain ⟨x, hx, hlast⟩ := ih hrest
      exact ⟨x, ⟨z, hz, hx⟩, hlast⟩

/-- A node that `vfs_mount_cdev` makes is new. -/
lemma mountCdev_fresh {r : Result} (h : Sound env.root s.vfs N kids) (hb : Steady env (s.vfs, N))
    (hfits : MountFits env s o name) (hstep : Call.Steps env s (.mountCdev o name) r s')
    (hr : r.2 = some e) : e ∉ N := by
  obtain ⟨res, w, ⟨k, hk⟩, M, hgrows, -⟩ := lookup_spec h hb hfits.toPathFits
  obtain ⟨hsub, -, -⟩ := sound_reach h hb hgrows
  have hmakes := ((hb.reach hgrows).makes _ _ .alloc hfits.isName).2
  obtain ⟨k', hk'⟩ := hstep
  have hexec : vfsMountCdev env (max k k') o name s = some (r, s') := hk' _ (le_max_right _ _)
  unfold vfsMountCdev at hexec
  rw [hk _ (le_max_left _ _)] at hexec
  cases res with
  | none =>
      cases hexec
      cases hr
  | some q =>
      dsimp only at hexec
      rcases hmade : env.fsNodeAlloc w name with ⟨_ | e', u⟩
      · rw [hmade] at hexec
        cases hexec
        cases hr
      · rw [hmade] at hexec
        cases hexec
        cases hr
        dsimp only at hmakes
        rw [hmade] at hmakes
        exact fun he => (hmakes e rfl).1 (hsub he)

/-- A node that `vfs_mount` makes is new. -/
lemma mount_fresh {bdev : ℕ} {r : Result} (h : Sound env.root s.vfs N kids)
    (hb : Steady env (s.vfs, N)) (hreg : Registered s.types ts) (hfits : MountFits env s o name)
    (hstep : Call.Steps env s (.mount bdev o name) r s') (hr : r.2 = some e) : e ∉ N := by
  obtain ⟨res, w, ⟨k, hk⟩, M, hgrows, -⟩ := lookup_spec h hb hfits.toPathFits
  obtain ⟨hsub, -, -⟩ := sound_reach h hb hgrows
  have hseg : Seg { s with vfs := w }.types .filesystems (ts.map .fs) .filesystems := hreg.seg
  obtain ⟨r', s₂, hloop, -, hoffers⟩ := mountBdevLoop_offers env bdev name hseg
  obtain ⟨k', hk'⟩ := hstep
  obtain ⟨n, hn⟩ : ∃ n, n = max k (max k' (ts.length + 1)) := ⟨_, rfl⟩
  have hlook := hk n (by omega)
  have hmount : vfsMountBdev env n bdev name { s with vfs := w } = some (r', s₂) :=
    hloop n (by omega)
  have hexec : vfsMount env n bdev o name s = some (r, s') := hk' n (by omega)
  cases res with
  | none =>
      rw [mount_lacks hlook] at hexec
      cases hexec
      cases hr
  | some q =>
    cases r' with
    | none =>
        rw [mount_refused hlook hmount] at hexec
        cases hexec
        cases hr
    | some e' =>
        rw [mount_accepted hlook hmount] at hexec
        cases hexec
        cases hr
        have hb' := hb.reach hgrows
        obtain ⟨-, u, hreach, -, -, hsome⟩ := hoffers.spec hb' hfits.isName
        obtain ⟨m, hm, hmade⟩ := hsome e rfl
        have hmakes := ((hb'.reach hreach).makes _ _ hm hfits.isName).2
        dsimp only at hmakes
        rw [hmade] at hmakes
        exact fun he => (hmakes e rfl).1 (hsub he)

end Elfboot.Mounts

namespace Elfboot.Devices

open Elfboot.Errno Elfboot.Circular Elfboot.Buffer Elfboot.Str Elfboot.FsTree Elfboot.Lookup
  Elfboot.LookupFollows Elfboot.LookupCache
open Elfboot.Mounts (Registered Result Grows Steady vfsLookup sound_reach)
open Relation (ReflTransGen)

variable {env : Env} {s s' u : State} {N M : Finset ℕ} {kids : ℕ → List ℕ} {d e n : ℕ}
  {bs cs ts : List ℕ} {c : Call} {r : Result} {mounts : Mounts.State}

/-! ### A call as one of the file systems -/

/-- The status of a call and the state it leaves, where this is what the file systems make of it. -/
def Call.after (s : State) (r : Result) (mounts : Mounts.State) : Call → Result × State
  | .mount .. =>
    (r, match r.2 with
      | none => { s with mounts }
      | some e => State.mark { s with mounts } e fsBlockdevice none)
  | .bdevInit d bdev ops _ _ =>
    match r with
    | (st, none) => ((if st = -efault then -enomem else st, none), { s with mounts })
    | (st, some e) =>
      let fields := Function.update s.fields e ⟨fsBlockdevice, some (.bdev d)⟩
      let blockLogs := (ffs bdev.blockSize % 2 ^ 16).toNat
      let bdev := Function.update s.bdev d { bdev with blockLogs, ops := some ops }
      ((st, some e), { s with mounts, fields, bdev, bdevs := listAdd s.bdevs (.dev d) .head })
  | .cdevInit d cdev ops _ _ =>
    let cdev := Function.update s.cdev d { cdev with ops := some ops }
    match r with
    | (_, none) => ((-efault, none), { s with mounts, cdev })
    | (st, some e) =>
      let fields := Function.update s.fields e ⟨fsChardevice, some (.cdev d)⟩
      ((st, some e), { s with mounts, fields, cdev, cdevs := listAdd s.cdevs (.dev d) .head })
  | _ => (r, { s with mounts })

lemma bdevInit_eq (env : Env) (n d : ℕ) (bdev : Bdev) (ops : DevOps) (m : Bmalloc) (p : Option ℕ)
    (s : State) : bdevInit env n d bdev ops m p s =
      (Mounts.vfsMountCdev env.toEnv n (openDev m p) bdev.name s.mounts).map fun r =>
        (Call.bdevInit d bdev ops m p).after s r.1 r.2 := by
  unfold bdevInit Mounts.vfsMountCdev
  rcases vfsLookup env.toEnv n (openDev m p) s.mounts with _ | ⟨_ | q, mounts⟩
  · rfl
  · rfl
  · unfold fsNodeAlloc
    dsimp only
    rcases env.fsNodeAlloc mounts.vfs bdev.name with ⟨_ | e, vfs⟩
    · rfl
    · simp [Call.after, State.mark, State.insert]

/-- Mounting a device is mounting a node, which is marked. -/
lemma vfsMountCdev_eq (env : Env) (n d : ℕ) (o : Open) (name : List UInt8) (s : State) :
    vfsMountCdev env n d o name s =
      (Mounts.vfsMountCdev env.toEnv n o name s.mounts).map fun r =>
        (r.1, match r.1.2 with
          | none => { s with mounts := r.2 }
          | some e => { s with
              mounts := r.2
              fields := Function.update s.fields e ⟨fsChardevice, some (.cdev d)⟩ }) := by
  unfold vfsMountCdev Mounts.vfsMountCdev
  rcases vfsLookup env.toEnv n o s.mounts with _ | ⟨_ | q, mounts⟩
  · rfl
  · rfl
  · unfold fsNodeAlloc
    dsimp only
    rcases env.fsNodeAlloc mounts.vfs name with ⟨_ | e, vfs⟩
    · rfl
    · simp [State.mark, State.insert]

/-- The status says whether there is a node. -/
lemma mountCdev_status {env : Mounts.Env} {o : Open} {name : List UInt8} {s : Mounts.State}
    {x : Result × Mounts.State} (h : Mounts.vfsMountCdev env n o name s = some x) :
    x.1.1 = 0 ↔ x.1.2 ≠ none := by
  unfold Mounts.vfsMountCdev at h
  split at h
  · cases h
  · cases h
    exact iff_of_false (by decide : -enoent ≠ 0) fun hne => hne rfl
  · split at h
    · cases h
      exact iff_of_false (by decide : -efault ≠ 0) fun hne => hne rfl
    · next e _ _ =>
      cases h
      exact iff_of_true rfl (Option.some_ne_none e)

lemma cdevInit_eq (env : Env) (n d : ℕ) (cdev : Cdev) (ops : DevOps) (m : Bmalloc) (p : Option ℕ)
    (s : State) : cdevInit env n d cdev ops m p s =
      (Mounts.vfsMountCdev env.toEnv n (openDev m p) cdev.name s.mounts).map fun r =>
        (Call.cdevInit d cdev ops m p).after s r.1 r.2 := by
  unfold cdevInit
  dsimp only
  rw [vfsMountCdev_eq]
  cases hx : Mounts.vfsMountCdev env.toEnv n (openDev m p) cdev.name s.mounts with
  | none => rfl
  | some x =>
    have hstatus := mountCdev_status hx
    obtain ⟨⟨st, _ | e⟩, mounts⟩ := x
    · have hst : st ≠ 0 := fun h0 => hstatus.mp h0 rfl
      simp [hst, Call.after]
    · have hst : st = 0 := hstatus.mpr (Option.some_ne_none e)
      simp [hst, Call.after]

lemma mount_eq (env : Env) (n bdev : ℕ) (o : Open) (name : List UInt8) (s : State) :
    vfsMount env n bdev o name s = (Mounts.vfsMount env.toEnv n bdev o name s.mounts).map fun r =>
      (Call.mount bdev o name).after s r.1 r.2 := by
  unfold vfsMount
  rcases Mounts.vfsMount env.toEnv n bdev o name s.mounts with _ | ⟨⟨st, _ | e⟩, mounts⟩ <;> rfl

/-- **A call is one of the file systems**, and what is kept beside them follows from its result. -/
lemma exec_eq (env : Env) (n : ℕ) (s : State) (c : Call) :
    c.exec env n s = (c.mounts.exec env.toEnv n s.mounts).map fun r => c.after s r.1 r.2 := by
  cases c with
  | mount bdev o name => exact mount_eq env n bdev o name s
  | bdevInit d bdev ops m p => exact bdevInit_eq env n d bdev ops m p s
  | cdevInit d cdev ops m p => exact cdevInit_eq env n d cdev ops m p s
  | _ => rfl

lemma after_mounts (c : Call) (s : State) (r : Result) (mounts : Mounts.State) :
    (c.after s r mounts).2.mounts = mounts := by
  rcases r with ⟨st, _ | e⟩ <;> cases c <;> rfl

lemma after_node (c : Call) (s : State) (r : Result) (mounts : Mounts.State) :
    (c.after s r mounts).1.2 = r.2 := by
  rcases r with ⟨st, _ | e⟩ <;> cases c <;> rfl

lemma steps_after {r : Result} (h : c.mounts.Steps env.toEnv s.mounts r mounts) :
    c.Steps env s (c.after s r mounts).1 (c.after s r mounts).2 := by
  obtain ⟨k, hk⟩ := h
  refine ⟨k, fun n hn => ?_⟩
  rw [exec_eq, hk n hn]
  rfl

lemma Call.Steps.unique {r' : Result} {s'' : State} (h : c.Steps env s r s')
    (h' : c.Steps env s r' s'') : r = r' ∧ s' = s'' := by
  obtain ⟨k, hk⟩ := h
  obtain ⟨k', hk'⟩ := h'
  have heq := (hk (max k k') (le_max_left _ _)).symm.trans (hk' (max k k') (le_max_right _ _))
  exact Prod.mk.inj (Option.some_inj.mp heq)

/-! ### What a call keeps beside the tree -/

lemma listed_add {L : Links DevLink} (h : IsList L .head (bs.map .dev)) (hd : d ∉ bs) :
    IsList (listAdd L (.dev d) .head) .head ((d :: bs).map .dev) := by
  refine IsList.add h ?_
  simpa using hd

/-- The lists after a call. -/
lemma after_listed (h : Listed s bs cs) (hfits : c.Fits env s) (r : Result)
    (mounts : Mounts.State) : Listed (c.after s r mounts).2
      (bdevsAfter bs (c, (c.after s r mounts).1)) (cdevsAfter cs (c, (c.after s r mounts).1)) := by
  obtain ⟨-, honce⟩ := hfits
  obtain ⟨hb, hc⟩ := id h
  rcases r with ⟨st, _ | e⟩
  · cases c <;> exact ⟨hb, hc⟩
  · cases c with
    | bdevInit d bdev ops m p => exact ⟨listed_add hb (honce bs cs h), hc⟩
    | cdevInit d cdev ops m p => exact ⟨hb, listed_add hc (honce bs cs h)⟩
    | _ => exact ⟨hb, hc⟩

/-- A call changes the fields of the node that it makes, and the device that it is handed. -/
structure Keeps (s s' : State) (N : Finset ℕ) (bs cs : List ℕ) : Prop where
  fields : ∀ e ∈ N, s'.fields e = s.fields e
  bdev : ∀ d ∈ bs, s'.bdev d = s.bdev d
  cdev : ∀ d ∈ cs, s'.cdev d = s.cdev d

/-- The node that is made, where the call looks at the fields of its node. -/
def Call.marked (r : Result) : Call → Option ℕ
  | .mount .. | .bdevInit .. | .cdevInit .. => r.2
  | _ => none

lemma after_keeps (h : Listed s bs cs) (hfits : c.Fits env s)
    (hnew : ∀ e, c.marked r = some e → e ∉ N) (mounts : Mounts.State) :
    Keeps s (c.after s r mounts).2 N bs cs := by
  obtain ⟨-, honce⟩ := hfits
  have hother : ∀ {x y : ℕ} {l : List ℕ}, x ∈ l → y ∉ l → x ≠ y := fun hx hy heq => hy (heq ▸ hx)
  have hmark : ∀ {e x : ℕ}, x ∈ N → e ∉ N → x ≠ e := fun hx he heq => he (heq ▸ hx)
  rcases r with ⟨st, _ | e⟩
  · cases c with
    | cdevInit d cdev ops m p =>
        exact ⟨fun _ _ => rfl, fun _ _ => rfl, fun x hx =>
          Function.update_of_ne (hother hx (honce bs cs h)) _ _⟩
    | _ => exact ⟨fun _ _ => rfl, fun _ _ => rfl, fun _ _ => rfl⟩
  · cases c with
    | mount bdev o name =>
        exact ⟨fun x hx => Function.update_of_ne (hmark hx (hnew e rfl)) _ _, fun _ _ => rfl,
          fun _ _ => rfl⟩
    | bdevInit d bdev ops m p =>
        exact ⟨fun x hx => Function.update_of_ne (hmark hx (hnew e rfl)) _ _,
          fun x hx => Function.update_of_ne (hother hx (honce bs cs h)) _ _, fun _ _ => rfl⟩
    | cdevInit d cdev ops m p =>
        exact ⟨fun x hx => Function.update_of_ne (hmark hx (hnew e rfl)) _ _, fun _ _ => rfl,
          fun x hx => Function.update_of_ne (hother hx (honce bs cs h)) _ _⟩
    | _ => exact ⟨fun _ _ => rfl, fun _ _ => rfl, fun _ _ => rfl⟩

lemma Keeps.trans {bs' cs' : List ℕ} (h : Keeps s s' N bs cs) (h' : Keeps s' u M bs' cs')
    (hN : N ⊆ M) (hb : bs ⊆ bs') (hc : cs ⊆ cs') : Keeps s u N bs cs where
  fields e he := (h'.fields e (hN he)).trans (h.fields e he)
  bdev d hd := (h'.bdev d (hb hd)).trans (h.bdev d hd)
  cdev d hd := (h'.cdev d (hc hd)).trans (h.cdev d hd)

lemma bdevsAfter_subset (bs : List ℕ) (x : Call × Result) : bs ⊆ bdevsAfter bs x := by
  obtain ⟨c, st, _ | e⟩ := x <;> cases c <;> first
    | exact List.Subset.refl bs
    | exact List.subset_cons_self _ bs

lemma cdevsAfter_subset (cs : List ℕ) (x : Call × Result) : cs ⊆ cdevsAfter cs x := by
  obtain ⟨c, st, _ | e⟩ := x <;> cases c <;> first
    | exact List.Subset.refl cs
    | exact List.subset_cons_self _ cs

/-- The device of a call and its node are as the call has left them. -/
def Has (s : State) : Call × Result → Prop
  | (.bdevInit d bdev ops _ _, (_, some e)) =>
    s.fields e = ⟨fsBlockdevice, some (.bdev d)⟩ ∧ s.bdev d =
      { bdev with blockLogs := (ffs bdev.blockSize % 2 ^ 16).toNat, ops := some ops }
  | (.cdevInit d cdev ops _ _, (_, some e)) =>
    s.fields e = ⟨fsChardevice, some (.cdev d)⟩ ∧ s.cdev d = { cdev with ops := some ops }
  | _ => True

lemma after_has (c : Call) (s : State) (r : Result) (mounts : Mounts.State) :
    Has (c.after s r mounts).2 (c, (c.after s r mounts).1) := by
  rcases r with ⟨st, _ | e⟩
  · cases c <;> trivial
  · cases c with
    | bdevInit d bdev ops m p =>
        exact ⟨Function.update_self e _ s.fields, Function.update_self d _ s.bdev⟩
    | cdevInit d cdev ops m p =>
        exact ⟨Function.update_self e _ s.fields, Function.update_self d _ s.cdev⟩
    | _ => trivial

lemma Has.keeps {x : Call × Result} (h : Has s x)
    (hk : Keeps s s' N (bdevsAfter bs x) (cdevsAfter cs x)) (he : ∀ e, x.2.2 = some e → e ∈ N) :
    Has s' x := by
  obtain ⟨c, st, _ | e⟩ := x
  · cases c <;> trivial
  · cases c with
    | bdevInit d bdev ops m p =>
        exact ⟨(hk.fields e (he e rfl)).trans h.1, (hk.bdev d List.mem_cons_self).trans h.2⟩
    | cdevInit d cdev ops m p =>
        exact ⟨(hk.fields e (he e rfl)).trans h.1, (hk.cdev d List.mem_cons_self).trans h.2⟩
    | _ => trivial

/-! ### Runs -/

/-- What calls leave that begin with the nodes `N` and the devices `bs` and `cs`: the tree has grown
at most, the lists have the new devices in front, the older devices and nodes are kept. -/
structure Leaves (env : Env) (s : State) (N : Finset ℕ) (bs cs : List ℕ)
    (calls : List (Call × Result)) (s' : State) (M : Finset ℕ) : Prop where
  grows : ReflTransGen (Grows env.toEnv) (s.mounts.vfs, N) (s'.mounts.vfs, M)
  types : ∃ ts, Registered s'.mounts.types ts
  listed : Listed s' (calls.foldl bdevsAfter bs) (calls.foldl cdevsAfter cs)
  keeps : Keeps s s' N bs cs
  has : ∀ x ∈ calls, Has s' x
  cached : ∀ x ∈ calls, ∀ e, x.2.2 = some e → (∀ part ∈ x.1.mounts.path, part.length ≤ 63) ∧
    CachedPath s'.mounts.vfs env.root x.1.mounts.path e

lemma Call.Fits.marked_new (hfits : c.Fits env s) (h : Sound env.root s.mounts.vfs N kids)
    (hb : Steady env.toEnv (s.mounts.vfs, N)) (hreg : Registered s.mounts.types ts)
    (hstep : c.mounts.Steps env.toEnv s.mounts r mounts) : ∀ e, c.marked r = some e → e ∉ N := by
  intro e he
  cases c with
  | mount bdev o name => exact Mounts.mount_fresh h hb hreg hfits.1 hstep he
  | bdevInit d bdev ops m p => exact Mounts.mountCdev_fresh h hb hfits.1 hstep he
  | cdevInit d cdev ops m p => exact Mounts.mountCdev_fresh h hb hfits.1 hstep he
  | _ => cases he

/-- **Every call ends**, and leaves what it should. -/
lemma call_spec (h : Sound env.root s.mounts.vfs N kids)
    (hb : Steady env.toEnv (s.mounts.vfs, N)) (hreg : Registered s.mounts.types ts)
    (hl : Listed s bs cs) (hfits : c.Fits env s) :
    ∃ r s' M, c.Steps env s r s' ∧ Leaves env s N bs cs [(c, r)] s' M ∧
      ∀ e, madeNode (c, r) = some e → e ∉ N := by
  obtain ⟨r, mounts, M, hstep, hleaves⟩ := Mounts.call_spec h hb hreg hfits.1
  have hnew := hfits.marked_new h hb hreg hstep
  have hmounts := after_mounts c s r mounts
  have hnode := after_node c s r mounts
  refine ⟨_, _, M, steps_after hstep, ⟨?_, ⟨c.mounts.types ts, ?_⟩, after_listed hl hfits r mounts,
    after_keeps hl hfits hnew mounts, ?_, ?_⟩, ?_⟩
  · rw [hmounts]
    exact hleaves.grows
  · rw [hmounts]
    exact hleaves.types
  · intro x hx
    rw [List.mem_singleton.mp hx]
    exact after_has c s r mounts
  · intro x hx e he
    rw [List.mem_singleton.mp hx] at he ⊢
    refine ⟨hfits.1.names, ?_⟩
    dsimp only at he ⊢
    rw [hmounts]
    exact hleaves.cached e (hnode.symm.trans he)
  · intro e he
    refine hnew e ?_
    cases c with
    | bdevInit d bdev ops m p => exact hnode.symm.trans he
    | cdevInit d cdev ops m p => exact hnode.symm.trans he
    | _ => cases he

lemma Leaves.sound {calls : List (Call × Result)} (hleaves : Leaves env s N bs cs calls s' M)
    (h : Sound env.root s.mounts.vfs N kids) (hb : Steady env.toEnv (s.mounts.vfs, N)) :
    N ⊆ M ∧ (∃ kids', Sound env.root s'.mounts.vfs M kids') ∧
      Steady env.toEnv (s'.mounts.vfs, M) ∧ Extends N s.mounts.vfs s'.mounts.vfs := by
  obtain ⟨hsub, hsound, hext⟩ := sound_reach h hb hleaves.grows
  exact ⟨hsub, hsound, hb.reach hleaves.grows, hext⟩

lemma Leaves.cons {x : Call × Result} {calls : List (Call × Result)} {P : Finset ℕ}
    (h : Leaves env s N bs cs [x] s' M) (hs : Sound env.root s.mounts.vfs N kids)
    (hb : Steady env.toEnv (s.mounts.vfs, N))
    (h' : Leaves env s' M (bdevsAfter bs x) (cdevsAfter cs x) calls u P) :
    Leaves env s N bs cs (x :: calls) u P := by
  obtain ⟨hsub, ⟨kids', hsound⟩, hb', -⟩ := h.sound hs hb
  obtain ⟨-, -, -, hext⟩ := h'.sound hsound hb'
  have hx := h.cached x (List.mem_singleton_self x)
  refine ⟨h.grows.trans h'.grows, h'.types, h'.listed,
    h.keeps.trans h'.keeps hsub (bdevsAfter_subset bs x) (cdevsAfter_subset cs x),
    List.forall_mem_cons.mpr ⟨?_, h'.has⟩, List.forall_mem_cons.mpr ⟨fun e he => ?_, h'.cached⟩⟩
  · refine (h.has x (List.mem_singleton_self x)).keeps h'.keeps fun e he => ?_
    exact Mounts.cachedPath_mem (hx e he).2 hsound hsound.tree.root
  · exact ⟨(hx e he).1, (hx e he).2.extends hsound hsound.tree.root hext⟩

/-- The path of the directory of the devices. -/
def devPath : List (List UInt8) := [chars ['d', 'e', 'v']]

lemma openDev_components (m : Bmalloc) (p : Option ℕ) :
    components (openDev m p).path = devPath := by
  show components slashDev = devPath
  decide

/-- **The children of `/dev`** have the nodes of the devices in the order of the calls. -/
def Ordered (env : Env) (s : State) (N : Finset ℕ) (calls : List (Call × Result)) : Prop :=
  ∀ q l, CachedPath s.mounts.vfs env.root devPath q → Kids s.mounts.vfs q l →
    (calls.filterMap madeNode).Sublist (l.filter (· ∉ N))

lemma cached_child {v : Vfs} {root q e : ℕ} {name : List UInt8} {l : List ℕ} (hc : name ≠ dot)
    (hc' : name ≠ dotdot) (h : CachedPath v root (devPath ++ [name]) e)
    (hq : CachedPath v root devPath q) (hl : Kids v q l) : e ∈ l := by
  obtain ⟨x, hx, hlast⟩ := Mounts.cachedPath_last h
  obtain rfl := Mounts.cachedPath_unique hx hq
  rcases hlast with ⟨hdot, -⟩ | ⟨hdotdot, -⟩ | ⟨-, -, l', hl', hchild⟩
  · exact absurd hdot hc
  · exact absurd hdotdot hc'
  · rw [Kids.unique hl hl']
    exact List.mem_of_find?_eq_some hchild

/-- The path of a node that is made. -/
lemma made_cached (hfits : c.Fits env s) (hleaves : Leaves env s N bs cs [(c, r)] s' M)
    (he : madeNode (c, r) = some e) : ∃ name, name ≠ dot ∧ name ≠ dotdot ∧
      CachedPath s'.mounts.vfs env.root (devPath ++ [name]) e := by
  have hcached := hleaves.cached _ (List.mem_singleton_self _) e
  cases c with
  | bdevInit d bdev ops m p =>
      obtain ⟨-, hpath⟩ := hcached he
      rw [Call.mounts, Mounts.Call.path, openDev_components] at hpath
      exact ⟨_, hfits.1.dot, hfits.1.dotdot, hpath⟩
  | cdevInit d cdev ops m p =>
      obtain ⟨-, hpath⟩ := hcached he
      rw [Call.mounts, Mounts.Call.path, openDev_components] at hpath
      exact ⟨_, hfits.1.dot, hfits.1.dotdot, hpath⟩
  | _ => cases he

/-- **One call more in front** keeps the order. -/
lemma Ordered.cons {calls : List (Call × Result)} (h : Ordered env u M calls)
    (hs : Sound env.root s.mounts.vfs N kids) (hb : Steady env.toEnv (s.mounts.vfs, N))
    (hfits : c.Fits env s) (hleaves : Leaves env s N bs cs [(c, r)] s' M)
    (hnew : ∀ e, madeNode (c, r) = some e → e ∉ N) (hext : Extends M s'.mounts.vfs u.mounts.vfs) :
    Ordered env u N ((c, r) :: calls) := by
  obtain ⟨hsub, ⟨kids', hsound⟩, -, -⟩ := hleaves.sound hs hb
  intro q l hq hl
  have hrest := h q l hq hl
  rw [List.filterMap_cons]
  cases he : madeNode (c, r) with
  | none =>
      refine hrest.trans (List.monotone_filter_right l fun x hx => ?_)
      simp only [decide_eq_true_eq] at hx ⊢
      exact fun hxN => hx (hsub hxN)
  | some e =>
      obtain ⟨name, hc, hc', hcached⟩ := made_cached hfits hleaves he
      obtain ⟨x, hx, -⟩ := Mounts.cachedPath_last hcached
      obtain rfl := Mounts.cachedPath_unique hq (hx.extends hsound hsound.tree.root hext)
      have hxM := Mounts.cachedPath_mem hx hsound hsound.tree.root
      have hkids := hsound.tree.isList hxM
      obtain ⟨l₂, hl₂⟩ := hext.kids q hxM _ hkids
      obtain rfl := Kids.unique hl hl₂
      have hold : ∀ a ∈ kids' q, a ∈ M := fun a ha => (hsound.tree.kid q hxM a ha).1
      have hnone : (kids' q).filter (· ∉ M) = [] :=
        List.filter_eq_nil_iff.mpr fun a ha => by simpa using hold a ha
      rw [List.filter_append, hnone, List.nil_append] at hrest
      rw [List.filter_append]
      have hmem : e ∈ (kids' q).filter (· ∉ N) :=
        List.mem_filter.mpr ⟨cached_child hc hc' hcached hx hkids, by simpa using hnew e he⟩
      refine List.Sublist.append (List.singleton_sublist.mpr hmem) (hrest.trans ?_)
      refine List.monotone_filter_right l₂ fun x hx => ?_
      simp only [decide_eq_true_eq] at hx ⊢
      exact fun hxN => hx (hsub hxN)

lemma run_spec {calls : List (Call × Result)} (hrun : Run env s calls s')
    (h : Sound env.root s.mounts.vfs N kids) (hb : Steady env.toEnv (s.mounts.vfs, N))
    (hreg : Registered s.mounts.types ts) (hl : Listed s bs cs) :
    ∃ M, Leaves env s N bs cs calls s' M ∧ Ordered env s' N calls := by
  induction hrun generalizing N kids ts bs cs with
  | nil =>
      exact ⟨N, ⟨.refl, ⟨ts, hreg⟩, hl, ⟨fun _ _ => rfl, fun _ _ => rfl, fun _ _ => rfl⟩,
        fun _ hx => absurd hx List.not_mem_nil, fun _ hx => absurd hx List.not_mem_nil⟩,
        fun _ _ _ _ => List.nil_sublist _⟩
  | @cons s c r s₁ calls u hfits hstep _ ih =>
      obtain ⟨r', s₁', M, hstep', hleaves, hnew⟩ := call_spec h hb hreg hl hfits
      obtain ⟨rfl, rfl⟩ := hstep.unique hstep'
      obtain ⟨-, ⟨kids₁, hsound⟩, hb₁, -⟩ := hleaves.sound h hb
      obtain ⟨ts₁, hreg₁⟩ := hleaves.types
      obtain ⟨P, hrest, hord⟩ := ih hsound hb₁ hreg₁ hleaves.listed
      obtain ⟨-, -, -, hext⟩ := hrest.sound hsound hb₁
      exact ⟨P, hleaves.cons h hb hrest, hord.cons h hb hfits hleaves hnew hext⟩

/-! ### Devices by their names -/

/-- What is opened in `/dev` under the name is the device: its node is found without a change to the
tree, and calls on the node are calls of the driver. -/
structure Serves (env : Env) (s : State) (name : List UInt8) (ops : DevOps) (d e : ℕ) : Prop where
  opens : ∀ o : Open, components o.path = devPath ++ [name] → Returns env.fd env.root s.mounts.vfs o
    (if o.memory then .node e else .null) s.mounts.vfs
  read : ∀ offset length buffer,
    vfsRead env s e offset length buffer = some (devRead (some ops) d offset length buffer)
  write : ∀ offset length buffer,
    vfsWrite env s e offset length buffer = some (devWrite (some ops) d offset length buffer)
  ioctl : ∀ request args, fileIoctl s e request args = some (devIoctl (some ops) d request args)

lemma deviceOf_bdev (h : s.fields e = ⟨fsBlockdevice, some (.bdev d)⟩) :
    deviceOf s e = some (some (.bdev d)) := by
  have hmask : fsBlockdevice &&& fsFlagsMask = fsBlockdevice := by decide
  unfold deviceOf
  rw [h, hmask, if_neg (by decide), if_pos rfl]

lemma deviceOf_cdev (h : s.fields e = ⟨fsChardevice, some (.cdev d)⟩) :
    deviceOf s e = some (some (.cdev d)) := by
  have hmask : fsChardevice &&& fsFlagsMask = fsChardevice := by decide
  unfold deviceOf
  rw [h, hmask, if_pos rfl]

/-- A path that is cached is opened at its node. -/
lemma opens_cached {name : List UInt8} (h : Sound env.root s.mounts.vfs N kids)
    (hb : Steady env.toEnv (s.mounts.vfs, N)) (hlen : ∀ part ∈ devPath ++ [name], part.length ≤ 63)
    (hcached : CachedPath s.mounts.vfs env.root (devPath ++ [name]) e) (o : Open)
    (hpath : components o.path = devPath ++ [name]) : Returns env.fd env.root s.mounts.vfs o
      (if o.memory then .node e else .null) s.mounts.vfs := by
  rw [← hpath] at hlen hcached
  exact h.reopens hb.behaves hlen hcached

/-- **A device is found by its name** after any run of registrations, lookups, mounts, and devices
that are handed over: the nodes form a tree, the lists have the devices, with the last one in front,
every further call ends, and what is opened in `/dev` under the name of a device is that device, as
it was handed over. -/
theorem devices_stay (env : Env) (s : State) (N : Finset ℕ) (kids : ℕ → List ℕ) (ts bs cs : List ℕ)
    (h : Sound env.root s.mounts.vfs N kids) (hb : Steady env.toEnv (s.mounts.vfs, N))
    (hreg : Registered s.mounts.types ts) (hl : Listed s bs cs) (calls : List (Call × Result))
    (s' : State) (hrun : Run env s calls s') :
    (∃ M kids', Sound env.root s'.mounts.vfs M kids') ∧
      Listed s' (calls.foldl bdevsAfter bs) (calls.foldl cdevsAfter cs) ∧
      (∀ c : Call, c.Fits env s' → ∃ r s'', c.Steps env s' r s'') ∧
      (∀ d bdev ops m p st e, (Call.bdevInit d bdev ops m p, (st, some e)) ∈ calls →
        Serves env s' bdev.name ops d e) ∧
      ∀ d cdev ops m p st e, (Call.cdevInit d cdev ops m p, (st, some e)) ∈ calls →
        Serves env s' cdev.name ops d e := by
  obtain ⟨M, hleaves, -⟩ := run_spec hrun h hb hreg hl
  obtain ⟨-, ⟨kids', hsound⟩, hsteady, -⟩ := hleaves.sound h hb
  obtain ⟨ts', hreg'⟩ := hleaves.types
  refine ⟨⟨M, kids', hsound⟩, hleaves.listed, fun c hfits => ?_, fun d bdev ops m p st e hmem => ?_,
    fun d cdev ops m p st e hmem => ?_⟩
  · obtain ⟨r, s'', -, hstep, -⟩ := call_spec hsound hsteady hreg' hleaves.listed hfits
    exact ⟨r, s'', hstep⟩
  · obtain ⟨hlen, hcached⟩ := hleaves.cached _ hmem e rfl
    rw [Call.mounts, Mounts.Call.path, openDev_components] at hlen hcached
    obtain ⟨hfields, hdev⟩ := hleaves.has _ hmem
    have hof := deviceOf_bdev hfields
    refine ⟨opens_cached hsound hsteady hlen hcached, ?_, ?_, ?_⟩
    · simp [vfsRead, hof, bdevRead, hdev]
    · simp [vfsWrite, hof, bdevWrite, hdev]
    · simp [fileIoctl, hof, bdevIoctl, hdev]
  · obtain ⟨hlen, hcached⟩ := hleaves.cached _ hmem e rfl
    rw [Call.mounts, Mounts.Call.path, openDev_components] at hlen hcached
    obtain ⟨hfields, hdev⟩ := hleaves.has _ hmem
    have hof := deviceOf_cdev hfields
    refine ⟨opens_cached hsound hsteady hlen hcached, ?_, ?_, ?_⟩
    · simp [vfsRead, hof, cdevRead, hdev]
    · simp [vfsWrite, hof, cdevWrite, hdev]
    · simp [fileIoctl, hof, cdevIoctl, hdev]

/-! ### Two disks and a terminal -/

section Boot

/-- The first of the nodes 2 to 7 that has no parent. -/
def makeNode (v : Vfs) (c : List UInt8) : Option ℕ × Vfs :=
  match (List.range' 2 6).find? fun i => (v.node i).parent = none with
  | none => (none, v)
  | some i =>
    if h : 0 ∉ c then (some i, { v with node := Function.update v.node i ⟨c, none, 0, h⟩ })
    else (none, v)

/-- File systems that find nothing and take no device. -/
def devEnv : Env where
  fd v _ _ := (none, v)
  type _ := ⟨[], fun v _ _ => (none, v)⟩
  root := 0
  fsNodeAlloc := makeNode
  memory _ := true
  read _ := none
  write _ := none

variable {v w : Vfs} {c : List UInt8} {x y : Vfs × Finset ℕ}

lemma makeNode_none (h : makeNode v c = (none, w)) : w = v := by
  unfold makeNode at h
  split at h
  · exact (Prod.mk.inj h).2.symm
  · split_ifs at h
    · exact (Prod.mk.inj h).2.symm
    · cases h

lemma makeNode_some (h : makeNode v c = (some e, w)) : 2 ≤ e ∧ (v.node e).parent = none ∧
    ∃ hc : 0 ∉ c, w = { v with node := Function.update v.node e ⟨c, none, 0, hc⟩ } := by
  unfold makeNode at h
  split at h
  · cases h
  · next i hi =>
    split_ifs at h with hc
    · cases h
    · cases h
      have hmem := List.mem_of_find?_eq_some hi
      have hparent := List.find?_some hi
      rw [List.mem_range'_1] at hmem
      exact ⟨hmem.1, of_decide_eq_true hparent, hc, rfl⟩

lemma devEnv_maker {m : Vfs → List UInt8 → Option ℕ × Vfs} (hm : Mounts.Maker devEnv.toEnv m) :
    m = makeNode ∨ m = fun v _ => (none, v) := by
  cases hm with
  | alloc => exact .inl rfl
  | type t bdev => exact .inr rfl

/-- The nodes from 2 on that have no parent are not in the tree yet, and have no children. -/
def Spare (x : Vfs × Finset ℕ) : Prop := (∃ kids, IsTree x.1 0 x.2 kids) ∧
  ∀ i, 2 ≤ i → (x.1.node i).parent = none → i ∉ x.2 ∧ IsList x.1.links (.children i) []

lemma Spare.makes (h : Spare (v, N)) : Mounts.Makes devEnv.toEnv v N := by
  intro m c hm _
  have hkeeps : SameOn N v v ∧ ∀ e ∈ (none : Option ℕ), e ∉ N ∧
      IsList v.links (.children e) [] ∧ (v.node e).name = c := ⟨sameOn_refl N v, nofun⟩
  rcases devEnv_maker hm with rfl | rfl
  · rcases hmade : makeNode v c with ⟨_ | e, w⟩
    · rw [makeNode_none hmade]
      exact hkeeps
    · obtain ⟨h2, hparent, hc, rfl⟩ := makeNode_some hmade
      obtain ⟨hnew, hlist⟩ := h.2 e h2 hparent
      refine ⟨⟨fun z hz => ?_, fun _ _ => ⟨rfl, rfl⟩, fun _ _ => ⟨rfl, rfl⟩⟩, ?_⟩
      · have hze : z ≠ e := fun heq => hnew (heq ▸ hz)
        exact Function.update_of_ne hze _ _
      · rintro _ ⟨⟩
        exact ⟨hnew, hlist, by simp⟩
  · exact hkeeps

/-- Putting a node into the tree leaves the lists of the nodes that are not in it alone. -/
lemma insert_outside {q i : ℕ} {kids : ℕ → List ℕ} (h : IsTree v 0 N kids) (hq : q ∈ N)
    (hi : i ∉ N) (hlist : IsList v.links (.children i) []) :
    IsList (treeNodeInsert v e q).links (.children i) [] := by
  change IsList (listAddTail v.links (.siblings e) (.children q)) _ _
  have honly := h.lists.only_addTail (Set.subset_insert (.siblings e) _) (head_mem hq)
    (Set.mem_insert _ _)
  have hoff : TreeLink.children i ∉
      Set.insert (TreeLink.siblings e) (nodes (heads N) (kidLists kids)) := by
    rintro (hmem | ⟨_, ⟨m, hm, rfl⟩, hmem⟩)
    · cases hmem
    · rcases List.mem_cons.mp hmem with hmem | hmem
      · exact hi (TreeLink.children.inj hmem ▸ hm)
      · simp [kidLists] at hmem
  obtain ⟨hnext, hprev⟩ := honly _ hoff
  refine hlist.congr (fun x hx => ?_) fun x hx => ?_
  · rwa [List.mem_singleton.mp hx]
  · rwa [List.mem_singleton.mp hx]

lemma Spare.grows (h : Spare x) (hg : Grows devEnv.toEnv x y) : Spare y := by
  cases hg with
  | asks ha =>
      cases ha with
      | miss _ _ _ _ _ _ hf => cases hf; exact h
      | hit _ _ _ _ _ _ hf => cases hf
  | refuses hm _ hmade =>
      rcases devEnv_maker hm with rfl | rfl
      · rwa [makeNode_none hmade]
      · cases hmade
        exact h
  | @mounts v N m c w q e hm _ _ _ hmade hq _ =>
      rcases devEnv_maker hm with rfl | rfl
      · obtain ⟨⟨kids, htree⟩, hspare⟩ := h
        obtain ⟨h2, hparent, hc, rfl⟩ := makeNode_some hmade
        dsimp only at htree hspare
        obtain ⟨hnew, hlist⟩ := hspare e h2 hparent
        have hsame : SameOn N v { v with node := Function.update v.node e ⟨c, none, 0, hc⟩ } :=
          ⟨fun z hz => Function.update_of_ne (fun heq : z = e => hnew (heq ▸ hz)) _ _,
            fun _ _ => ⟨rfl, rfl⟩, fun _ _ => ⟨rfl, rfl⟩⟩
        have htree' := htree.congr hsame
        refine ⟨⟨_, htree'.insert hq hnew hlist⟩, fun i hi hnone => ?_⟩
        have hie : i ≠ e := by
          rintro rfl
          rw [insert_parent_new] at hnone
          cases hnone
        rw [insert_parent_old hie] at hnone
        dsimp only at hnone
        rw [Function.update_of_ne hie] at hnone
        obtain ⟨hiN, hilist⟩ := hspare i hi hnone
        refine ⟨fun hmem => ?_, insert_outside htree' hq hiN hilist⟩
        exact (Finset.mem_insert.mp hmem).elim hie hiN
      · cases hmade

lemma Spare.steady (h : Spare x) : Steady devEnv.toEnv x := by
  intro y hy
  have hspare : Spare y := by
    induction hy with
    | refl => exact h
    | tail _ hg ih => exact ih.grows hg
  exact ⟨fun q _ c l _ _ _ _ _ => ⟨sameOn_refl _ _, nofun⟩, hspare.makes⟩

lemma Listed.unique {bs' cs' : List ℕ} (h : Listed s bs cs) (h' : Listed s bs' cs') :
    bs = bs' ∧ cs = cs' := by
  have hinj : Function.Injective (List.map DevLink.dev) :=
    List.map_injective_iff.mpr fun _ _ => DevLink.dev.inj
  exact ⟨hinj (IsList.unique h.bdevs h'.bdevs), hinj (IsList.unique h.cdevs h'.cdevs)⟩

/-- A device can be handed over where `/dev` is node 1, which has no child of the name. -/
lemma dev_fits {l : List ℕ} {name : List UInt8}
    (hopen : ∀ k, vfsOpen devEnv.fd (k + 100) plenty none 0 s.mounts.vfs
      (some (pathBuffer slashDev, 0)) = some (.node 1, s.mounts.vfs))
    (hl : Kids s.mounts.vfs 1 l) (hfree : childOf s.mounts.vfs l name = none) (hn : IsName name)
    (hc : name ≠ dot) (hc' : name ≠ dotdot) :
    Mounts.MountFits devEnv.toEnv s.mounts (openDev plenty none) name := by
  refine ⟨⟨?_, ?_⟩, hn, hc, hc', ?_⟩
  · rw [openDev_components]
    decide
  · rw [openDev_components]
    intro hm
    cases hm with
    | later _ hm => cases hm
  · rintro q w ⟨k, hk⟩ l' hl'
    have hrun := hk (k + 100) (Nat.le_add_right _ _)
    obtain ⟨hq, rfl⟩ := Prod.mk.inj (Option.some_inj.mp ((hopen k).symm.trans hrun))
    obtain rfl := Ptr.node.inj hq
    rw [Kids.unique hl' hl]
    exact hfree

/-- The root, and a node for `/dev`. -/
def devNode : Vfs := { oneNode with
  node := Function.update oneNode.node 1 ⟨chars ['d', 'e', 'v'], none, 0, by decide⟩ }

/-- The root, and `/dev` in it. -/
def devTree : Vfs := treeNodeInsert devNode 1 0

/-- There are no devices yet. -/
def devStart : State where
  mounts := ⟨devTree, ⟨fun _ => .filesystems, fun _ => .filesystems⟩, Objects.emptyHeap⟩
  fields _ := ⟨0, none⟩
  bdev _ := ⟨[], 0, 0, 0, none⟩
  cdev _ := ⟨[], none⟩
  bdevs := ⟨fun _ => .head, fun _ => .head⟩
  cdevs := ⟨fun _ => .head, fun _ => .head⟩

def driver : DevOps := ⟨some fun _ _ _ buffer => (0, buffer), none, none⟩

def addDisk (d : ℕ) (c : Char) (flags : UInt32) : Call :=
  .bdevInit d ⟨chars ['h', 'd', c], flags, 512, 0, none⟩ driver plenty none

def addTty : Call := .cdevInit 0 ⟨chars ['t', 't', 'y'], none⟩ driver plenty none

/-- A node for a device has been put into `/dev`. -/
def mounted (s : State) (e : ℕ) (name : List UInt8) : Mounts.State :=
  { s.mounts with vfs := treeNodeInsert (makeNode s.mounts.vfs name).2 e 1 }

def oneDisk : State :=
  ((addDisk 0 'a' 1).after devStart (0, some 2) (mounted devStart 2 (chars ['h', 'd', 'a']))).2

def diskAndTty : State :=
  (addTty.after oneDisk (0, some 3) (mounted oneDisk 3 (chars ['t', 't', 'y']))).2

def twoDisks : State :=
  ((addDisk 1 'b' 3).after diskAndTty (0, some 4) (mounted diskAndTty 4 (chars ['h', 'd', 'b']))).2

def devCalls : List (Call × Result) :=
  [(addDisk 0 'a' 1, (0, some 2)), (addTty, (0, some 3)), (addDisk 1 'b' 3, (0, some 4))]

lemma steps_of_exec {c : Call}
    (h : ∀ k, c.exec devEnv (k + 100) s = some (r, s')) : c.Steps devEnv s r s' := by
  refine ⟨100, fun n hn => ?_⟩
  obtain ⟨k, rfl⟩ := Nat.exists_eq_add_of_le' hn
  exact h k

lemma devNode_same : SameOn {0} oneNode devNode := by
  refine ⟨fun z hz => ?_, fun _ _ => ⟨rfl, rfl⟩, fun _ _ => ⟨rfl, rfl⟩⟩
  have hz1 : z ≠ 1 := (Finset.mem_singleton.mp hz).trans_ne (by decide)
  exact Function.update_of_ne hz1 _ _

lemma devTree_sound : ∃ kids, Sound 0 devTree {1, 0} kids :=
  (oneNode_sound.hit devNode_same (Finset.mem_singleton_self 0) (by decide) ⟨by simp, rfl, rfl⟩
    rfl rfl).1

lemma devStart_steady : Steady devEnv.toEnv (devStart.mounts.vfs, {1, 0}) := by
  obtain ⟨kids, hsound⟩ := devTree_sound
  refine Spare.steady ⟨⟨kids, hsound.tree⟩, fun i hi _ => ?_⟩
  have h1 : i ≠ 1 := by omega
  have h0 : i ≠ 0 := by omega
  refine ⟨by simp [h1, h0], ?_⟩
  exact insert_outside (tree_oneNode.congr devNode_same) (Finset.mem_singleton_self 0)
    (by simpa using h0) ⟨by simp, rfl, rfl⟩

lemma devStart_listed : Listed devStart [] [] := ⟨⟨by simp, rfl, rfl⟩, ⟨by simp, rfl, rfl⟩⟩

lemma oneDisk_listed : Listed oneDisk [0] [] := ⟨⟨by simp, rfl, rfl, rfl, rfl⟩, ⟨by simp, rfl, rfl⟩⟩

lemma diskAndTty_listed : Listed diskAndTty [0] [0] :=
  ⟨⟨by simp, rfl, rfl, rfl, rfl⟩, ⟨by simp, rfl, rfl, rfl, rfl⟩⟩

set_option maxRecDepth 20000 in
lemma oneDisk_fits : (addDisk 0 'a' 1).Fits devEnv devStart := by
  refine ⟨dev_fits (l := []) (fun k => ?_) ⟨by simp, rfl, rfl⟩ rfl ⟨by decide, by decide⟩
    (by decide) (by decide), fun bs cs h => ?_⟩
  · rfl
  · rw [← (devStart_listed.unique h).1]
    decide

set_option maxRecDepth 20000 in
lemma oneDisk_steps : (addDisk 0 'a' 1).Steps devEnv devStart (0, some 2) oneDisk := by
  refine steps_of_exec fun k => ?_
  rw [exec_eq]
  rfl

set_option maxRecDepth 20000 in
lemma tty_fits : addTty.Fits devEnv oneDisk := by
  refine ⟨dev_fits (l := [2]) (fun k => ?_) ⟨by simp, rfl, rfl, rfl, rfl⟩ (by decide)
    ⟨by decide, by decide⟩ (by decide) (by decide), fun bs cs h => ?_⟩
  · rfl
  · rw [← (oneDisk_listed.unique h).2]
    decide

set_option maxRecDepth 20000 in
lemma tty_steps : addTty.Steps devEnv oneDisk (0, some 3) diskAndTty := by
  refine steps_of_exec fun k => ?_
  rw [exec_eq]
  rfl

set_option maxRecDepth 20000 in
lemma twoDisks_fits : (addDisk 1 'b' 3).Fits devEnv diskAndTty := by
  refine ⟨dev_fits (l := [2, 3]) (fun k => ?_) ⟨by simp, rfl, rfl, rfl, rfl, rfl, rfl⟩ (by decide)
    ⟨by decide, by decide⟩ (by decide) (by decide), fun bs cs h => ?_⟩
  · rfl
  · rw [← (diskAndTty_listed.unique h).1]
    decide

set_option maxRecDepth 20000 in
lemma twoDisks_steps : (addDisk 1 'b' 3).Steps devEnv diskAndTty (0, some 4) twoDisks := by
  refine steps_of_exec fun k => ?_
  rw [exec_eq]
  rfl

lemma devCalls_run : Run devEnv devStart devCalls twoDisks :=
  .cons oneDisk_fits oneDisk_steps (.cons tty_fits tty_steps (.cons twoDisks_fits twoDisks_steps
    .nil))

/-- After a boot with two disks and a terminal each is found by its name. -/
theorem devices_stay_boot : Run devEnv devStart devCalls twoDisks ∧
    (∃ M kids', Sound 0 twoDisks.mounts.vfs M kids') ∧ Listed twoDisks [1, 0] [0] ∧
    (∀ c : Call, c.Fits devEnv twoDisks → ∃ r s'', c.Steps devEnv twoDisks r s'') ∧
    Serves devEnv twoDisks (chars ['h', 'd', 'a']) driver 0 2 ∧
    Serves devEnv twoDisks (chars ['h', 'd', 'b']) driver 1 4 ∧
    Serves devEnv twoDisks (chars ['t', 't', 'y']) driver 0 3 := by
  obtain ⟨kids, hsound⟩ := devTree_sound
  obtain ⟨htree, hlisted, hends, hdisks, htty⟩ := devices_stay devEnv devStart {1, 0} kids [] [] []
    hsound devStart_steady ⟨by simp, rfl, rfl⟩ devStart_listed devCalls twoDisks devCalls_run
  have hfirst : (addDisk 0 'a' 1, (0, some 2)) ∈ devCalls := .head _
  have hsecond : (addDisk 1 'b' 3, (0, some 4)) ∈ devCalls := .tail _ (.tail _ (.head _))
  have hterminal : (addTty, (0, some 3)) ∈ devCalls := .tail _ (.head _)
  exact ⟨devCalls_run, htree, hlisted, hends, hdisks _ _ _ _ _ _ _ hfirst,
    hdisks _ _ _ _ _ _ _ hsecond, htty _ _ _ _ _ _ _ hterminal⟩

end Boot

/-! ### Devices by their flags -/

/-- The device that a call has put on the list, as it was handed over. -/
def handed : Call × Result → Option (ℕ × Bdev)
  | (.bdevInit d bdev .., (_, some _)) => some (d, bdev)
  | _ => none

/-- The devices that were put on the list and have the flags, the last one first. -/
def matching (flags : UInt32) (calls : List (Call × Result)) : List ℕ :=
  (((calls.filterMap handed).filter fun x => x.2.flags &&& flags = flags).map Prod.fst).reverse

/-- What the calls of `bdev_get` return, of which each but the first is given what the one before
has returned. -/
def gets (n : ℕ) (s : State) (flags : UInt32) : ℕ → Option (Option ℕ)
  | 0 => bdevGet n s flags none
  | k + 1 => (gets n s flags k).bind fun source => bdevGet n s flags source

/-- The loop goes through the devices between its start and the head. -/
lemma bdevGetLoop_eq {flags : UInt32} {start a : DevLink} {ds : List ℕ} {k : ℕ}
    (h : Seg s.bdevs a (ds.map .dev) .head) (hstart : ∀ d ∈ ds, DevLink.dev d ≠ start)
    (hk : ds.length < k) : bdevGetLoop s flags start k (s.bdevs.next a) =
      some (ds.find? fun d => (s.bdev d).flags &&& flags = flags) := by
  induction ds generalizing a k with
  | nil =>
      obtain ⟨k, rfl⟩ := Nat.exists_eq_succ_of_ne_zero (Nat.ne_of_gt hk)
      rw [h.1, bdevGetLoop, ite_self]
      rfl
  | cons d ds ih =>
      obtain ⟨k, rfl⟩ := Nat.exists_eq_succ_of_ne_zero (Nat.ne_zero_of_lt hk)
      obtain ⟨hnext, -, hrest⟩ := h
      obtain ⟨hd, hds⟩ := List.forall_mem_cons.mp hstart
      rw [hnext, bdevGetLoop, if_neg hd, List.find?_cons]
      by_cases hflags : (s.bdev d).flags &&& flags = flags
      · rw [if_pos hflags, decide_eq_true hflags]
      · rw [if_neg hflags, decide_eq_false hflags]
        exact ih hrest hds (Nat.lt_of_succ_lt_succ hk)

/-- The list around an element that passes a filter. -/
lemma filter_split {p : ℕ → Bool} {l X Y : List ℕ} {i : ℕ} (h : l.filter p = X ++ i :: Y) :
    ∃ A B, l = A ++ i :: B ∧ B.filter p = Y := by
  obtain ⟨A, C, rfl, -, hC⟩ := List.filter_eq_append_iff.mp h
  obtain ⟨D, B, rfl, -, -, hB⟩ := List.filter_eq_cons_iff.mp hC
  exact ⟨A ++ D, B, (List.append_assoc _ _ _).symm, hB⟩

/-- The calls return one device after the other, and then none. -/
lemma gets_eq {flags : UInt32} {ds : List ℕ} (h : IsList s.bdevs .head (ds.map .dev))
    (hn : ds.length < n) {k : ℕ}
    (hk : k ≤ (ds.filter fun d => (s.bdev d).flags &&& flags = flags).length) :
    gets n s flags k = some (ds.filter fun d => (s.bdev d).flags &&& flags = flags)[k]? := by
  induction k with
  | zero =>
      rw [gets, bdevGet, ← List.head?_eq_getElem?, List.head?_filter]
      exact bdevGetLoop_eq h.seg (fun _ _ => nofun) hn
  | succ k ih =>
      rw [gets, ih (Nat.le_of_succ_le hk), List.getElem?_eq_getElem hk, Option.bind_some]
      obtain ⟨i, hi⟩ : ∃ i, i = (ds.filter fun d => (s.bdev d).flags &&& flags = flags)[k] :=
        ⟨_, rfl⟩
      have hparts : (ds.filter fun d => (s.bdev d).flags &&& flags = flags) =
          (ds.filter fun d => (s.bdev d).flags &&& flags = flags).take k ++ i ::
            (ds.filter fun d => (s.bdev d).flags &&& flags = flags).drop (k + 1) := by
        rw [hi, ← List.drop_eq_getElem_cons hk, List.take_append_drop]
      obtain ⟨A, B, hds, hB⟩ := filter_split hparts
      have hnodup : (A ++ i :: B).Nodup :=
        hds ▸ List.Nodup.of_map _ (List.nodup_cons.mp h.nodup).2
      have hi' : i ∉ B := (List.nodup_cons.mp (List.Nodup.of_append_right hnodup)).1
      have hseg := h.seg
      rw [hds, List.map_append, List.map_cons] at hseg
      have hlen : B.length < n := by
        rw [hds, List.length_append, List.length_cons] at hn
        omega
      rw [← hi, bdevGet, ← List.head?_drop, ← hB, List.head?_filter]
      refine bdevGetLoop_eq (seg_append.mp hseg).2 (fun d hd heq => ?_) hlen
      exact hi' (DevLink.dev.inj heq ▸ hd)

lemma foldl_bdevsAfter (bs : List ℕ) (calls : List (Call × Result)) :
    calls.foldl bdevsAfter bs = ((calls.filterMap handed).map Prod.fst).reverse ++ bs := by
  induction calls generalizing bs with
  | nil => rfl
  | cons x calls ih =>
      rw [List.foldl_cons, ih, List.filterMap_cons]
      obtain ⟨c, st, _ | e⟩ := x <;> cases c <;> simp [bdevsAfter, handed]

/-- A device that was handed over keeps its flags. -/
lemma Leaves.flags {calls : List (Call × Result)} (h : Leaves env s N bs cs calls s' M) :
    ∀ x ∈ calls.filterMap handed, (s'.bdev x.1).flags = x.2.flags := by
  intro x hx
  obtain ⟨⟨c, st, e⟩, hmem, hc⟩ := List.mem_filterMap.mp hx
  have hhas := h.has _ hmem
  cases e with
  | none => cases c <;> cases hc
  | some e =>
      cases c with
      | bdevInit d bdev ops m p =>
          cases hc
          rw [hhas.2]
      | _ => cases hc

/-- **A search by flags** finds each device that was handed over and has the flags once, the last
one first, and no device after these. -/
theorem gets_matching (env : Env) (s : State) (N : Finset ℕ) (kids : ℕ → List ℕ) (ts cs : List ℕ)
    (h : Sound env.root s.mounts.vfs N kids) (hb : Steady env.toEnv (s.mounts.vfs, N))
    (hreg : Registered s.mounts.types ts) (hl : Listed s [] cs) (calls : List (Call × Result))
    (s' : State) (hrun : Run env s calls s') (flags : UInt32) :
    (matching flags calls).Nodup ∧ ∃ N, ∀ n ≥ N, ∀ k ≤ (matching flags calls).length,
      gets n s' flags k = some (matching flags calls)[k]? := by
  obtain ⟨M, hleaves, -⟩ := run_spec hrun h hb hreg hl
  have hlist := hleaves.listed.bdevs
  obtain ⟨ds, hds⟩ : ∃ ds, ds = ((calls.filterMap handed).map Prod.fst).reverse := ⟨_, rfl⟩
  rw [foldl_bdevsAfter, List.append_nil, ← hds] at hlist
  have hmatching : matching flags calls =
      ds.filter fun d => (s'.bdev d).flags &&& flags = flags := by
    rw [matching, hds, List.filter_reverse, List.filter_map]
    congr 2
    refine List.filter_congr fun x hx => ?_
    simp [hleaves.flags x hx]
  have hnodup : ds.Nodup := List.Nodup.of_map _ (List.nodup_cons.mp hlist.nodup).2
  rw [hmatching]
  exact ⟨hnodup.filter _, ds.length + 1, fun n hn k hk => gets_eq hlist hn hk⟩

/-- Both disks have the first flag, and the second disk has come later. -/
theorem gets_matching_boot : matching 1 devCalls = [1, 0] ∧ ∃ N, ∀ n ≥ N,
    gets n twoDisks 1 0 = some (some 1) ∧ gets n twoDisks 1 1 = some (some 0) ∧
      gets n twoDisks 1 2 = some none := by
  obtain ⟨kids, hsound⟩ := devTree_sound
  obtain ⟨-, N, hN⟩ := gets_matching devEnv devStart {1, 0} kids [] [] hsound devStart_steady
    ⟨by simp, rfl, rfl⟩ devStart_listed devCalls twoDisks devCalls_run 1
  have hmatching : matching 1 devCalls = [1, 0] := by decide
  rw [hmatching] at hN
  exact ⟨hmatching, N, fun n hn => ⟨hN n hn 0 (by decide), hN n hn 1 (by decide),
    hN n hn 2 (by decide)⟩⟩

end Elfboot.Devices
