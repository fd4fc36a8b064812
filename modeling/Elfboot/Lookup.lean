import Elfboot.Errno
import Elfboot.Loop
import Elfboot.Str
import Elfboot.FsTree

/-!
Path lookup: `vfs_lookup_tree` of `fs.c`.

The path is cut at slashes in a copy of its own, and each part moves the node of the request
on: to itself, to its parent, to a child of that name, or to a node that the file system
finds, which is put into the tree. Reading through a pointer that is not to a node has no
result.
-/

namespace Elfboot.Lookup

open Elfboot.Errno Elfboot.Loop Elfboot.Circular Elfboot.Buffer Elfboot.Str Elfboot.FsTree

abbrev fsLookupAbsolute : ℕ := 1

/-- `struct fs_lookup_request`; the path is in a buffer. -/
structure FsLookupRequest where
  flags : ℕ
  path : Option (Bytes × ℕ)
  node : Ptr

/-- `vfs_finddir`: the node it finds, if any, and the nodes afterwards. -/
abbrev Finddir := Vfs → ℕ → List UInt8 → Option ℕ × Vfs

def slash : List UInt8 := chars ['/']
def dot : List UInt8 := chars ['.']
def dotdot : List UInt8 := chars ['.', '.']

def isAbsolute (req : FsLookupRequest) : Bool := req.flags &&& fsLookupAbsolute != 0

def vfsLookupRequestValid (req : FsLookupRequest) : ℤ :=
  match req.path with
  | none => -efault
  | some _ => if req.node = .null then if isAbsolute req then 0 else -efault else 0

variable (fd : Finddir) (n : ℕ)

/-- The loop of `vfs_lookup_tree_fast`, at a child. The name is the string at `part`. -/
def fastLoop (v : Vfs) (b : Bytes) (part : ℕ) : ℕ → Ptr → Option Ptr
  | 0, _ => none
  | _ + 1, .null => some .null
  | k + 1, .node child =>
    if strcmp b part (v.node child).name ≠ 0 then
      fastLoop v b part k (treeNextSiblingEntryOrNull v child)
    else some (.node child)
  | _ + 1, .wild => none

def vfsLookupTreeFast (v : Vfs) (node : ℕ) (b : Bytes) (part : ℕ) : Option Ptr :=
  fastLoop v b part n (treeFirstChildEntryOrNull v node)

def vfsLookupTreeNode (v : Vfs) (node : Ptr) (b : Bytes) (part : ℕ) : Option Ptr :=
  if strcmp b part dot = 0 then some node
  else if strcmp b part dotdot = 0 then
    match node with
    | .node m => some (treeParentEntry v m)
    | _ => none
  else
    match node with
    | .node m => vfsLookupTreeFast n v m b part
    | _ => none

def vfsLookupTreeSlow (v : Vfs) (node : Ptr) (b : Bytes) (part : ℕ) : Option (Option ℕ × Vfs) :=
  match node with
  | .node m =>
    match fd v m (cstring b n part) with
    | (none, v) => some (none, v)
    | (some nent, v) => some (some nent, treeNodeInsert v nent m)
  | _ => none

/-- The variables of the loop of `vfs_lookup_tree`, with the static one of `strtok`. -/
structure Walk where
  vfs : Vfs
  req : FsLookupRequest
  name : Bytes
  part : Option ℕ
  p : Option ℕ

/-- `vfs_lookup_found`: the request is moved on and the next part taken. -/
def found (s : Walk) (vfs : Vfs) (part : ℕ) (node : Ptr) : Walk :=
  let (next, p, name) := strtok s.name n none slash s.p
  { vfs := vfs, req := { s.req with node := node, path := some (s.name, part) },
    name := name, part := next, p := p }

/-- A turn of the loop of `vfs_lookup_tree`. -/
def turn (s : Walk) : Option (Turn Walk (ℤ × FsLookupRequest × Vfs)) :=
  match s.part with
  | none => some (.leave (0, s.req, s.vfs))
  | some part =>
    match vfsLookupTreeNode n s.vfs s.req.node s.name part with
    | none => none
    | some .null =>
      match vfsLookupTreeSlow fd n s.vfs s.req.node s.name part with
      | none => none
      | some (none, vfs) => some (.leave (-enoent, s.req, vfs))
      | some (some nent, vfs) => some (.next (found n s vfs part (.node nent)))
    | some node => some (.next (found n s s.vfs part node))

/-- `bstrdup` of `mm/util.c`: the copy begins at zero. -/
def bstrdup (m : Bmalloc) (b : Bytes) (str : ℕ) : Option Bytes :=
  let len := strlen b n str + 1
  match m.call 0 len with
  | none => none
  | some buf => some (memcpy buf 0 b str len)

/-- `vfs_lookup_tree`: the status, the request and the nodes afterwards. `fs_root` is written
to a variable that the loop sets again before it reads it. -/
def vfsLookupTree (m : Bmalloc) (p : Option ℕ) (vfs : Vfs) (req : FsLookupRequest) :
    Option (ℤ × FsLookupRequest × Vfs) :=
  if vfsLookupRequestValid req ≠ 0 then some (-efault, req, vfs)
  else
    match req.path with
    | none => none
    | some (b, path) =>
      match bstrdup n m b path with
      | none => some (-enomem, req, vfs)
      | some name =>
        let (part, p, name) := strtok name n (some 0) slash p
        loop (turn fd n) n { vfs := vfs, req := req, name := name, part := part, p := p }

/-! ### What a lookup means -/

/-- The parts of a path. -/
def components (path : List UInt8) : List (List UInt8) :=
  (path.splitOn 47).filter fun c => c ≠ []

/-- The children of a node, in order. -/
def Kids (v : Vfs) (node : ℕ) (l : List ℕ) : Prop :=
  IsList v.links (.children node) (l.map .siblings)

/-- The first child of that name. -/
def childOf (v : Vfs) (l : List ℕ) (c : List UInt8) : Option ℕ :=
  l.find? fun m => (v.node m).name = c

/-- Where a part leads, and the nodes afterwards. At the root `..` may stay or fail. -/
inductive Goes : Vfs → ℕ → List UInt8 → Vfs → ℕ → Prop
  | here {v q} : Goes v q dot v q
  | up {v q r} (h : (v.node q).parent = some r) : Goes v q dotdot v r
  | top {v q} (h : (v.node q).parent = none) : Goes v q dotdot v q
  | child {v q c l r} (hc : c ≠ dot) (hc' : c ≠ dotdot) (hl : Kids v q l)
      (h : childOf v l c = some r) : Goes v q c v r
  | dir {v q c l r w} (hc : c ≠ dot) (hc' : c ≠ dotdot) (hl : Kids v q l)
      (h : childOf v l c = none) (hf : fd v q c = (some r, w)) : Goes v q c (treeNodeInsert w r q) r

/-- A part leads nowhere. -/
inductive Lacks : Vfs → ℕ → List UInt8 → Vfs → Prop
  | top {v q} (h : (v.node q).parent = none) : Lacks v q dotdot v
  | dir {v q c l w} (hc : c ≠ dot) (hc' : c ≠ dotdot) (hl : Kids v q l)
      (h : childOf v l c = none) (hf : fd v q c = (none, w)) : Lacks v q c w

/-- The status, the node and the nodes afterwards that the parts of a path lead to. -/
inductive Resolves : Vfs → ℕ → List (List UInt8) → ℤ × ℕ × Vfs → Prop
  | done {v q} : Resolves v q [] (0, q, v)
  | go {v q c w r cs res} (h : Goes fd v q c w r) (hr : Resolves w r cs res) :
      Resolves v q (c :: cs) res
  | fail {v q c w cs} (h : Lacks fd v q c w) : Resolves v q (c :: cs) (-enoent, q, w)

/-- Where a request starts. -/
def startOf (root : ℕ) (req : FsLookupRequest) : Ptr :=
  if isAbsolute req then .node root else req.node

/-- The promise: the lookup ends where the parts of the path lead to from the start. -/
def Follows (m : Bmalloc) (p : Option ℕ) (vfs : Vfs) (root : ℕ) (req : FsLookupRequest)
    (path : List UInt8) : Prop :=
  ∃ s st r q w, startOf root req = .node s ∧
    vfsLookupTree fd n m p vfs req = some (st, r, w) ∧ r.node = .node q ∧
    Resolves fd vfs s (components path) (st, q, w)

/-- On the way `..` is met at the root. -/
inductive MeetsTop : Vfs → ℕ → List (List UInt8) → Prop
  | here {v q cs} (h : (v.node q).parent = none) : MeetsTop v q (dotdot :: cs)
  | later {v q c w r cs} (h : Goes fd v q c w r) (hr : MeetsTop w r cs) : MeetsTop v q (c :: cs)

/-- What the file systems do on the way: one that is asked changes nothing in the tree, and
the node it finds is a new one. -/
def DirsOk : Vfs → Finset ℕ → ℕ → List (List UInt8) → Prop
  | _, _, _, [] => True
  | v, N, q, c :: cs =>
    (c ≠ dot → c ≠ dotdot → ∀ l, Kids v q l → childOf v l c = none →
      SameOn N v (fd v q c).2 ∧
        ∀ e ∈ (fd v q c).1, e ∉ N ∧ IsList (fd v q c).2.links (.children e) []) ∧
    ∀ w r, Goes fd v q c w r → DirsOk w (insert r N) r cs

end Elfboot.Lookup
