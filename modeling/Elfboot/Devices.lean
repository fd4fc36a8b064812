import Elfboot.MountRuns
import Elfboot.FileRead

/-!
Devices: `bdev.c`, `cdev.c`, and the calls of `fs.c` that reach them.

A driver fills in a device and hands it over; the device goes to the front of a list and gets a node
in `/dev`. A read or a write of such a node is one of the device, which its driver makes.
-/

namespace Elfboot.Devices

open Elfboot.Errno Elfboot.Circular Elfboot.Buffer Elfboot.Str Elfboot.FsTree Elfboot.Lookup
  Elfboot.LookupFollows Elfboot.LookupCache
open Elfboot.Mounts (Registered Result vfsLookup)
open Relation (ReflTransGen)

/-- The head of a list of devices, the list nodes of the devices, and the null pointer. -/
inductive DevLink
  | head
  | dev (d : ℕ)
  | null
  deriving DecidableEq

abbrev fsChardevice : UInt32 := 4
abbrev fsBlockdevice : UInt32 := 8
abbrev fsFlagsMask : UInt32 := 0x7f

/-- `struct bdev_ops`, and `struct cdev_ops` too: what is called, with the number of the device. -/
structure DevOps where
  read : Option (ℕ → ℕ → ℕ → Bytes → ℤ × Bytes)
  write : Option (ℕ → ℕ → ℕ → Bytes → ℤ)
  ioctl : Option (ℕ → ℤ → ℕ → ℤ)

/-- `struct bdev`. -/
structure Bdev where
  name : List UInt8
  flags : UInt32
  blockSize : ℕ
  blockLogs : ℕ
  ops : Option DevOps

/-- `struct cdev`. -/
structure Cdev where
  name : List UInt8
  ops : Option DevOps

/-- The device of a `struct fs_node`. -/
inductive Device
  | bdev (d : ℕ)
  | cdev (d : ℕ)

/-- The fields of a `struct fs_node` that make it a device. -/
structure Fields where
  flags : UInt32
  device : Option Device

/-- What is around, with how the file systems read and write their nodes. -/
structure Env extends Mounts.Env where
  read : ℕ → Option (ℕ → ℕ → Bytes → ℤ × Bytes)
  write : ℕ → Option (ℕ → ℕ → Bytes → ℤ)

/-- The file systems, the devices and their lists, and the fields of the nodes: those of a node that
is not in the tree yet are what its file system will give it. -/
structure State where
  mounts : Mounts.State
  fields : ℕ → Fields
  bdev : ℕ → Bdev
  cdev : ℕ → Cdev
  bdevs : Links DevLink
  cdevs : Links DevLink

/-- The lowest bit that is set: `bsfl`, and `-1` where there is none. -/
def ffs (v : ℕ) : ℤ := ((List.range 32).find? v.testBit).elim (-1) Int.ofNat

def slashDev : List UInt8 := chars ['/', 'd', 'e', 'v']

lemma slashDev_ne : ∀ d ∈ slashDev, d ≠ 0 := List.all_iff_forall_prop.mp (by decide)

/-- The call `vfs_open("/dev")`, or the lookup of that path. -/
def openDev (m : Bmalloc) (p : Option ℕ) : Open :=
  ⟨m, p, pathBuffer slashDev, 0, slashDev, cstr_pathBuffer slashDev_ne⟩

/-! ### `bdev.c` and `cdev.c` -/

/-- `bdev_read`, and `cdev_read` too. -/
def devRead (ops : Option DevOps) (d sector blknum : ℕ) (buffer : Bytes) : ℤ × Bytes :=
  match ops.bind DevOps.read with
  | some read => read d sector blknum buffer
  | none => (-enotsup, buffer)

/-- `bdev_write`, and `cdev_write` too. -/
def devWrite (ops : Option DevOps) (d sector blknum : ℕ) (buffer : Bytes) : ℤ :=
  match ops.bind DevOps.write with
  | some write => write d sector blknum buffer
  | none => -enotsup

/-- `bdev_ioctl`, and `cdev_ioctl` too. -/
def devIoctl (ops : Option DevOps) (d : ℕ) (request : ℤ) (args : ℕ) : ℤ :=
  match ops.bind DevOps.ioctl with
  | some ioctl => ioctl d request args
  | none => -enotsup

def bdevRead (s : State) (d : ℕ) := devRead (s.bdev d).ops d
def bdevWrite (s : State) (d : ℕ) := devWrite (s.bdev d).ops d
def bdevIoctl (s : State) (d : ℕ) := devIoctl (s.bdev d).ops d
def cdevRead (s : State) (d : ℕ) := devRead (s.cdev d).ops d
def cdevWrite (s : State) (d : ℕ) := devWrite (s.cdev d).ops d
def cdevIoctl (s : State) (d : ℕ) := devIoctl (s.cdev d).ops d

/-- The loop of `bdev_get`, at an entry of the list; `start` is the entry it began behind. -/
def bdevGetLoop (s : State) (flags : UInt32) (start : DevLink) : ℕ → DevLink → Option (Option ℕ)
  | 0, _ => none
  | k + 1, pos =>
    if pos = start then some none
    else
      match pos with
      | .head => some none
      | .dev d =>
        if (s.bdev d).flags &&& flags = flags then some (some d)
        else bdevGetLoop s flags start k (s.bdevs.next (.dev d))
      | .null => none

def bdevGet (n : ℕ) (s : State) (flags : UInt32) (source : Option ℕ) : Option (Option ℕ) :=
  let start := source.elim .head .dev
  bdevGetLoop s flags start n (s.bdevs.next start)

variable (env : Env)

/-- `fs_node_alloc`, which clears the node. -/
def fsNodeAlloc (name : List UInt8) (s : State) : Option ℕ × State :=
  match env.fsNodeAlloc s.mounts.vfs name with
  | (none, vfs) => (none, { s with mounts := { s.mounts with vfs } })
  | (some nent, vfs) =>
    let fields := Function.update s.fields nent ⟨0, none⟩
    (some nent, { s with mounts := { s.mounts with vfs }, fields })

/-- `nent->flags |= flags`, and the device, if there is one to set. -/
def State.mark (s : State) (nent : ℕ) (flags : UInt32) (device : Option Device) : State :=
  let fields : Fields := ⟨(s.fields nent).flags ||| flags, device.or (s.fields nent).device⟩
  { s with fields := Function.update s.fields nent fields }

/-- `tree_node_insert` of a node under another. -/
def State.insert (s : State) (nent node : ℕ) : State :=
  { s with mounts := { s.mounts with vfs := treeNodeInsert s.mounts.vfs nent node } }

/-- `bdev_init`: its status, and the node of the device. -/
def bdevInit (n d : ℕ) (bdev : Bdev) (ops : DevOps) (m : Bmalloc) (p : Option ℕ) (s : State) :
    Option (Result × State) :=
  match vfsLookup env.toEnv n (openDev m p) s.mounts with
  | none => none
  | some (none, mounts) => some ((-enoent, none), { s with mounts })
  | some (some node, mounts) =>
    match fsNodeAlloc env bdev.name { s with mounts } with
    | (none, s) => some ((-enomem, none), s)
    | (some nent, s) =>
      let s := s.mark nent fsBlockdevice (some (.bdev d))
      let blockLogs := (ffs bdev.blockSize % 2 ^ 16).toNat
      let bdev := Function.update s.bdev d { bdev with blockLogs, ops := some ops }
      let bdevs := listAdd s.bdevs (.dev d) .head
      some ((0, some nent), State.insert { s with bdev, bdevs } nent node)

def vfsMountCdev (n d : ℕ) (o : Open) (name : List UInt8) (s : State) : Option (Result × State) :=
  match vfsLookup env.toEnv n o s.mounts with
  | none => none
  | some (none, mounts) => some ((-enoent, none), { s with mounts })
  | some (some node, mounts) =>
    match fsNodeAlloc env name { s with mounts } with
    | (none, s) => some ((-efault, none), s)
    | (some nent, s) =>
      some ((0, some nent), (s.mark nent fsChardevice (some (.cdev d))).insert nent node)

def cdevInit (n d : ℕ) (cdev : Cdev) (ops : DevOps) (m : Bmalloc) (p : Option ℕ) (s : State) :
    Option (Result × State) :=
  let s := { s with cdev := Function.update s.cdev d { cdev with ops := some ops } }
  match vfsMountCdev env n d (openDev m p) cdev.name s with
  | none => none
  | some ((st, e), s) =>
    if st ≠ 0 then some ((-efault, e), s)
    else some ((0, e), { s with cdevs := listAdd s.cdevs (.dev d) .head })

/-! ### `fs.c` and `file.c` -/

/-- `vfs_mount`, and the flag of the node that it mounts. -/
def vfsMount (n bdev : ℕ) (o : Open) (name : List UInt8) (s : State) : Option (Result × State) :=
  match Mounts.vfsMount env.toEnv n bdev o name s.mounts with
  | none => none
  | some ((st, none), mounts) => some ((st, none), { s with mounts })
  | some ((st, some nent), mounts) =>
    some ((st, some nent), State.mark { s with mounts } nent fsBlockdevice none)

/-- The switch in `vfs_read`, `vfs_write` and `file_ioctl`: the device that a node is, if it is one.
A device that is not there cannot be used. -/
def deviceOf (s : State) (node : ℕ) : Option (Option Device) :=
  if (s.fields node).flags &&& fsFlagsMask = fsChardevice then
    match (s.fields node).device with
    | some (.cdev d) => some (some (.cdev d))
    | _ => none
  else if (s.fields node).flags &&& fsFlagsMask = fsBlockdevice then
    match (s.fields node).device with
    | some (.bdev d) => some (some (.bdev d))
    | _ => none
  else some none

def vfsRead (s : State) (node offset length : ℕ) (buffer : Bytes) : Option (ℤ × Bytes) :=
  match deviceOf s node with
  | none => none
  | some (some (.cdev d)) => some (cdevRead s d offset length buffer)
  | some (some (.bdev d)) => some (bdevRead s d offset length buffer)
  | some none =>
    match env.read node with
    | some read => some (read offset length buffer)
    | none => some (-enotsup, buffer)

def vfsWrite (s : State) (node offset length : ℕ) (buffer : Bytes) : Option ℤ :=
  match deviceOf s node with
  | none => none
  | some (some (.cdev d)) => some (cdevWrite s d offset length buffer)
  | some (some (.bdev d)) => some (bdevWrite s d offset length buffer)
  | some none =>
    match env.write node with
    | some write => some (write offset length buffer)
    | none => some (-enotsup)

def fileIoctl (s : State) (node : ℕ) (request : ℤ) (args : ℕ) : Option ℤ :=
  match deviceOf s node with
  | none => none
  | some (some (.cdev d)) => some (cdevIoctl s d request args)
  | some (some (.bdev d)) => some (bdevIoctl s d request args)
  | some none => some (-enotsup)

/-! ### Runs -/

inductive Call
  | register (t : ℕ)
  | unregister (t : ℕ)
  | lookup (o : Open)
  | mount (bdev : ℕ) (o : Open) (name : List UInt8)
  | mountType (fs : List UInt8) (bdev : Option ℕ) (o : Open) (name : List UInt8)
  | bdevInit (d : ℕ) (bdev : Bdev) (ops : DevOps) (m : Bmalloc) (p : Option ℕ)
  | cdevInit (d : ℕ) (cdev : Cdev) (ops : DevOps) (m : Bmalloc) (p : Option ℕ)

/-- What a call is to the file systems. -/
def Call.mounts : Call → Mounts.Call
  | .register t => .register t
  | .unregister t => .unregister t
  | .lookup o => .lookup o
  | .mount bdev o name => .mount bdev o name
  | .mountType fs bdev o name => .mountType fs bdev o name
  | .bdevInit _ bdev _ m p => .mountCdev (openDev m p) bdev.name
  | .cdevInit _ cdev _ m p => .mountCdev (openDev m p) cdev.name

/-- A call, where loops and strings are bounded by `n`. -/
def Call.exec (n : ℕ) (s : State) : Call → Option (Result × State)
  | .mount bdev o name => vfsMount env n bdev o name s
  | .bdevInit d bdev ops m p => Devices.bdevInit env n d bdev ops m p s
  | .cdevInit d cdev ops m p => Devices.cdevInit env n d cdev ops m p s
  | c => (c.mounts.exec env.toEnv n s.mounts).map fun r => (r.1, { s with mounts := r.2 })

/-- The lists have the devices, the ones that came last in front. -/
structure Listed (s : State) (bs cs : List ℕ) : Prop where
  bdevs : IsList s.bdevs .head (bs.map .dev)
  cdevs : IsList s.cdevs .head (cs.map .dev)

/-- What a caller has to see to. A driver hands a device over once. -/
def Call.Fits (s : State) (c : Call) : Prop :=
  c.mounts.Fits env.toEnv s.mounts ∧
    match c with
    | .bdevInit d .. => ∀ bs cs, Listed s bs cs → d ∉ bs
    | .cdevInit d .. => ∀ bs cs, Listed s bs cs → d ∉ cs
    | _ => True

/-- A call has a result, when the bound is large enough. -/
def Call.Steps (s : State) (c : Call) (r : Result) (s' : State) : Prop :=
  ∃ k, ∀ n ≥ k, c.exec env n s = some (r, s')

inductive Run : State → List (Call × Result) → State → Prop
  | nil {s} : Run s [] s
  | cons {s c r s' cs u} (hfits : c.Fits env s) (h : c.Steps env s r s') (hr : Run s' cs u) :
      Run s ((c, r) :: cs) u

/-- What a call does to the list of block devices. -/
def bdevsAfter (bs : List ℕ) : Call × Result → List ℕ
  | (.bdevInit d .., (_, some _)) => d :: bs
  | _ => bs

/-- What a call does to the list of character devices. -/
def cdevsAfter (cs : List ℕ) : Call × Result → List ℕ
  | (.cdevInit d .., (_, some _)) => d :: cs
  | _ => cs

/-- The node that a call makes for a device. -/
def madeNode : Call × Result → Option ℕ
  | (.bdevInit .., (_, e)) => e
  | (.cdevInit .., (_, e)) => e
  | _ => none

end Elfboot.Devices
