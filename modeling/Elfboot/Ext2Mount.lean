import Elfboot.Objects
import Elfboot.Ext2Dir

/-!
The functions of `ext2fs.c` with what they allocate and free: mounting, and looking up a name.

Every read of the device and every allocation may fail, and a block read twice may hold something
else the second time. A division by zero traps.
-/

namespace Elfboot.Ext2Mount

open Elfboot.Errno Elfboot.Word Elfboot.Buffer Elfboot.Str Elfboot.Loop Elfboot.Objects
open Elfboot.Super (Bdev)
open Elfboot.Ext2 (Inode ext2DlpNum ext2MlpLen)
open Elfboot.Ext2Dir (Ext2Superblock ext2BlkgrpDescSize sizeofFsNode)

/-- What the functions meet, by the time. -/
structure Env where
  bmalloc : ℕ → ℕ → Option Bytes
  /-- what the device gives for so many blocks from a sector on -/
  read : ℕ → ℕ → ℕ → Option Bytes
  /-- what a descriptor on the stack holds at first -/
  bdesc : Bytes

/-- `struct superblock`, with `block_logs` of its device. -/
structure Superblock where
  bdLogs : ℕ
  blockSize : ℕ
  blockLogs : ℕ

/-- `struct fs_node`, with the objects that it and its inode are. -/
structure FsNode where
  node : ℕ
  name : List UInt8
  inode : ℕ
  length : ℕ
  priv : ℕ × Bytes

variable (env : Env) (sb : Superblock) (esb : Ext2Superblock)

def bmalloc (size : ℕ) : Prog (Option (ℕ × Bytes)) := allocate fun t => env.bmalloc t size

def bfree (objp : ℕ) : Prog Unit := release objp

def divide (a b : ℕ) : Prog (ℕ × ℕ) := if b = 0 then trap else pure (div a b)

/-! ### Blocks -/

def bdevRead (bdLogs sector blknum : ℕ) (buffer : Bytes) : Prog (Option Bytes) :=
  sense fun t => (env.read t sector blknum).map fun data =>
    memcpy buffer 0 data 0 (blknum * 2 ^ bdLogs)

def superblockSectors (blkidx : ℕ) : ℕ := u64 (blkidx <<< sb.blockLogs) >>> sb.bdLogs

def superblockBlockno (blkmod length : ℕ) : ℕ :=
  u64 (sub64 (sub64 (u64 (blkmod + length)) 1 >>> sb.blockLogs) (blkmod >>> sb.blockLogs) + 1)

def superblockReadBlock (blkidx : ℕ) (buffer : Bytes) : Prog (Option Bytes) :=
  bdevRead env sb.bdLogs (superblockSectors sb blkidx) (superblockSectors sb 1) buffer

/-- The loop of `superblock_read_offset`, with the number of blocks left to read. -/
def readOffsetLoop (blkidx : ℕ) :
    ℕ → (blkoff blkmod bufoff length : ℕ) → (blkbuf buffer : Bytes) → Prog (ℤ × Bytes)
  | 0, _, _, _, _, _, buffer => pure (0, buffer)
  | n + 1, blkoff, blkmod, bufoff, length, blkbuf, buffer => do
    match ← superblockReadBlock env sb (u64 (blkidx + blkoff)) blkbuf with
    | none => pure (-efault, buffer)
    | some blkbuf =>
      let blkmod := if blkoff ≠ 0 then 0 else blkmod
      let remlen := u32 (min (sub32 sb.blockSize blkmod) length)
      let buffer := memcpy buffer bufoff blkbuf blkmod remlen
      readOffsetLoop blkidx n (blkoff + 1) blkmod (u32 (bufoff + remlen)) (sub64 length remlen)
        blkbuf buffer

def superblockReadOffset (offset length : ℕ) (buffer : Bytes) : Prog (ℤ × Bytes) := do
  let (blkidx, blkmod) ← divide offset sb.blockSize
  let blknum := superblockBlockno sb blkmod length
  match ← bmalloc env sb.blockSize with
  | none => pure (-enomem, buffer)
  | some (blkbuf, old) =>
    let r ← readOffsetLoop env sb blkidx blknum 0 blkmod 0 length old buffer
    bfree blkbuf
    pure r

/-! ### Inodes -/

/-- The loop of `indirect_block`, one turn for each level left. -/
def indirectLoop (cblock : ℕ) : ℕ → ℕ → Bytes → Prog ℕ
  | 0, iblock, _ => pure iblock
  | blevel + 1, iblock, buffer => do
    let blkibn := sb.blockSize / ext2MlpLen
    let blkmlp := u32 (pow blkibn blevel)
    match ← superblockReadBlock env sb iblock buffer with
    | none => pure 0
    | some buffer =>
      let (blk, _) ← divide cblock blkmlp
      let (_, blkidx) ← divide blk blkibn
      indirectLoop cblock blevel (le32 buffer (blkidx * ext2MlpLen)) buffer

def indirectBlock (iblock cblock bdepth : ℕ) (buffer : Bytes) : Prog ℕ :=
  indirectLoop env sb cblock (bdepth + 1) iblock buffer

/-- The loop of `ext2fs_inode_block`, with the number of turns left. -/
def inodeBlockLoop (inode : Inode) (buffer : Bytes) :
    ℕ → (i blkmlp cblock blkidx : ℕ) → Prog ℕ
  | 0, _, _, _, blkidx => pure blkidx
  | n + 1, i, blkmlp, cblock, _ => do
    let blkibn := sb.blockSize / ext2MlpLen
    let blkmlp := u32 (blkmlp * pow blkibn i)
    let cblock := sub32 cblock blkmlp
    let (blkidx, _) ← divide cblock blkmlp
    if sb.blockSize ≤ u32 (blkidx * ext2MlpLen) then
      inodeBlockLoop inode buffer n (i + 1) blkmlp cblock blkidx
    else indirectBlock env sb (inode.dbp (12 + i)) cblock i buffer

def ext2fsInodeBlock (inode : Inode) (offset : ℕ) : Prog ℕ := do
  let (cblock, _) ← divide offset sb.blockSize
  if cblock < ext2DlpNum then pure (inode.dbp cblock)
  else
    match ← bmalloc env sb.blockSize with
    | none => pure 0
    | some (buffer, old) =>
      let blkidx ← inodeBlockLoop env sb inode old 3 0 1 (sub32 cblock (ext2DlpNum - 1)) 0
      bfree buffer
      pure blkidx

/-- The loop of `ext2fs_inode_read`, with the number of turns left. The result is what is
left of the length, and the buffer. -/
def inodeReadLoop (inode : Inode) (sector : ℕ) :
    ℕ → (blkoff ibloff bufoff length : ℕ) → (iblock buffer : Bytes) → Prog (ℕ × Bytes)
  | 0, _, _, _, length, _, buffer => pure (length, buffer)
  | n + 1, blkoff, ibloff, bufoff, length, iblock, buffer =>
    if length = 0 then pure (length, buffer)
    else do
      let ibloff := if blkoff ≠ 0 then 0 else ibloff
      let remlen := min (sub32 sb.blockSize ibloff) length
      let offset := u32 (u64 (u64 (blkoff + sector) * sb.blockSize))
      let blkidx ← ext2fsInodeBlock env sb inode offset
      if blkidx = 0 then pure (length, buffer)
      else
        match ← superblockReadBlock env sb blkidx iblock with
        | none => pure (length, buffer)
        | some iblock =>
          let buffer := memcpy buffer bufoff iblock ibloff remlen
          inodeReadLoop inode sector n (blkoff + 1) ibloff (u32 (bufoff + remlen))
            (sub32 length remlen) iblock buffer

/-- What `ext2fs_inode_read` does with its block. -/
def readInto (inode : Inode) (offset length : ℕ) (iblock buffer : Bytes) : Prog (ℕ × Bytes) := do
  let (sblnum, _) ← divide (sub32 length 1) sb.blockSize
  let (sector, ibloff) ← divide offset sb.blockSize
  inodeReadLoop env sb inode sector (u64 (sblnum + 1)) 0 ibloff 0 length iblock buffer

/-- `ext2fs_inode_read`: its result as a `uint32_t`, and the buffer. -/
def ext2fsInodeRead (inode : Inode) (offset length : ℕ) (buffer : Bytes) : Prog (ℕ × Bytes) := do
  match ← bmalloc env sb.blockSize with
  | none => pure (sub32 0 12, buffer)
  | some (iblock, old) =>
    let r ← readInto env sb inode offset length old buffer
    bfree iblock
    pure (sub32 length r.1, r.2)

/-- `ext2fs_inode_find`: nothing frees the inode where a read fails. -/
def ext2fsInodeFind (ino : ℕ) : Prog (Option (ℕ × Bytes)) := do
  match ← bmalloc env esb.inodeSize with
  | none => pure none
  | some (inode, old) =>
    let (blkgrp, inoidx) ← divide (sub32 ino 1) esb.inodesPerGroup
    let offset := if sb.blockSize < 2048 then sb.blockSize * 2 else sb.blockSize
    let offset := u64 (offset + u32 (ext2BlkgrpDescSize * blkgrp))
    let desc ← superblockReadOffset env sb offset ext2BlkgrpDescSize env.bdesc
    if desc.1 ≠ 0 then pure none
    else
      let offset := u32 (le32 desc.2 8 * sb.blockSize)
      let offset := u64 (offset + u32 (inoidx * esb.inodeSize))
      let found ← superblockReadOffset env sb offset esb.inodeSize old
      if found.1 ≠ 0 then pure none else pure (some (inode, found.2))

/-! ### Nodes -/

/-- `ext2fs_alloc_node`: the object; the node gets its name. -/
def ext2fsAllocNode : Prog (Option (ℕ × Bytes)) := bmalloc env sizeofFsNode

def ext2fsAllocDent (ino : ℕ) (name : List UInt8) : Prog (Option FsNode) := do
  match ← ext2fsAllocNode env with
  | none => pure none
  | some (fnode, _) =>
    match ← ext2fsInodeFind env sb esb ino with
    | none => do
      bfree fnode
      pure none
    | some inode => pure (some ⟨fnode, name, ino, le32 inode.2 4, inode⟩)

/-- A turn of the loop of `ext2fs_finddir`, for the record at `dpos`. It is left with the record
that a node is allocated for, or with none. The arguments of `strncmp` are the other way round. -/
def finddirTurn (mem : Bytes) (name : List UInt8) (dpos : ℕ) : Option (Turn ℕ (Option ℕ)) :=
  let size := le16 mem (dpos + 4)
  if size = 0 then some (.leave none)
  else if strncmp mem (dpos + 8) name (mem (dpos + 6)).toNat ≠ 0 then
    some (.next (u32 (dpos + size)))
  else some (.leave (some dpos))

/-- What `ext2fs_finddir` does with the memory for the directory, which is followed by the memory
behind it. -/
def findIn (inode : Inode) (name : List UInt8) (k : ℕ) (dbeg : Bytes) : Prog (Option FsNode) := do
  let size := inode.sizeLower
  let read ← ext2fsInodeRead env sb inode 0 size dbeg
  if read.1 ≠ size then pure none
  else if size = 0 then pure none
  else
    match ← ofOption (loop (finddirTurn read.2 name) k 0) with
    | none => pure none
    | some dpos => ext2fsAllocDent env sb esb (le32 read.2 dpos) name

/-- `ext2fs_finddir`, for `k` turns at most. -/
def ext2fsFinddir (inode : Inode) (name : List UInt8) (k : ℕ) : Prog (Option FsNode) := do
  match ← bmalloc env inode.sizeLower with
  | none => pure none
  | some (dbeg, old) =>
    let dent ← findIn env sb esb inode name k old
    bfree dbeg
    pure dent

/-! ### Mounting -/

abbrev ext2SbOffset : ℕ := 1024

/-- `sizeof(struct ext2_superblock)`: 236 bytes of fields, and 780 that are not used. -/
abbrev ext2SbLength : ℕ := 236 + 780

abbrev ext2SbMagic : ℕ := 0xEF53
abbrev ext2RootInode : ℕ := 2

def sbSector (bdLogs sector offset : ℕ) : ℕ := u64 (sector + offset >>> bdLogs)

def sbLength (bdLogs offset length : ℕ) : ℕ :=
  u64 (sub64 (sub64 (u64 (offset + length)) 1 >>> bdLogs) (offset >>> bdLogs) + 1)

/-- The fields of `struct ext2_superblock` that are read here. -/
def logBlockSize (esb : Bytes) : ℕ := le32 esb 24
def inodesPerGroup (esb : Bytes) : ℕ := le32 esb 40
def magic (esb : Bytes) : ℕ := le16 esb 56
def revision (esb : Bytes) : ℕ := le32 esb 76
def inodeSize (esb : Bytes) : ℕ := if revision esb < 1 then 128 else le16 esb 88

/-- The reading of the superblock in `ext2fs_fill_super`. -/
def readSuper (bdLogs : ℕ) (esb : Bytes) : Prog (Option Bytes) :=
  bdevRead env bdLogs (sbSector bdLogs 0 ext2SbOffset) (sbLength bdLogs 0 ext2SbLength) esb

/-- The superblock with `block_logs` and `block_size`, each a `uint16_t`. -/
def sized (bdLogs : ℕ) (esb : Bytes) : Superblock :=
  let blockLogs := u32 (10 + logBlockSize esb) % 2 ^ 16
  ⟨bdLogs, shl32 1 blockLogs % 2 ^ 16, blockLogs⟩

/-- What `ext2fs_fill_super` does with the memory for the superblock. -/
def mountIn (bdLogs : ℕ) (name : List UInt8) (esb : Bytes) : Prog (Option FsNode) := do
  match ← readSuper env bdLogs esb with
  | none => pure none
  | some esb =>
    if magic esb ≠ ext2SbMagic then pure none
    else
      ext2fsAllocDent env (sized bdLogs esb) ⟨inodesPerGroup esb, inodeSize esb⟩ ext2RootInode name

/-- `ext2fs_fill_super`, with `block_logs` of the device if there is one. -/
def ext2fsFillSuper (bdev : Option ℕ) (name : List UInt8) : Prog (Option FsNode) :=
  match bdev with
  | none => pure none
  | some bdLogs => do
    match ← bmalloc env ext2SbLength with
    | none => pure none
    | some (esb, old) =>
      match ← mountIn env bdLogs name old with
      | none => do
        bfree esb
        pure none
      | some node => pure (some node)

/-! ### A device that stays as it is -/

/-- What is read is the device's. -/
def onDevice (env : Env) (bdev : Bdev) : Env :=
  { env with
    read := fun _ sector blknum =>
      if bdev.fails sector blknum then none
      else some fun i => bdev.byte (sector * 2 ^ bdev.blockLogs + i) }

end Elfboot.Ext2Mount
