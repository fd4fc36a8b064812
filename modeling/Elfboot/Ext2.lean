import Elfboot.Super

/-!
Reading files of an ext2 file system: the functions of `ext2fs.c` that map a file offset to
a block and copy its bytes.

All integers are words. `u32` and `u64` stand where the source assigns to the type.
-/

namespace Elfboot.Ext2

open Elfboot.Word Elfboot.Buffer Elfboot.Super

abbrev ext2DlpNum : ℕ := 12
abbrev ext2MlpLen : ℕ := 4

/-- The part of `struct ext2_inode` that is read. The three indirect pointers follow the
direct ones, and are reached by indexing past the end of `dbp`. -/
structure Inode where
  sizeLower : ℕ
  dbp : ℕ → ℕ
  size_lt : sizeLower < 2 ^ 32
  dbp_lt : ∀ i, dbp i < 2 ^ 32

/-- Pointers in a block. -/
def blkibn (sb : Superblock) : ℕ := sb.blockSize / ext2MlpLen

/-- The loop of `indirect_block`, one turn for each level left. -/
def indirectLoop (sb : Superblock) (cblock : ℕ) : ℕ → ℕ → Bytes → ℕ
  | 0, iblock, _ => iblock
  | blevel + 1, iblock, buffer =>
    let blkmlp := u32 (pow (blkibn sb) blevel)
    match superblockReadBlock sb iblock buffer with
    | none => 0
    | some buffer =>
      let blkidx := cblock / blkmlp % blkibn sb
      indirectLoop sb cblock blevel (le32 buffer (blkidx * ext2MlpLen)) buffer

def indirectBlock (sb : Superblock) (iblock cblock bdepth : ℕ) (buffer : Bytes) : ℕ :=
  indirectLoop sb cblock (bdepth + 1) iblock buffer

/-- The loop of `ext2fs_inode_block`, with the number of turns left. A divisor that has
wrapped to zero would trap. -/
def inodeBlockLoop (sb : Superblock) (inode : Inode) (buffer : Bytes) :
    ℕ → (i blkmlp cblock blkidx : ℕ) → ℕ
  | 0, _, _, _, blkidx => blkidx
  | n + 1, i, blkmlp, cblock, _ =>
    let blkmlp := u32 (blkmlp * pow (blkibn sb) i)
    let cblock := sub32 cblock blkmlp
    let blkidx := cblock / blkmlp
    if sb.blockSize ≤ u32 (blkidx * ext2MlpLen) then
      inodeBlockLoop sb inode buffer n (i + 1) blkmlp cblock blkidx
    else indirectBlock sb (inode.dbp (12 + i)) cblock i buffer

def ext2fsInodeBlock (sb : Superblock) (inode : Inode) (bmalloc : ℕ → Option Bytes)
    (offset : ℕ) : ℕ :=
  let cblock := offset / sb.blockSize
  if cblock < ext2DlpNum then inode.dbp cblock
  else
    match bmalloc sb.blockSize with
    | none => 0
    | some buffer => inodeBlockLoop sb inode buffer 3 0 1 (sub32 cblock (ext2DlpNum - 1)) 0

/-- The loop of `ext2fs_inode_read`, with the number of turns left. The result is what is
left of the length, and the buffer. -/
def inodeReadLoop (sb : Superblock) (inode : Inode) (m : Bmalloc) (sector : ℕ) :
    ℕ → (blkoff ibloff bufoff length : ℕ) → (iblock buffer : Bytes) → ℕ × Bytes
  | 0, _, _, _, length, _, buffer => (length, buffer)
  | n + 1, blkoff, ibloff, bufoff, length, iblock, buffer =>
    if length = 0 then (length, buffer)
    else
      let ibloff := if blkoff ≠ 0 then 0 else ibloff
      let remlen := min (sub32 sb.blockSize ibloff) length
      let offset := u32 (u64 (u64 (blkoff + sector) * sb.blockSize))
      let blkidx := ext2fsInodeBlock sb inode (m.call (blkoff + 1)) offset
      if blkidx = 0 then (length, buffer)
      else
        match superblockReadBlock sb blkidx iblock with
        | none => (length, buffer)
        | some iblock =>
          let buffer := memcpy buffer bufoff iblock ibloff remlen
          inodeReadLoop sb inode m sector n (blkoff + 1) ibloff (u32 (bufoff + remlen))
            (sub32 length remlen) iblock buffer

/-- `ext2fs_inode_read`: its result as a `uint32_t`, and the buffer. -/
def ext2fsInodeRead (sb : Superblock) (inode : Inode) (m : Bmalloc) (offset length : ℕ)
    (buffer : Bytes) : ℕ × Bytes :=
  match m.call 0 sb.blockSize with
  | none => (sub32 0 12, buffer)
  | some iblock =>
    let sblnum := u64 ((div (sub32 length 1) sb.blockSize).1 + 1)
    let (sector, ibloff) := div offset sb.blockSize
    let (left, buffer) := inodeReadLoop sb inode m sector sblnum 0 ibloff 0 length iblock buffer
    (sub32 length left, buffer)

/-! ### The pointer tree -/

variable {sb : Superblock} {inode : Inode}

/-- Entry `i` of the block of pointers `blk`. -/
def pointer (sb : Superblock) (blk i : ℕ) : ℕ :=
  le32 sb.bdev.byte (blk * sb.blockSize + i * ext2MlpLen)

/-- Entry `r` of a tree of pointers of the given height under a block. -/
def treeEntry (sb : Superblock) : ℕ → ℕ → ℕ → ℕ
  | 0, blk, _ => blk
  | k + 1, blk, r =>
    treeEntry sb k (pointer sb blk (r / blkibn sb ^ k)) (r % blkibn sb ^ k)

/-- What ext2 defines to be block `c` of a file. -/
def treeBlock (sb : Superblock) (inode : Inode) (c : ℕ) : ℕ :=
  let N := blkibn sb
  if c < 12 then inode.dbp c
  else if c - 12 < N then treeEntry sb 1 (inode.dbp 12) (c - 12)
  else if c - 12 - N < N ^ 2 then treeEntry sb 2 (inode.dbp 13) (c - 12 - N)
  else treeEntry sb 3 (inode.dbp 14) (c - 12 - N - N ^ 2)

end Elfboot.Ext2
