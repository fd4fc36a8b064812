import Elfboot.Ext2Dir
import Elfboot.FileRead

/-!
The byte addresses on a disk that the file systems compute.
-/

namespace Elfboot.DiskAddress

open Elfboot.Word Elfboot.Buffer Elfboot.Super Elfboot.Ext2Dir Elfboot.FileRead

/-- The offset that `isofs_read` passes to `superblock_read_offset`. -/
def isofsReadOffset (blockSize inode offset : ℕ) : ℕ := u64 (u32 (blockSize * inode) + offset)

/-- The offset of a group descriptor in `ext2fs_inode_find`. -/
def descOffset (blockSize blkgrp : ℕ) : ℕ :=
  let offset := if blockSize < 2048 then blockSize * 2 else blockSize
  u64 (offset + u32 (ext2BlkgrpDescSize * blkgrp))

/-- The offset of an inode in `ext2fs_inode_find`. -/
def inodeOffset (blockSize inodeSize inodeTableBlock inoidx : ℕ) : ℕ :=
  let offset := u32 (inodeTableBlock * blockSize)
  u64 (offset + u32 (inoidx * inodeSize))

variable (sb : Superblock) (esb : Ext2Superblock)

/-- `ext2fs_inode_find`, with the offsets it passes to `superblock_read_offset`. -/
def ext2fsInodeFindOffsets (m : Bmalloc) (bdesc : Bytes) (ino : ℕ) : Option Bytes × List ℕ :=
  match m.call 1 esb.inodeSize with
  | none => (none, [])
  | some inode =>
    let blkgrp := sub32 ino 1 / esb.inodesPerGroup
    let offset := descOffset sb.blockSize blkgrp
    let desc := superblockReadOffset sb (m.call 2) offset ext2BlkgrpDescSize bdesc
    if desc.1 ≠ 0 then (none, [offset])
    else
      let inoidx := sub32 ino 1 % esb.inodesPerGroup
      let offset' := inodeOffset sb.blockSize esb.inodeSize (le32 desc.2 8) inoidx
      let found := superblockReadOffset sb (m.call 3) offset' esb.inodeSize inode
      (if found.1 ≠ 0 then none else some found.2, [offset, offset'])

variable {sb esb} {m : Bmalloc} {bdesc buffer : Bytes} {ino offset length : ℕ}

lemma isofsRead_eq (inode : ℕ) (bmalloc : ℕ → Option Bytes) :
    isofsRead sb inode bmalloc offset length buffer =
      if (superblockReadOffset sb bmalloc (isofsReadOffset sb.blockSize inode offset) length
          buffer).1 ≠ 0 then
        (sub32 0 14, (superblockReadOffset sb bmalloc (isofsReadOffset sb.blockSize inode offset)
          length buffer).2)
      else (length, (superblockReadOffset sb bmalloc (isofsReadOffset sb.blockSize inode offset)
        length buffer).2) := rfl

lemma ext2fsInodeFindOffsets_fst (m : Bmalloc) (bdesc : Bytes) (ino : ℕ) :
    (ext2fsInodeFindOffsets sb esb m bdesc ino).1 = ext2fsInodeFind sb esb m bdesc ino := by
  unfold ext2fsInodeFindOffsets ext2fsInodeFind
  cases m.call 1 esb.inodeSize with
  | none => rfl
  | some inode =>
    dsimp only [descOffset, inodeOffset]
    by_cases hdesc : (superblockReadOffset sb (m.call 2)
        (descOffset sb.blockSize (sub32 ino 1 / esb.inodesPerGroup)) ext2BlkgrpDescSize
        bdesc).1 ≠ 0
    · exact (congrArg Prod.fst (if_pos hdesc)).trans (if_pos hdesc).symm
    · exact (congrArg Prod.fst (if_neg hdesc)).trans (if_neg hdesc).symm

/-! ### Where things are -/

/-- The table of group descriptors begins with the block behind the superblock, which takes the
bytes from 1024 to 2048. -/
def tableStart (blockSize : ℕ) : ℕ := (2048 + blockSize - 1) / blockSize * blockSize

/-- The place of the group descriptor of an inode. -/
def descPlace (sb : Superblock) (esb : Ext2Superblock) (ino : ℕ) : ℕ :=
  tableStart sb.blockSize + ext2BlkgrpDescSize * ((ino - 1) / esb.inodesPerGroup)

/-- The group descriptor of an inode, as it is read, with the result of the read. -/
def desc (sb : Superblock) (esb : Ext2Superblock) (m : Bmalloc) (bdesc : Bytes) (ino : ℕ) :
    ℤ × Bytes :=
  superblockReadOffset sb (m.call 2) (descPlace sb esb ino) ext2BlkgrpDescSize bdesc

def inodeTableBlock (desc : ℤ × Bytes) : ℕ := le32 desc.2 8

/-- The place of an inode. -/
def inodePlace (sb : Superblock) (esb : Ext2Superblock) (table ino : ℕ) : ℕ :=
  table * sb.blockSize + (ino - 1) % esb.inodesPerGroup * esb.inodeSize

/-- The offsets that are passed are the places. -/
structure FindsExactly (sb : Superblock) (esb : Ext2Superblock) (m : Bmalloc) (bdesc : Bytes)
    (ino : ℕ) : Prop where
  descriptor : ∀ offset, (ext2fsInodeFindOffsets sb esb m bdesc ino).2[0]? = some offset →
    offset = descPlace sb esb ino
  inode : ∀ offset, (ext2fsInodeFindOffsets sb esb m bdesc ino).2[1]? = some offset →
    offset = inodePlace sb esb (inodeTableBlock (desc sb esb m bdesc ino)) ino

/-! ### Words -/

/-- A sum with a product that is taken as a word is exact where neither wraps. -/
lemma u64_u32_add_iff (a b : ℕ) : u64 (u32 a + b) = a + b ↔ a < 2 ^ 32 ∧ a + b < 2 ^ 64 := by
  unfold u64 u32
  omega

lemma two_words_iff (a b : ℕ) :
    u64 (u32 a + u32 b) = a + b ↔ a < 2 ^ 32 ∧ b < 2 ^ 32 := by
  unfold u64 u32
  omega

/-- The table is where the code looks for it, for the block sizes of ext2. -/
lemma tableStart_eq (sb : Superblock) (h : 1024 ≤ sb.blockSize) : tableStart sb.blockSize =
    if sb.blockSize < 2048 then sb.blockSize * 2 else sb.blockSize := by
  have hlogs : 10 ≤ sb.blockLogs :=
    (Nat.pow_le_pow_iff_right Nat.one_lt_two).1 (show 2 ^ 10 ≤ 2 ^ sb.blockLogs from h)
  unfold tableStart
  rcases Nat.eq_or_lt_of_le hlogs with h10 | h11
  · have hB : sb.blockSize = 1024 := congrArg (2 ^ ·) h10.symm
    rw [hB]
    decide
  · have hB : 2048 ≤ sb.blockSize :=
      (Nat.pow_le_pow_right Nat.two_pos h11 : 2 ^ 11 ≤ 2 ^ sb.blockLogs)
    have hdiv : (2048 + sb.blockSize - 1) / sb.blockSize = 1 :=
      Nat.div_eq_of_lt_le (by omega) (by omega)
    rw [if_neg (not_lt.2 hB), hdiv, Nat.one_mul]

/-- With smaller blocks the table begins behind the place where it is looked for. -/
lemma lt_tableStart {blockSize : ℕ} (hpos : 0 < blockSize) (h : blockSize < 1024) :
    blockSize * 2 < tableStart blockSize := by
  have hdiv := Nat.div_add_mod (2048 + blockSize - 1) blockSize
  have hmod := Nat.mod_lt (2048 + blockSize - 1) hpos
  unfold tableStart
  rw [Nat.mul_comm blockSize] at hdiv
  omega

/-! ### When the addresses are exact -/

/-- The descriptor is looked for at its place. -/
lemma descOffset_iff (hino : 1 ≤ ino) (hlt : ino < 2 ^ 32) :
    descOffset sb.blockSize (sub32 ino 1 / esb.inodesPerGroup) = descPlace sb esb ino ↔
      1024 ≤ sb.blockSize ∧ ext2BlkgrpDescSize * ((ino - 1) / esb.inodesPerGroup) < 2 ^ 32 := by
  have hB := sb.blockSize_lt
  rw [sub32_of_le hino hlt]
  unfold descOffset descPlace u64 u32
  dsimp only
  generalize ext2BlkgrpDescSize * ((ino - 1) / esb.inodesPerGroup) = d
  rcases Nat.lt_or_ge sb.blockSize 1024 with hsmall | hbig
  · have hstart := lt_tableStart sb.blockSize_pos hsmall
    rw [if_pos (by omega)]
    omega
  · rw [tableStart_eq sb hbig]
    split_ifs <;> omega

lemma findsExactly_none (h : m.call 1 esb.inodeSize = none) :
    FindsExactly sb esb m bdesc ino := by
  have hlog : (ext2fsInodeFindOffsets sb esb m bdesc ino).2 = [] := by
    unfold ext2fsInodeFindOffsets
    rw [h]
  refine ⟨fun offset hoff => ?_, fun offset hoff => ?_⟩ <;> rw [hlog] at hoff <;> cases hoff

/-- With memory for the inode, the descriptor is read, and then the inode if that worked. -/
lemma findsExactly_some {inode : Bytes} (h : m.call 1 esb.inodeSize = some inode) :
    FindsExactly sb esb m bdesc ino ↔
      descOffset sb.blockSize (sub32 ino 1 / esb.inodesPerGroup) = descPlace sb esb ino ∧
        ((desc sb esb m bdesc ino).1 ≠ 0 ∨
          inodeOffset sb.blockSize esb.inodeSize (inodeTableBlock (desc sb esb m bdesc ino))
              (sub32 ino 1 % esb.inodesPerGroup) =
            inodePlace sb esb (inodeTableBlock (desc sb esb m bdesc ino)) ino) := by
  have hfirst : (ext2fsInodeFindOffsets sb esb m bdesc ino).2[0]? =
      some (descOffset sb.blockSize (sub32 ino 1 / esb.inodesPerGroup)) := by
    unfold ext2fsInodeFindOffsets
    rw [h]
    dsimp only
    split_ifs <;> rfl
  by_cases hplace : descOffset sb.blockSize (sub32 ino 1 / esb.inodesPerGroup) =
      descPlace sb esb ino
  · have hsecond : (ext2fsInodeFindOffsets sb esb m bdesc ino).2[1]? =
        if (desc sb esb m bdesc ino).1 ≠ 0 then none
        else some (inodeOffset sb.blockSize esb.inodeSize
          (inodeTableBlock (desc sb esb m bdesc ino)) (sub32 ino 1 % esb.inodesPerGroup)) := by
      unfold ext2fsInodeFindOffsets
      rw [h]
      dsimp only
      rw [hplace]
      unfold desc inodeTableBlock
      split_ifs <;> rfl
    rw [and_iff_right hplace]
    constructor
    · intro hfinds
      by_cases hread : (desc sb esb m bdesc ino).1 ≠ 0
      · exact Or.inl hread
      · rw [if_neg hread] at hsecond
        exact Or.inr (hfinds.inode _ hsecond)
    · intro hor
      refine ⟨fun offset hoff => ?_, fun offset hoff => ?_⟩
      · rw [hfirst, Option.some_inj] at hoff
        exact hoff.symm.trans hplace
      · rw [hsecond] at hoff
        split_ifs at hoff with hread
        exact (Option.some_inj.1 hoff).symm.trans (hor.resolve_left hread)
  · exact iff_of_false (fun hfinds => hplace (hfinds.descriptor _ hfirst)) fun hand =>
      hplace hand.1

/-- **Disk addresses are exact**: of a byte of an ISO file where the byte address of its extent
is below 4 GiB and its own below 2 ^ 64; of an ext2 inode where the blocks are of 1024 bytes at
least and the offsets of its descriptor in the table, of the inode table on the disk, and of the
inode in the inode table are all below 4 GiB, as far as the function comes to them. -/
theorem addresses_iff (sb : Superblock) (esb : Ext2Superblock) :
    (∀ blockSize extent offset, isofsReadOffset blockSize extent offset =
        blockSize * extent + offset ↔
      blockSize * extent < 2 ^ 32 ∧ blockSize * extent + offset < 2 ^ 64) ∧
    ∀ m bdesc ino, 1 ≤ ino → ino < 2 ^ 32 → (FindsExactly sb esb m bdesc ino ↔
      m.call 1 esb.inodeSize = none ∨
        (1024 ≤ sb.blockSize ∧
          ext2BlkgrpDescSize * ((ino - 1) / esb.inodesPerGroup) < 2 ^ 32) ∧
          ((desc sb esb m bdesc ino).1 ≠ 0 ∨
            inodeTableBlock (desc sb esb m bdesc ino) * sb.blockSize < 2 ^ 32 ∧
              (ino - 1) % esb.inodesPerGroup * esb.inodeSize < 2 ^ 32)) := by
  refine ⟨fun blockSize extent offset => u64_u32_add_iff _ _, fun m bdesc ino hino hlt => ?_⟩
  cases hcall : m.call 1 esb.inodeSize with
  | none => exact iff_of_true (findsExactly_none hcall) (Or.inl rfl)
  | some inode =>
    rw [or_iff_right (Option.some_ne_none inode), findsExactly_some hcall,
      descOffset_iff hino hlt, sub32_of_le hino hlt]
    exact and_congr_right fun _ => or_congr_right (two_words_iff _ _)

/-- A disk of 1024-byte blocks with nothing but zeros. -/
def zeros : Superblock := { smallSuper with bdev := { smallSuper.bdev with byte := fun _ => 0 } }

theorem addresses_iff_zeros : FindsExactly zeros ⟨8, 128⟩ plenty (fun _ => 0) 11 :=
  ((addresses_iff zeros ⟨8, 128⟩).2 plenty (fun _ => 0) 11 (by decide) (by decide)).2
    (Or.inr ⟨by decide, Or.inr (by decide +kernel)⟩)

/-- An extent and an inode table that begin at the byte 2 ^ 32. -/
theorem not_exact : isofsReadOffset 2048 (2 ^ 21) 0 ≠ 2048 * 2 ^ 21 + 0 ∧
    inodeOffset 1024 128 (2 ^ 22) 0 ≠ 2 ^ 22 * 1024 + 0 * 128 := by decide

end Elfboot.DiskAddress
