import Elfboot.Ext2Block
import Elfboot.Ext2Mount

/-!
A device and a memory that stay as they are: what the functions of `ext2fs.c` give with the heap
is what they give without it.
-/

namespace Elfboot.Ext2Steady

open Elfboot.Errno Elfboot.Word Elfboot.Buffer Elfboot.Str Elfboot.Loop Elfboot.Objects
open Elfboot.Super (Bdev)
open Elfboot.Ext2 (Inode)
open Elfboot.Ext2Dir (Ext2Superblock)
open Elfboot.Ext2Mount

/-- Whether there is memory for a size is always the same. -/
def steady (ok : ℕ → Bool) (old bdesc : Bytes) (bdev : Bdev) : Env :=
  onDevice ⟨fun _ size => if ok size then some old else none, fun _ _ _ => none, bdesc⟩ bdev

/-- The superblock as it is here. -/
def ofSuper (sb : Super.Superblock) : Superblock := ⟨sb.bdev.blockLogs, sb.blockSize, sb.blockLogs⟩

variable {ok : ℕ → Bool} {old bdesc : Bytes} {sb' : Super.Superblock}

lemma blockSize_ofSuper : (ofSuper sb').blockSize = sb'.blockSize := rfl

lemma memcpy_from (buffer src : Bytes) (start n : ℕ) :
    memcpy buffer 0 (fun i => src (start + i)) 0 n = memcpy buffer 0 src start n := by
  unfold memcpy
  simp only [Nat.zero_add]

lemma readBlock_steady (blkidx : ℕ) (buffer : Bytes) :
    Computes (superblockReadBlock (steady ok old bdesc sb'.bdev) (ofSuper sb') blkidx buffer)
      (· = Super.superblockReadBlock sb' blkidx buffer) := by
  unfold superblockReadBlock bdevRead
  refine computes_sense fun t => ?_
  by_cases hf : Super.BlockFails sb' blkidx
  · have hread : (steady ok old bdesc sb'.bdev).read t (superblockSectors (ofSuper sb') blkidx)
        (superblockSectors (ofSuper sb') 1) = none := if_pos hf
    rw [hread, Super.readBlock_fails hf, Option.map_none]
  · have hread : (steady ok old bdesc sb'.bdev).read t (superblockSectors (ofSuper sb') blkidx)
        (superblockSectors (ofSuper sb') 1) = some fun i => sb'.bdev.byte
          (Super.superblockSectors sb' blkidx * 2 ^ sb'.bdev.blockLogs + i) := if_neg hf
    rw [hread, Option.map_some, memcpy_from]
    exact (if_neg (show ¬ sb'.bdev.fails _ _ = true from hf)).symm

lemma readOffsetLoop_steady (blkidx n blkoff blkmod bufoff length : ℕ) (blkbuf buffer : Bytes) :
    Computes (readOffsetLoop (steady ok old bdesc sb'.bdev) (ofSuper sb') blkidx n blkoff blkmod
        bufoff length blkbuf buffer)
      (· = Super.readOffsetLoop sb' blkidx n blkoff blkmod bufoff length blkbuf buffer) := by
  induction n generalizing blkoff blkmod bufoff length blkbuf buffer with
  | zero => exact computes_pure rfl
  | succ n ih =>
    refine (readBlock_steady _ _).bind fun read hread => ?_
    unfold Super.readOffsetLoop
    rw [← hread]
    cases read with
    | none => exact computes_pure rfl
    | some blkbuf => exact ih _ _ _ _ _ _

lemma divide_steady {a b : ℕ} (hb : 0 < b) : Computes (divide a b) (· = (a / b, a % b)) := by
  unfold divide
  rw [if_neg hb.ne']
  exact computes_pure (archDiv_eq hb)

/-- What `bmalloc` gives to the functions without the heap. -/
def memory (ok : ℕ → Bool) (old : Bytes) : Bmalloc := ⟨fun _ size => ok size, fun _ => old⟩

lemma bmalloc_steady (i size : ℕ) : Computes (bmalloc (steady ok old bdesc sb'.bdev) size)
    fun o => o.map Prod.snd = (memory ok old).call i size := computes_allocate fun _ => rfl

/-- **Reading** gives what it does without the heap. -/
theorem readOffset_steady (i offset length : ℕ) (buffer : Bytes) :
    Computes (superblockReadOffset (steady ok old bdesc sb'.bdev) (ofSuper sb') offset length
        buffer)
      (· = Super.superblockReadOffset sb' ((memory ok old).call i) offset length buffer) := by
  refine (divide_steady sb'.blockSize_pos).bind ?_
  rintro - rfl
  refine (bmalloc_steady i _).bind fun o ho => ?_
  unfold Super.superblockReadOffset
  rw [div, archDiv_eq sb'.blockSize_pos]
  dsimp only
  rw [show (memory ok old).call i sb'.blockSize = _ from ho.symm]
  cases o with
  | none => exact computes_pure rfl
  | some o =>
    refine (readOffsetLoop_steady _ _ _ _ _ _ _ _).bind fun r hr => ?_
    exact (computes_release _).bind fun _ _ => computes_pure hr

/-! ### Blocks of a file -/

section

variable (hlogs : 10 ≤ sb'.blockLogs)
include hlogs

lemma blkmlp_pos {k : ℕ} (hk : k ≤ 2) : 0 < u32 (pow (Ext2.blkibn sb') k) := by
  rw [(Ext2Block.pow_blkibn hlogs hk).2]
  exact Nat.pow_pos (Ext2Block.blkibn_pos hlogs)

lemma indirectLoop_steady {k : ℕ} (hk : k ≤ 3) (cblock iblock : ℕ) (buffer : Bytes) :
    Computes (indirectLoop (steady ok old bdesc sb'.bdev) (ofSuper sb') cblock k iblock buffer)
      (· = Ext2.indirectLoop sb' cblock k iblock buffer) := by
  induction k generalizing iblock buffer with
  | zero => exact computes_pure rfl
  | succ k ih =>
    refine (readBlock_steady _ _).bind fun read hread => ?_
    unfold Ext2.indirectLoop
    rw [← hread]
    cases read with
    | none => exact computes_pure rfl
    | some buffer =>
      refine (divide_steady (blkmlp_pos hlogs (show k ≤ 2 by omega))).bind ?_
      rintro - rfl
      refine (divide_steady (Ext2Block.blkibn_pos hlogs)).bind ?_
      rintro - rfl
      exact ih (by omega) _ _

/-- A turn, where the divisor has not wrapped to zero. -/
lemma inodeBlockTurn_steady {inode : Inode} {n i blkmlp : ℕ} (hi : i ≤ 2)
    (hpos : 0 < u32 (blkmlp * pow (Ext2.blkibn sb') i)) (cblock blkidx : ℕ) (buffer : Bytes)
    (hrest : ∀ cblock blkidx, Computes
      (inodeBlockLoop (steady ok old bdesc sb'.bdev) (ofSuper sb') inode buffer n (i + 1)
        (u32 (blkmlp * pow (Ext2.blkibn sb') i)) cblock blkidx)
      (· = Ext2.inodeBlockLoop sb' inode buffer n (i + 1)
        (u32 (blkmlp * pow (Ext2.blkibn sb') i)) cblock blkidx)) :
    Computes (inodeBlockLoop (steady ok old bdesc sb'.bdev) (ofSuper sb') inode buffer (n + 1) i
        blkmlp cblock blkidx)
      (· = Ext2.inodeBlockLoop sb' inode buffer (n + 1) i blkmlp cblock blkidx) := by
  refine (divide_steady hpos).bind ?_
  rintro - rfl
  exact computes_ite (R := fun blk r => blk = r) (hrest _ _)
    (indirectLoop_steady hlogs (Nat.succ_le_succ hi) _ _ _)

/-- The multiplier of the last turn is the cube of the pointers in a block, which has room in a
word for blocks up to 4 KiB. -/
lemma inodeBlockLoop_steady (hlarge : sb'.blockLogs ≤ 12) (inode : Inode) (cblock : ℕ)
    (buffer : Bytes) : Computes (inodeBlockLoop (steady ok old bdesc sb'.bdev) (ofSuper sb') inode
        buffer 3 0 1 cblock 0)
      (· = Ext2.inodeBlockLoop sb' inode buffer 3 0 1 cblock 0) := by
  have hN := Ext2Block.blkibn_pos hlogs
  have hlt : Ext2.blkibn sb' * Ext2.blkibn sb' ^ 2 < 2 ^ 32 :=
    calc Ext2.blkibn sb' * Ext2.blkibn sb' ^ 2
        = 2 ^ (sb'.blockLogs - 2 + (sb'.blockLogs - 2) * 2) := by
          rw [Ext2Block.blkibn_eq hlogs, ← pow_mul, ← pow_add]
      _ < 2 ^ 32 := Nat.pow_lt_pow_right (by decide) (by omega)
  have h0 : u32 (1 * pow (Ext2.blkibn sb') 0) = 1 := by
    rw [(Ext2Block.pow_blkibn hlogs (Nat.zero_le 2)).1]
    rfl
  have h1 : u32 (1 * pow (Ext2.blkibn sb') 1) = Ext2.blkibn sb' := by
    rw [Nat.one_mul, (Ext2Block.pow_blkibn hlogs (show 1 ≤ 2 by decide)).2, pow_one]
  have h2 : 0 < u32 (Ext2.blkibn sb' * pow (Ext2.blkibn sb') 2) := by
    rw [(Ext2Block.pow_blkibn hlogs le_rfl).1, u32_of_lt hlt]
    exact Nat.mul_pos hN (Nat.pow_pos hN)
  refine inodeBlockTurn_steady hlogs (by decide) (by rw [h0]; decide) _ _ _ fun _ _ => ?_
  rw [h0]
  refine inodeBlockTurn_steady hlogs (by decide) (by rw [h1]; exact hN) _ _ _ fun _ _ => ?_
  rw [h1]
  exact inodeBlockTurn_steady hlogs le_rfl h2 _ _ _ fun _ _ => computes_pure rfl

variable (hlarge : sb'.blockLogs ≤ 12)
include hlarge

lemma inodeBlock_steady (i : ℕ) (inode : Inode) (offset : ℕ) :
    Computes (ext2fsInodeBlock (steady ok old bdesc sb'.bdev) (ofSuper sb') inode offset)
      (· = Ext2.ext2fsInodeBlock sb' inode ((memory ok old).call i) offset) := by
  refine (divide_steady sb'.blockSize_pos).bind ?_
  rintro - rfl
  refine computes_ite (R := fun blk r => blk = r) (computes_pure rfl) ?_
  refine (bmalloc_steady i _).bind fun o ho => ?_
  rw [show (memory ok old).call i sb'.blockSize = _ from ho.symm]
  cases o with
  | none => exact computes_pure rfl
  | some o =>
    refine (inodeBlockLoop_steady hlogs hlarge inode _ _).bind fun blk hblk => ?_
    exact (computes_release _).bind fun _ _ => computes_pure hblk

lemma inodeReadLoop_steady (inode : Inode) (sector n blkoff ibloff bufoff length : ℕ)
    (iblock buffer : Bytes) :
    Computes (inodeReadLoop (steady ok old bdesc sb'.bdev) (ofSuper sb') inode sector n blkoff
        ibloff bufoff length iblock buffer)
      (· = Ext2.inodeReadLoop sb' inode (memory ok old) sector n blkoff ibloff bufoff length
        iblock buffer) := by
  induction n generalizing blkoff ibloff bufoff length iblock buffer with
  | zero => exact computes_pure rfl
  | succ n ih =>
    unfold inodeReadLoop Ext2.inodeReadLoop
    rw [blockSize_ofSuper]
    refine computes_ite (R := fun r r' => r = r') (computes_pure rfl) ?_
    refine (inodeBlock_steady hlogs hlarge (blkoff + 1) inode _).bind ?_
    rintro blkidx rfl
    refine computes_ite (R := fun r r' => r = r') (computes_pure rfl) ?_
    refine (readBlock_steady _ _).bind fun read hread => ?_
    rw [← hread]
    cases read with
    | none => exact computes_pure rfl
    | some iblock => exact ih _ _ _ _ _ _

lemma readInto_steady (inode : Inode) (offset length : ℕ) (iblock buffer : Bytes) :
    Computes (readInto (steady ok old bdesc sb'.bdev) (ofSuper sb') inode offset length iblock
        buffer)
      (· = Ext2.inodeReadLoop sb' inode (memory ok old) (offset / sb'.blockSize)
        (u64 (sub32 length 1 / sb'.blockSize + 1)) 0 (offset % sb'.blockSize) 0 length iblock
        buffer) := by
  unfold readInto
  rw [blockSize_ofSuper]
  refine (divide_steady sb'.blockSize_pos).bind ?_
  rintro - rfl
  refine (divide_steady sb'.blockSize_pos).bind ?_
  rintro - rfl
  exact inodeReadLoop_steady hlogs hlarge inode _ _ _ _ _ _ _ _

lemma inodeRead_steady (inode : Inode) (offset length : ℕ) (buffer : Bytes) :
    Computes (ext2fsInodeRead (steady ok old bdesc sb'.bdev) (ofSuper sb') inode offset length
        buffer)
      (· = Ext2.ext2fsInodeRead sb' inode (memory ok old) offset length buffer) := by
  have hinto := @readInto_steady ok old bdesc sb' hlogs hlarge inode offset length
  -- the number of turns is not to be computed
  obtain ⟨last, hlast⟩ : ∃ last, sub32 length 1 = last := ⟨_, rfl⟩
  unfold ext2fsInodeRead Ext2.ext2fsInodeRead
  rw [hlast] at hinto ⊢
  rw [blockSize_ofSuper, div, div, archDiv_eq sb'.blockSize_pos, archDiv_eq sb'.blockSize_pos]
  refine (bmalloc_steady 0 _).bind fun o ho => ?_
  rw [← ho]
  cases o with
  | none => exact computes_pure rfl
  | some o =>
    refine (hinto o.2 buffer).bind ?_
    rintro r rfl
    exact (computes_release _).bind fun _ _ => computes_pure rfl

end

/-! ### Nodes -/

/-- A node, less the objects that it and its inode are. -/
def view (node : FsNode) : Ext2Dir.FsNode := ⟨node.name, node.inode, node.length, node.priv.2⟩

variable {esb : Ext2Superblock}

/-- **Inodes** are found as they are without the heap. -/
theorem inodeFind_steady (hgroup : 0 < esb.inodesPerGroup) (ino : ℕ) :
    Computes (ext2fsInodeFind (steady ok old bdesc sb'.bdev) (ofSuper sb') esb ino)
      fun found => found.map Prod.snd =
        Ext2Dir.ext2fsInodeFind sb' esb (memory ok old) bdesc ino := by
  refine (bmalloc_steady 1 _).bind fun o ho => ?_
  unfold Ext2Dir.ext2fsInodeFind
  rw [← ho]
  cases o with
  | none => exact computes_pure rfl
  | some o =>
    refine (divide_steady hgroup).bind ?_
    rintro - rfl
    refine (readOffset_steady 2 _ _ _).bind ?_
    rintro desc rfl
    refine computes_ite (R := fun found r => Option.map Prod.snd found = r) (computes_pure rfl) ?_
    refine (readOffset_steady 3 _ _ _).bind ?_
    rintro found rfl
    exact computes_ite (R := fun found r => Option.map Prod.snd found = r) (computes_pure rfl)
      (computes_pure rfl)

/-- **Nodes** are those that there are without the heap. -/
theorem allocDent_steady (hgroup : 0 < esb.inodesPerGroup) (ino : ℕ) (name : List UInt8) :
    Computes (ext2fsAllocDent (steady ok old bdesc sb'.bdev) (ofSuper sb') esb ino name)
      fun node => node.map view =
        Ext2Dir.ext2fsAllocDent sb' esb (memory ok old) bdesc ino name := by
  refine (bmalloc_steady 0 _).bind fun o ho => ?_
  unfold Ext2Dir.ext2fsAllocDent
  rw [← ho]
  cases o with
  | none => exact computes_pure rfl
  | some o =>
    refine (inodeFind_steady hgroup ino).bind fun found hfound => ?_
    dsimp only [Option.map_some]
    rw [← hfound]
    cases found with
    | none => exact (computes_release _).bind fun _ _ => computes_pure rfl
    | some inode => exact computes_pure rfl

/-- The walk over the directory is the same, and finds a record that a node is made from. -/
lemma finddirLoop_eq (mem : Bytes) (name : List UInt8) (k pos : ℕ) :
    loop (Ext2Dir.finddirTurn sb' esb (memory ok old) bdesc mem name) k pos =
      (loop (finddirTurn mem name) k pos).map fun found => found.bind fun dpos =>
        Ext2Dir.ext2fsAllocDent sb' esb (memory ok old) bdesc (le32 mem dpos) name := by
  induction k generalizing pos with
  | zero => rfl
  | succ k ih =>
    unfold loop Ext2Dir.finddirTurn finddirTurn
    dsimp only
    split_ifs
    · rfl
    · exact ih _
    · rfl

/-- **A name** is looked up as it is without the heap, wherever the walk ends. -/
theorem finddir_steady (hlogs : 10 ≤ sb'.blockLogs) (hlarge : sb'.blockLogs ≤ 12)
    (hgroup : 0 < esb.inodesPerGroup) {inode : Inode} {name : List UInt8} {k : ℕ}
    {found : Option Ext2Dir.FsNode}
    (h : Ext2Dir.ext2fsFinddir sb' esb inode ((memory ok old).call 0 inode.sizeLower)
      (memory ok old) (memory ok old) bdesc name k = some found) :
    Computes (ext2fsFinddir (steady ok old bdesc sb'.bdev) (ofSuper sb') esb inode name k)
      fun node => node.map view = found := by
  refine (bmalloc_steady 0 _).bind fun o ho => ?_
  unfold Ext2Dir.ext2fsFinddir at h
  rw [← ho] at h
  cases o with
  | none => exact computes_pure (Option.some_inj.1 h)
  | some o =>
    refine Computes.bind (P := fun node => node.map view = found) ?_ fun node hnode =>
      (computes_release _).bind fun _ _ => computes_pure hnode
    refine (inodeRead_steady hlogs hlarge inode 0 _ _).bind fun read hread => ?_
    dsimp only [Option.map_some] at h
    rw [← hread] at h
    by_cases hsize : read.1 ≠ inode.sizeLower
    · rw [if_pos hsize] at h ⊢
      exact computes_pure (Option.some_inj.1 h)
    rw [if_neg hsize] at h ⊢
    by_cases hempty : inode.sizeLower = 0
    · rw [if_pos hempty] at h ⊢
      exact computes_pure (Option.some_inj.1 h)
    rw [if_neg hempty, finddirLoop_eq, Option.map_eq_some_iff] at h
    obtain ⟨record, hloop, rfl⟩ := h
    rw [if_neg hempty]
    refine (computes_ofOption hloop).bind ?_
    rintro record' rfl
    cases record' with
    | none => exact computes_pure rfl
    | some dpos => exact allocDent_steady hgroup _ name

end Elfboot.Ext2Steady
