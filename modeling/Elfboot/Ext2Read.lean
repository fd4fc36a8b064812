import Elfboot.Ext2

/-!
Reading a range of a file.

The number of turns is taken from the length alone, as if the range began at the start of a
block. It is one short where the range, with what comes before it in its first block, needs
a block more.
-/

namespace Elfboot.Ext2Read

open Elfboot.Word Elfboot.Buffer Elfboot.Super Elfboot.Ext2

variable {sb : Superblock} {inode : Inode} {m : Bmalloc} {blocks : ℕ → ℕ}
variable {sector offset length : ℕ}

/-- The data blocks of a file are mapped: `ext2fs_inode_block` finds one for each. The first
buffer that is allocated is for the data, the others are for the pointers. -/
def Mapped (sb : Superblock) (inode : Inode) (m : Bmalloc) (blocks : ℕ → ℕ) : Prop :=
  ∀ k, k * sb.blockSize < inode.sizeLower → blocks k ≠ 0 ∧
    ∀ i, ext2fsInodeBlock sb inode (m.call (i + 1)) (k * sb.blockSize) = blocks k

/-- The bytes of a file whose blocks are given. -/
def fileBytes (sb : Superblock) (blocks : ℕ → ℕ) : Bytes := fun j =>
  sb.bdev.byte (blocks (j / sb.blockSize) * sb.blockSize + j % sb.blockSize)

/-! ### Blocks are words -/

lemma indirectLoop_lt {c : ℕ} : ∀ {k blk : ℕ} {buffer : Bytes}, blk < 2 ^ 32 →
    indirectLoop sb c k blk buffer < 2 ^ 32
  | 0, _, _, h => h
  | k + 1, blk, buffer, h => by
    unfold indirectLoop
    dsimp only
    split
    · decide
    · exact indirectLoop_lt (le32_lt _ _)

lemma inodeBlockLoop_lt {buffer : Bytes} : ∀ {n i mlp c blk : ℕ}, blk < 2 ^ 32 →
    inodeBlockLoop sb inode buffer n i mlp c blk < 2 ^ 32
  | 0, _, _, _, _, h => h
  | n + 1, i, mlp, c, blk, h => by
    unfold inodeBlockLoop
    dsimp only
    split
    · exact inodeBlockLoop_lt ((Nat.div_le_self _ _).trans_lt (Nat.mod_lt _ (by decide)))
    · exact indirectLoop_lt (inode.dbp_lt _)

lemma inodeBlock_lt {bmalloc : ℕ → Option Bytes} :
    ext2fsInodeBlock sb inode bmalloc offset < 2 ^ 32 := by
  unfold ext2fsInodeBlock
  dsimp only
  split
  · exact inode.dbp_lt _
  · split
    · decide
    · exact inodeBlockLoop_lt (by decide)

/-! ### The loop -/

lemma readLoop_done {n blkoff ibloff bufoff : ℕ} {iblock buffer : Bytes} :
    inodeReadLoop sb inode m sector n blkoff ibloff bufoff 0 iblock buffer = (0, buffer) := by
  cases n <;> simp [inodeReadLoop]

/-- What a turn does to a range with blocks behind it: the offset it asks for. -/
lemma turn_offset {k : ℕ} (h : k * sb.blockSize < 2 ^ 32) :
    u32 (u64 (u64 k * sb.blockSize)) = k * sb.blockSize := by
  have hk : k ≤ k * sb.blockSize := Nat.le_mul_of_pos_right _ sb.blockSize_pos
  rw [u64_of_lt (show k < 2 ^ 64 by omega), u64_of_lt (by omega), u32_of_lt h]

/-- The block that turn `t` asks for, and whether it is there to be read. -/
def turnBlock (sb : Superblock) (inode : Inode) (m : Bmalloc) (sector t : ℕ) : ℕ :=
  ext2fsInodeBlock sb inode (m.call (t + 1)) (u32 (u64 (u64 (t + sector) * sb.blockSize)))

def There (sb : Superblock) (blk : ℕ) : Prop := blk ≠ 0 ∧ ¬ BlockFails sb blk

/-- The loop reads the blocks it asks for, as far as its turns go. `o` is where in the block
at hand it begins. -/
lemma readLoop_reads (sector : ℕ) (hbd : sb.bdev.blockLogs ≤ sb.blockLogs) :
    ∀ (n blkoff ibloff o bufoff length : ℕ) (iblock buffer : Bytes),
      (if blkoff ≠ 0 then 0 else ibloff) = o → o < sb.blockSize → bufoff + length < 2 ^ 32 →
      (∀ t < blocksFor sb.blockSize o length, There sb (turnBlock sb inode m sector (blkoff + t))) →
      ∃ buffer', inodeReadLoop sb inode m sector n blkoff ibloff bufoff length iblock buffer =
          (length - min length (n * sb.blockSize - o), buffer') ∧
        Copied buffer buffer' bufoff (fileBytes sb (turnBlock sb inode m sector))
          (blkoff * sb.blockSize + o) (min length (n * sb.blockSize - o))
  | 0, blkoff, ibloff, o, bufoff, length, iblock, buffer, _, _, _, _ => by
    have h0 : min length (0 * sb.blockSize - o) = 0 := by simp
    rw [h0]
    exact ⟨buffer, rfl, copied_zero _ _ _ _⟩
  | n + 1, blkoff, ibloff, o, bufoff, length, iblock, buffer, ho, hlt, h32, hthere => by
    rcases Nat.eq_zero_or_pos length with rfl | hpos
    · rw [Nat.zero_min]
      exact ⟨buffer, readLoop_done, copied_zero _ _ _ _⟩
    have hB := sb.blockSize_pos
    have hBlt := sb.blockSize_lt
    rw [blocksFor_pos hB hlt hpos] at hthere
    obtain ⟨hne, hf⟩ := hthere 0 (Nat.succ_pos _)
    rw [Nat.add_zero] at hne hf
    have hlt32 : turnBlock sb inode m sector blkoff < 2 ^ 32 := inodeBlock_lt
    have h64 : turnBlock sb inode m sector blkoff * sb.blockSize < 2 ^ 64 := by nlinarith
    have hsub : sub32 sb.blockSize o = sb.blockSize - o := sub32_of_le hlt.le (by omega)
    have hblk : ext2fsInodeBlock sb inode (m.call (blkoff + 1))
        (u32 (u64 (u64 (blkoff + sector) * sb.blockSize))) =
      turnBlock sb inode m sector blkoff := rfl
    unfold inodeReadLoop
    rw [if_neg (by omega)]
    simp only [ho, hsub, hblk, if_neg hne, readBlock_eq hbd h64 hf]
    generalize hr : min (sb.blockSize - o) length = r at hthere ⊢
    rw [u32_of_lt (by omega), sub32_of_le (by omega) (by omega)]
    have hbuf : ∀ k < r, blockBytes sb (turnBlock sb inode m sector blkoff) iblock (o + k) =
        fileBytes sb (turnBlock sb inode m sector) (blkoff * sb.blockSize + o + k) := by
      intro k hk
      have hok : o + k < sb.blockSize := by omega
      rw [blockBytes_at hok, fileBytes, Nat.add_assoc, Nat.mul_comm blkoff, Nat.mul_add_div hB,
        Nat.div_eq_of_lt hok, Nat.mul_add_mod, Nat.mod_eq_of_lt hok, Nat.add_zero]
    have hmul : (n + 1) * sb.blockSize = n * sb.blockSize + sb.blockSize := Nat.succ_mul _ _
    rcases Nat.lt_or_ge (sb.blockSize - o) length with hlong | hshort
    · -- the next turn begins with the next block
      have hnext : (blkoff + 1) * sb.blockSize + 0 = blkoff * sb.blockSize + o + r := by
        have : (blkoff + 1) * sb.blockSize = blkoff * sb.blockSize + sb.blockSize :=
          Nat.succ_mul _ _
        omega
      obtain ⟨buffer', h1, h2⟩ := readLoop_reads sector hbd n (blkoff + 1) o 0 (bufoff + r)
        (length - r) (blockBytes sb (turnBlock sb inode m sector blkoff) iblock)
        (memcpy buffer bufoff (blockBytes sb (turnBlock sb inode m sector blkoff) iblock) o r)
        (if_pos (Nat.succ_ne_zero blkoff)) hB (by omega) fun t ht => by
          have := hthere (t + 1) (by omega)
          rwa [show blkoff + (t + 1) = blkoff + 1 + t by omega] at this
      have hmin : min length ((n + 1) * sb.blockSize - o) =
          r + min (length - r) (n * sb.blockSize - 0) := by omega
      rw [hnext] at h2
      refine ⟨buffer', ?_, ?_⟩
      · rw [h1, hmin]
        congr 1; omega
      · rw [hmin]
        exact h2.piece hbuf
    · -- this is the last one
      have hrl : length - r = 0 := by omega
      have hmin : min length ((n + 1) * sb.blockSize - o) = r + 0 := by omega
      rw [hrl, readLoop_done, hmin]
      refine ⟨_, by rw [show length - (r + 0) = 0 by omega], ?_⟩
      exact (copied_zero _ _ _ _).piece hbuf

lemma Mapped.turnBlock (hm : Mapped sb inode m blocks) {t : ℕ}
    (hk : (t + sector) * sb.blockSize < inode.sizeLower) :
    turnBlock sb inode m sector t = blocks (t + sector) := by
  have hlt := inode.size_lt
  unfold Ext2Read.turnBlock
  rw [turn_offset (by omega)]
  exact (hm _ hk).2 t

/-- The loop reads the file from where it is on, as far as its turns go. -/
lemma readLoop_ok (sector : ℕ) (hbd : sb.bdev.blockLogs ≤ sb.blockLogs)
    (hf : ∀ blk, ¬ BlockFails sb blk) (hm : Mapped sb inode m blocks)
    (n blkoff ibloff o bufoff length : ℕ) (iblock buffer : Bytes)
    (ho : (if blkoff ≠ 0 then 0 else ibloff) = o) (hlt : o < sb.blockSize)
    (hsize : (blkoff + sector) * sb.blockSize + o + length ≤ inode.sizeLower)
    (h32 : bufoff + length < 2 ^ 32) :
    ∃ buffer', inodeReadLoop sb inode m sector n blkoff ibloff bufoff length iblock buffer =
        (length - min length (n * sb.blockSize - o), buffer') ∧
      Copied buffer buffer' bufoff (fileBytes sb blocks) ((blkoff + sector) * sb.blockSize + o)
        (min length (n * sb.blockSize - o)) := by
  have hB := sb.blockSize_pos
  -- byte `k` of the range is in the block of turn `blkoff + t`, which is one of the file's
  have hturn : ∀ {k t : ℕ}, t * sb.blockSize ≤ o + k → k < length →
      turnBlock sb inode m sector (blkoff + t) = blocks (blkoff + t + sector) := by
    intro k t ht hk
    apply hm.turnBlock
    have : (blkoff + t + sector) * sb.blockSize =
      (blkoff + sector) * sb.blockSize + t * sb.blockSize := by ring
    omega
  obtain ⟨buffer', h1, h2⟩ := readLoop_reads sector hbd n blkoff ibloff o bufoff length iblock
    buffer ho hlt h32 fun t ht => by
      unfold blocksFor at ht
      split_ifs at ht with h0
      · omega
      have hle := (Nat.le_div_iff_mul_le hB).mp (Nat.lt_succ_iff.mp ht)
      rw [hturn (k := length - 1) (t := t) (by omega) (by omega)]
      refine ⟨(hm _ ?_).1, hf _⟩
      have : (blkoff + t + sector) * sb.blockSize =
        (blkoff + sector) * sb.blockSize + t * sb.blockSize := by ring
      omega
  refine ⟨buffer', h1, h2.congr fun k hk => ?_⟩
  have hle := Nat.div_mul_le_self (o + k) sb.blockSize
  unfold fileBytes
  rw [Nat.add_assoc, Nat.add_assoc, Nat.mul_comm blkoff, Nat.mul_comm (blkoff + sector),
    Nat.mul_add_div hB, Nat.mul_add_div hB, Nat.mul_add_mod, Nat.mul_add_mod,
    hturn (k := k) hle (by omega), Nat.add_right_comm]

/-- The loop writes nothing in front of where it is. -/
lemma readLoop_frame : ∀ {n blkoff ibloff bufoff length : ℕ} {iblock buffer : Bytes} {j : ℕ},
    bufoff + length < 2 ^ 32 → j < bufoff →
    (inodeReadLoop sb inode m sector n blkoff ibloff bufoff length iblock buffer).2 j = buffer j
  | 0, _, _, _, _, _, _, _, _, _ => rfl
  | n + 1, blkoff, ibloff, bufoff, length, iblock, buffer, j, h32, hj => by
    unfold inodeReadLoop
    dsimp only
    split
    · rfl
    split
    · rfl
    split
    · rfl
    · generalize hr : min (sub32 sb.blockSize (if blkoff ≠ 0 then 0 else ibloff)) length = r
      have hrl : r ≤ length := hr ▸ min_le_right _ _
      rw [u32_of_lt (by omega), sub32_of_le hrl (by omega),
        readLoop_frame (by omega) (by omega), memcpy, if_neg (by omega)]

/-! ### When the read is exact -/

/-- The heap with other bytes in the first buffer that is allocated. -/
def withFirst (m : Bmalloc) (junk : Bytes) : Bmalloc :=
  { m with holds := fun i => if i = 0 then junk else m.holds i }

/-- The read returns the length, with the bytes of the file in the buffer, whatever the
buffers held before. -/
def ReadsFile (sb : Superblock) (inode : Inode) (m : Bmalloc) (blocks : ℕ → ℕ)
    (offset length : ℕ) : Prop :=
  ∀ junk buffer : Bytes,
    (ext2fsInodeRead sb inode (withFirst m junk) offset length buffer).1 = length ∧
      ∀ i < length, (ext2fsInodeRead sb inode (withFirst m junk) offset length buffer).2 i =
        fileBytes sb blocks (offset + i)

lemma succ_ne_self (b : UInt8) : b + 1 ≠ b := by
  intro h
  have h1 : (b + 1) - b = b - b := by rw [h]
  rw [UInt8.sub_self, UInt8.add_comm, UInt8.add_sub_cancel] at h1
  exact absurd h1 (by decide)

lemma Mapped.withFirst (hm : Mapped sb inode m blocks) (junk : Bytes) :
    Mapped sb inode (withFirst m junk) blocks := hm

/-- Without memory nothing is written. -/
lemma ReadsFile.ok (h : ReadsFile sb inode m blocks offset length) (hl : 1 ≤ length) :
    m.ok 0 sb.blockSize = true := by
  by_contra hno
  have hcall : ∀ junk, (withFirst m junk).call 0 sb.blockSize = none := by
    intro junk
    simp [Bmalloc.call, Ext2Read.withFirst, hno]
  have h0 := (h (fun _ => 0) fun _ => fileBytes sb blocks offset + 1).2 0 hl
  unfold ext2fsInodeRead at h0
  rw [hcall] at h0
  exact succ_ne_self _ h0

lemma inodeRead_eq {buffer junk : Bytes} (hok : m.ok 0 sb.blockSize = true) (hl : 1 ≤ length)
    (hlt : length < 2 ^ 32) :
    ext2fsInodeRead sb inode (withFirst m junk) offset length buffer =
      let r := inodeReadLoop sb inode (withFirst m junk) (offset / sb.blockSize)
        ((length - 1) / sb.blockSize + 1) 0 (offset % sb.blockSize) 0 length junk buffer
      (sub32 length r.1, r.2) := by
  have hq : (length - 1) / sb.blockSize ≤ length - 1 := Nat.div_le_self _ _
  have hcall : (withFirst m junk).call 0 sb.blockSize = some junk := by
    simp [Bmalloc.call, Ext2Read.withFirst, hok]
  unfold ext2fsInodeRead div
  simp only [hcall, archDiv_eq sb.blockSize_pos, sub32_of_le hl hlt]
  rw [u64_of_lt (by omega)]

/-- On a device with larger blocks the first turn copies what the buffer held before. -/
lemma readLoop_large (hno : sb.blockLogs < sb.bdev.blockLogs) {n o : ℕ} {iblock buffer : Bytes}
    (ho : o < sb.blockSize) (hl : 1 ≤ length) (hlt : length < 2 ^ 32)
    (hthere : There sb (turnBlock sb inode m sector 0)) :
    (inodeReadLoop sb inode m sector (n + 1) 0 o 0 length iblock buffer).2 0 = iblock o := by
  have hB := sb.blockSize_lt
  have hblk : ext2fsInodeBlock sb inode (m.call (0 + 1))
      (u32 (u64 (u64 (0 + sector) * sb.blockSize))) = turnBlock sb inode m sector 0 := rfl
  unfold inodeReadLoop
  rw [if_neg (by omega)]
  simp only [hblk, if_neg hthere.1, readBlock_large hno hthere.2]
  rw [if_neg (by simp), sub32_of_le ho.le (by omega)]
  generalize hr : min (sb.blockSize - o) length = r
  rw [u32_of_lt (by omega), sub32_of_le (by omega) (by omega),
    readLoop_frame (by omega) (by omega), memcpy, if_pos (by omega)]
  rfl

lemma not_readsFile_of_large (hf : ∀ blk, ¬ BlockFails sb blk) (hm : Mapped sb inode m blocks)
    (hok : m.ok 0 sb.blockSize = true) (hl : 1 ≤ length) (hsize : offset + length ≤ inode.sizeLower)
    (hno : sb.blockLogs < sb.bdev.blockLogs) : ¬ ReadsFile sb inode m blocks offset length := by
  intro h
  have hlt := inode.size_lt
  have ho := Nat.mod_lt offset sb.blockSize_pos
  have hk : (0 + offset / sb.blockSize) * sb.blockSize < inode.sizeLower := by
    have := Nat.div_mul_le_self offset sb.blockSize
    rw [Nat.zero_add]
    omega
  have hthere : There sb (turnBlock sb inode (withFirst m fun _ => fileBytes sb blocks offset + 1)
      (offset / sb.blockSize) 0) := by
    rw [(hm.withFirst _).turnBlock hk]
    exact ⟨(hm _ hk).1, hf _⟩
  have h0 := (h (fun _ => fileBytes sb blocks offset + 1) fun _ => 0).2 0 hl
  rw [inodeRead_eq hok hl (by omega)] at h0
  dsimp only at h0
  rw [readLoop_large hno ho hl (by omega) hthere] at h0
  exact succ_ne_self _ h0

/-- The turns that are taken are enough exactly if the last byte lies in a block they get
to. -/
lemma turns_enough {B : ℕ} (o : ℕ) (ho : o < B) (hl : 1 ≤ length) :
    min length (((length - 1) / B + 1) * B - o) = length ↔ o + (length - 1) % B < B := by
  have hsplit := Nat.div_add_mod' (length - 1) B
  have hmul : ((length - 1) / B + 1) * B = (length - 1) / B * B + B := Nat.succ_mul _ _
  constructor
  · intro h
    omega
  · intro h
    omega

/-- **Reading a range** gives the bytes of the file exactly if there is memory for a block,
the blocks of the device are no larger than those of the file system, and the range, with
what comes before it in its first block, needs no more blocks than its length does. -/
theorem inodeRead_iff (hf : ∀ blk, ¬ BlockFails sb blk) (hm : Mapped sb inode m blocks)
    (hl : 1 ≤ length) (hsize : offset + length ≤ inode.sizeLower) :
    ReadsFile sb inode m blocks offset length ↔
      m.ok 0 sb.blockSize = true ∧ sb.bdev.blockLogs ≤ sb.blockLogs ∧
        offset % sb.blockSize + (length - 1) % sb.blockSize < sb.blockSize := by
  have hlt := inode.size_lt
  have ho := Nat.mod_lt offset sb.blockSize_pos
  have hpos : (0 + offset / sb.blockSize) * sb.blockSize + offset % sb.blockSize = offset := by
    rw [Nat.zero_add]; exact Nat.div_add_mod' _ _
  have hloop := fun (hbd : sb.bdev.blockLogs ≤ sb.blockLogs) (junk buffer : Bytes) =>
    readLoop_ok (offset / sb.blockSize) hbd hf (hm.withFirst junk)
      ((length - 1) / sb.blockSize + 1) 0 (offset % sb.blockSize) (offset % sb.blockSize) 0 length
      junk buffer (if_neg (by simp)) ho (by rw [hpos]; exact hsize) (by omega)
  rw [← turns_enough _ ho hl]
  constructor
  · intro h
    have hok : m.ok 0 sb.blockSize = true := h.ok hl
    have hbd : sb.bdev.blockLogs ≤ sb.blockLogs := by
      by_contra hno
      exact not_readsFile_of_large hf hm hok hl hsize (not_le.mp hno) h
    refine ⟨hok, hbd, ?_⟩
    obtain ⟨buffer', h1, -⟩ := hloop hbd (fun _ => 0) fun _ => 0
    have h2 := (h (fun _ => 0) fun _ => 0).1
    rw [inodeRead_eq hok hl (by omega)] at h2
    dsimp only at h2
    rw [h1, sub32_of_le (by dsimp only; omega) (by omega)] at h2
    dsimp only at h2
    omega
  · rintro ⟨hok, hbd, hmin⟩ junk buffer
    obtain ⟨buffer', h1, h2⟩ := hloop hbd junk buffer
    rw [inodeRead_eq hok hl (by omega)]
    dsimp only
    rw [h1, hmin]
    rw [hmin, hpos] at h2
    refine ⟨by rw [Nat.sub_self, sub32_of_le (Nat.zero_le _) (by omega), Nat.sub_zero], ?_⟩
    intro i hi
    dsimp only
    rw [h2 i, if_pos (by omega), Nat.sub_zero]

/-- A file system with blocks of one KiB on a device with sectors of 512 bytes. -/
def kib : Superblock :=
  { smallSuper with bdev := { smallSuper.bdev with byte := fun _ => 0 } }

/-- A file of two blocks, the first two behind the boot block. -/
def twoBlocks : Inode := ⟨2048, fun i => if i < 2 then i + 1 else 0, by decide,
  fun i => by split <;> omega⟩

lemma kib_ok (blk : ℕ) : ¬ BlockFails kib blk := Bool.false_ne_true

lemma mapped_twoBlocks : Mapped kib twoBlocks plenty (· + 1) := by
  intro k hk
  have hk2 : k < 2 := by
    have h2 : k * 1024 < 2048 := hk
    omega
  refine ⟨Nat.succ_ne_zero k, fun i => ?_⟩
  have hc : k * kib.blockSize / kib.blockSize = k := Nat.mul_div_cancel _ kib.blockSize_pos
  have h12 : k < ext2DlpNum := hk2.trans (by decide)
  unfold ext2fsInodeBlock
  rw [hc, if_pos h12]
  exact if_pos hk2

theorem inodeRead_iff_aligned : ReadsFile kib twoBlocks plenty (· + 1) 1024 1024 :=
  (inodeRead_iff kib_ok mapped_twoBlocks (by decide) (by decide)).mpr
    (by decide)

/-- Two bytes on both sides of the boundary between two blocks: only the first is read. -/
theorem not_inodeRead : ¬ ∀ (sb : Superblock) (inode : Inode) (m : Bmalloc) (blocks : ℕ → ℕ)
    (offset length : ℕ), (∀ blk, ¬ BlockFails sb blk) → Mapped sb inode m blocks →
    (∀ i size, m.ok i size = true) → sb.bdev.blockLogs ≤ sb.blockLogs → 1 ≤ length →
    offset + length ≤ inode.sizeLower → ReadsFile sb inode m blocks offset length := by
  intro h
  have h1 := (h kib twoBlocks plenty (· + 1) 1023 2 kib_ok mapped_twoBlocks
    (fun _ _ => rfl) (by decide) (by decide) (by decide) (fun _ => 0) fun _ => 0).1
  revert h1
  decide +kernel

end Elfboot.Ext2Read
