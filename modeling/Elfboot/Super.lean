import Elfboot.Errno
import Elfboot.Word
import Elfboot.Buffer

/-!
Reading through a superblock: `super.c` over the block devices of `bdev.c`.

A device is its bytes and which of its reads fail. What `bmalloc` gives is an argument of
the functions that call it: `none`, or a buffer with whatever it held before.
-/

namespace Elfboot.Super

open Elfboot.Errno Elfboot.Word Elfboot.Buffer

/-- `struct bdev`, with a block size of `2 ^ block_logs`. -/
structure Bdev where
  blockLogs : ℕ
  size : ℕ
  byte : Bytes
  /-- whether reading so many blocks from a sector on fails -/
  fails : ℕ → ℕ → Bool
  size_le : size ≤ 2 ^ 64

/-- `struct superblock`, with a `uint16_t` block size of `2 ^ block_logs`. -/
structure Superblock where
  bdev : Bdev
  blockLogs : ℕ
  small : blockLogs < 16

def Superblock.blockSize (sb : Superblock) : ℕ := 2 ^ sb.blockLogs

lemma Superblock.blockSize_pos (sb : Superblock) : 0 < sb.blockSize := Nat.two_pow_pos _

lemma Superblock.blockSize_lt (sb : Superblock) : sb.blockSize < 2 ^ 16 :=
  Nat.pow_lt_pow_right (by decide) sb.small

/-- `bdev_read`: the buffer afterwards, or an error. -/
def bdevRead (bdev : Bdev) (sector blknum : ℕ) (buffer : Bytes) : Option Bytes :=
  if bdev.fails sector blknum then none
  else some (memcpy buffer 0 bdev.byte (sector * 2 ^ bdev.blockLogs) (blknum * 2 ^ bdev.blockLogs))

def superblockSectors (sb : Superblock) (blkidx : ℕ) : ℕ :=
  u64 (blkidx <<< sb.blockLogs) >>> sb.bdev.blockLogs

def superblockBlockno (sb : Superblock) (blkmod length : ℕ) : ℕ :=
  u64 (sub64 (sub64 (u64 (blkmod + length)) 1 >>> sb.blockLogs) (blkmod >>> sb.blockLogs) + 1)

def superblockReadBlock (sb : Superblock) (blkidx : ℕ) (buffer : Bytes) : Option Bytes :=
  let sector := superblockSectors sb blkidx
  let secnum := superblockSectors sb 1
  bdevRead sb.bdev sector secnum buffer

/-- The loop of `superblock_read_offset`, with the number of blocks left to read. -/
def readOffsetLoop (sb : Superblock) (blkidx : ℕ) :
    ℕ → (blkoff blkmod bufoff length : ℕ) → (blkbuf buffer : Bytes) → ℤ × Bytes
  | 0, _, _, _, _, _, buffer => (0, buffer)
  | n + 1, blkoff, blkmod, bufoff, length, blkbuf, buffer =>
    match superblockReadBlock sb (u64 (blkidx + blkoff)) blkbuf with
    | none => (-efault, buffer)
    | some blkbuf =>
      let blkmod := if blkoff ≠ 0 then 0 else blkmod
      let remlen := u32 (min (sub32 sb.blockSize blkmod) length)
      let buffer := memcpy buffer bufoff blkbuf blkmod remlen
      readOffsetLoop sb blkidx n (blkoff + 1) blkmod (u32 (bufoff + remlen)) (sub64 length remlen)
        blkbuf buffer

def superblockReadOffset (sb : Superblock) (bmalloc : ℕ → Option Bytes) (offset length : ℕ)
    (buffer : Bytes) : ℤ × Bytes :=
  let (blkidx, blkmod) := div offset sb.blockSize
  let blknum := superblockBlockno sb blkmod length
  match bmalloc sb.blockSize with
  | none => (-enomem, buffer)
  | some blkbuf => readOffsetLoop sb blkidx blknum 0 blkmod 0 length blkbuf buffer

/-! ### Blocks -/

variable {sb : Superblock} {blk offset length : ℕ} {buffer blkbuf : Bytes}

/-- Reading a block of the file system fails. -/
def BlockFails (sb : Superblock) (blk : ℕ) : Prop :=
  sb.bdev.fails (superblockSectors sb blk) (superblockSectors sb 1) = true

/-- Where a block begins on the device, for a device with no larger blocks. -/
lemma sectors_mul (h : sb.bdev.blockLogs ≤ sb.blockLogs) (hblk : blk * sb.blockSize < 2 ^ 64) :
    superblockSectors sb blk * 2 ^ sb.bdev.blockLogs = blk * sb.blockSize := by
  have hsplit : sb.blockSize = 2 ^ (sb.blockLogs - sb.bdev.blockLogs) * 2 ^ sb.bdev.blockLogs := by
    rw [← pow_add, Nat.sub_add_cancel h]; rfl
  have hshift : blk <<< sb.blockLogs = blk * sb.blockSize := Nat.shiftLeft_eq _ _
  unfold superblockSectors
  rw [hshift, u64_of_lt hblk, Nat.shiftRight_eq_div_pow, hsplit, ← Nat.mul_assoc,
    Nat.mul_div_cancel _ (Nat.two_pow_pos _)]

lemma readBlock_fails (h : BlockFails sb blk) : superblockReadBlock sb blk blkbuf = none := by
  unfold superblockReadBlock bdevRead
  exact if_pos h

/-- The buffer after a block has been read into it. -/
def blockBytes (sb : Superblock) (blk : ℕ) (old : Bytes) : Bytes :=
  memcpy old 0 sb.bdev.byte (blk * sb.blockSize) sb.blockSize

lemma blockBytes_at {i : ℕ} (h : i < sb.blockSize) :
    blockBytes sb blk blkbuf i = sb.bdev.byte (blk * sb.blockSize + i) := by
  unfold blockBytes memcpy
  rw [if_pos (by omega), Nat.sub_zero]

/-- A block that is read is the device's bytes from the start of the block on. -/
lemma readBlock_eq (h : sb.bdev.blockLogs ≤ sb.blockLogs) (hblk : blk * sb.blockSize < 2 ^ 64)
    (hf : ¬ BlockFails sb blk) :
    superblockReadBlock sb blk blkbuf = some (blockBytes sb blk blkbuf) := by
  have h1 : 1 * sb.blockSize < 2 ^ 64 := by
    have := sb.blockSize_lt
    omega
  unfold superblockReadBlock bdevRead blockBytes
  rw [← sectors_mul h hblk, ← Nat.one_mul sb.blockSize, ← sectors_mul h h1]
  exact if_neg hf

/-- Where the blocks of the device are larger, no sector is read and the buffer stays. -/
lemma readBlock_large (h : sb.blockLogs < sb.bdev.blockLogs) (hf : ¬ BlockFails sb blk) :
    superblockReadBlock sb blk blkbuf = some blkbuf := by
  have hB : 2 ^ sb.blockLogs < 2 ^ 16 := sb.blockSize_lt
  have hsec : superblockSectors sb 1 = 0 := by
    unfold superblockSectors
    rw [Nat.one_shiftLeft, u64_of_lt (by omega), Nat.shiftRight_eq_div_pow]
    exact Nat.div_eq_of_lt (Nat.pow_lt_pow_right (by decide) h)
  have hmem : ∀ s, memcpy blkbuf 0 sb.bdev.byte s 0 = blkbuf := by
    intro s
    funext i
    simp [memcpy]
  unfold BlockFails at hf
  unfold superblockReadBlock bdevRead
  rw [hsec] at hf ⊢
  dsimp only
  rw [if_neg hf, Nat.zero_mul, hmem]

lemma blockno_eq (hl : 0 < length) (h : blkmod < sb.blockSize) (hlt : length < 2 ^ 32) :
    superblockBlockno sb blkmod length = (blkmod + length - 1) / sb.blockSize + 1 := by
  have hB := sb.blockSize_lt
  have hshift : ∀ n, n >>> sb.blockLogs = n / sb.blockSize := fun n =>
    Nat.shiftRight_eq_div_pow n sb.blockLogs
  have hdiv : (blkmod + length - 1) / sb.blockSize ≤ blkmod + length - 1 := Nat.div_le_self _ _
  have hsum : sub64 (u64 (blkmod + length)) 1 = blkmod + length - 1 := by
    rw [u64_of_lt (by omega), sub64_of_le (by omega) (by omega)]
  unfold superblockBlockno
  rw [hsum, hshift, hshift, Nat.div_eq_of_lt h, sub64_of_le (Nat.zero_le _) (by omega),
    Nat.sub_zero,
    u64_of_lt (by omega)]

/-! ### The loop -/

/-- One piece: what a turn copies, and what is left of the length. -/
lemma piece_len {m length : ℕ} (hm : m < sb.blockSize) :
    u32 (min (sub32 sb.blockSize m) length) = min (sb.blockSize - m) length := by
  have hB := sb.blockSize_lt
  rw [sub32_of_le hm.le (by omega)]
  exact u32_of_lt (by omega)

/-- The number of blocks from `m` bytes into a block on. -/
def blocksFor (B m length : ℕ) : ℕ := if length = 0 then 0 else (m + length - 1) / B + 1

lemma blocksFor_step {B m length n : ℕ} (hB : 0 < B) (hm : m < B)
    (hn : n + 1 = blocksFor B m length) :
    0 < length ∧ n = blocksFor B 0 (length - min (B - m) length) := by
  unfold blocksFor at hn ⊢
  split_ifs at hn with h0
  refine ⟨by omega, ?_⟩
  rcases Nat.lt_or_ge (B - m) length with hlt | hge
  · rw [min_eq_left hlt.le, if_neg (by omega)]
    have e : m + length - 1 = length - (B - m) - 1 + B := by omega
    rw [e, Nat.add_div_right _ hB] at hn
    rw [Nat.zero_add]
    omega
  · rw [min_eq_right hge, if_pos (by omega)]
    have : (m + length - 1) / B = 0 := Nat.div_eq_of_lt (by omega)
    omega

lemma blocksFor_pos {B m length : ℕ} (hB : 0 < B) (hm : m < B) (hl : 0 < length) :
    blocksFor B m length = blocksFor B 0 (length - min (B - m) length) + 1 := by
  obtain ⟨n, hn⟩ : ∃ n, n + 1 = blocksFor B m length := ⟨_, (if_neg (by omega)).symm⟩
  rw [← hn, (blocksFor_step hB hm hn).2]

/-- **The loop** copies the bytes of the device, if no block fails. `m` is where in the
block at hand they begin. -/
lemma readOffsetLoop_ok (h : sb.bdev.blockLogs ≤ sb.blockLogs) (blkidx : ℕ) :
    ∀ (n blkoff blkmod m bufoff length : ℕ) (blkbuf buffer : Bytes),
      (if blkoff ≠ 0 then 0 else blkmod) = m → m < sb.blockSize →
      n = blocksFor sb.blockSize m length →
      (blkidx + blkoff) * sb.blockSize + m + length ≤ 2 ^ 64 → bufoff + length < 2 ^ 32 →
      (∀ k < n, ¬ BlockFails sb (blkidx + blkoff + k)) →
      ∃ buffer', readOffsetLoop sb blkidx n blkoff blkmod bufoff length blkbuf buffer =
          (0, buffer') ∧ Copied buffer buffer' bufoff sb.bdev.byte
            ((blkidx + blkoff) * sb.blockSize + m) length
  | 0, blkoff, blkmod, m, bufoff, length, blkbuf, buffer, _, _, hn, _, _, _ => by
    have hl : length = 0 := by
      unfold blocksFor at hn
      split_ifs at hn with h0
      exact h0
    subst hl
    exact ⟨buffer, rfl, copied_zero _ _ _ _⟩
  | n + 1, blkoff, blkmod, m, bufoff, length, blkbuf, buffer, hm0, hm, hn, h64, h32, hok => by
    have hB := sb.blockSize_pos
    obtain ⟨hpos, hn'⟩ := blocksFor_step hB hm hn
    have hblk : (blkidx + blkoff) * sb.blockSize < 2 ^ 64 := by omega
    have hu : u64 (blkidx + blkoff) = blkidx + blkoff :=
      u64_of_lt (lt_of_le_of_lt (Nat.le_mul_of_pos_right _ hB) hblk)
    unfold readOffsetLoop
    rw [hu, readBlock_eq h hblk (hok 0 (by omega))]
    simp only [hm0, piece_len hm]
    generalize hr : min (sb.blockSize - m) length = r at *
    rw [u32_of_lt (by omega), sub64_of_le (by omega) (by omega)]
    have hbuf : ∀ k < r, blockBytes sb (blkidx + blkoff) blkbuf (m + k) =
        sb.bdev.byte ((blkidx + blkoff) * sb.blockSize + m + k) := by
      intro k hk
      rw [blockBytes_at (by omega), Nat.add_assoc]
    have hlen : length = r + (length - r) := by omega
    rcases Nat.lt_or_ge (sb.blockSize - m) length with hlt | hge
    · -- the next piece begins with the next block
      have hnext : (blkidx + (blkoff + 1)) * sb.blockSize + 0 =
          (blkidx + blkoff) * sb.blockSize + m + r := by
        have : (blkidx + (blkoff + 1)) * sb.blockSize =
          (blkidx + blkoff) * sb.blockSize + sb.blockSize := by ring
        omega
      obtain ⟨buffer', h1, h2⟩ := readOffsetLoop_ok h blkidx n (blkoff + 1) m 0 (bufoff + r)
        (length - r) (blockBytes sb (blkidx + blkoff) blkbuf)
        (memcpy buffer bufoff (blockBytes sb (blkidx + blkoff) blkbuf) m r)
        (if_pos (Nat.succ_ne_zero blkoff)) hB hn' (by rw [hnext]; omega) (by omega)
        fun k hk => by
          have := hok (k + 1) (by omega)
          rwa [show blkidx + blkoff + (k + 1) = blkidx + (blkoff + 1) + k by omega] at this
      refine ⟨buffer', h1, ?_⟩
      rw [hnext] at h2
      rw [hlen]
      exact h2.piece hbuf
    · -- this was the last piece
      have hl0 : length - r = 0 := by omega
      have hn0 : n = 0 := by rw [hn', hl0]; rfl
      subst hn0
      refine ⟨_, rfl, ?_⟩
      rw [hlen, hl0]
      exact (copied_zero _ _ _ _).piece hbuf

lemma readBlock_some (h : ¬ BlockFails sb blk) (blkbuf : Bytes) :
    ∃ blkbuf', superblockReadBlock sb blk blkbuf = some blkbuf' := by
  unfold superblockReadBlock bdevRead
  exact ⟨_, if_neg h⟩

/-- The loop stops with an error at a block that fails, and has written nothing from the end
of the range on then, not even its last byte. -/
lemma readOffsetLoop_fails (blkidx : ℕ) :
    ∀ (n blkoff blkmod m bufoff length : ℕ) (blkbuf buffer : Bytes),
      (if blkoff ≠ 0 then 0 else blkmod) = m → m < sb.blockSize →
      n = blocksFor sb.blockSize m length →
      (blkidx + blkoff) * sb.blockSize + m + length ≤ 2 ^ 64 → bufoff + length < 2 ^ 32 →
      (∃ k < n, BlockFails sb (blkidx + blkoff + k)) →
      ∃ buffer', readOffsetLoop sb blkidx n blkoff blkmod bufoff length blkbuf buffer =
          (-efault, buffer') ∧ ∀ i, bufoff + length ≤ i + 1 → buffer' i = buffer i
  | 0, _, _, _, _, _, _, _, _, _, _, _, _, hbad => by
    obtain ⟨k, hk, -⟩ := hbad
    omega
  | n + 1, blkoff, blkmod, m, bufoff, length, blkbuf, buffer, hm0, hm, hn, h64, h32, hbad => by
    have hB := sb.blockSize_pos
    obtain ⟨hpos, hn'⟩ := blocksFor_step hB hm hn
    have hblk : (blkidx + blkoff) * sb.blockSize < 2 ^ 64 := by omega
    have hu : u64 (blkidx + blkoff) = blkidx + blkoff :=
      u64_of_lt (lt_of_le_of_lt (Nat.le_mul_of_pos_right _ hB) hblk)
    unfold readOffsetLoop
    rw [hu]
    by_cases h0 : BlockFails sb (blkidx + blkoff)
    · rw [readBlock_fails h0]
      exact ⟨buffer, rfl, fun _ _ => rfl⟩
    · obtain ⟨blkbuf', hbuf⟩ := readBlock_some h0 blkbuf
      rw [hbuf]
      simp only [hm0, piece_len hm]
      generalize hr : min (sb.blockSize - m) length = r at *
      rw [u32_of_lt (by omega), sub64_of_le (by omega) (by omega)]
      obtain ⟨k, hk, hbad⟩ := hbad
      obtain ⟨j, rfl⟩ : ∃ j, k = j + 1 := by
        cases k with
        | zero => exact absurd hbad h0
        | succ j => exact ⟨j, rfl⟩
      have hrl : r < length := by
        by_contra hge
        have hl0 : length - r = 0 := by omega
        rw [hn', hl0] at hk
        simp [blocksFor] at hk
      have hnext : (blkidx + (blkoff + 1)) * sb.blockSize =
          (blkidx + blkoff) * sb.blockSize + sb.blockSize := by ring
      obtain ⟨buffer', h1, h2⟩ := readOffsetLoop_fails blkidx n (blkoff + 1) m 0 (bufoff + r)
        (length - r) blkbuf' (memcpy buffer bufoff blkbuf' m r)
        (if_pos (Nat.succ_ne_zero blkoff)) hB hn' (by rw [hnext]; omega) (by omega)
        ⟨j, by omega, by
          rwa [show blkidx + blkoff + (j + 1) = blkidx + (blkoff + 1) + j by omega] at hbad⟩
      refine ⟨buffer', h1, fun i hi => ?_⟩
      rw [h2 i (by omega), memcpy, if_neg (by omega)]

/-- The loop writes nothing in front of where it is. -/
lemma readOffsetLoop_frame (blkidx : ℕ) :
    ∀ {n blkoff blkmod bufoff length : ℕ} {blkbuf buffer : Bytes} {j : ℕ},
      bufoff + length < 2 ^ 32 → j < bufoff →
      (readOffsetLoop sb blkidx n blkoff blkmod bufoff length blkbuf buffer).2 j = buffer j
  | 0, _, _, _, _, _, _, _, _, _ => rfl
  | n + 1, blkoff, blkmod, bufoff, length, blkbuf, buffer, j, h32, hj => by
    unfold readOffsetLoop
    dsimp only
    split
    · rfl
    · generalize hr : u32 (min (sub32 sb.blockSize (if blkoff ≠ 0 then 0 else blkmod)) length) = r
      have hrl : r ≤ length := hr ▸ (Nat.mod_le _ _).trans (min_le_right _ _)
      rw [u32_of_lt (by omega), sub64_of_le hrl (by omega),
        readOffsetLoop_frame blkidx (by omega) (by omega), memcpy, if_neg (by omega)]

/-! ### `superblock_read_offset` -/

lemma readOffset_eq (hl : 0 < length) (hlt : length < 2 ^ 32) {bmalloc : ℕ → Option Bytes}
    (hm : bmalloc sb.blockSize = some blkbuf) :
    superblockReadOffset sb bmalloc offset length buffer =
      readOffsetLoop sb (offset / sb.blockSize)
        (blocksFor sb.blockSize (offset % sb.blockSize) length) 0 (offset % sb.blockSize) 0 length
        blkbuf buffer := by
  have hB := sb.blockSize_pos
  unfold superblockReadOffset div
  simp only [archDiv_eq hB, hm]
  rw [blockno_eq hl (Nat.mod_lt _ hB) hlt, blocksFor, if_neg (by omega)]

/-- The last block of a range, counted from the first. -/
lemma last_block {B : ℕ} (hB : 0 < B) (offset : ℕ) (hl : 0 < length) :
    offset / B + ((offset % B + length - 1) / B + 1) = (offset + length - 1) / B + 1 := by
  have e : offset + length - 1 = offset % B + length - 1 + B * (offset / B) := by
    have := Nat.mod_add_div offset B
    omega
  rw [e, Nat.add_mul_div_left _ _ hB]
  omega

lemma offset_start (sb : Superblock) (offset : ℕ) :
    (offset / sb.blockSize + 0) * sb.blockSize + offset % sb.blockSize = offset := by
  rw [Nat.add_zero]
  exact Nat.div_add_mod' _ _

/-- All blocks of a range can be read. -/
lemma readOffset_reads (h : sb.bdev.blockLogs ≤ sb.blockLogs) {bmalloc : ℕ → Option Bytes}
    (hm : bmalloc sb.blockSize = some blkbuf) (hl : 1 ≤ length) (hlt : length < 2 ^ 32)
    (h64 : offset + length ≤ 2 ^ 64) (buffer : Bytes)
    (hok : ∀ blk, offset / sb.blockSize ≤ blk → blk ≤ (offset + length - 1) / sb.blockSize →
      ¬ BlockFails sb blk) :
    ∃ buffer', superblockReadOffset sb bmalloc offset length buffer = (0, buffer') ∧
      ∀ i, buffer' i = if i < length then sb.bdev.byte (offset + i) else buffer i := by
  have hno : blocksFor sb.blockSize (offset % sb.blockSize) length =
      (offset % sb.blockSize + length - 1) / sb.blockSize + 1 := if_neg (by omega)
  have hlast := last_block sb.blockSize_pos offset hl
  obtain ⟨buffer', h1, h2⟩ := readOffsetLoop_ok h (offset / sb.blockSize) _ 0
    (offset % sb.blockSize) _ 0 length blkbuf buffer (if_neg (by simp))
    (Nat.mod_lt _ sb.blockSize_pos) rfl (by rw [offset_start]; exact h64) (by omega)
    fun k hk => hok _ (by omega) (by omega)
  rw [readOffset_eq hl hlt hm]
  refine ⟨buffer', h1, fun i => ?_⟩
  rw [h2 i, offset_start]
  simp

/-- A block of a range cannot be read. -/
lemma readOffset_stops {bmalloc : ℕ → Option Bytes} (hm : bmalloc sb.blockSize = some blkbuf)
    (hl : 1 ≤ length) (hlt : length < 2 ^ 32) (h64 : offset + length ≤ 2 ^ 64) (buffer : Bytes)
    (hbad : ∃ blk, offset / sb.blockSize ≤ blk ∧ blk ≤ (offset + length - 1) / sb.blockSize ∧
      BlockFails sb blk) :
    ∃ buffer', superblockReadOffset sb bmalloc offset length buffer = (-efault, buffer') ∧
      ∀ i, length ≤ i + 1 → buffer' i = buffer i := by
  obtain ⟨blk, hge, hle, hbad⟩ := hbad
  have hno : blocksFor sb.blockSize (offset % sb.blockSize) length =
      (offset % sb.blockSize + length - 1) / sb.blockSize + 1 := if_neg (by omega)
  have hlast := last_block sb.blockSize_pos offset hl
  obtain ⟨buffer', h1, h2⟩ := readOffsetLoop_fails (offset / sb.blockSize) _ 0
    (offset % sb.blockSize) _ 0 length blkbuf buffer (if_neg (by simp))
    (Nat.mod_lt _ sb.blockSize_pos) rfl (by rw [offset_start]; exact h64) (by omega)
    ⟨blk - offset / sb.blockSize, by omega, by
      rwa [show offset / sb.blockSize + 0 + (blk - offset / sb.blockSize) = blk by omega]⟩
  rw [readOffset_eq hl hlt hm]
  exact ⟨buffer', h1, fun i hi => h2 i (by omega)⟩

/-- On a device with larger blocks the first byte is what the buffer for a block held. -/
lemma readOffset_large (h : sb.blockLogs < sb.bdev.blockLogs) {bmalloc : ℕ → Option Bytes}
    (hm : bmalloc sb.blockSize = some blkbuf) (hl : 1 ≤ length) (hlt : length < 2 ^ 32)
    (h64 : offset + length ≤ 2 ^ 64) (buffer : Bytes)
    (hf : ¬ BlockFails sb (offset / sb.blockSize)) :
    (superblockReadOffset sb bmalloc offset length buffer).2 0 =
      blkbuf (offset % sb.blockSize) := by
  have ho := Nat.mod_lt offset sb.blockSize_pos
  have hidx : offset / sb.blockSize ≤ offset := Nat.div_le_self _ _
  rw [readOffset_eq hl hlt hm, blocksFor_pos sb.blockSize_pos ho (by omega)]
  unfold readOffsetLoop
  rw [Nat.add_zero, u64_of_lt (by omega), readBlock_large h hf]
  simp only [ne_eq, not_true_eq_false, if_false, piece_len ho]
  generalize hr : min (sb.blockSize - offset % sb.blockSize) length = r
  rw [u32_of_lt (by omega), sub64_of_le (by omega) (by omega),
    readOffsetLoop_frame _ (by omega) (by omega), memcpy, if_pos (by omega)]
  rfl

/-- **Byte ranges are exact**: if every block the range meets can be read, the buffer holds
the bytes of the device and is as it was behind them; if one cannot, the result is an
error. -/
theorem readOffset_exact (h : sb.bdev.blockLogs ≤ sb.blockLogs) {bmalloc : ℕ → Option Bytes}
    (hm : bmalloc sb.blockSize = some blkbuf) (hl : 1 ≤ length) (hlt : length < 2 ^ 32)
    (hin : offset + length ≤ sb.bdev.size) (buffer : Bytes) :
    ((∀ blk, offset / sb.blockSize ≤ blk → blk ≤ (offset + length - 1) / sb.blockSize →
        ¬ BlockFails sb blk) →
      ∃ buffer', superblockReadOffset sb bmalloc offset length buffer = (0, buffer') ∧
        ∀ i, buffer' i = if i < length then sb.bdev.byte (offset + i) else buffer i) ∧
    ((∃ blk, offset / sb.blockSize ≤ blk ∧ blk ≤ (offset + length - 1) / sb.blockSize ∧
        BlockFails sb blk) →
      ∃ buffer', superblockReadOffset sb bmalloc offset length buffer = (-efault, buffer') ∧
        ∀ i, length ≤ i → buffer' i = buffer i) := by
  have h64 : offset + length ≤ 2 ^ 64 := hin.trans sb.bdev.size_le
  constructor
  · exact readOffset_reads h hm hl hlt h64 buffer
  · intro hbad
    obtain ⟨buffer', h1, h2⟩ := readOffset_stops hm hl hlt h64 buffer hbad
    exact ⟨buffer', h1, fun i hi => h2 i (by omega)⟩

/-- A device of 128 sectors whose bytes count up, with blocks of two sectors over it. -/
def smallSuper : Superblock where
  bdev := ⟨9, 2 ^ 16, fun i => UInt8.ofNat i, fun _ _ => false, by decide⟩
  blockLogs := 10
  small := by decide

theorem readOffset_exact_small : ∃ buffer',
    superblockReadOffset smallSuper (fun _ => some fun _ => 7) 1000 100 (fun _ => 0) =
        (0, buffer') ∧
      ∀ i, buffer' i = if i < 100 then smallSuper.bdev.byte (1000 + i) else 0 :=
  (readOffset_exact (by decide) rfl (by decide) (by decide) (by decide) _).1
    fun blk _ _ => by simp [BlockFails, smallSuper]

end Elfboot.Super
