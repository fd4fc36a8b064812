import Elfboot.FileRead

/-!
How many blocks `superblock_read_offset` reads.

The functions of `Super` and `FileRead` that get at a disc have a copy here that keeps the
blocks it reads, newest last.
-/

namespace Elfboot.BlockCount

open Elfboot.Errno Elfboot.Word Elfboot.Buffer Elfboot.Super Elfboot.FileRead

/-! ### The blocks of a range -/

/-- The blocks of `B` bytes that meet `[offset, offset + length)`. -/
def blocksMeeting (B offset length : ℕ) : Finset ℕ :=
  (Finset.Ico offset (offset + length)).image (· / B)

lemma blocksMeeting_zero (B offset : ℕ) : blocksMeeting B offset 0 = ∅ := by
  simp [blocksMeeting]

lemma blocksMeeting_eq {B offset length : ℕ} (hB : 0 < B) (hl : 0 < length) :
    blocksMeeting B offset length = Finset.Icc (offset / B) ((offset + length - 1) / B) := by
  ext blk
  simp only [blocksMeeting, Finset.mem_image, Finset.mem_Ico, Finset.mem_Icc]
  constructor
  · rintro ⟨x, ⟨h1, h2⟩, rfl⟩
    exact ⟨Nat.div_le_div_right h1, Nat.div_le_div_right (by omega)⟩
  · rintro ⟨h1, h2⟩
    have hle : blk * B ≤ offset + length - 1 := (Nat.le_div_iff_mul_le hB).1 h2
    have hlt : offset < (blk + 1) * B := (Nat.div_lt_iff_lt_mul hB).1 (by omega)
    rw [Nat.add_mul, Nat.one_mul] at hlt
    refine ⟨max offset (blk * B), ⟨by omega, by omega⟩, ?_⟩
    exact (Nat.div_eq_iff hB).2 ⟨by omega, by omega⟩

lemma card_blocksMeeting {B : ℕ} (hB : 0 < B) (offset length : ℕ) :
    (blocksMeeting B offset length).card = blocksFor B (offset % B) length := by
  unfold blocksFor
  split_ifs with hl
  · rw [hl, blocksMeeting_zero, Finset.card_empty]
  · have hlast := last_block hB offset (Nat.pos_of_ne_zero hl)
    rw [blocksMeeting_eq hB (Nat.pos_of_ne_zero hl), Nat.card_Icc, ← hlast]
    exact Nat.add_sub_cancel_left _ _

/-! ### The reads -/

/-- `readOffsetLoop`, with the blocks it reads. -/
def readOffsetLoopReads (sb : Superblock) (blkidx : ℕ) :
    ℕ → (blkoff blkmod bufoff length : ℕ) → (blkbuf buffer : Bytes) → (ℤ × Bytes) × List ℕ
  | 0, _, _, _, _, _, buffer => ((0, buffer), [])
  | n + 1, blkoff, blkmod, bufoff, length, blkbuf, buffer =>
    let blk := u64 (blkidx + blkoff)
    match superblockReadBlock sb blk blkbuf with
    | none => ((-efault, buffer), [blk])
    | some blkbuf =>
      let blkmod := if blkoff ≠ 0 then 0 else blkmod
      let remlen := u32 (min (sub32 sb.blockSize blkmod) length)
      let buffer := memcpy buffer bufoff blkbuf blkmod remlen
      let rest := readOffsetLoopReads sb blkidx n (blkoff + 1) blkmod (u32 (bufoff + remlen))
        (sub64 length remlen) blkbuf buffer
      (rest.1, blk :: rest.2)

def superblockReadOffsetReads (sb : Superblock) (bmalloc : ℕ → Option Bytes) (offset length : ℕ)
    (buffer : Bytes) : (ℤ × Bytes) × List ℕ :=
  let (blkidx, blkmod) := div offset sb.blockSize
  let blknum := superblockBlockno sb blkmod length
  match bmalloc sb.blockSize with
  | none => ((-enomem, buffer), [])
  | some blkbuf => readOffsetLoopReads sb blkidx blknum 0 blkmod 0 length blkbuf buffer

def isofsReadReads (sb : Superblock) (inode : ℕ) (bmalloc : ℕ → Option Bytes)
    (offset length : ℕ) (buffer : Bytes) : (ℕ × Bytes) × List ℕ :=
  let blkoff := u64 (u32 (sb.blockSize * inode) + offset)
  let ((ret, buffer), reads) := superblockReadOffsetReads sb bmalloc blkoff length buffer
  (if ret ≠ 0 then (sub32 0 14, buffer) else (length, buffer), reads)

/-- `file_read`, for a file of an ISO file system. -/
def fileReadReads (sb : Superblock) (inode : ℕ) (offset flen : ℕ) (m : Bmalloc) (nbytes : ℕ)
    (buffer : Bytes) : (ℤ × Bytes) × List ℕ :=
  let length := min nbytes (sub32 flen offset)
  let ((ret, buffer), reads) := isofsReadReads sb inode (m.call 0) offset length buffer
  ((int32 ret, buffer), reads)

variable {sb : Superblock} {blkidx offset length : ℕ} {buffer : Bytes}

lemma readOffsetLoopReads_fst (blkidx : ℕ) :
    ∀ (n blkoff blkmod bufoff length : ℕ) (blkbuf buffer : Bytes),
      (readOffsetLoopReads sb blkidx n blkoff blkmod bufoff length blkbuf buffer).1 =
        readOffsetLoop sb blkidx n blkoff blkmod bufoff length blkbuf buffer
  | 0, _, _, _, _, _, _ => rfl
  | n + 1, blkoff, blkmod, bufoff, length, blkbuf, buffer => by
    unfold readOffsetLoopReads readOffsetLoop
    dsimp only
    cases superblockReadBlock sb (u64 (blkidx + blkoff)) blkbuf with
    | none => rfl
    | some blkbuf' => exact readOffsetLoopReads_fst blkidx n (blkoff + 1) _ _ _ _ _

lemma superblockReadOffsetReads_fst (bmalloc : ℕ → Option Bytes) (offset length : ℕ)
    (buffer : Bytes) : (superblockReadOffsetReads sb bmalloc offset length buffer).1 =
      superblockReadOffset sb bmalloc offset length buffer := by
  unfold superblockReadOffsetReads superblockReadOffset
  cases h : bmalloc sb.blockSize with
  | none => rfl
  | some blkbuf => exact readOffsetLoopReads_fst _ _ _ _ _ _ _ _

lemma isofsReadReads_fst (inode : ℕ) (bmalloc : ℕ → Option Bytes) (offset length : ℕ)
    (buffer : Bytes) : (isofsReadReads sb inode bmalloc offset length buffer).1 =
      isofsRead sb inode bmalloc offset length buffer := by
  unfold isofsReadReads isofsRead
  dsimp only
  rw [← superblockReadOffsetReads_fst]

lemma fileReadReads_fst {file : File} {inode : ℕ} (h : file.node.read = .isofs inode)
    (m : Bmalloc) (nbytes : ℕ) (buffer : Bytes) :
    (fileReadReads file.node.sb inode file.offset file.length m nbytes buffer).1 =
      fileRead file m nbytes buffer := by
  unfold fileReadReads fileRead vfsRead
  simp only [h]
  rw [← isofsReadReads_fst]

/-! ### How far the loop gets -/

/-- Every block but the last of `n` can be read. -/
def Gets (sb : Superblock) (blkidx n : ℕ) : Prop :=
  ∀ k, k + 1 < n → ¬ BlockFails sb (u64 (blkidx + k))

lemma reads_le (sb : Superblock) (blkidx : ℕ) :
    ∀ (n blkoff blkmod bufoff length : ℕ) (blkbuf buffer : Bytes),
      (readOffsetLoopReads sb blkidx n blkoff blkmod bufoff length blkbuf buffer).2.length ≤ n
  | 0, _, _, _, _, _, _ => le_rfl
  | n + 1, blkoff, blkmod, bufoff, length, blkbuf, buffer => by
    unfold readOffsetLoopReads
    dsimp only
    cases superblockReadBlock sb (u64 (blkidx + blkoff)) blkbuf with
    | none => simp
    | some blkbuf' => simpa using reads_le sb blkidx n (blkoff + 1) _ _ _ _ _

/-- The loop makes all its turns if only the last block fails, if any does. -/
lemma reads_all (blkidx : ℕ) :
    ∀ (n blkoff blkmod bufoff length : ℕ) (blkbuf buffer : Bytes),
      (readOffsetLoopReads sb blkidx n blkoff blkmod bufoff length blkbuf buffer).2.length = n ↔
        Gets sb (blkidx + blkoff) n
  | 0, _, _, _, _, _, _ => by simp [readOffsetLoopReads, Gets]
  | n + 1, blkoff, blkmod, bufoff, length, blkbuf, buffer => by
    unfold readOffsetLoopReads
    dsimp only
    by_cases hf : BlockFails sb (u64 (blkidx + blkoff))
    · rw [readBlock_fails hf]
      simp only [List.length_singleton]
      constructor
      · intro h k hk
        omega
      · intro h
        by_contra hne
        exact h 0 (by omega) hf
    · obtain ⟨blkbuf', hbuf⟩ := readBlock_some hf blkbuf
      rw [hbuf]
      simp only [List.length_cons, Nat.add_right_cancel_iff]
      rw [reads_all blkidx n (blkoff + 1)]
      constructor
      · intro h k hk
        cases k with
        | zero => exact hf
        | succ k =>
          rw [show blkidx + blkoff + (k + 1) = blkidx + (blkoff + 1) + k by omega]
          exact h k (by omega)
      · intro h k hk
        rw [show blkidx + (blkoff + 1) + k = blkidx + blkoff + (k + 1) by omega]
        exact h (k + 1) (by omega)

/-- A turn of the loop reads a block, whatever comes of it. -/
lemma loop_eq_nil {n blkoff blkmod bufoff length : ℕ} {blkbuf buffer : Bytes} :
    (readOffsetLoopReads sb blkidx n blkoff blkmod bufoff length blkbuf buffer).2 = [] ↔
      n = 0 := by
  cases n with
  | zero => exact iff_of_true rfl rfl
  | succ n =>
    refine iff_of_false ?_ n.succ_ne_zero
    unfold readOffsetLoopReads
    dsimp only
    cases superblockReadBlock sb (u64 (blkidx + blkoff)) blkbuf <;> simp

/-! ### The number of blocks -/

/-- With a range below the end of the address space from the start of its first block on,
`superblock_blockno` is the number of blocks. -/
lemma blockno_fits {blkmod : ℕ} (hl : 0 < length) (h : blkmod < sb.blockSize)
    (hl64 : length < 2 ^ 64) (h64 : blkmod + length ≤ 2 ^ 64) :
    superblockBlockno sb blkmod length = blocksFor sb.blockSize blkmod length := by
  have hshift : ∀ n, n >>> sb.blockLogs = n / sb.blockSize := fun n =>
    Nat.shiftRight_eq_div_pow n sb.blockLogs
  have hsum : sub64 (u64 (blkmod + length)) 1 = blkmod + length - 1 := by
    unfold sub64 u64
    omega
  have hdiv : (blkmod + length - 1) / sb.blockSize + 1 < 2 ^ 64 := by
    rcases Nat.lt_or_ge 1 sb.blockSize with h1 | h1
    · have hhalf : (blkmod + length - 1) / sb.blockSize ≤ (blkmod + length - 1) / 2 :=
        Nat.div_le_div_left h1 Nat.two_pos
      omega
    · have := Nat.div_le_self (blkmod + length - 1) sb.blockSize
      omega
  unfold superblockBlockno blocksFor
  rw [hsum, hshift, hshift, Nat.div_eq_of_lt h, sub64_of_le (Nat.zero_le _) (by omega),
    Nat.sub_zero, u64_of_lt hdiv, if_neg (by omega)]

/-- One block only, where the range leaves the address space. -/
lemma blockno_wraps {blkmod : ℕ} (h : blkmod < sb.blockSize) (hl64 : length < 2 ^ 64)
    (h64 : 2 ^ 64 < blkmod + length) : superblockBlockno sb blkmod length = 1 := by
  have hshift : ∀ n, n >>> sb.blockLogs = n / sb.blockSize := fun n =>
    Nat.shiftRight_eq_div_pow n sb.blockLogs
  have hB := sb.blockSize_lt
  have hsum : sub64 (u64 (blkmod + length)) 1 = blkmod + length - 2 ^ 64 - 1 := by
    unfold sub64 u64
    omega
  unfold superblockBlockno
  rw [hsum, hshift, hshift, Nat.div_eq_of_lt h, Nat.div_eq_of_lt (by omega)]
  rfl

/-- A range of length 0 in the middle of a block counts as a block. -/
lemma blockno_empty_pos {blkmod : ℕ} (h : blkmod < sb.blockSize) (h0 : 0 < blkmod) :
    superblockBlockno sb blkmod 0 = 1 := by
  have hshift : ∀ n, n >>> sb.blockLogs = n / sb.blockSize := fun n =>
    Nat.shiftRight_eq_div_pow n sb.blockLogs
  have hB := sb.blockSize_lt
  have hsum : sub64 (u64 (blkmod + 0)) 1 = blkmod - 1 := by
    rw [Nat.add_zero, u64_of_lt (by omega), sub64_of_le h0 (by omega)]
  unfold superblockBlockno
  rw [hsum, hshift, hshift, Nat.div_eq_of_lt h, Nat.div_eq_of_lt (by omega)]
  rfl

/-- One at the start of a block counts as all the blocks there are, but for blocks of a
single byte. -/
lemma blockno_empty_zero (sb : Superblock) :
    superblockBlockno sb 0 0 = if sb.blockLogs = 0 then 0 else 2 ^ (64 - sb.blockLogs) := by
  have hb := sb.small
  have hle : 2 ^ (64 - sb.blockLogs) ≤ 2 ^ 64 := Nat.pow_le_pow_right (by decide) (by omega)
  have hpos := Nat.two_pow_pos (64 - sb.blockLogs)
  have hquot : (2 ^ 64 - 1) >>> sb.blockLogs = 2 ^ (64 - sb.blockLogs) - 1 := by
    have hsplit : 2 ^ 64 = 2 ^ (64 - sb.blockLogs) * 2 ^ sb.blockLogs := by
      rw [← pow_add]
      congr 1
      omega
    have hp := Nat.two_pow_pos sb.blockLogs
    rw [Nat.shiftRight_eq_div_pow, hsplit, Nat.div_eq_iff hp, Nat.sub_mul, Nat.one_mul]
    have := Nat.mul_le_mul_right (2 ^ sb.blockLogs) hpos
    omega
  have hsum : sub64 (u64 (0 + 0)) 1 = 2 ^ 64 - 1 := by decide
  unfold superblockBlockno
  rw [hsum, hquot, Nat.zero_shiftRight, sub64_of_le (Nat.zero_le _) (by omega), Nat.sub_zero,
    Nat.sub_add_cancel hpos]
  split_ifs with h0
  · rw [h0]
    decide
  · exact u64_of_lt (Nat.pow_lt_pow_right (by decide) (by omega))

/-! ### `superblock_read_offset` -/

/-- With memory for a block, a range has nothing read just if it is empty and the blocks are of
a single byte. -/
lemma reads_eq_nil {bmalloc : ℕ → Option Bytes} {blkbuf : Bytes}
    (hm : bmalloc sb.blockSize = some blkbuf) (hl64 : length < 2 ^ 64) :
    (superblockReadOffsetReads sb bmalloc offset length buffer).2 = [] ↔
      length = 0 ∧ sb.blockLogs = 0 := by
  have hB := sb.blockSize_pos
  have hmod := Nat.mod_lt offset hB
  unfold superblockReadOffsetReads div
  simp only [archDiv_eq hB, hm]
  rw [loop_eq_nil]
  rcases Nat.eq_zero_or_pos length with rfl | hl
  · rcases Nat.eq_zero_or_pos (offset % sb.blockSize) with h0 | hpos
    · have hpow := Nat.two_pow_pos (64 - sb.blockLogs)
      rw [h0, blockno_empty_zero]
      split_ifs with hb
      · simp [hb]
      · simp [hb]
    · rw [blockno_empty_pos hmod hpos]
      refine iff_of_false Nat.one_ne_zero fun hb => ?_
      have h1 : sb.blockSize = 1 := by rw [Superblock.blockSize, hb.2, Nat.pow_zero]
      omega
  · refine iff_of_false (fun h0 => ?_) fun h => absurd h.1 hl.ne'
    rcases Nat.lt_or_ge (2 ^ 64) (offset % sb.blockSize + length) with hw | hw
    · rw [blockno_wraps hmod hl64 hw] at h0
      exact Nat.one_ne_zero h0
    · rw [blockno_fits hl hmod hl64 hw, blocksFor, if_neg hl.ne'] at h0
      exact Nat.succ_ne_zero _ h0

/-- Without memory for a block there is nothing read either. -/
lemma reads_eq_nil_iff {bmalloc : ℕ → Option Bytes} (hl64 : length < 2 ^ 64) :
    (superblockReadOffsetReads sb bmalloc offset length buffer).2 = [] ↔
      bmalloc sb.blockSize = none ∨ length = 0 ∧ sb.blockLogs = 0 := by
  cases hm : bmalloc sb.blockSize with
  | none =>
    refine iff_of_true ?_ (Or.inl rfl)
    unfold superblockReadOffsetReads
    rw [hm]
  | some blkbuf => simpa using reads_eq_nil hm hl64

lemma reads_start {bmalloc : ℕ → Option Bytes} {blkbuf : Bytes}
    (hm : bmalloc sb.blockSize = some blkbuf) :
    superblockReadOffsetReads sb bmalloc 0 0 buffer =
      readOffsetLoopReads sb 0 (superblockBlockno sb 0 0) 0 0 0 0 blkbuf buffer := by
  unfold superblockReadOffsetReads div
  simp only [archDiv_eq sb.blockSize_pos, Nat.zero_div, Nat.zero_mod, hm]

/-- What `file_read` asks an empty file for: nothing at the start, and behind it up to `nbytes`
of the bytes that are left of 4 GiB. -/
lemma fileReadReads_empty (inode : ℕ) (m : Bmalloc) (offset nbytes : ℕ) (buffer : Bytes) :
    (fileReadReads sb inode offset 0 m nbytes buffer).2 =
      (superblockReadOffsetReads sb (m.call 0) (u64 (u32 (sb.blockSize * inode) + offset))
        (min nbytes (sub32 0 offset)) buffer).2 := rfl

lemma min_sub32_eq_zero {offset : ℕ} (ho : offset < 2 ^ 32) (nbytes : ℕ) :
    min nbytes (sub32 0 offset) = 0 ↔ nbytes = 0 ∨ offset = 0 := by
  unfold sub32
  omega

lemma min_sub32_lt (nbytes offset : ℕ) : min nbytes (sub32 0 offset) < 2 ^ 64 :=
  (Nat.min_le_right _ _).trans_lt ((sub32_lt 0 offset).trans (by decide))

/-- The number of blocks read from a range that is not empty. -/
lemma reads_range {bmalloc : ℕ → Option Bytes} {blkbuf : Bytes}
    (hm : bmalloc sb.blockSize = some blkbuf) (hl : 0 < length) (hl64 : length < 2 ^ 64) :
    (superblockReadOffsetReads sb bmalloc offset length buffer).2.length =
        (blocksMeeting sb.blockSize offset length).card ↔
      offset % sb.blockSize + length ≤ 2 ^ 64 ∧
        Gets sb (offset / sb.blockSize) (blocksMeeting sb.blockSize offset length).card := by
  have hB := sb.blockSize_pos
  have hmod := Nat.mod_lt offset hB
  have hBlt := sb.blockSize_lt
  rw [card_blocksMeeting hB]
  unfold superblockReadOffsetReads div
  simp only [archDiv_eq hB, hm]
  rcases Nat.lt_or_ge (2 ^ 64) (offset % sb.blockSize + length) with hw | hw
  · -- one block is read of two or more
    have htwo : 1 ≤ (offset % sb.blockSize + length - 1) / sb.blockSize :=
      Nat.div_pos (by omega) hB
    rw [blockno_wraps hmod hl64 hw]
    refine iff_of_false (fun h => ?_) fun h => absurd h.1 (by omega)
    have hle := reads_le sb (offset / sb.blockSize) 1 0 (offset % sb.blockSize) 0 length
      blkbuf buffer
    rw [h, blocksFor, if_neg (by omega)] at hle
    omega
  · rw [blockno_fits hl hmod hl64 hw, reads_all]
    exact (and_iff_right hw).symm

/-- **Blocks are read once for each block that the range meets** just where there is memory
for a block, the range is not empty and does not leave the address space from the start of
its first block on, and none of its blocks but the last fails; or the range is empty and the
blocks are of one byte or there is no memory. An empty file is read without the disc, at
whatever position, just where there is no memory, or the blocks are of one byte and the read
is at the start of the file or of no bytes. -/
theorem reads_iff (sb : Superblock) :
    (∀ (bmalloc : ℕ → Option Bytes) (offset length : ℕ) (buffer : Bytes), length < 2 ^ 64 →
      ((superblockReadOffsetReads sb bmalloc offset length buffer).2.length =
          (blocksMeeting sb.blockSize offset length).card ↔
        (length = 0 ∧ (bmalloc sb.blockSize = none ∨ sb.blockLogs = 0)) ∨
          (0 < length ∧ bmalloc sb.blockSize ≠ none ∧
            offset % sb.blockSize + length ≤ 2 ^ 64 ∧
            Gets sb (offset / sb.blockSize) (blocksMeeting sb.blockSize offset length).card))) ∧
    (∀ (inode offset : ℕ) (m : Bmalloc) (nbytes : ℕ) (buffer : Bytes), offset < 2 ^ 32 →
      ((fileReadReads sb inode offset 0 m nbytes buffer).2 = [] ↔
        m.call 0 sb.blockSize = none ∨
          (nbytes = 0 ∨ offset = 0) ∧ sb.blockLogs = 0)) := by
  refine ⟨fun bmalloc offset length buffer hl64 => ?_,
    fun inode offset m nbytes buffer ho => ?_⟩
  · rcases Nat.eq_zero_or_pos length with rfl | hl
    · rw [blocksMeeting_zero, Finset.card_empty, List.length_eq_zero_iff, reads_eq_nil_iff hl64]
      simp
    · cases hm : bmalloc sb.blockSize with
      | none =>
        have hpos : 0 < (blocksMeeting sb.blockSize offset length).card := by
          rw [card_blocksMeeting sb.blockSize_pos, blocksFor, if_neg (by omega)]
          exact Nat.succ_pos _
        rw [(reads_eq_nil_iff hl64).2 (Or.inl hm), List.length_nil]
        simp [hpos.ne, hl.ne']
      | some blkbuf =>
        rw [reads_range hm hl hl64]
        simp [hl, hl.ne']
  · rw [fileReadReads_empty, reads_eq_nil_iff (min_sub32_lt nbytes offset),
      min_sub32_eq_zero ho]

lemma disc_size_le : 2 ^ 64 ≤ 2 ^ 64 := le_rfl

lemma disc_small : 11 < 16 := by decide

/-- A disc with 2048-byte blocks of which no read fails. -/
def disc : Superblock :=
  ⟨⟨9, 2 ^ 64, fun _ => 0, fun _ _ => false, disc_size_le⟩, 11, disc_small⟩

theorem reads_iff_disc :
    ((superblockReadOffsetReads disc (plenty.call 0) 2047 2 fun _ => 0).2.length =
        (blocksMeeting disc.blockSize 2047 2).card ↔
      (2 = 0 ∧ (plenty.call 0 disc.blockSize = none ∨ disc.blockLogs = 0)) ∨
        (0 < 2 ∧ plenty.call 0 disc.blockSize ≠ none ∧
          2047 % disc.blockSize + 2 ≤ 2 ^ 64 ∧
          Gets disc (2047 / disc.blockSize) (blocksMeeting disc.blockSize 2047 2).card)) ∧
    ((fileReadReads disc 20 497 0 plenty 119 fun _ => 0).2 = [] ↔
      plenty.call 0 disc.blockSize = none ∨ (119 = 0 ∨ 497 = 0) ∧ disc.blockLogs = 0) :=
  ⟨(reads_iff disc).1 (plenty.call 0) 2047 2 (fun _ => 0) (by decide),
    (reads_iff disc).2 20 497 plenty 119 (fun _ => 0) (by decide)⟩

/-- No block meets an empty range at the start of the disc, and all `2 ^ 53` are read; so are
they for an empty file there. -/
theorem not_as_many :
    (superblockReadOffsetReads disc (plenty.call 0) 0 0 fun _ => 0).2.length = 2 ^ 53 ∧
      blocksMeeting disc.blockSize 0 0 = ∅ ∧
      (fileReadReads disc 0 0 0 plenty 512 fun _ => 0).2 ≠ [] := by
  have hno : superblockBlockno disc 0 0 = 2 ^ 53 := by
    rw [blockno_empty_zero, if_neg (by decide)]
    rfl
  refine ⟨?_, blocksMeeting_zero _ _, fun h => ?_⟩
  · rw [reads_start (plenty_call 0 _), hno, reads_all]
    exact fun k _ => Bool.false_ne_true
  · rw [fileReadReads_empty, reads_eq_nil (plenty_call 0 _) (min_sub32_lt 512 0)] at h
    exact absurd h.2 (by decide)

end Elfboot.BlockCount
