import Elfboot.Ext2

/-!
The block a file offset is mapped to, against the pointer tree of ext2.

The indices are right up to the end of the doubly indirect blocks. Behind them the loop
takes the number of triply indirect blocks off the index in place of the number of doubly
indirect ones, and the subtraction wraps around to the index it started from.
-/

namespace Elfboot.Ext2Block

open Elfboot.Word Elfboot.Buffer Elfboot.Super Elfboot.Ext2

variable {sb : Superblock} {inode : Inode} {buffer : Bytes} {c k blk : ℕ}

/-! ### The number of pointers in a block -/

lemma blockSize_pow (h : 10 ≤ sb.blockLogs) : sb.blockSize = 4 * 2 ^ (sb.blockLogs - 2) :=
  calc sb.blockSize = 2 ^ (2 + (sb.blockLogs - 2)) := by
        rw [Nat.add_sub_cancel' (by omega)]; rfl
    _ = 4 * 2 ^ (sb.blockLogs - 2) := pow_add 2 2 _

lemma blkibn_eq (h : 10 ≤ sb.blockLogs) : blkibn sb = 2 ^ (sb.blockLogs - 2) := by
  have := blockSize_pow h
  unfold blkibn ext2MlpLen
  omega

lemma blockSize_eq (h : 10 ≤ sb.blockLogs) : sb.blockSize = 4 * blkibn sb := by
  rw [blockSize_pow h, blkibn_eq h]

lemma blkibn_pos (h : 10 ≤ sb.blockLogs) : 0 < blkibn sb := by
  rw [blkibn_eq h]; exact Nat.two_pow_pos _

lemma pow_blkibn (h : 10 ≤ sb.blockLogs) (hk : k ≤ 2) : pow (blkibn sb) k = blkibn sb ^ k ∧
    u32 (pow (blkibn sb) k) = blkibn sb ^ k := by
  have hlt : blkibn sb ^ k < 2 ^ 32 := by
    have := sb.small
    rw [blkibn_eq h, ← pow_mul]
    have hle : (sb.blockLogs - 2) * k ≤ 13 * 2 := Nat.mul_le_mul (by omega) hk
    exact Nat.pow_lt_pow_right (by decide) (by omega)
  have hp : pow (blkibn sb) k = blkibn sb ^ k := by
    rw [pow_eq (by omega), u64_of_lt (by omega)]
  exact ⟨hp, by rw [hp, u32_of_lt hlt]⟩

/-! ### One tree -/

/-- An entry of a block of pointers that has been read. -/
lemma entry_read (h : 10 ≤ sb.blockLogs) {i : ℕ} (hi : i < blkibn sb) :
    le32 (blockBytes sb blk buffer) (i * ext2MlpLen) = pointer sb blk i := by
  have hB := blockSize_eq h
  refine le32_congr fun j hj => ?_
  rw [blockBytes_at (by simp only [ext2MlpLen]; omega), Nat.add_assoc]

/-- The digits of an index, from the top one down, lead to its entry. -/
lemma indirectLoop_eq (h : 10 ≤ sb.blockLogs) (hbd : sb.bdev.blockLogs ≤ sb.blockLogs)
    (hok : ∀ blk, ¬ BlockFails sb blk) : ∀ {k blk : ℕ} {buffer : Bytes}, k ≤ 3 → blk < 2 ^ 32 →
    indirectLoop sb c k blk buffer = treeEntry sb k blk (c % blkibn sb ^ k)
  | 0, _, _, _, _ => rfl
  | k + 1, blk, buffer, hk, hblk => by
    have hN := blkibn_pos h
    have hBlt := sb.blockSize_lt
    have h64 : blk * sb.blockSize < 2 ^ 64 := by nlinarith
    unfold indirectLoop treeEntry
    simp only [(pow_blkibn h (by omega : k ≤ 2)).2, readBlock_eq hbd h64 (hok blk)]
    have hlt : pointer sb blk (c / blkibn sb ^ k % blkibn sb) < 2 ^ 32 := le32_lt _ _
    rw [entry_read h (Nat.mod_lt _ hN), indirectLoop_eq h hbd hok (by omega) hlt,
      pow_succ, Nat.mod_mul_right_div_self, Nat.mod_mul_right_mod]

/-! ### The path through the loop -/

lemma inodeBlock_direct {bmalloc : ℕ → Option Bytes} {offset : ℕ}
    (hc : offset / sb.blockSize < 12) :
    ext2fsInodeBlock sb inode bmalloc offset = inode.dbp (offset / sb.blockSize) := by
  unfold ext2fsInodeBlock
  exact if_pos hc

/-- Which indirect pointer is followed, and with what index. -/
def indirectPath (sb : Superblock) (inode : Inode) (buffer : Bytes) (c : ℕ) : ℕ :=
  let N := blkibn sb
  if c - 12 < N then indirectBlock sb (inode.dbp 12) (c - 12) 0 buffer
  else if c - 12 - N < N ^ 2 then indirectBlock sb (inode.dbp 13) (c - 12 - N) 1 buffer
  else indirectBlock sb (inode.dbp 14) (c - 12 - N + 2 ^ 32 - N ^ 3) 2 buffer

/-- Only blocks of one or two KiB are small enough for a file to reach the triply indirect
pointer. -/
lemma triple_small (h : 10 ≤ sb.blockLogs) {offset : ℕ} (ho : offset < 2 ^ 32)
    (hge : 12 + blkibn sb + blkibn sb ^ 2 ≤ offset / sb.blockSize) :
    blkibn sb = 256 ∨ blkibn sb = 512 := by
  have hB := blockSize_eq h
  have hlt := sb.small
  have hN := blkibn_eq h
  rcases Nat.lt_or_ge sb.blockLogs 12 with h12 | h12
  · have : sb.blockLogs = 10 ∨ sb.blockLogs = 11 := by omega
    rcases this with he | he <;> rw [he] at hN <;> simp [hN]
  · exfalso
    have hN' : 2 ^ 10 ≤ blkibn sb := by
      rw [hN]; exact Nat.pow_le_pow_right (by decide) (by omega)
    have hmul : (12 + blkibn sb + blkibn sb ^ 2) * (4 * blkibn sb) ≤ offset := by
      calc (12 + blkibn sb + blkibn sb ^ 2) * (4 * blkibn sb)
          ≤ offset / sb.blockSize * (4 * blkibn sb) := Nat.mul_le_mul_right _ hge
        _ = offset / sb.blockSize * sb.blockSize := by rw [hB]
        _ ≤ offset := Nat.div_mul_le_self _ _
    nlinarith

/-- The last turn, where it is reached: the divisor is the number of triply indirect blocks,
and the index wraps around. -/
lemma triple_turn (h : 10 ≤ sb.blockLogs) {offset : ℕ} (ho : offset < 2 ^ 32)
    (hge : 12 + blkibn sb + blkibn sb ^ 2 ≤ offset / sb.blockSize) :
    u32 (blkibn sb * pow (blkibn sb) 2) = blkibn sb ^ 3 ∧
      sub32 (offset / sb.blockSize - 12 - blkibn sb) (blkibn sb ^ 3) =
        offset / sb.blockSize - 12 - blkibn sb + 2 ^ 32 - blkibn sb ^ 3 ∧
      ¬ sb.blockSize ≤ u32 ((offset / sb.blockSize - 12 - blkibn sb + 2 ^ 32 - blkibn sb ^ 3) /
        blkibn sb ^ 3 * ext2MlpLen) := by
  have hB := blockSize_eq h
  rw [(pow_blkibn h le_rfl).1]
  rcases triple_small h ho hge with hN | hN <;> rw [hN] at hB hge ⊢ <;> rw [hB] at hge ⊢ <;>
    simp only [u32, sub32, ext2MlpLen] <;> omega

lemma inodeBlock_path (h : 10 ≤ sb.blockLogs) {bmalloc : ℕ → Option Bytes} {offset : ℕ}
    (ho : offset < 2 ^ 32) (hc : 12 ≤ offset / sb.blockSize)
    (hm : bmalloc sb.blockSize = some buffer) :
    ext2fsInodeBlock sb inode bmalloc offset =
      indirectPath sb inode buffer (offset / sb.blockSize) := by
  have hB := blockSize_eq h
  have hN := blkibn_pos h
  have hBlt := sb.blockSize_lt
  have hc32 : offset / sb.blockSize * sb.blockSize < 2 ^ 32 :=
    (Nat.div_mul_le_self _ _).trans_lt ho
  have h1k : 1024 ≤ sb.blockSize := Nat.pow_le_pow_right (show 2 > 0 by decide) h
  have hc22 : offset / sb.blockSize < 2 ^ 22 := by nlinarith
  have htriple := triple_turn h ho
  unfold ext2fsInodeBlock
  rw [if_neg (show ¬ offset / sb.blockSize < 12 by omega), hm]
  dsimp only
  generalize offset / sb.blockSize = c at *
  have hp0 : u32 (1 * pow (blkibn sb) 0) = 1 := by
    rw [(pow_blkibn h (by decide)).1, pow_zero]; rfl
  have hp1 : u32 (1 * pow (blkibn sb) 1) = blkibn sb := by
    rw [one_mul, (pow_blkibn h (by decide)).2, pow_one]
  have hs0 : sub32 (sub32 c (ext2DlpNum - 1)) 1 = c - 12 := by
    simp only [sub32, ext2DlpNum]; omega
  unfold indirectPath
  dsimp only
  -- the singly indirect pointer
  unfold inodeBlockLoop
  simp only [hp0, hs0, Nat.div_one, u32_of_lt (show (c - 12) * ext2MlpLen < 2 ^ 32 by
    simp only [ext2MlpLen]; omega)]
  rcases Nat.lt_or_ge (c - 12) (blkibn sb) with h0 | h0
  · rw [if_pos h0, if_neg (show ¬ sb.blockSize ≤ (c - 12) * 4 by omega)]
  rw [if_neg (show ¬ c - 12 < blkibn sb by omega),
    if_pos (show sb.blockSize ≤ (c - 12) * 4 by omega)]
  -- the doubly indirect pointer
  have hs1 : sub32 (c - 12) (blkibn sb) = c - 12 - blkibn sb := sub32_of_le h0 (by omega)
  have hq : (c - 12 - blkibn sb) / blkibn sb ≤ c - 12 - blkibn sb := Nat.div_le_self _ _
  unfold inodeBlockLoop
  simp only [Nat.zero_add, hp1, hs1, u32_of_lt (show
    (c - 12 - blkibn sb) / blkibn sb * ext2MlpLen < 2 ^ 32 by simp only [ext2MlpLen]; omega)]
  have hiff : c - 12 - blkibn sb < blkibn sb ^ 2 ↔
      (c - 12 - blkibn sb) / blkibn sb < blkibn sb := by
    rw [Nat.div_lt_iff_lt_mul hN, pow_two]
  rcases Nat.lt_or_ge (c - 12 - blkibn sb) (blkibn sb ^ 2) with h1 | h1
  · have := hiff.mp h1
    rw [if_pos h1, if_neg (show ¬ sb.blockSize ≤ (c - 12 - blkibn sb) / blkibn sb * 4 by omega)]
  have h1' : blkibn sb ≤ (c - 12 - blkibn sb) / blkibn sb := by
    by_contra hlt
    exact absurd (hiff.mpr (by omega)) (by omega)
  rw [if_neg (show ¬ c - 12 - blkibn sb < blkibn sb ^ 2 by omega),
    if_pos (show sb.blockSize ≤ (c - 12 - blkibn sb) / blkibn sb * 4 by omega)]
  -- the triply indirect pointer
  obtain ⟨ht1, ht2, ht3⟩ := htriple (by omega)
  unfold inodeBlockLoop
  simp only [Nat.reduceAdd, ht1, ht2, if_neg ht3]

/-! ### Against the pointer tree -/

/-- A superblock over a device that never fails. -/
def superOver {logs : ℕ} (h : logs < 16) (bdlogs : ℕ) (byte : Bytes) : Superblock where
  bdev := ⟨bdlogs, 2 ^ 64, byte, fun _ _ => false, le_rfl⟩
  blockLogs := logs
  small := h

lemma superOver_ok {logs bdlogs : ℕ} (h : logs < 16) (byte : Bytes) (blk : ℕ) :
    ¬ BlockFails (superOver h bdlogs byte) blk := by
  simp [BlockFails, superOver]

/-- Up to the end of the doubly indirect blocks the path leads to the block of the tree. -/
lemma path_eq_tree (h : 10 ≤ sb.blockLogs) (hbd : sb.bdev.blockLogs ≤ sb.blockLogs)
    (hok : ∀ blk, ¬ BlockFails sb blk) (hc : 12 ≤ c)
    (hlt : c < 12 + blkibn sb + blkibn sb ^ 2) :
    indirectPath sb inode buffer c = treeBlock sb inode c := by
  unfold indirectPath treeBlock
  dsimp only
  rw [if_neg (show ¬ c < 12 by omega)]
  split
  · next h0 =>
    unfold indirectBlock
    rw [indirectLoop_eq h hbd hok (by decide) (inode.dbp_lt 12), zero_add, pow_one,
      Nat.mod_eq_of_lt h0]
  · rw [if_pos (by omega), if_pos (by omega)]
    unfold indirectBlock
    have hr : c - 12 - blkibn sb < blkibn sb ^ (1 + 1) := by
      rw [show 1 + 1 = 2 from rfl]; omega
    rw [indirectLoop_eq h hbd hok (by decide) (inode.dbp_lt 13), Nat.mod_eq_of_lt hr]

/-- Behind them it leads to the entry at the index from which nothing has been taken off for
the doubly indirect blocks. -/
lemma path_triple (h : 10 ≤ sb.blockLogs) (hbd : sb.bdev.blockLogs ≤ sb.blockLogs)
    (hok : ∀ blk, ¬ BlockFails sb blk) {offset : ℕ} (ho : offset < 2 ^ 32)
    (hge : 12 + blkibn sb + blkibn sb ^ 2 ≤ offset / sb.blockSize) :
    indirectPath sb inode buffer (offset / sb.blockSize) =
        treeEntry sb 3 (inode.dbp 14) (offset / sb.blockSize - 12 - blkibn sb) ∧
      offset / sb.blockSize - 12 - blkibn sb < blkibn sb ^ 3 := by
  have hB := blockSize_eq h
  have hidx : (offset / sb.blockSize - 12 - blkibn sb + 2 ^ 32 - blkibn sb ^ 3) % blkibn sb ^ 3 =
      offset / sb.blockSize - 12 - blkibn sb ∧
      offset / sb.blockSize - 12 - blkibn sb < blkibn sb ^ 3 := by
    rcases triple_small h ho hge with hN | hN <;> rw [hN] at hB hge ⊢ <;> rw [hB] at hge ⊢ <;>
      omega
  refine ⟨?_, hidx.2⟩
  unfold indirectPath indirectBlock
  dsimp only
  rw [if_neg (by omega), if_neg (by omega),
    indirectLoop_eq h hbd hok (by decide) (inode.dbp_lt 14), hidx.1]

/-! ### Devices on which the difference shows -/

/-- Every pointer is the same, and not zero. -/
lemma treeBlock_ones {logs bdlogs : ℕ} (h : logs < 16) (hc : 12 ≤ c) :
    treeBlock (superOver h bdlogs fun _ => 1) inode c = 0x1010101 := by
  have hptr : ∀ blk i, pointer (superOver h bdlogs fun _ => 1) blk i = 0x1010101 := by
    intro blk i
    simp [pointer, le32, superOver]
  have hentry : ∀ k blk r, treeEntry (superOver h bdlogs fun _ => 1) (k + 1) blk r =
      0x1010101 := by
    intro k
    induction k with
    | zero => intro blk r; exact hptr _ _
    | succ k ih => intro blk r; exact ih _ _
  unfold treeBlock
  dsimp only
  rw [if_neg (by omega)]
  split_ifs <;> exact hentry _ _ _

lemma path_large {logs bdlogs : ℕ} (h : logs < 16) (hlt : logs < bdlogs) (byte : Bytes) :
    indirectPath (superOver h bdlogs byte) inode (fun _ => 0) c = 0 := by
  have hread : ∀ blk buffer, superblockReadBlock (superOver h bdlogs byte) blk buffer =
      some buffer := fun blk buffer => readBlock_large hlt (superOver_ok h byte blk)
  have hloop : ∀ d k blk, indirectLoop (superOver h bdlogs byte) d (k + 1) blk (fun _ => 0) =
      0 := by
    intro d k
    induction k with
    | zero =>
        intro blk
        unfold indirectLoop
        simp [hread, indirectLoop, le32]
    | succ k ih =>
        intro blk
        unfold indirectLoop
        simp only [hread]
        exact ih _
  unfold indirectPath indirectBlock
  dsimp only
  split_ifs <;> exact hloop _ _ _

/-- Block 1 points to the blocks 2 and 3 in turn, and these to themselves. -/
def turns (B : ℕ) : Bytes := fun a =>
  if a % 4 ≠ 0 then 0
  else if a / B = 1 then UInt8.ofNat (2 + a % B / 4 % 2) else UInt8.ofNat (a / B)

lemma pointer_turns {logs bdlogs : ℕ} (h : logs < 16) (h10 : 10 ≤ logs) {blk i : ℕ}
    (hi : i < 2 ^ (logs - 2)) (hblk : blk < 4) :
    pointer (superOver h bdlogs (turns (2 ^ logs))) blk i =
      if blk = 1 then 2 + i % 2 else blk := by
  have hpow : (superOver h bdlogs (turns (2 ^ logs))).blockSize = 4 * 2 ^ (logs - 2) :=
    @blockSize_pow (superOver h bdlogs (turns (2 ^ logs))) h10
  have hpow' : 2 ^ logs = 4 * 2 ^ (logs - 2) := hpow
  unfold pointer
  rw [hpow, hpow']
  change le32 (turns (4 * 2 ^ (logs - 2))) (blk * (4 * 2 ^ (logs - 2)) + i * 4) = _
  generalize 2 ^ (logs - 2) = N at hi
  have hdiv : (blk * (4 * N) + i * 4) / (4 * N) = blk := by
    rw [Nat.add_comm, Nat.add_mul_div_right _ _ (by omega), Nat.div_eq_of_lt (by omega),
      Nat.zero_add]
  have hmod : (blk * (4 * N) + i * 4) % (4 * N) = i * 4 := by
    rw [Nat.add_comm, Nat.add_mul_mod_self_right, Nat.mod_eq_of_lt (by omega)]
  have h4 : (blk * (4 * N) + i * 4) % 4 = 0 := by
    rw [show blk * (4 * N) + i * 4 = (blk * N + i) * 4 by ring, Nat.mul_mod_left]
  have hrest : ∀ j, 0 < j → j < 4 → turns (4 * N) (blk * (4 * N) + i * 4 + j) = 0 := by
    intro j h0 hj
    unfold turns
    rw [if_pos (by omega)]
  unfold le32
  rw [hrest 1 (by decide) (by decide), hrest 2 (by decide) (by decide),
    hrest 3 (by decide) (by decide)]
  unfold turns
  rw [if_neg (by omega), hdiv, hmod, Nat.mul_div_cancel _ (by decide)]
  split <;> simp <;> omega

/-- Two indices whose first digits follow each other lead to different blocks. -/
lemma tree_turns {logs bdlogs : ℕ} (h : logs < 16) (h10 : 10 ≤ logs) {r : ℕ}
    (hr : r < (2 ^ (logs - 2)) ^ 3) :
    treeEntry (superOver h bdlogs (turns (2 ^ logs))) 3 1 r =
      2 + r / (2 ^ (logs - 2)) ^ 2 % 2 := by
  have hN : blkibn (superOver h bdlogs (turns (2 ^ logs))) = 2 ^ (logs - 2) :=
    @blkibn_eq (superOver h bdlogs (turns (2 ^ logs))) h10
  have hpos : 0 < 2 ^ (logs - 2) := Nat.two_pow_pos _
  have h1 : r / (2 ^ (logs - 2)) ^ 2 < 2 ^ (logs - 2) :=
    Nat.div_lt_of_lt_mul (by rwa [← pow_succ])
  have h2 : r % (2 ^ (logs - 2)) ^ 2 / (2 ^ (logs - 2)) ^ 1 < 2 ^ (logs - 2) :=
    Nat.div_lt_of_lt_mul (by rw [pow_one, ← pow_two]; exact Nat.mod_lt _ (by positivity))
  have h3 : r % (2 ^ (logs - 2)) ^ 2 % (2 ^ (logs - 2)) ^ 1 / (2 ^ (logs - 2)) ^ 0 <
      2 ^ (logs - 2) := by
    rw [pow_one, pow_zero, Nat.div_one]
    exact Nat.mod_lt _ hpos
  simp only [treeEntry, hN]
  rw [pointer_turns h h10 h1 (by decide), if_pos rfl, pointer_turns h h10 h2 (by omega),
    if_neg (by omega), pointer_turns h h10 h3 (by omega), if_neg (by omega)]

/-! ### When the block is right -/

variable {logs bdlogs offset : ℕ}

/-- `ext2fs_inode_block` finds the block of the pointer tree, whatever the inode and the
device hold and whatever its buffer held; `ok` is whether the buffer can be allocated. -/
def FindsBlock (h16 : logs < 16) (bdlogs : ℕ) (ok : Bool) (offset : ℕ) : Prop :=
  ∀ (inode : Inode) (byte junk : Bytes),
    ext2fsInodeBlock (superOver h16 bdlogs byte) inode (fun _ => if ok then some junk else none)
      offset = treeBlock (superOver h16 bdlogs byte) inode (offset / 2 ^ logs)

/-- An inode whose pointers are all to block 1. -/
def oneInode : Inode := ⟨0, fun _ => 1, by decide, fun _ => by decide⟩

/-- **The block mapping** is right for the direct blocks and, if the buffer can be had and
the blocks of the device are no larger, up to the last doubly indirect block; and only
then. -/
theorem inodeBlock_iff (h10 : 10 ≤ logs) (h16 : logs < 16) (bdlogs : ℕ) (ok : Bool)
    (ho : offset < 2 ^ 32) :
    FindsBlock h16 bdlogs ok offset ↔ offset / 2 ^ logs < 12 ∨
      (ok = true ∧ bdlogs ≤ logs ∧
        offset / 2 ^ logs < 12 + 2 ^ logs / 4 + (2 ^ logs / 4) ^ 2) := by
  constructor
  · intro hP
    by_contra hnot
    push Not at hnot
    obtain ⟨hc, hnot⟩ := hnot
    have h10' : ∀ byte, 10 ≤ (superOver h16 bdlogs byte).blockLogs := fun _ => h10
    cases ok with
    | false =>
        have h1 := hP oneInode (fun _ => 1) fun _ => 0
        rw [treeBlock_ones h16 hc] at h1
        unfold ext2fsInodeBlock at h1
        rw [if_neg (show ¬ offset / (superOver h16 bdlogs fun _ => 1).blockSize < 12 from
          Nat.not_lt.mpr hc)] at h1
        simp at h1
    | true =>
        rcases Nat.lt_or_ge logs bdlogs with hlt | hge
        · have h1 := hP oneInode (fun _ => 1) fun _ => 0
          rw [treeBlock_ones h16 hc, inodeBlock_path (h10' _) ho hc rfl,
            path_large h16 hlt] at h1
          simp at h1
        · have hfar := hnot rfl hge
          have hN : blkibn (superOver h16 bdlogs (turns (2 ^ logs))) = 2 ^ (logs - 2) :=
            blkibn_eq (h10' (turns (2 ^ logs)))
          have h1 := hP oneInode (turns (2 ^ logs)) fun _ => 0
          obtain ⟨h2, h3⟩ := @path_triple _ oneInode (fun _ => 0)
            (h10' (turns (2 ^ logs))) hge (superOver_ok h16 _) _ ho hfar
          change 12 + blkibn (superOver h16 bdlogs (turns (2 ^ logs))) +
            blkibn (superOver h16 bdlogs (turns (2 ^ logs))) ^ 2 ≤ offset / 2 ^ logs at hfar
          rw [inodeBlock_path (h10' _) ho hc rfl, h2] at h1
          change _ = treeBlock _ _ (offset / 2 ^ logs) at h1
          change treeEntry _ 3 1 (offset / 2 ^ logs - 12 - blkibn _) = _ at h1
          change offset / 2 ^ logs - 12 - blkibn _ < _ at h3
          rw [hN] at hfar h1 h3
          unfold treeBlock at h1
          dsimp only at h1
          rw [hN, if_neg (by omega), if_neg (by omega), if_neg (by omega)] at h1
          change _ = treeEntry _ 3 1 _ at h1
          rw [tree_turns h16 h10 h3, tree_turns h16 h10 (by omega)] at h1
          have hM : 0 < (2 ^ (logs - 2)) ^ 2 := by positivity
          have hstep := Nat.add_div_right
            (offset / 2 ^ logs - 12 - 2 ^ (logs - 2) - (2 ^ (logs - 2)) ^ 2) hM
          rw [Nat.sub_add_cancel (by omega)] at hstep
          rw [hstep] at h1
          omega
  · rintro h inode byte junk
    have h10' : 10 ≤ (superOver h16 bdlogs byte).blockLogs := h10
    rcases Nat.lt_or_ge (offset / 2 ^ logs) 12 with hc | hc
    · rw [inodeBlock_direct hc, treeBlock, if_pos hc]
      rfl
    · obtain ⟨rfl, hbd, hlt⟩ := h.resolve_left (by omega)
      rw [inodeBlock_path h10' ho hc rfl]
      exact path_eq_tree h10' hbd (superOver_ok h16 byte) hc hlt

theorem inodeBlock_iff_single : FindsBlock (show 10 < 16 by decide) 9 true 0x4000 :=
  (inodeBlock_iff (by decide) (by decide) 9 true (by decide)).mpr (by decide)

/-- With blocks of one KiB, the first block behind the doubly indirect ones is taken from
the second of the triply indirect pointers. -/
theorem not_inodeBlock : ¬ ∀ (logs : ℕ) (_ : 10 ≤ logs) (h16 : logs < 16) (bdlogs : ℕ),
    bdlogs ≤ logs → ∀ offset < 2 ^ 32, FindsBlock h16 bdlogs true offset := by
  intro h
  have h1 := h 10 (by decide) (by decide) 9 (by decide) ((12 + 256 + 256 ^ 2) * 1024) (by decide)
    oneInode (turns 1024) fun _ => 0
  revert h1
  decide +kernel

end Elfboot.Ext2Block
