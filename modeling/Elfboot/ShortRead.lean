import Elfboot.FileRead
import Elfboot.Ext2Read

/-!
When the read functions of the file systems fill the buffer, and when they return zero.

A read that fails or is short leaves the last byte of the buffer as it was. The bytes of a
file are those at the place where its file system looks for them.
-/

namespace Elfboot.ShortRead

open Elfboot.Word Elfboot.Buffer Elfboot.Super Elfboot.Ext2 Elfboot.Ext2Read Elfboot.FileRead

variable {ρ : Type} {sb : Superblock} {m : Bmalloc} {inode : Inode} {offset n : ℕ}

/-- A read that puts `n` bytes into the buffer, whatever the buffers held before. `rd` is what
it does, by what the first buffer that is allocated holds. -/
def Fills (rd : Bytes → Bytes → ρ × Bytes) (n : ℕ) (content : Bytes) : Prop :=
  ∀ junk buffer, ∀ i < n, (rd junk buffer).2 i = content i

variable {rd : Bytes → Bytes → ρ × Bytes} {content : Bytes}

lemma fills_congr {ρ' : Type} {rd' : Bytes → Bytes → ρ' × Bytes}
    (h : ∀ junk buffer, (rd junk buffer).2 = (rd' junk buffer).2) :
    Fills rd n content ↔ Fills rd' n content := by
  simp only [Fills, h]

lemma not_fills_of_kept (junk : Bytes) (hn : 1 ≤ n)
    (h : ∀ buffer, (rd junk buffer).2 (n - 1) = buffer (n - 1)) : ¬ Fills rd n content := by
  intro hf
  have h1 := hf junk (fun _ => content (n - 1) + 1) (n - 1) (by omega)
  rw [h] at h1
  exact succ_ne_self _ h1

lemma not_fills_of_junk (buffer : Bytes) {o : ℕ} (hn : 1 ≤ n)
    (h : ∀ junk, (rd junk buffer).2 0 = junk o) : ¬ Fills rd n content := by
  intro hf
  have h1 := hf (fun _ => content 0 + 1) buffer 0 hn
  rw [h] at h1
  exact succ_ne_self _ h1

/-! ### ISO 9660 -/

/-- Where a read begins on the device. -/
def blkoff (sb : Superblock) (ino offset : ℕ) : ℕ := u64 (u32 (sb.blockSize * ino) + offset)

/-- There is memory for a block, the blocks of the device are no larger, and no block that the
range meets fails. -/
structure IsofsWhole (sb : Superblock) (m : Bmalloc) (start n : ℕ) : Prop where
  ok : m.ok 0 sb.blockSize = true
  logs : sb.bdev.blockLogs ≤ sb.blockLogs
  reads : ∀ blk, start / sb.blockSize ≤ blk → blk ≤ (start + n - 1) / sb.blockSize →
    ¬ BlockFails sb blk

lemma withFirst_self (m : Bmalloc) : withFirst m (m.holds 0) = m := by
  obtain ⟨ok, holds⟩ := m
  simp only [withFirst, Bmalloc.mk.injEq, true_and]
  ext i : 1
  split_ifs with h
  · rw [h]
  · rfl

lemma withFirst_call (junk : Bytes) (hok : m.ok 0 sb.blockSize = true) :
    (withFirst m junk).call 0 sb.blockSize = some junk := by
  simp [Bmalloc.call, withFirst, hok]

lemma withFirst_none {junk : Bytes} (hok : m.ok 0 sb.blockSize ≠ true) :
    (withFirst m junk).call 0 sb.blockSize = none := by
  simp [Bmalloc.call, withFirst, hok]

lemma isofsRead_buffer (ino : ℕ) (bmalloc : ℕ → Option Bytes) (buffer : Bytes) :
    (isofsRead sb ino bmalloc offset n buffer).2 =
      (superblockReadOffset sb bmalloc (blkoff sb ino offset) n buffer).2 := by
  simp only [isofsRead, blkoff]
  split_ifs
  · rfl
  · rfl

lemma isofsRead_ne_zero (hn : 1 ≤ n) (ino : ℕ) (bmalloc : ℕ → Option Bytes) (buffer : Bytes) :
    (isofsRead sb ino bmalloc offset n buffer).1 ≠ 0 := by
  simp only [isofsRead]
  split_ifs
  · show sub32 0 14 ≠ 0
    decide
  · exact Nat.ne_of_gt hn

lemma blkoff_le (sb : Superblock) (ho : offset < 2 ^ 32) (hlt : n < 2 ^ 32) (ino : ℕ) :
    blkoff sb ino offset + n ≤ 2 ^ 64 := by
  have h1 := u32_lt (sb.blockSize * ino)
  unfold blkoff
  rw [u64_of_lt (by omega)]
  omega

/-- **A read from an ISO 9660 file** fills the buffer exactly if the range can be read. -/
lemma isofsRead_fills_iff (ino : ℕ) (ho : offset < 2 ^ 32) (hn : 1 ≤ n) (hlt : n < 2 ^ 32) :
    Fills (fun junk => isofsRead sb ino ((withFirst m junk).call 0) offset n) n
        (fun i => sb.bdev.byte (blkoff sb ino offset + i)) ↔
      IsofsWhole sb m (blkoff sb ino offset) n := by
  have h64 := blkoff_le sb ho hlt ino
  generalize hs : blkoff sb ino offset = start at h64 ⊢
  constructor
  · intro h
    have hok : m.ok 0 sb.blockSize = true := by
      by_contra hno
      refine not_fills_of_kept (fun _ => 0) hn (fun buffer => ?_) h
      rw [isofsRead_buffer, superblockReadOffset, withFirst_none hno]
    have hreads : ∀ blk, start / sb.blockSize ≤ blk → blk ≤ (start + n - 1) / sb.blockSize →
        ¬ BlockFails sb blk := by
      intro blk hge hle hbad
      refine not_fills_of_kept (fun _ => 0) hn (fun buffer => ?_) h
      obtain ⟨buffer', h1, h2⟩ := readOffset_stops (withFirst_call (fun _ => 0) hok) hn hlt
        h64 buffer ⟨blk, hge, hle, hbad⟩
      rw [isofsRead_buffer, hs, h1]
      exact h2 _ (by omega)
    refine ⟨hok, ?_, hreads⟩
    by_contra hlogs
    refine not_fills_of_junk (fun _ => 0) (o := start % sb.blockSize) hn
      (fun junk => ?_) h
    rw [isofsRead_buffer, hs]
    exact readOffset_large (not_le.mp hlogs) (withFirst_call _ hok) hn hlt h64 _
      (hreads _ le_rfl (Nat.div_le_div_right (by omega)))
  · intro h junk buffer i hi
    obtain ⟨buffer', h1, h2⟩ := readOffset_reads h.logs (withFirst_call junk h.ok) hn hlt
      h64 buffer h.reads
    rw [isofsRead_buffer, hs, h1]
    exact (h2 i).trans (if_pos hi)

/-! ### ext2 -/

variable {sector : ℕ}

/-- There is memory for a block, the blocks of the device are no larger, each block of the
range is there, and the range needs no more blocks than its length does. -/
structure Ext2Whole (sb : Superblock) (inode : Inode) (m : Bmalloc) (offset n : ℕ) : Prop where
  ok : m.ok 0 sb.blockSize = true
  logs : sb.bdev.blockLogs ≤ sb.blockLogs
  there : ∀ t < blocksFor sb.blockSize (offset % sb.blockSize) n,
    There sb (turnBlock sb inode m (offset / sb.blockSize) t)
  turns : offset % sb.blockSize + (n - 1) % sb.blockSize < sb.blockSize

lemma turn_missing {blkoff ibloff bufoff length k : ℕ} {iblock buffer : Bytes}
    (h : ¬ There sb (turnBlock sb inode m sector blkoff)) :
    inodeReadLoop sb inode m sector k blkoff ibloff bufoff length iblock buffer =
      (length, buffer) := by
  cases k with
  | zero => rfl
  | succ k =>
    have hblk : ext2fsInodeBlock sb inode (m.call (blkoff + 1))
      (u32 (u64 (u64 (blkoff + sector) * sb.blockSize))) = turnBlock sb inode m sector blkoff := rfl
    unfold inodeReadLoop
    by_cases hl : length = 0
    · rw [if_pos hl]
    rw [if_neg hl]
    simp only [hblk]
    by_cases hz : turnBlock sb inode m sector blkoff = 0
    · rw [if_pos hz]
    · have hf : BlockFails sb (turnBlock sb inode m sector blkoff) := by
        by_contra hno
        exact h ⟨hz, hno⟩
      rw [if_neg hz, readBlock_fails hf]

/-- A turn whose block is there: it copies a piece, and the loop goes on behind it. -/
lemma turn_there {blkoff ibloff o bufoff length k : ℕ} (ho : (if blkoff ≠ 0 then 0 else ibloff) = o)
    (hlt : o < sb.blockSize) (hl : 1 ≤ length) (h32 : bufoff + length < 2 ^ 32)
    (h : There sb (turnBlock sb inode m sector blkoff)) (iblock buffer : Bytes) :
    ∃ iblock', inodeReadLoop sb inode m sector (k + 1) blkoff ibloff bufoff length iblock buffer =
      inodeReadLoop sb inode m sector k (blkoff + 1) o (bufoff + min (sb.blockSize - o) length)
        (length - min (sb.blockSize - o) length) iblock'
        (memcpy buffer bufoff iblock' o (min (sb.blockSize - o) length)) := by
  have hB := sb.blockSize_lt
  have hsub : sub32 sb.blockSize o = sb.blockSize - o := sub32_of_le hlt.le (by omega)
  have hblk : ext2fsInodeBlock sb inode (m.call (blkoff + 1))
    (u32 (u64 (u64 (blkoff + sector) * sb.blockSize))) = turnBlock sb inode m sector blkoff := rfl
  obtain ⟨iblock', hread⟩ := readBlock_some h.2 iblock
  refine ⟨iblock', ?_⟩
  rw [inodeReadLoop, if_neg (by omega)]
  simp only [hblk, ho, hsub, if_neg h.1, hread]
  rw [u32_of_lt (by omega), sub32_of_le (by omega) (by omega)]

/-- What is left never grows. -/
lemma readLoop_left : ∀ (k : ℕ) {blkoff ibloff bufoff length : ℕ} {iblock buffer : Bytes},
    (if blkoff ≠ 0 then 0 else ibloff) < sb.blockSize → bufoff + length < 2 ^ 32 →
    (inodeReadLoop sb inode m sector k blkoff ibloff bufoff length iblock buffer).1 ≤ length
  | 0, _, _, _, _, _, _, _, _ => le_rfl
  | k + 1, blkoff, ibloff, bufoff, length, iblock, buffer, hlt, h32 => by
    rcases Nat.eq_zero_or_pos length with hz | hl
    · rw [hz, readLoop_done]
    by_cases h : There sb (turnBlock sb inode m sector blkoff)
    · obtain ⟨iblock', heq⟩ := turn_there (k := k) rfl hlt hl h32 h iblock buffer
      rw [heq]
      have hnext : (if blkoff + 1 ≠ 0 then 0 else if blkoff ≠ 0 then 0 else ibloff) <
          sb.blockSize := by
        rw [if_pos (Nat.succ_ne_zero _)]
        exact sb.blockSize_pos
      exact (readLoop_left k hnext (by omega)).trans (Nat.sub_le _ _)
    · rw [turn_missing h]

lemma readLoop_left_lt (k : ℕ) {blkoff ibloff bufoff length : ℕ}
    (hlt : (if blkoff ≠ 0 then 0 else ibloff) < sb.blockSize) (hl : 1 ≤ length)
    (h32 : bufoff + length < 2 ^ 32) (h : There sb (turnBlock sb inode m sector blkoff))
    (iblock buffer : Bytes) :
    (inodeReadLoop sb inode m sector (k + 1) blkoff ibloff bufoff length iblock buffer).1 <
      length := by
  obtain ⟨iblock', heq⟩ := turn_there (k := k) rfl hlt hl h32 h iblock buffer
  have hnext : (if blkoff + 1 ≠ 0 then 0 else if blkoff ≠ 0 then 0 else ibloff) < sb.blockSize := by
    rw [if_pos (Nat.succ_ne_zero _)]
    exact sb.blockSize_pos
  rw [heq]
  exact (readLoop_left k hnext (by omega)).trans_lt (by omega)

/-- The loop does not get to the last byte where a block of the range is missing or its turns
are too few. -/
lemma readLoop_last : ∀ (k : ℕ) {blkoff ibloff o bufoff length : ℕ} (iblock buffer : Bytes),
    (if blkoff ≠ 0 then 0 else ibloff) = o → o < sb.blockSize → 1 ≤ length →
    bufoff + length < 2 ^ 32 →
    ((∃ t < blocksFor sb.blockSize o length,
        ¬ There sb (turnBlock sb inode m sector (blkoff + t))) ∨
      k * sb.blockSize < o + length) →
    (inodeReadLoop sb inode m sector k blkoff ibloff bufoff length iblock buffer).2
      (bufoff + length - 1) = buffer (bufoff + length - 1)
  | 0, _, _, _, _, _, _, _, _, _, _, _, _ => rfl
  | k + 1, blkoff, ibloff, o, bufoff, length, iblock, buffer, ho, hlt, hl, h32, hbad => by
    have hB := sb.blockSize_pos
    by_cases h : There sb (turnBlock sb inode m sector blkoff)
    · obtain ⟨iblock', heq⟩ := turn_there (k := k) ho hlt hl h32 h iblock buffer
      rw [heq]
      have hmul : (k + 1) * sb.blockSize = k * sb.blockSize + sb.blockSize := Nat.succ_mul _ _
      rw [blocksFor_pos hB hlt hl] at hbad
      generalize hr : min (sb.blockSize - o) length = r at hbad ⊢
      have hbad' : r < length ∧ ((∃ t < blocksFor sb.blockSize 0 (length - r),
          ¬ There sb (turnBlock sb inode m sector (blkoff + 1 + t))) ∨
            k * sb.blockSize < 0 + (length - r)) := by
        rcases hbad with ⟨t, ht, hmiss⟩ | hturns
        · cases t with
          | zero => exact absurd h hmiss
          | succ t =>
            have hrl : r < length := by
              by_contra hge
              have hz : length - r = 0 := by omega
              rw [hz] at ht
              simp [blocksFor] at ht
            refine ⟨hrl, .inl ⟨t, by omega, ?_⟩⟩
            rwa [show blkoff + 1 + t = blkoff + (t + 1) by omega]
        · exact ⟨by omega, .inr (by omega)⟩
      obtain ⟨hrl, hrest⟩ := hbad'
      have hlast : bufoff + length - 1 = bufoff + r + (length - r) - 1 := by omega
      rw [hlast, readLoop_last k _ _ (if_pos (Nat.succ_ne_zero _)) hB (by omega) (by omega) hrest,
        memcpy, if_neg (by omega)]
    · rw [turn_missing h]

/-- **A read from an ext2 file** fills the buffer exactly if the range can be read and its
turns are enough. -/
lemma inodeRead_fills_iff (hn : 1 ≤ n) (hlt : n < 2 ^ 32) :
    Fills (fun junk => ext2fsInodeRead sb inode (withFirst m junk) offset n) n
        (fun i => fileBytes sb (turnBlock sb inode m (offset / sb.blockSize))
          (offset % sb.blockSize + i)) ↔
      Ext2Whole sb inode m offset n := by
  have ho := Nat.mod_lt offset sb.blockSize_pos
  have hturns : min n (((n - 1) / sb.blockSize + 1) * sb.blockSize - offset % sb.blockSize) = n ↔
      offset % sb.blockSize + (n - 1) % sb.blockSize < sb.blockSize := turns_enough _ ho hn
  constructor
  · intro h
    have hok : m.ok 0 sb.blockSize = true := by
      by_contra hno
      refine not_fills_of_kept (fun _ => 0) hn (fun buffer => ?_) h
      rw [ext2fsInodeRead, withFirst_none hno]
    have hlast : ¬ ((∃ t < blocksFor sb.blockSize (offset % sb.blockSize) n,
        ¬ There sb (turnBlock sb inode m (offset / sb.blockSize) (0 + t))) ∨
          ((n - 1) / sb.blockSize + 1) * sb.blockSize < offset % sb.blockSize + n) := by
      intro hbad
      refine not_fills_of_kept (fun _ => 0) hn (fun buffer => ?_) h
      have h1 := readLoop_last (m := withFirst m fun _ => 0) ((n - 1) / sb.blockSize + 1)
        (fun _ => 0) buffer (if_neg (by simp)) ho hn
        (show 0 + n < 2 ^ 32 by omega) hbad
      rw [inodeRead_eq hok hn hlt]
      rwa [Nat.zero_add] at h1
    have hthere : ∀ t < blocksFor sb.blockSize (offset % sb.blockSize) n,
        There sb (turnBlock sb inode m (offset / sb.blockSize) t) := by
      intro t ht
      by_contra hmiss
      exact hlast (.inl ⟨t, ht, by rwa [Nat.zero_add]⟩)
    refine ⟨hok, ?_, hthere, hturns.mp (by omega)⟩
    by_contra hlogs
    refine not_fills_of_junk (fun _ => 0) (o := offset % sb.blockSize) hn
      (fun junk => ?_) h
    rw [inodeRead_eq hok hn hlt]
    exact readLoop_large (not_le.mp hlogs) ho hn hlt
      (hthere 0 (by rw [blocksFor_pos sb.blockSize_pos ho hn]; omega))
  · intro h junk buffer i hi
    obtain ⟨buffer', h1, h2⟩ := readLoop_reads (m := withFirst m junk) (offset / sb.blockSize)
      h.logs ((n - 1) / sb.blockSize + 1) 0 (offset % sb.blockSize) (offset % sb.blockSize) 0 n junk
      buffer (if_neg (by simp)) ho (by omega) fun t ht => by
        rw [Nat.zero_add]
        exact h.there t ht
    rw [hturns.mpr h.turns] at h2
    dsimp only
    rw [inodeRead_eq h.ok hn hlt, h1]
    refine (h2 i).trans ((if_pos (by omega)).trans ?_)
    rw [Nat.zero_mul, Nat.zero_add, Nat.sub_zero]
    rfl

/-- It returns zero exactly if there is memory and the first block is missing. -/
lemma inodeRead_zero_iff (hn : 1 ≤ n) (hlt : n < 2 ^ 32) (buffer : Bytes) :
    (ext2fsInodeRead sb inode m offset n buffer).1 = 0 ↔
      m.ok 0 sb.blockSize = true ∧
        ¬ There sb (turnBlock sb inode m (offset / sb.blockSize) 0) := by
  have ho := Nat.mod_lt offset sb.blockSize_pos
  have h32 : 0 + n < 2 ^ 32 := by omega
  have hm : m = withFirst m (m.holds 0) := (withFirst_self m).symm
  by_cases hok : m.ok 0 sb.blockSize = true
  · rw [hm, inodeRead_eq hok hn hlt, ← hm]
    simp only [hok, true_and]
    by_cases hthere : There sb (turnBlock sb inode m (offset / sb.blockSize) 0)
    · have hleft := readLoop_left_lt ((n - 1) / sb.blockSize) ((if_neg (by simp)).trans_lt ho) hn
        h32 hthere (m.holds 0) buffer
      rw [sub32_of_le hleft.le hlt]
      simp only [hthere, not_true_eq_false, iff_false]
      omega
    · rw [turn_missing hthere, sub32_of_le le_rfl hlt]
      simp [hthere]
  · have hcall : m.call 0 sb.blockSize = none := by simp [Bmalloc.call, hok]
    rw [ext2fsInodeRead, hcall]
    simp [hok, sub32]

end Elfboot.ShortRead
