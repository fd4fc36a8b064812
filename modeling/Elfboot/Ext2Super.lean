import Elfboot.Ext2Mount

/-!
Where the ext2 superblock is read from, and how much is read.
-/

namespace Elfboot.Ext2Super

open Elfboot.Word Elfboot.Buffer Elfboot.Objects Elfboot.Ext2Mount
open Elfboot.Super (Bdev smallSuper)

variable {bdLogs room : ℕ}

/-- The read of the superblock fails. -/
def SuperFails (bdev : Bdev) : Prop :=
  bdev.fails (sbSector bdev.blockLogs 0 ext2SbOffset) (sbLength bdev.blockLogs 0 ext2SbLength) =
    true

/-- The bytes that the read of the superblock writes. -/
def transferred (bdLogs : ℕ) : ℕ := sbLength bdLogs 0 ext2SbLength * 2 ^ bdLogs

/-- What is read fits in the room, and is the superblock of the device. -/
def ReadsRight (room : ℕ) (env : Env) (bdev : Bdev) (esb : Bytes) (h : Heap) : Prop :=
  ∀ super h', readSuper (onDevice env bdev) bdev.blockLogs esb h = some (some super, h') →
    transferred bdev.blockLogs ≤ room ∧
      ∀ i < 1024, super i = bdev.byte (ext2SbOffset + i)

/-! ### Sectors -/

lemma sbSector_eq (bdLogs : ℕ) : sbSector bdLogs 0 ext2SbOffset = 1024 / 2 ^ bdLogs := by
  have hle : 1024 / 2 ^ bdLogs ≤ 1024 := Nat.div_le_self _ _
  show u64 (0 + 1024 >>> bdLogs) = 1024 / 2 ^ bdLogs
  rw [Nat.shiftRight_eq_div_pow, Nat.zero_add, u64_of_lt (by omega)]

lemma sbLength_eq (bdLogs : ℕ) : sbLength bdLogs 0 ext2SbLength = 1015 / 2 ^ bdLogs + 1 := by
  have hle : 1015 / 2 ^ bdLogs ≤ 1015 := Nat.div_le_self _ _
  have hlast : sub64 (u64 (0 + ext2SbLength)) 1 = 1015 := by decide
  unfold sbLength
  rw [hlast, Nat.shiftRight_eq_div_pow, Nat.zero_shiftRight,
    sub64_of_le (Nat.zero_le _) (by omega), Nat.sub_zero, u64_of_lt (by omega)]

/-- A sector is half of the superblock, or all of it, or more. -/
lemma logs_cases (h9 : 9 ≤ bdLogs) : bdLogs = 9 ∨ bdLogs = 10 ∨ 11 ≤ bdLogs := by omega

lemma lt_pow_of_large (h11 : 11 ≤ bdLogs) : 2048 ≤ 2 ^ bdLogs :=
  (Nat.pow_le_pow_right Nat.two_pos h11 : 2 ^ 11 ≤ 2 ^ bdLogs)

lemma transferred_eq (h9 : 9 ≤ bdLogs) : transferred bdLogs = max 1024 (2 ^ bdLogs) := by
  unfold transferred
  rw [sbLength_eq]
  rcases logs_cases h9 with rfl | rfl | h11
  · rfl
  · rfl
  · have hpow := lt_pow_of_large h11
    rw [Nat.div_eq_of_lt (by omega), Nat.zero_add, Nat.one_mul, max_eq_right (by omega)]

/-- Where the bytes that are read begin. -/
lemma start_eq (h9 : 9 ≤ bdLogs) :
    sbSector bdLogs 0 ext2SbOffset * 2 ^ bdLogs = if bdLogs ≤ 10 then 1024 else 0 := by
  rw [sbSector_eq]
  rcases logs_cases h9 with rfl | rfl | h11
  · rfl
  · rfl
  · have hpow := lt_pow_of_large h11
    rw [Nat.div_eq_of_lt (by omega), Nat.zero_mul, if_neg (by omega)]

/-! ### The read -/

variable {env : Env} {bdev : Bdev} {esb super : Bytes} {h h' : Heap}

lemma readSuper_fails (hf : SuperFails bdev) :
    readSuper (onDevice env bdev) bdev.blockLogs esb h = some (none, h.tick) := by
  unfold readSuper bdevRead sense onDevice
  dsimp only
  rw [show bdev.fails _ _ = true from hf, if_pos rfl]
  rfl

lemma readSuper_reads (hf : ¬ SuperFails bdev) :
    readSuper (onDevice env bdev) bdev.blockLogs esb h =
      some (some (memcpy esb 0 (fun i => bdev.byte
        (sbSector bdev.blockLogs 0 ext2SbOffset * 2 ^ bdev.blockLogs + i)) 0
          (transferred bdev.blockLogs)), h.tick) := by
  unfold readSuper bdevRead sense onDevice
  dsimp only
  rw [if_neg (show ¬ bdev.fails _ _ = true from hf)]
  rfl

/-- What the superblock holds when it has been read. -/
lemma super_at (h9 : 9 ≤ bdev.blockLogs)
    (heq : readSuper (onDevice env bdev) bdev.blockLogs esb h = some (some super, h')) {i : ℕ}
    (hi : i < 1024) :
    super i = bdev.byte ((if bdev.blockLogs ≤ 10 then 1024 else 0) + i) := by
  by_cases hf : SuperFails bdev
  · rw [readSuper_fails hf] at heq
    cases heq
  · rw [readSuper_reads hf] at heq
    cases heq
    have hlt : i < transferred bdev.blockLogs := by
      rw [transferred_eq h9]
      exact lt_max_of_lt_left hi
    unfold memcpy
    rw [if_pos (by omega), start_eq h9, Nat.sub_zero, Nat.zero_add]

/-- With any room for what is read. -/
lemma readsRight_room_iff (h9 : 9 ≤ bdev.blockLogs) :
    ReadsRight room env bdev esb h ↔ SuperFails bdev ∨ max 1024 (2 ^ bdev.blockLogs) ≤ room ∧
      (bdev.blockLogs ≤ 10 ∨ ∀ i < 1024, bdev.byte i = bdev.byte (1024 + i)) := by
  by_cases hf : SuperFails bdev
  · refine iff_of_true (fun super h' heq => ?_) (Or.inl hf)
    rw [readSuper_fails hf] at heq
    cases heq
  · rw [or_iff_right hf, ← transferred_eq h9]
    constructor
    · intro hright
      have hread : readSuper (onDevice env bdev) bdev.blockLogs esb h = some (some _, _) :=
        readSuper_reads hf
      obtain ⟨hroom, hbytes⟩ := hright _ _ hread
      refine ⟨hroom, or_iff_not_imp_left.2 fun hlarge i hi => ?_⟩
      have hat := super_at h9 hread hi
      rw [if_neg hlarge, Nat.zero_add] at hat
      exact hat.symm.trans (hbytes i hi)
    · rintro ⟨hroom, hsame⟩ super h' heq
      refine ⟨hroom, fun i hi => ?_⟩
      rw [super_at h9 heq hi]
      split_ifs with hsmall
      · rfl
      · rw [Nat.zero_add]
        exact hsame.resolve_left hsmall i hi

lemma pow_le_iff (bdLogs : ℕ) : max 1024 (2 ^ bdLogs) ≤ 1024 ↔ bdLogs ≤ 10 := by
  rw [max_le_iff, and_iff_right le_rfl]
  exact Nat.pow_le_pow_iff_right Nat.one_lt_two (m := 10)

/-- **The superblock is never read right**: where the read does not fail, it writes more than the
bytes there are for it. With room for 1024 bytes, it is read right from exactly the devices with
blocks of at most 1024 bytes. -/
theorem readsRight_iff (env : Env) (bdev : Bdev) (esb : Bytes) (h : Heap)
    (h9 : 9 ≤ bdev.blockLogs) :
    (ReadsRight ext2SbLength env bdev esb h ↔ SuperFails bdev) ∧
      (ReadsRight 1024 env bdev esb h ↔ SuperFails bdev ∨ bdev.blockLogs ≤ 10) := by
  rw [readsRight_room_iff h9, readsRight_room_iff h9, pow_le_iff]
  have hmore : ¬ max 1024 (2 ^ bdev.blockLogs) ≤ ext2SbLength := fun hle =>
    absurd ((le_max_left _ _).trans hle) (by decide)
  refine ⟨or_iff_left fun hand => hmore hand.1, or_congr_right ?_⟩
  exact ⟨fun hand => hand.1, fun hsmall => ⟨hsmall, Or.inl hsmall⟩⟩

/-- There is memory for everything, and nothing to read. -/
def plenty : Env := ⟨fun _ _ => some fun _ => 0, fun _ _ _ => none, fun _ => 0⟩

theorem readsRight_iff_small :
    (ReadsRight ext2SbLength plenty smallSuper.bdev (fun _ => 0) emptyHeap ↔
        SuperFails smallSuper.bdev) ∧
      (ReadsRight 1024 plenty smallSuper.bdev (fun _ => 0) emptyHeap ↔
        SuperFails smallSuper.bdev ∨ smallSuper.bdev.blockLogs ≤ 10) :=
  readsRight_iff plenty smallSuper.bdev (fun _ => 0) emptyHeap le_rfl

/-- A disk with sectors of 512 bytes. -/
theorem not_readsRight_small :
    ¬ ReadsRight ext2SbLength plenty smallSuper.bdev (fun _ => 0) emptyHeap := by
  intro hright
  have hfits := (hright _ _ (readSuper_reads Bool.false_ne_true)).1
  exact absurd hfits (by decide)

end Elfboot.Ext2Super
