import Elfboot.Word
import Mathlib

/-!
The answer of an ATA device to IDENTIFY: `libata.c`.

A field of several words is put together from shifted words. A word is an `int` while it is
shifted, and i386 takes the count of the shift modulo 32. So the third word lands on the first
one, and the sign of the second fills the upper half of the value.
-/

namespace Elfboot.Libata

abbrev ataBlockSize : BitVec 32 := 512
abbrev ataSupportLba : BitVec 64 := 0x0200
abbrev ataSupportAddress48 : BitVec 64 := 0x0400
abbrev ataPssValidValue : BitVec 64 := 0x4000

/-- The words of the answer. -/
abbrev Params := ℕ → BitVec 16

/-- `params[word + i] << (16 * i)`, widened to the type of the value. -/
def shifted (w : BitVec 16) (i : ℕ) : BitVec 64 :=
  (w.setWidth 32 <<< (16 * i % 32)).signExtend 64

/-- The loop of `libata_read`, with `k` turns to go. -/
def readLoop (params : Params) (word : ℕ) : ℕ → ℕ → BitVec 64 → BitVec 64
  | 0, _, value => value
  | k + 1, i, value => readLoop params word k (i + 1) (value ||| shifted (params (word + i)) i)

def libataRead (params : Params) (word size : ℕ) : BitVec 64 := readLoop params word size 0 0

def libataHasLbaSupport (params : Params) : Bool :=
  libataRead params 49 1 &&& ataSupportLba != 0

def libataHasLba48Support (params : Params) : Bool :=
  libataRead params 83 1 &&& ataSupportAddress48 != 0

def libataCylinders (params : Params) : BitVec 32 := (libataRead params 1 1).setWidth 32

def libataHeads (params : Params) : BitVec 32 := (libataRead params 3 1).setWidth 32

def libataSectorsPerTrack (params : Params) : BitVec 32 := (libataRead params 6 1).setWidth 32

def libataLastBlock (params : Params) : BitVec 32 :=
  if !libataHasLba48Support params then (libataRead params 60 2).setWidth 32
  else (libataRead params 100 4).setWidth 32

/-- `ATA_INVALID_BLOCK_SIZE`. -/
def invalidBlockSize (x : BitVec 32) : Bool := x &&& (x - 1) != 0 || x == 0 || x > 0x100000

def libataBlockSize (params : Params) : BitVec 32 :=
  if libataRead params 106 1 &&& ataPssValidValue != 0 then
    if invalidBlockSize ((libataRead params 117 2).setWidth 32) then ataBlockSize
    else (libataRead params 117 2).setWidth 32
  else ataBlockSize

variable {params : Params} {word n : ℕ} {lo hi w w₀ w₁ w₂ w₃ : BitVec 16}

/-! ### The value of a field -/

/-- A field of `n` words, the least significant one first. -/
def field (params : Params) (word n : ℕ) : ℕ :=
  ∑ i ∈ Finset.range n, (params (word + i)).toNat * 2 ^ (16 * i)

/-- The count of sectors that the device reports, of 28 bits or of 48. -/
def sectorCount (params : Params) : ℕ :=
  if (params 83).getLsbD 10 then field params 100 4 else field params 60 2

lemma shifted_two : shifted w 2 = shifted w 0 := rfl

lemma shifted_three : shifted w 3 = shifted w 1 := rfl

lemma shifted_zero_toNat : (shifted w 0).toNat = w.toNat := by
  have hw := w.isLt
  have hmsb : (w.setWidth 32).msb = false := by
    rw [BitVec.msb_eq_false_iff_two_mul_lt, BitVec.toNat_setWidth]
    omega
  rw [shifted, Nat.mul_zero, Nat.zero_mod, BitVec.shiftLeft_zero,
    BitVec.signExtend_eq_setWidth_of_msb_false hmsb, BitVec.toNat_setWidth, BitVec.toNat_setWidth]
  omega

/-- What the sign of the second word adds to the value. -/
def signPart (w : BitVec 16) : ℕ := if 0x8000 ≤ w.toNat then (2 ^ 32 - 1) * 2 ^ 32 else 0

lemma shifted_one_toNat : (shifted w 1).toNat = w.toNat * 2 ^ 16 + signPart w := by
  have hw := w.isLt
  have hval : (w.setWidth 32 <<< (16 * 1 % 32)).toNat = w.toNat * 2 ^ 16 := by
    have hcount : 16 * 1 % 32 = 16 := rfl
    rw [BitVec.toNat_shiftLeft, BitVec.toNat_setWidth, Nat.shiftLeft_eq, hcount]
    omega
  rw [shifted, BitVec.toNat_signExtend, BitVec.toNat_setWidth, hval, BitVec.msb_eq_decide, hval,
    signPart]
  by_cases h : 0x8000 ≤ w.toNat
  · rw [if_pos h, if_pos (decide_eq_true (by omega))]
    omega
  · rw [if_neg h, if_neg (by simp; omega)]
    omega

lemma shifted_or (u v : BitVec 16) (i : ℕ) : shifted (u ||| v) i = shifted u i ||| shifted v i := by
  unfold shifted
  rw [BitVec.setWidth_or, BitVec.shiftLeft_or_distrib, BitVec.signExtend_or]

lemma or_right (a b c : BitVec 64) : a ||| b ||| c = a ||| c ||| b := by
  rw [BitVec.or_assoc, BitVec.or_comm b c, ← BitVec.or_assoc]

/-- Two words beside each other, and the sign of the upper one. -/
lemma pair_toNat (lo hi : BitVec 16) :
    (shifted lo 0 ||| shifted hi 1).toNat = lo.toNat + hi.toNat * 2 ^ 16 + signPart hi := by
  have hlo := lo.isLt
  obtain ⟨m, hm⟩ : ∃ m, hi.toNat * 2 ^ 16 + signPart hi = 2 ^ 16 * m := by
    unfold signPart
    split
    · exact ⟨hi.toNat + (2 ^ 32 - 1) * 2 ^ 16, by ring⟩
    · exact ⟨hi.toNat, by ring⟩
  calc (shifted lo 0 ||| shifted hi 1).toNat = lo.toNat ||| 2 ^ 16 * m := by
        rw [BitVec.toNat_or, shifted_zero_toNat, shifted_one_toNat, hm]
    _ = 2 ^ 16 * m + lo.toNat := by rw [Nat.or_comm, ← Nat.two_pow_add_eq_or_of_lt hlo]
    _ = lo.toNat + hi.toNat * 2 ^ 16 + signPart hi := by rw [← hm]; ring

lemma read_one (params : Params) (word : ℕ) :
    (libataRead params word 1).toNat = (params word).toNat := by
  have h : libataRead params word 1 = 0#64 ||| shifted (params word) 0 := rfl
  rw [h, BitVec.zero_or, shifted_zero_toNat]

lemma read_two (params : Params) (word : ℕ) : (libataRead params word 2).toNat =
    (params word).toNat + (params (word + 1)).toNat * 2 ^ 16 + signPart (params (word + 1)) := by
  have h : libataRead params word 2 =
      0#64 ||| shifted (params word) 0 ||| shifted (params (word + 1)) 1 := rfl
  rw [h, BitVec.zero_or, pair_toNat]

lemma read_three (params : Params) (word : ℕ) : (libataRead params word 3).toNat =
    (params word ||| params (word + 2)).toNat + (params (word + 1)).toNat * 2 ^ 16 +
      signPart (params (word + 1)) := by
  have h : libataRead params word 3 = 0#64 ||| shifted (params word) 0 |||
      shifted (params (word + 1)) 1 ||| shifted (params (word + 2)) 2 := rfl
  rw [h, BitVec.zero_or, shifted_two, or_right, ← shifted_or, pair_toNat]

lemma read_four (params : Params) (word : ℕ) : (libataRead params word 4).toNat =
    (params word ||| params (word + 2)).toNat +
      (params (word + 1) ||| params (word + 3)).toNat * 2 ^ 16 +
      signPart (params (word + 1) ||| params (word + 3)) := by
  have h : libataRead params word 4 = 0#64 ||| shifted (params word) 0 |||
      shifted (params (word + 1)) 1 ||| shifted (params (word + 2)) 2 |||
      shifted (params (word + 3)) 3 := rfl
  rw [h, BitVec.zero_or, shifted_two, shifted_three, or_right (shifted _ 0),
    ← shifted_or, BitVec.or_assoc, ← shifted_or, pair_toNat]

lemma field_two (params : Params) (word : ℕ) :
    field params word 2 = (params word).toNat + (params (word + 1)).toNat * 2 ^ 16 := by
  simp [field, Finset.sum_range_succ]

lemma field_three (params : Params) (word : ℕ) : field params word 3 =
    (params word).toNat + (params (word + 1)).toNat * 2 ^ 16 +
      (params (word + 2)).toNat * 2 ^ 32 := by
  simp [field, Finset.sum_range_succ]

lemma field_four (params : Params) (word : ℕ) : field params word 4 =
    (params word).toNat + (params (word + 1)).toNat * 2 ^ 16 +
      (params (word + 2)).toNat * 2 ^ 32 + (params (word + 3)).toNat * 2 ^ 48 := by
  simp [field, Finset.sum_range_succ]

/-! ### Where the value is right -/

/-- The field has no sign in its second word and nothing in a later one, or all of its four words
are ones. -/
def Readable (params : Params) (word n : ℕ) : Prop :=
  ((1 < n → (params (word + 1)).toNat < 0x8000) ∧
      ∀ i, 2 ≤ i → i < n → params (word + i) = 0#16) ∨
    (n = 4 ∧ ∀ i < 4, params (word + i) = 0xffff#16)

/-- The third and the fourth word of the sector count have no bit that the first and the second
lack. -/
def CountReadable (params : Params) : Prop :=
  (params 83).getLsbD 10 = true →
    params 100 ||| params 102 = params 100 ∧ params 101 ||| params 103 = params 101

lemma signPart_of_lt (h : w.toNat < 0x8000) : signPart w = 0 := if_neg (by omega)

lemma signPart_of_ge (h : ¬ w.toNat < 0x8000) : signPart w = (2 ^ 32 - 1) * 2 ^ 32 :=
  if_pos (by omega)

lemma le_or_left (u v : BitVec 16) : u.toNat ≤ (u ||| v).toNat := by
  rw [BitVec.toNat_or]
  exact Nat.left_le_or

lemma le_or_right (u v : BitVec 16) : v.toNat ≤ (u ||| v).toNat := by
  rw [BitVec.toNat_or]
  exact Nat.right_le_or

lemma eq_zero_iff_toNat : w = 0#16 ↔ w.toNat = 0 := by
  rw [← BitVec.toNat_inj]
  rfl

lemma eq_ones_iff_toNat : w = 0xffff#16 ↔ w.toNat = 0xffff := by
  rw [← BitVec.toNat_inj]
  rfl

lemma read_two_iff : (libataRead params word 2).toNat = field params word 2 ↔
    (params (word + 1)).toNat < 0x8000 := by
  rw [read_two, field_two]
  constructor
  · intro h
    by_contra hsign
    rw [signPart_of_ge hsign] at h
    omega
  · intro h
    rw [signPart_of_lt h, Nat.add_zero]

lemma read_three_iff : (libataRead params word 3).toNat = field params word 3 ↔
    (params (word + 1)).toNat < 0x8000 ∧ params (word + 2) = 0#16 := by
  have h₀ := (params word).isLt
  have h₁ := (params (word + 1)).isLt
  have h₂ := (params (word + 2)).isLt
  have hor := (params word ||| params (word + 2)).isLt
  rw [read_three, field_three]
  constructor
  · intro h
    by_cases hsign : (params (word + 1)).toNat < 0x8000
    · rw [signPart_of_lt hsign] at h
      exact ⟨hsign, eq_zero_iff_toNat.mpr (by omega)⟩
    · rw [signPart_of_ge hsign] at h
      omega
  · rintro ⟨hsign, hzero⟩
    rw [signPart_of_lt hsign, hzero, BitVec.or_zero]
    rfl

lemma no_upper {a b c d l h : ℕ} (hl : l < 2 ^ 16) (hh : h < 2 ^ 16)
    (heq : l + h * 2 ^ 16 + 0 = a + b * 2 ^ 16 + c * 2 ^ 32 + d * 2 ^ 48) : c = 0 ∧ d = 0 := by
  omega

/-- An upper half of ones asks for ones in the two upper words. -/
lemma all_upper {a b c d l h : ℕ} (hl : l < 2 ^ 16) (hh : h < 2 ^ 16) (ha : a < 2 ^ 16)
    (hb : b < 2 ^ 16) (hc : c < 2 ^ 16)
    (heq : l + h * 2 ^ 16 + (2 ^ 32 - 1) * 2 ^ 32 =
      a + b * 2 ^ 16 + c * 2 ^ 32 + d * 2 ^ 48) :
    c = 0xffff ∧ d = 0xffff ∧ (0xffff ≤ l → a = 0xffff) ∧ (0xffff ≤ h → b = 0xffff) := by
  have hupper : l + h * 2 ^ 16 = a + b * 2 ^ 16 ∧ c + d * 2 ^ 16 = 2 ^ 32 - 1 := by omega
  obtain ⟨hlow, hhigh⟩ := hupper
  have hparts : l = a ∧ h = b := by omega
  omega

/-- Only ones fill the upper half as the sign does. -/
lemma read_four_iff : (libataRead params word 4).toNat = field params word 4 ↔
    ((params (word + 1)).toNat < 0x8000 ∧ params (word + 2) = 0#16 ∧ params (word + 3) = 0#16) ∨
      ∀ i < 4, params (word + i) = 0xffff#16 := by
  have h₀ := (params word).isLt
  have h₁ := (params (word + 1)).isLt
  have h₂ := (params (word + 2)).isLt
  have h₃ := (params (word + 3)).isLt
  have hlo := (params word ||| params (word + 2)).isLt
  have hhi := (params (word + 1) ||| params (word + 3)).isLt
  have hle₀ := le_or_left (params word) (params (word + 2))
  have hle₂ := le_or_right (params word) (params (word + 2))
  have hle₁ := le_or_left (params (word + 1)) (params (word + 3))
  have hle₃ := le_or_right (params (word + 1)) (params (word + 3))
  rw [read_four, field_four]
  constructor
  · intro h
    by_cases hsign : (params (word + 1) ||| params (word + 3)).toNat < 0x8000
    · rw [signPart_of_lt hsign] at h
      obtain ⟨hc, hd⟩ := no_upper hlo hhi h
      exact .inl ⟨by omega, eq_zero_iff_toNat.mpr hc, eq_zero_iff_toNat.mpr hd⟩
    · rw [signPart_of_ge hsign] at h
      obtain ⟨hc, hd, ha, hb⟩ := all_upper hlo hhi h₀ h₁ h₂ h
      right
      intro i hi
      interval_cases i <;> refine eq_ones_iff_toNat.mpr ?_
      · exact ha (hc ▸ hle₂)
      · exact hb (hd ▸ hle₃)
      · exact hc
      · exact hd
  · rintro (⟨hsign, hzero₂, hzero₃⟩ | hones)
    · rw [hzero₂, hzero₃, BitVec.or_zero, BitVec.or_zero, signPart_of_lt hsign,
        BitVec.toNat_zero, Nat.zero_mul, Nat.zero_mul]
    · have e₀ : params word = 0xffff#16 := hones 0 (by decide)
      have e₁ := hones 1 (by decide)
      have e₂ := hones 2 (by decide)
      have e₃ := hones 3 (by decide)
      rw [e₀, e₁, e₂, e₃]
      decide +kernel

/-- **A field** is read right where it is readable, and only there. -/
lemma read_iff (hn : 1 ≤ n) (hn' : n ≤ 4) :
    (libataRead params word n).toNat = field params word n ↔ Readable params word n := by
  unfold Readable
  interval_cases n
  · have h : field params word 1 = (params word).toNat := by simp [field]
    rw [read_one, h]
    exact iff_of_true rfl (.inl ⟨fun h => absurd h (by decide), fun i h2 h1 => by omega⟩)
  · rw [read_two_iff]
    constructor
    · exact fun h => .inl ⟨fun _ => h, fun i h2 h1 => by omega⟩
    · rintro (⟨h, -⟩ | ⟨h, -⟩)
      · exact h (by decide)
      · exact absurd h (by decide)
  · rw [read_three_iff]
    constructor
    · rintro ⟨hsign, hzero⟩
      refine .inl ⟨fun _ => hsign, fun i h2 h3 => ?_⟩
      obtain rfl : i = 2 := by omega
      exact hzero
    · rintro (⟨hsign, hzero⟩ | ⟨h, -⟩)
      · exact ⟨hsign (by decide), hzero 2 le_rfl (by decide)⟩
      · exact absurd h (by decide)
  · rw [read_four_iff]
    constructor
    · rintro (⟨hsign, hzero₂, hzero₃⟩ | hones)
      · refine .inl ⟨fun _ => hsign, fun i h2 h4 => ?_⟩
        obtain rfl | rfl : i = 2 ∨ i = 3 := by omega
        · exact hzero₂
        · exact hzero₃
      · exact .inr ⟨rfl, hones⟩
    · rintro (⟨hsign, hzero⟩ | ⟨-, hones⟩)
      · exact .inl ⟨hsign (by decide), hzero 2 (by decide) (by decide),
          hzero 3 (by decide) (by decide)⟩
      · exact .inr hones

lemma hasLba48_eq : libataHasLba48Support params = (params 83).getLsbD 10 := by
  have hand : (libataRead params 83 1 &&& ataSupportAddress48).toNat =
      ((params 83).toNat.testBit 10).toNat * 2 ^ 10 := by
    rw [BitVec.toNat_and, read_one]
    exact Nat.and_two_pow _ 10
  have hbit : (params 83).getLsbD 10 = (params 83).toNat.testBit 10 := rfl
  rw [libataHasLba48Support, hbit]
  rcases hb : (params 83).toNat.testBit 10 with _ | _
  · rw [hb] at hand
    rw [bne_eq_false_iff_eq]
    exact BitVec.eq_of_toNat_eq hand
  · rw [hb] at hand
    rw [bne_iff_ne]
    intro h
    rw [h] at hand
    exact absurd hand (by decide)

/-- The count of 28 bits is always right: the sign is above the part that is kept. -/
lemma lastBlock_short (h : (params 83).getLsbD 10 = false) :
    (libataLastBlock params).toNat = sectorCount params % 2 ^ 32 := by
  have hread := read_two params 60
  have hfield := field_two params 60
  rw [libataLastBlock, hasLba48_eq, h, if_pos (by rfl), BitVec.toNat_setWidth, sectorCount, h,
    if_neg (by decide), hread, hfield]
  unfold signPart
  split <;> omega

lemma lastBlock_long (h : (params 83).getLsbD 10 = true) :
    (libataLastBlock params).toNat = sectorCount params % 2 ^ 32 ↔
      params 100 ||| params 102 = params 100 ∧ params 101 ||| params 103 = params 101 := by
  have hread := read_four params 100
  have hfield := field_four params 100
  have h₀ := (params 100).isLt
  have h₁ := (params 101).isLt
  have hlo := (params 100 ||| params 102).isLt
  have hhi := (params 101 ||| params 103).isLt
  have hsign : signPart (params 101 ||| params 103) % 2 ^ 32 = 0 := by
    unfold signPart
    split <;> rfl
  rw [libataLastBlock, hasLba48_eq, h, if_neg (by decide), BitVec.toNat_setWidth, sectorCount, h,
    if_pos rfl, hread, hfield, ← BitVec.toNat_inj, ← BitVec.toNat_inj]
  simp only [Nat.reduceAdd]
  omega

/-- **The fields of IDENTIFY** are put together right exactly where they are readable: a field of
up to four words, and the part of the sector count that `libata_last_block` returns. -/
theorem identify_fields_iff (hn : 1 ≤ n) (hn' : n ≤ 4) :
    ((libataRead params word n).toNat = field params word n ↔ Readable params word n) ∧
      ((libataLastBlock params).toNat = sectorCount params % 2 ^ 32 ↔ CountReadable params) := by
  refine ⟨read_iff hn hn', ?_⟩
  unfold CountReadable
  cases h : (params 83).getLsbD 10 with
  | false => exact iff_of_true (lastBlock_short h) (fun hno => absurd hno (by decide))
  | true =>
      rw [lastBlock_long h]
      exact ⟨fun hor _ => hor, fun hor => hor rfl⟩

/-- A device of `0x150008000` sectors, with addresses of 48 bits. -/
def bigDisk : Params := fun i =>
  if i = 83 then 0x0400
  else if i = 100 then 0x8000
  else if i = 101 then 0x5000
  else if i = 102 then 1
  else 0

theorem identify_fields_bigDisk :
    ((libataRead bigDisk 100 4).toNat = field bigDisk 100 4 ↔ Readable bigDisk 100 4) ∧
      ((libataLastBlock bigDisk).toNat = sectorCount bigDisk % 2 ^ 32 ↔ CountReadable bigDisk) :=
  identify_fields_iff (by decide) (by decide)

/-- Of that device the count is off by one, its low half and its value. -/
theorem not_identify_fields : ¬ ∀ (params : Params) (word n : ℕ), 1 ≤ n → n ≤ 4 → word + n ≤ 256 →
    (libataRead params word n).toNat = field params word n ∧
      (libataLastBlock params).toNat = sectorCount params % 2 ^ 32 := by
  intro h
  have hcount := (h bigDisk 100 4 (by decide) (by decide) (by decide)).2
  exact absurd hcount (by decide +kernel)

/-! ### The size of a block -/

lemma invalidBlockSize_eq_false_iff {x : BitVec 32} :
    invalidBlockSize x = false ↔ x.toNat.isPowerOfTwo ∧ x.toNat ≤ 0x100000 := by
  rw [← Nat.ne_zero_and_sub_one_eq_zero_iff_isPowerOfTwo, invalidBlockSize, Bool.or_eq_false_iff,
    Bool.or_eq_false_iff, bne_eq_false_iff_eq, beq_eq_false_iff_ne, decide_eq_false_iff_not]
  have hzero : x = 0 ↔ x.toNat = 0 := by
    rw [← BitVec.toNat_inj]
    rfl
  have hle : ¬ x > 0x100000 ↔ x.toNat ≤ 0x100000 := BitVec.not_lt
  rw [hle, ne_eq, hzero]
  have hand (hpos : x.toNat ≠ 0) : x &&& (x - 1) = 0 ↔ x.toNat &&& (x.toNat - 1) = 0 := by
    have hsub : (x - 1).toNat = x.toNat - 1 :=
      BitVec.toNat_sub_of_le (BitVec.le_def.mpr (Nat.one_le_iff_ne_zero.mpr hpos))
    rw [← BitVec.toNat_inj, BitVec.toNat_and, hsub]
    rfl
  constructor
  · rintro ⟨⟨hzero, hpos⟩, hle⟩
    exact ⟨⟨hpos, (hand hpos).mp hzero⟩, hle⟩
  · rintro ⟨⟨hpos, hzero⟩, hle⟩
    exact ⟨⟨(hand hpos).mpr hzero, hpos⟩, hle⟩

/-- **The size of a block** is a power of two of at most a mebibyte, whatever the device says. -/
theorem blockSize_valid (params : Params) :
    (libataBlockSize params).toNat.isPowerOfTwo ∧ (libataBlockSize params).toNat ≤ 0x100000 := by
  rw [← invalidBlockSize_eq_false_iff]
  unfold libataBlockSize
  split
  · split
    · decide
    · next h => exact Bool.eq_false_iff.mpr h
  · decide

end Elfboot.Libata
