import Elfboot.ShiftRegister
import Elfboot.Run

/-!
The checksum of `crc32.c`.

Its table is built by the first call and kept in a static pointer. A character is signed, so what
goes into an index is more than a byte; the mask takes the rest away.
-/

namespace Elfboot.Crc32

open Elfboot.ShiftRegister Elfboot.Run

abbrev crc32Seed : BitVec 32 := 0x0e1fb007

/-- `-EFAULT`, as the callers see it. -/
abbrev efault : BitVec 32 := -14

/-- The words of the table. -/
abbrev Table := ℕ → BitVec 32

/-- The inner loop of `crc32_init_table`, with `j` turns to go. -/
def entryLoop : ℕ → BitVec 32 → BitVec 32
  | 0, c => c
  | j + 1, c =>
    entryLoop j (if c &&& (1 <<< 31) ≠ 0 then (c <<< 1) ^^^ crc32Seed else c <<< 1)

/-- The outer loop, with `k` entries to go. -/
def tableLoop : ℕ → ℕ → Table → Table
  | 0, _, table => table
  | k + 1, i, table =>
    tableLoop k (i + 1) (Function.update table i (entryLoop 8 (BitVec.ofNat 32 i <<< 24)))

/-- `crc32_init_table`: what `bmalloc` gives is filled. -/
def crc32InitTable (memory : Option Table) : Option Table := memory.map (tableLoop 256 0)

/-- The index of an entry, with the character as a signed number. -/
def index (crc : BitVec 32) (c : BitVec 8) : BitVec 32 := (crc >>> 24 ^^^ c.signExtend 32) &&& 255

/-- The loop of `crc32`, with `length` characters to go. -/
def crcLoop (table : Table) (buffer : ℕ → BitVec 8) : ℕ → ℕ → BitVec 32 → BitVec 32
  | 0, _, crc => crc
  | length + 1, i, crc =>
    crcLoop table buffer length (i + 1) (crc <<< 8 ^^^ table (index crc (buffer i)).toNat)

/-- A call of `crc32`, with what `bmalloc` would give it. -/
structure Call where
  buffer : ℕ → BitVec 8
  length : ℕ
  memory : Option Table

/-- `crc32`, with the static `crc32_table`. -/
def crc32 (call : Call) (crc32Table : Option Table) : BitVec 32 × Option Table :=
  match crc32Table.or (crc32InitTable call.memory) with
  | none => (efault, none)
  | some table => (crcLoop table call.buffer call.length 0 0xffffffff, some table)

/-- The calls, one after another, from the start of the program. -/
def calls : System (Option Table) Call where
  init table := table = none
  pre _ _ := True
  step table call := (crc32 call table).2

/-! ### One bit at a time -/

/-- A byte goes into the register, the most significant bit first. -/
def crcByte (crc : BitVec 32) (c : BitVec 8) : BitVec 32 := feedBits crc32Seed c 8 crc

/-- The checksum by bits. -/
def crcBits (buffer : ℕ → BitVec 8) : ℕ → BitVec 32
  | 0 => 0xffffffff
  | length + 1 => crcByte (crcBits buffer length) (buffer length)

/-- The table holds eight turns of each byte at the highest place. -/
def Ready (table : Table) : Prop :=
  ∀ i < 256, table i = shifts crc32Seed 8 (BitVec.ofNat 32 i <<< 24)

variable {table : Table} {crc : BitVec 32} {c : BitVec 8} {n k i : ℕ}

lemma and_top (c : BitVec 32) : c &&& (1 <<< 31) ≠ 0 ↔ c.msb = true := by
  have htop : (1 <<< 31 : BitVec 32) = BitVec.twoPow 32 31 := by decide
  have hmsb : c.msb = c.getLsbD 31 := BitVec.msb_eq_getLsbD_last c
  rw [htop, BitVec.and_twoPow, hmsb]
  cases c.getLsbD 31 <;> decide

lemma entryLoop_eq (n : ℕ) (c : BitVec 32) : entryLoop n c = shifts crc32Seed n c := by
  induction n generalizing c with
  | zero => rfl
  | succ n ih =>
      rw [entryLoop, ih, shifts, shift]
      congr 1
      simp only [and_top]

lemma tableLoop_eq (table : Table) (j : ℕ) : tableLoop k i table j =
    if i ≤ j ∧ j < i + k then shifts crc32Seed 8 (BitVec.ofNat 32 j <<< 24) else table j := by
  induction k generalizing i table with
  | zero => rw [tableLoop, if_neg (by omega)]
  | succ k ih =>
      rw [tableLoop, ih]
      by_cases hrest : i + 1 ≤ j ∧ j < i + 1 + k
      · rw [if_pos hrest, if_pos (by omega)]
      · rw [if_neg hrest]
        by_cases hfirst : j = i
        · rw [hfirst, Function.update_self, if_pos (by omega), entryLoop_eq]
        · rw [Function.update_of_ne hfirst, if_neg (by omega)]

lemma tableLoop_ready (table : Table) : Ready (tableLoop 256 0 table) := by
  intro i hi
  rw [tableLoop_eq, if_pos ⟨Nat.zero_le i, by omega⟩]

lemma index_lt (crc : BitVec 32) (c : BitVec 8) : (index crc c).toNat < 256 := by
  rw [index, BitVec.toNat_and]
  exact Nat.lt_of_le_of_lt Nat.and_le_right (by decide)

/-- An index at the highest place is the byte of the register there, with the character. -/
lemma index_high (crc : BitVec 32) (c : BitVec 8) :
    index crc c <<< 24 = high 8 (crc ^^^ c.setWidth 32 <<< 24) := by
  have hmask (i : ℕ) : (255 : BitVec 32).getLsbD i = decide (i < 8) :=
    Nat.testBit_two_pow_sub_one 8 i
  apply BitVec.eq_of_getLsbD_eq
  intro i hi
  rw [getLsbD_high, BitVec.getLsbD_shiftLeft, decide_eq_true hi, Bool.true_and]
  by_cases hlow : i < 24
  · rw [decide_eq_true hlow, decide_eq_false (by omega), Bool.not_true, Bool.false_and,
      Bool.false_and]
  · have hi8 : i - 24 < 8 := by omega
    rw [decide_eq_false hlow, decide_eq_true (by omega), Bool.not_false, Bool.true_and,
      Bool.true_and, index, BitVec.getLsbD_and, hmask, decide_eq_true hi8, Bool.and_true,
      BitVec.getLsbD_xor, BitVec.getLsbD_xor, BitVec.getLsbD_ushiftRight,
      BitVec.getLsbD_signExtend, BitVec.getLsbD_shiftLeft, BitVec.getLsbD_setWidth, if_pos hi8,
      Nat.add_sub_cancel' (by omega), decide_eq_true hi, decide_eq_false hlow,
      Bool.not_false, Bool.true_and, Bool.true_and]

/-- **An entry of the table** takes a byte. -/
lemma crcByte_table (ht : Ready table) (crc : BitVec 32) (c : BitVec 8) :
    crc <<< 8 ^^^ table (index crc c).toNat = crcByte crc c := by
  have hentry : table (index crc c).toNat =
      shifts crc32Seed 8 (high 8 (crc ^^^ c.setWidth 32 <<< 24)) := by
    rw [ht _ (index_lt crc c), BitVec.ofNat_toNat, BitVec.setWidth_eq, index_high]
  have hshift : (crc ^^^ c.setWidth 32 <<< 24) <<< 8 = crc <<< 8 := by
    rw [BitVec.shiftLeft_xor_distrib, ← BitVec.shiftLeft_add (c.setWidth 32),
      BitVec.shiftLeft_eq_zero (x := c.setWidth 32) (by decide), BitVec.xor_zero]
  have hplace : 32 - 8 = 24 := rfl
  rw [crcByte, feedBits_eq (by decide), shifts_table 8, hplace, hshift, hentry, BitVec.xor_comm]

lemma crcLoop_eq (ht : Ready table) (buffer : ℕ → BitVec 8) (k i : ℕ) :
    crcLoop table buffer k i (crcBits buffer i) = crcBits buffer (i + k) := by
  induction k generalizing i with
  | zero => rfl
  | succ k ih =>
      rw [crcLoop, crcByte_table ht, ← crcBits, ih, Nat.add_right_comm, Nat.add_assoc]

/-- The static pointer, where it is set, points to a table that is ready. -/
def Filled (crc32Table : Option Table) : Prop := ∀ table, crc32Table = some table → Ready table

lemma Filled.or_init {t : Option Table} (h : Filled t) (memory : Option Table) :
    Filled (t.or (crc32InitTable memory)) := by
  intro table heq
  cases t with
  | some t' => exact h table heq
  | none =>
      rw [Option.none_or, crc32InitTable, Option.map_eq_some_iff] at heq
      obtain ⟨m, -, rfl⟩ := heq
      exact tableLoop_ready m

lemma crc32_snd (call : Call) (t : Option Table) :
    (crc32 call t).2 = t.or (crc32InitTable call.memory) := by
  unfold crc32
  split
  · next h => exact h.symm
  · next h => exact h.symm

lemma reach_filled {t : Option Table} (h : Reach calls t) : Filled t := by
  refine h.invariant (P := Filled) (fun t ht table hsome => ?_) (fun t call hfilled _ => ?_)
  · rw [show t = none from ht] at hsome
    cases hsome
  · have hstep : calls.step t call = t.or (crc32InitTable call.memory) := crc32_snd call t
    rw [hstep]
    exact hfilled.or_init call.memory

/-- **The checksum** of the table is the one by bits, in every state between calls: in the first,
whose call builds the table, and in every later one. -/
theorem crc32_bitwise {t : Option Table} (h : Reach calls t) (call : Call)
    (halloc : t.isSome ∨ call.memory.isSome) :
    (crc32 call t).1 = crcBits call.buffer call.length := by
  obtain ⟨table, htable⟩ : ∃ table, t.or (crc32InitTable call.memory) = some table := by
    rw [← Option.isSome_iff_exists, Option.isSome_or, crc32InitTable, Option.isSome_map,
      Bool.or_eq_true]
    exact halloc
  have hready : Ready table := (reach_filled h).or_init call.memory table htable
  have hloop := crcLoop_eq hready call.buffer call.length 0
  rw [Nat.zero_add] at hloop
  unfold crc32
  rw [htable]
  exact hloop

/-- A call on the name of the program. -/
def nameCall (memory : Option Table) : Call where
  buffer i := [0x65, 0x6c, 0x66, 0x62, 0x6f, 0x6f, 0x74].getD i 0
  length := 7
  memory := memory

/-- The first call gets memory that is not clear, the second one none. -/
theorem crc32_bitwise_twice :
    (crc32 (nameCall (some fun _ => 1)) none).1 = crcBits (nameCall none).buffer 7 ∧
      (crc32 (nameCall none) (calls.step none (nameCall (some fun _ => 1)))).1 =
        crcBits (nameCall none).buffer 7 :=
  ⟨crc32_bitwise (.init rfl) (nameCall (some fun _ => 1)) (.inr rfl),
    crc32_bitwise (.step (.init rfl) trivial) (nameCall none) (.inl rfl)⟩

end Elfboot.Crc32
