import Elfboot.Word

/-!
The long division of `arch_div`, with the trap of its instruction.

`divl` raises a divide error where the quotient does not fit in a word. The upper word of the
value is divided beforehand, so what is left of it is smaller than the divisor.
-/

namespace Elfboot.Division

open Elfboot.Word

/-- `divl` as the processor executes it, no result being a divide error. -/
def divlExec (upp low d : ℕ) : Option (ℕ × ℕ) :=
  if d ≠ 0 ∧ (divl upp low d).1 < 2 ^ 32 then some (divl upp low d) else none

/-- The part of the quotient above the lower word, zero where the first step is left out. -/
def upperResult (val d : ℕ) : ℕ :=
  let upp := u32 (val >>> 32)
  if d ≤ upp then u64 ((upp / d) <<< 32) else 0

/-- The high and the low operand that `arch_div` gives to `divl`. -/
def operands (val d : ℕ) : ℕ × ℕ :=
  let upp := u32 (val >>> 32)
  let low := u32 (val &&& (2 ^ 32 - 1))
  (if d ≤ upp then upp % d else upp, low)

/-- `arch_div`, on its way through the instruction. -/
def archDivExec (val d : ℕ) : Option (ℕ × ℕ) :=
  (divlExec (operands val d).1 (operands val d).2 d).map fun qr =>
    (upperResult val d ||| qr.1, qr.2)

variable {val upp low d : ℕ}

lemma divl_lt (hupp : upp < d) (hlow : low < 2 ^ 32) : (divl upp low d).1 < 2 ^ 32 := by
  have hd : 0 < d := by omega
  refine (Nat.div_lt_iff_lt_mul hd).mpr ?_
  calc upp * 2 ^ 32 + low < (upp + 1) * 2 ^ 32 := by omega
    _ ≤ d * 2 ^ 32 := Nat.mul_le_mul_right _ hupp
    _ = 2 ^ 32 * d := Nat.mul_comm _ _

lemma divlExec_eq (hupp : upp < d) (hlow : low < 2 ^ 32) :
    divlExec upp low d = some (divl upp low d) :=
  if_pos ⟨by omega, divl_lt hupp hlow⟩

lemma operands_low_lt : (operands val d).2 < 2 ^ 32 := u32_lt _

/-- The first step leaves less than the divisor of the upper word, and so does its absence. -/
lemma operands_high_lt (hd : 0 < d) : (operands val d).1 < d := by
  unfold operands
  dsimp only
  split
  · exact Nat.mod_lt _ hd
  · next h => exact Nat.lt_of_not_le h

/-- The body computes `archDiv`: nothing is cut off on the way. -/
lemma archDivExec_eq (hval : val < 2 ^ 64) (hd : 0 < d) :
    archDivExec val d = some (archDiv val d) := by
  have hupp : val >>> 32 < 2 ^ 32 := by
    rw [Nat.shiftRight_eq_div_pow]
    omega
  have hlow : val &&& (2 ^ 32 - 1) < 2 ^ 32 := by
    rw [Nat.and_two_pow_sub_one_eq_mod]
    exact Nat.mod_lt _ (by decide)
  have hshift : (val >>> 32 / d) <<< 32 < 2 ^ 64 := by
    rw [Nat.shiftLeft_eq]
    have hle : val >>> 32 / d ≤ val >>> 32 := Nat.div_le_self _ _
    omega
  unfold archDivExec
  rw [divlExec_eq (operands_high_lt hd) operands_low_lt, Option.map_some, upperResult, operands,
    u32_of_lt hupp, u32_of_lt hlow, u64_of_lt hshift]
  rfl

/-- **The division** is exact and cannot trap: the high operand of `divl` is always smaller than
the divisor. -/
theorem division_exact (hval : val < 2 ^ 64) (hd : 0 < d) :
    ∃ q r, archDivExec val d = some (q, r) ∧ div val d = (q, r) ∧
      q < 2 ^ 64 ∧ val = q * d + r ∧ r < d ∧ (operands val d).1 < d ∧
      (divl (operands val d).1 (operands val d).2 d).1 < 2 ^ 32 := by
  have hdiv : archDiv val d = (val / d, val % d) := archDiv_eq hd
  have hq : val / d < 2 ^ 64 := (Nat.div_le_self _ _).trans_lt hval
  refine ⟨val / d, val % d, ?_, hdiv, hq, (Nat.div_add_mod' val d).symm, Nat.mod_lt _ hd,
    operands_high_lt hd, divl_lt (operands_high_lt hd) operands_low_lt⟩
  rw [archDivExec_eq hval hd, hdiv]

/-- The largest value, by ten: the upper word is divided first. -/
theorem division_exact_ten : ∃ q r, archDivExec (2 ^ 64 - 1) 10 = some (q, r) ∧
    div (2 ^ 64 - 1) 10 = (q, r) ∧ q < 2 ^ 64 ∧ 2 ^ 64 - 1 = q * 10 + r ∧ r < 10 ∧
    (operands (2 ^ 64 - 1) 10).1 < 10 ∧
    (divl (operands (2 ^ 64 - 1) 10).1 (operands (2 ^ 64 - 1) 10).2 10).1 < 2 ^ 32 :=
  division_exact (by decide) (by decide)

end Elfboot.Division
