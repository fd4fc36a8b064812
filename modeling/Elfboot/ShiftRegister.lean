import Mathlib

/-!
Shift registers with feedback, of any width and any polynomial.

A turn is linear in exclusive or, and does not see the bits below the highest one. So `k` turns
are what they make of the `k` highest bits, and the others shifted: a table of the first is
enough to take `k` bits of a message at once.
-/

namespace Elfboot.ShiftRegister

variable {w v : ℕ} (p : BitVec w)

/-- A turn without input. -/
def shift (x : BitVec w) : BitVec w := if x.msb then x <<< 1 ^^^ p else x <<< 1

def shifts : ℕ → BitVec w → BitVec w
  | 0, x => x
  | n + 1, x => shifts n (shift p x)

/-- A turn with a bit of the message. -/
def feed (x : BitVec w) (bit : Bool) : BitVec w :=
  if x.msb ^^ bit then x <<< 1 ^^^ p else x <<< 1

/-- The `n` lowest bits of `c` go in, the most significant one first. -/
def feedBits (c : BitVec v) : ℕ → BitVec w → BitVec w
  | 0, x => x
  | n + 1, x => feedBits c n (feed p x (c.getLsbD n))

variable {p} {c : BitVec v} {x y : BitVec w} {n : ℕ}

lemma xor_right_comm (a b q : BitVec w) : a ^^^ b ^^^ q = a ^^^ q ^^^ b := by
  rw [BitVec.xor_assoc, BitVec.xor_comm b q, ← BitVec.xor_assoc]

/-- **A turn is linear.** -/
lemma shift_xor (x y : BitVec w) : shift p (x ^^^ y) = shift p x ^^^ shift p y := by
  unfold shift
  rw [BitVec.msb_xor, BitVec.shiftLeft_xor_distrib]
  cases x.msb with
  | false =>
      cases y.msb with
      | false => rfl
      | true => exact BitVec.xor_assoc _ _ _
  | true =>
      cases y.msb with
      | false => exact xor_right_comm _ _ _
      | true =>
          -- the polynomial is added twice
          calc x <<< 1 ^^^ y <<< 1 = x <<< 1 ^^^ y <<< 1 ^^^ (p ^^^ p) := by
                rw [BitVec.xor_self, BitVec.xor_zero]
            _ = x <<< 1 ^^^ p ^^^ (y <<< 1 ^^^ p) := by
                rw [← BitVec.xor_assoc, xor_right_comm (x <<< 1), BitVec.xor_assoc]

lemma shifts_xor (n : ℕ) (x y : BitVec w) :
    shifts p n (x ^^^ y) = shifts p n x ^^^ shifts p n y := by
  induction n generalizing x y with
  | zero => rfl
  | succ n ih => rw [shifts, shift_xor, ih, shifts, shifts]

lemma shift_of_msb (h : x.msb = false) : shift p x = x <<< 1 := by
  rw [shift, h]
  rfl

/-- Where the `n` highest bits are clear, `n` turns are a shift. -/
lemma shifts_low (h : ∀ i, w - n ≤ i → x.getLsbD i = false) : shifts p n x = x <<< n := by
  induction n generalizing x with
  | zero => rw [shifts, BitVec.shiftLeft_zero]
  | succ n ih =>
      have hmsb : x.msb = false := by
        rw [BitVec.msb_eq_getLsbD_last]
        exact h _ (by omega)
      have hrest : ∀ i, w - n ≤ i → (x <<< 1).getLsbD i = false := by
        intro i hi
        rw [BitVec.getLsbD_shiftLeft]
        by_cases hone : i < 1
        · rw [decide_eq_true hone, Bool.not_true, Bool.and_false, Bool.false_and]
        · rw [h (i - 1) (by omega), Bool.and_false]
      rw [shifts, shift_of_msb hmsb, ih hrest, ← BitVec.shiftLeft_add, Nat.add_comm]

/-- The `n` highest bits. -/
def high (n : ℕ) (x : BitVec w) : BitVec w := x >>> (w - n) <<< (w - n)

lemma getLsbD_high (i : ℕ) : (high n x).getLsbD i = (decide (w - n ≤ i) && x.getLsbD i) := by
  rw [high, BitVec.getLsbD_shiftLeft, BitVec.getLsbD_ushiftRight]
  by_cases hi : w - n ≤ i
  · rw [Nat.add_sub_cancel' hi, decide_eq_true hi, decide_eq_false (Nat.not_lt.mpr hi),
      Bool.not_false, Bool.and_true, Bool.true_and]
    by_cases hw : i < w
    · rw [decide_eq_true hw, Bool.true_and]
    · rw [BitVec.getLsbD_of_ge x i (Nat.not_lt.mp hw), Bool.and_false]
  · rw [decide_eq_false hi, decide_eq_true (Nat.not_le.mp hi), Bool.not_true, Bool.and_false,
      Bool.false_and, Bool.false_and]

/-- **The table**: `n` turns of a register are those of its `n` highest bits, and a shift. -/
theorem shifts_table (n : ℕ) (x : BitVec w) :
    shifts p n x = shifts p n (high n x) ^^^ x <<< n := by
  have hlow : ∀ i, w - n ≤ i → (high n x ^^^ x).getLsbD i = false := by
    intro i hi
    rw [BitVec.getLsbD_xor, getLsbD_high, decide_eq_true hi, Bool.true_and, Bool.xor_self]
  have hshift : (high n x ^^^ x) <<< n = x <<< n := by
    apply BitVec.eq_of_getLsbD_eq
    intro i hi
    rw [BitVec.getLsbD_shiftLeft, BitVec.getLsbD_shiftLeft, BitVec.getLsbD_xor, getLsbD_high]
    by_cases hn : i < n
    · rw [decide_eq_true hn, Bool.not_true, Bool.and_false, Bool.false_and, Bool.false_and]
    · have hbelow : ¬ w - n ≤ i - n := by omega
      rw [decide_eq_false hbelow, Bool.false_and, Bool.false_xor]
  calc shifts p n x = shifts p n (high n x ^^^ (high n x ^^^ x)) := by
        rw [← BitVec.xor_assoc, BitVec.xor_self, BitVec.zero_xor]
    _ = shifts p n (high n x) ^^^ x <<< n := by rw [shifts_xor, shifts_low hlow, hshift]

/-- A turn with a bit is a turn of the register with that bit at its highest place. -/
lemma feed_chunk (hn : n < w) : feed p x (c.getLsbD n) ^^^ c.setWidth w <<< (w - n) =
    shift p (x ^^^ c.setWidth w <<< (w - (n + 1))) := by
  have hbit : (c.setWidth w <<< (w - (n + 1))).msb = c.getLsbD n := by
    rw [BitVec.msb_eq_getLsbD_last, BitVec.getLsbD_shiftLeft, BitVec.getLsbD_setWidth,
      decide_eq_true (by omega : w - 1 < w), decide_eq_false (by omega),
      decide_eq_true (by omega), Bool.not_false, Bool.true_and, Bool.true_and, Bool.true_and]
    congr 1
    omega
  have hsum : w - (n + 1) + 1 = w - n := by omega
  rw [feed, shift, BitVec.msb_xor, hbit, BitVec.shiftLeft_xor_distrib, ← BitVec.shiftLeft_add,
    hsum]
  split
  · exact xor_right_comm _ _ _
  · rfl

/-- **Bits one at a time** are turns of the register with all of them at its highest places. -/
theorem feedBits_eq (hn : n ≤ w) (x : BitVec w) :
    feedBits p c n x = shifts p n (x ^^^ c.setWidth w <<< (w - n)) := by
  induction n generalizing x with
  | zero => rw [feedBits, shifts, Nat.sub_zero, BitVec.shiftLeft_eq_zero le_rfl, BitVec.xor_zero]
  | succ n ih => rw [feedBits, ih (by omega), feed_chunk (by omega), shifts]

end Elfboot.ShiftRegister
