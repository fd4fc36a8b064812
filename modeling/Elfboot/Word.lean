import Mathlib

/-!
Unsigned machine words, as the i386 build computes with them.

A word is a natural number below `2 ^ 32`, a double word one below `2 ^ 64`; an operation
that can leave the range says so with an explicit remainder. The rounding macros and the
functions of `math.c` keep the bit operations of the source; what they compute in
arithmetic terms is stated beside them, and nothing later unfolds them.
-/

namespace Elfboot.Word

/-- Truncation to `uint32_t`. -/
def u32 (n : ℕ) : ℕ := n % 2 ^ 32

/-- Truncation to `uint64_t`. -/
def u64 (n : ℕ) : ℕ := n % 2 ^ 64

def sub32 (a b : ℕ) : ℕ := (a + 2 ^ 32 - b) % 2 ^ 32

def sub64 (a b : ℕ) : ℕ := (a + 2 ^ 64 - b) % 2 ^ 64

/-- `a << n` on `uint32_t`: i386 takes the count modulo 32. -/
def shl32 (a n : ℕ) : ℕ := (a <<< (n % 32)) % 2 ^ 32

lemma u32_lt (n : ℕ) : u32 n < 2 ^ 32 := Nat.mod_lt _ (by decide)

lemma u32_of_lt {n : ℕ} (h : n < 2 ^ 32) : u32 n = n := Nat.mod_eq_of_lt h

lemma u64_of_lt {n : ℕ} (h : n < 2 ^ 64) : u64 n = n := Nat.mod_eq_of_lt h

lemma sub32_lt (a b : ℕ) : sub32 a b < 2 ^ 32 := Nat.mod_lt _ (by decide)

lemma sub32_of_le {a b : ℕ} (h : b ≤ a) (ha : a < 2 ^ 32) : sub32 a b = a - b := by
  unfold sub32; omega

lemma sub64_of_le {a b : ℕ} (h : b ≤ a) (ha : a < 2 ^ 64) : sub64 a b = a - b := by
  unfold sub64; omega

/-! ### Rounding -/

/-- `round_down(x, y)`: `x & ~(y - 1)`. -/
def roundDown (x y : ℕ) : ℕ := x &&& (2 ^ 32 - 1 - sub32 y 1)

/-- `round_up(x, y)`: `((x - 1) | (y - 1)) + 1`. -/
def roundUp (x y : ℕ) : ℕ := u32 ((sub32 x 1 ||| sub32 y 1) + 1)

lemma and_compl_mask {x k : ℕ} (hx : x < 2 ^ 32) (hk : k ≤ 32) :
    x &&& (2 ^ 32 - 1 - (2 ^ k - 1)) = x / 2 ^ k * 2 ^ k := by
  have hle : 2 ^ k ≤ 2 ^ 32 := Nat.pow_le_pow_right (by decide) hk
  have hpos : 0 < 2 ^ k := Nat.two_pow_pos k
  have e : 2 ^ 32 - 1 - (2 ^ k - 1) = 2 ^ 32 - ((2 ^ k - 1) + 1) := by omega
  rw [e]
  refine Nat.eq_of_testBit_eq fun i => ?_
  rw [Nat.testBit_and, Nat.testBit_two_pow_sub_succ (by omega), Nat.testBit_two_pow_sub_one,
    Nat.testBit_mul_two_pow, Nat.testBit_div_two_pow]
  by_cases hik : i < k
  · have : ¬ k ≤ i := by omega
    simp [hik, this]
  · have hki : k ≤ i := by omega
    rw [Nat.sub_add_cancel hki]
    rcases Nat.lt_or_ge i 32 with hi | hi
    · simp [hik, hki, hi]
    · have : x.testBit i = false :=
        Nat.testBit_lt_two_pow (hx.trans_le (Nat.pow_le_pow_right (by decide) hi))
      simp [this]

lemma or_mask {a k : ℕ} : a ||| (2 ^ k - 1) = a / 2 ^ k * 2 ^ k + (2 ^ k - 1) := by
  have hpos : 0 < 2 ^ k := Nat.two_pow_pos k
  have hlt : 2 ^ k - 1 < 2 ^ k := by omega
  rw [Nat.mul_comm, Nat.two_pow_add_eq_or_of_lt hlt]
  refine Nat.eq_of_testBit_eq fun i => ?_
  rw [Nat.testBit_or, Nat.testBit_or, Nat.testBit_two_pow_sub_one, Nat.testBit_two_pow_mul,
    Nat.testBit_div_two_pow]
  by_cases hik : i < k
  · simp [hik]
  · have hki : k ≤ i := by omega
    simp [hki, Nat.sub_add_cancel hki]

lemma roundDown_pow {x k : ℕ} (hx : x < 2 ^ 32) (hk : k < 32) :
    roundDown x (2 ^ k) = x / 2 ^ k * 2 ^ k := by
  have hle : 2 ^ k < 2 ^ 32 := Nat.pow_lt_pow_right (by decide) hk
  have hs : sub32 (2 ^ k) 1 = 2 ^ k - 1 := sub32_of_le (Nat.one_le_two_pow) hle
  rw [roundDown, hs, and_compl_mask hx hk.le]

lemma roundUp_pow {x k : ℕ} (hx : 0 < x) (hx' : x < 2 ^ 32) (hk : k < 32) :
    roundUp x (2 ^ k) = u32 ((x - 1) / 2 ^ k * 2 ^ k + 2 ^ k) := by
  have hle : 2 ^ k < 2 ^ 32 := Nat.pow_lt_pow_right (by decide) hk
  have hpos : 0 < 2 ^ k := Nat.two_pow_pos k
  have hs : sub32 (2 ^ k) 1 = 2 ^ k - 1 := sub32_of_le (Nat.one_le_two_pow) hle
  rw [roundUp, hs, sub32_of_le hx hx', or_mask, Nat.add_assoc, Nat.sub_add_cancel hpos]

/-- `ROUND_UP` gives the next multiple, if there is one below 4 GiB. -/
lemma roundUp_ceil {x k : ℕ} (hx : 0 < x) (hk : k < 32) (hsum : x + 2 ^ k ≤ 2 ^ 32) :
    roundUp x (2 ^ k) = (x + 2 ^ k - 1) / 2 ^ k * 2 ^ k := by
  have hpos := Nat.two_pow_pos k
  have hle : (x - 1) / 2 ^ k * 2 ^ k ≤ x - 1 := Nat.div_mul_le_self _ _
  have hsucc : (x + 2 ^ k - 1) / 2 ^ k = (x - 1) / 2 ^ k + 1 := by
    rw [← Nat.add_div_right _ hpos]
    congr 1
    omega
  rw [roundUp_pow hx (by omega) hk, u32_of_lt (by omega), hsucc, Nat.add_mul, Nat.one_mul]

/-! ### `math.c` and the bit scans it rests on -/

/-- The position after the highest set bit, `0` for no bit. -/
def fls (v : ℕ) : ℕ := if v = 0 then 0 else Nat.log2 v + 1

/-- `log2` is `fls(val) - 1`, an `int`. -/
def log2 (v : ℕ) : ℤ := fls v - 1

def roundUpPow2 (v : ℕ) : ℕ := shl32 1 (fls (sub32 v 1))

def roundDownPow2 (v : ℕ) : ℕ := shl32 1 (sub32 (fls v) 1)

lemma log2_mul_two_pow {n : ℕ} (k : ℕ) (h : n ≠ 0) : Nat.log2 (n * 2 ^ k) = Nat.log2 n + k := by
  have hpos : 0 < 2 ^ k := Nat.two_pow_pos k
  rw [Nat.log2_eq_iff (Nat.mul_ne_zero h hpos.ne'), pow_add, add_right_comm, pow_add]
  have h1 : 2 ^ Nat.log2 n ≤ n := Nat.log2_self_le h
  have h2 : n < 2 ^ (Nat.log2 n + 1) := Nat.lt_log2_self
  exact ⟨Nat.mul_le_mul_right _ h1, Nat.mul_lt_mul_of_pos_right h2 hpos⟩

lemma fls_of_pos {v : ℕ} (h : v ≠ 0) : fls v = Nat.log2 v + 1 := if_neg h

lemma log2_two_pow (m : ℕ) : log2 (2 ^ m) = m := by
  rw [log2, fls_of_pos (Nat.two_pow_pos m).ne', Nat.log2_two_pow]
  push_cast; ring

lemma roundDownPow2_eq {v : ℕ} (h : v ≠ 0) (hv : v < 2 ^ 32) :
    roundDownPow2 v = 2 ^ Nat.log2 v := by
  have hl : Nat.log2 v < 32 := (Nat.log2_lt h).mpr hv
  have hs : sub32 (Nat.log2 v + 1) 1 = Nat.log2 v := sub32_of_le (by omega) (by omega)
  rw [roundDownPow2, fls_of_pos h, hs, shl32, Nat.mod_eq_of_lt hl, Nat.one_shiftLeft]
  exact Nat.mod_eq_of_lt (Nat.pow_lt_pow_right (by decide) hl)

/-- `divl`: the quotient and remainder of a double word. It traps unless `upp < d`. -/
def divl (upp low d : ℕ) : ℕ × ℕ := ((upp * 2 ^ 32 + low) / d, (upp * 2 ^ 32 + low) % d)

/-- `arch_div`: quotient and remainder of a double word by a word. -/
def archDiv (val d : ℕ) : ℕ × ℕ :=
  let upp := val >>> 32
  let low := val &&& (2 ^ 32 - 1)
  let result := if d ≤ upp then (upp / d) <<< 32 else 0
  let upp := if d ≤ upp then upp % d else upp
  let qr := divl upp low d
  (result ||| qr.1, qr.2)

def div (val d : ℕ) : ℕ × ℕ := archDiv val d

/-- `pow` squares its way down the exponent; a `uint64_t` is halved to zero 64 times. -/
def powFuel : ℕ → ℕ → ℕ → ℕ
  | 0, _, _ => 1
  | n + 1, base, exp =>
    if exp = 0 then 1
    else
      let val := powFuel n base (exp / 2)
      if exp % 2 = 0 then u64 (val * val) else u64 (u64 (base * val) * val)

def pow (base exp : ℕ) : ℕ := powFuel 65 base exp

lemma archDiv_eq {val d : ℕ} (hd : 0 < d) :
    archDiv val d = (val / d, val % d) := by
  have hlow : val &&& (2 ^ 32 - 1) = val % 2 ^ 32 := Nat.and_two_pow_sub_one_eq_mod val 32
  have hupp : val >>> 32 = val / 2 ^ 32 := Nat.shiftRight_eq_div_pow val 32
  have hval : val / 2 ^ 32 * 2 ^ 32 + val % 2 ^ 32 = val := Nat.div_add_mod' _ _
  unfold archDiv divl
  simp only [hlow, hupp]
  split
  · -- the high word is divided first, its remainder is carried into the low word
    have hr : val / 2 ^ 32 % d < d := Nat.mod_lt _ hd
    have hlt : (val / 2 ^ 32 % d * 2 ^ 32 + val % 2 ^ 32) / d < 2 ^ 32 := by
      rw [Nat.div_lt_iff_lt_mul hd]
      have := Nat.mod_lt val (show 0 < 2 ^ 32 by decide)
      nlinarith
    have hsplit : val = val / 2 ^ 32 % d * 2 ^ 32 + val % 2 ^ 32
        + (val / 2 ^ 32 / d * 2 ^ 32) * d := by
      have := Nat.div_add_mod (val / 2 ^ 32) d
      calc val = (d * (val / 2 ^ 32 / d) + val / 2 ^ 32 % d) * 2 ^ 32 + val % 2 ^ 32 := by
            rw [this, hval]
        _ = _ := by ring
    have hq : val / d = (val / 2 ^ 32 % d * 2 ^ 32 + val % 2 ^ 32) / d
        + val / 2 ^ 32 / d * 2 ^ 32 := by
      conv_lhs => rw [hsplit]
      exact Nat.add_mul_div_right _ _ hd
    have hm : val % d = (val / 2 ^ 32 % d * 2 ^ 32 + val % 2 ^ 32) % d := by
      conv_lhs => rw [hsplit]
      exact Nat.add_mul_mod_self_right _ _ _
    rw [Nat.shiftLeft_eq, Nat.mul_comm, ← Nat.two_pow_add_eq_or_of_lt hlt, hq, hm]
    congr 1
    ring
  · rw [hval]; simp

lemma powFuel_eq {base : ℕ} : ∀ {n exp : ℕ}, exp < 2 ^ n →
    powFuel (n + 1) base exp = u64 (base ^ exp)
  | n, exp, h => by
    unfold powFuel
    split
    · next h0 => simp [h0, u64]
    · next h0 =>
      obtain ⟨m, rfl⟩ : ∃ m, n = m + 1 := ⟨n - 1, by
        rcases n with _ | n
        · simp at h; omega
        · simp⟩
      have hm : exp / 2 < 2 ^ m := by rw [pow_succ] at h; omega
      rw [powFuel_eq hm]
      have hexp := Nat.div_add_mod exp 2
      split
      · next h2 =>
        rw [h2, add_zero] at hexp
        have e : base ^ exp = base ^ (exp / 2) * base ^ (exp / 2) := by
          rw [← pow_add, ← two_mul, hexp]
        unfold u64
        rw [e, Nat.mul_mod]
        simp
      · next h2 =>
        have e : base ^ exp = base * base ^ (exp / 2) * base ^ (exp / 2) := by
          rw [mul_assoc, ← pow_add, ← two_mul, ← pow_succ']
          congr 1; omega
        unfold u64
        rw [e]
        simp [Nat.mul_mod]

lemma pow_eq {base exp : ℕ} (h : exp < 2 ^ 64) : pow base exp = u64 (base ^ exp) :=
  powFuel_eq h

end Elfboot.Word
