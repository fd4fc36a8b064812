import Elfboot.Word
import Elfboot.Buffer

/-!
Memory of which only a window may be accessed, and the string instructions on it.

A `movs` of `k` bytes reads all of them before it writes. So a row of them that goes up moves
a range to a lower address whole, even where the two ranges overlap.
-/

namespace Elfboot.Copy

open Elfboot.Word Elfboot.Buffer

/-- The addresses that may be accessed. -/
structure Window where
  lo : ℕ
  hi : ℕ

/-- `n` bytes from an address on are inside. -/
def Window.has (w : Window) (a n : ℕ) : Prop := w.lo ≤ a ∧ a + n ≤ w.hi

instance (w : Window) (a n : ℕ) : Decidable (w.has a n) := inferInstanceAs (Decidable (_ ∧ _))

variable (w : Window)

def load (b : Bytes) (a : ℕ) : Option UInt8 := if w.has a 1 then some (b a) else none

def store (b : Bytes) (a : ℕ) (c : UInt8) : Option Bytes :=
  if w.has a 1 then some (Function.update b a c) else none

/-- A `movs` of `k` bytes. -/
def movs (k : ℕ) (b : Bytes) (d s : ℕ) : Option Bytes :=
  if w.has s k ∧ w.has d k then some (memcpy b d b s k) else none

/-- A `stos` of a word. -/
def stosw (b : Bytes) (d val : ℕ) : Option Bytes :=
  if w.has d 2 then
    some (Function.update (Function.update b d (UInt8.ofNat val)) (d + 1)
      (UInt8.ofNat (val / 2 ^ 8)))
  else none

/-- `rep movs`, upwards. -/
def repMovs (k : ℕ) : ℕ → Bytes → ℕ → ℕ → Option Bytes
  | 0, b, _, _ => some b
  | n + 1, b, d, s => (movs w k b d s).bind fun b => repMovs k n b (d + k) (s + k)

/-- `rep movs` with the direction flag set. -/
def repMovsDown (k : ℕ) : ℕ → Bytes → ℕ → ℕ → Option Bytes
  | 0, b, _, _ => some b
  | n + 1, b, d, s => (movs w k b d s).bind fun b => repMovsDown k n b (sub32 d k) (sub32 s k)

def repStosw (val : ℕ) : ℕ → Bytes → ℕ → Option Bytes
  | 0, b, _ => some b
  | n + 1, b, d => (stosw w b d val).bind fun b => repStosw val n b (d + 2)

/-! ### `copy.S` -/

/-- `memcpy`, on one memory. -/
def memcpyAsm (b : Bytes) (d s n : ℕ) : Option Bytes :=
  (repMovs w 4 (n / 4) b d s).bind fun b =>
    repMovs w 1 (n % 4) b (d + 4 * (n / 4)) (s + 4 * (n / 4))

/-- `memmove`: downwards if the destination is not below the source. The length is compared
as a signed number. -/
def memmoveAsm (b : Bytes) (d s n : ℕ) : Option Bytes :=
  if d < s then memcpyAsm w b d s n
  else
    let back := if n < 4 ∨ 2 ^ 31 ≤ n then 1 else 4
    let d := sub32 (d + n) back
    let s := sub32 (s + n) back
    (repMovsDown w 4 (n / 4) b d s).bind fun b =>
      repMovsDown w 1 (n % 4) b (sub32 d (4 * (n / 4))) (sub32 s (4 * (n / 4)))

/-- `memset16`: `n` is a number of bytes. -/
def memset16 (b : Bytes) (d val n : ℕ) : Option Bytes := repStosw w val (n / 2) b d

variable {w} {b : Bytes} {d s k n a val : ℕ}

/-- **Copying down.** -/
lemma repMovs_down (hds : d ≤ s) (hs : w.has s (k * n)) (hd : w.has d (k * n)) :
    repMovs w k n b d s = some (memcpy b d b s (k * n)) := by
  induction n generalizing b d s with
  | zero =>
    rw [repMovs]
    congr 1
    funext i
    rw [memcpy, if_neg (by omega)]
  | succ n ih =>
    obtain ⟨hs1, hs2⟩ := hs
    obtain ⟨hd1, hd2⟩ := hd
    rw [Nat.mul_succ] at hs2 hd2
    rw [repMovs, movs, if_pos ⟨⟨hs1, by omega⟩, ⟨hd1, by omega⟩⟩, Option.bind_some,
      ih (by omega) ⟨by omega, by omega⟩ ⟨by omega, by omega⟩]
    congr 1
    funext i
    rw [Nat.mul_succ]
    unfold memcpy
    by_cases h1 : d + k ≤ i ∧ i < d + k + k * n
    · -- a byte of the rest, which the first turn has left alone
      rw [if_pos h1, if_neg (by omega), if_pos (by omega)]
      congr 1; omega
    · rw [if_neg h1]
      by_cases h2 : d ≤ i ∧ i < d + k
      · rw [if_pos h2, if_pos (by omega)]
      · rw [if_neg h2, if_neg (by omega)]

lemma memcpyAsm_down (hds : d ≤ s) (hs : w.has s n) (hd : w.has d n) :
    memcpyAsm w b d s n = some (memcpy b d b s n) := by
  have hn : 4 * (n / 4) + n % 4 = n := Nat.div_add_mod n 4
  obtain ⟨hs1, hs2⟩ := hs
  obtain ⟨hd1, hd2⟩ := hd
  rw [memcpyAsm, repMovs_down hds ⟨hs1, by omega⟩ ⟨hd1, by omega⟩, Option.bind_some,
    repMovs_down (by omega) ⟨by omega, by omega⟩ ⟨by omega, by omega⟩]
  congr 1
  funext i
  unfold memcpy
  rw [Nat.one_mul]
  by_cases h1 : d + 4 * (n / 4) ≤ i ∧ i < d + 4 * (n / 4) + n % 4
  · rw [if_pos h1, if_neg (by omega), if_pos (by omega)]
    congr 1; omega
  · rw [if_neg h1]
    by_cases h2 : d ≤ i ∧ i < d + 4 * (n / 4)
    · rw [if_pos h2, if_pos (by omega)]
    · rw [if_neg h2, if_neg (by omega)]

/-- Memory with a word written `n` times from `d` on. -/
def filled (b : Bytes) (d val n : ℕ) : Bytes := fun i =>
  if d ≤ i ∧ i < d + 2 * n then UInt8.ofNat (if (i - d) % 2 = 0 then val else val / 2 ^ 8) else b i

lemma filled_even {j : ℕ} (hj : j < n) : filled b d val n (d + 2 * j) = UInt8.ofNat val := by
  have hmod : (d + 2 * j - d) % 2 = 0 := by omega
  rw [filled, if_pos hmod, if_pos (by omega)]

lemma filled_odd {j : ℕ} (hj : j < n) :
    filled b d val n (d + 2 * j + 1) = UInt8.ofNat (val / 2 ^ 8) := by
  have hmod : ¬ (d + 2 * j + 1 - d) % 2 = 0 := by omega
  rw [filled, if_neg hmod, if_pos (by omega)]

lemma repStosw_eq (hd : w.has d (2 * n)) : repStosw w val n b d = some (filled b d val n) := by
  induction n generalizing b d with
  | zero =>
    rw [repStosw]
    congr 1
    funext i
    rw [filled, if_neg (by omega)]
  | succ n ih =>
    obtain ⟨hd1, hd2⟩ := hd
    rw [repStosw, stosw, if_pos ⟨hd1, by omega⟩, Option.bind_some, ih ⟨by omega, by omega⟩]
    congr 1
    funext i
    unfold filled
    by_cases h1 : d + 2 ≤ i ∧ i < d + 2 + 2 * n
    · have hmod : (i - (d + 2)) % 2 = (i - d) % 2 := by omega
      rw [if_pos h1, hmod, if_pos (show d ≤ i ∧ i < d + 2 * (n + 1) by omega)]
    · rw [if_neg h1]
      by_cases h2 : i = d + 1
      · have hmod : ¬ (d + 1 - d) % 2 = 0 := by omega
        rw [h2, Function.update_self, if_neg hmod, if_pos (by omega)]
      · rw [Function.update_of_ne h2]
        by_cases h3 : i = d
        · have hmod : (d - d) % 2 = 0 := by omega
          rw [h3, Function.update_self, if_pos hmod, if_pos (by omega)]
        · rw [Function.update_of_ne h3, if_neg (by omega)]

end Elfboot.Copy
