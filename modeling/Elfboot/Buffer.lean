import Mathlib

/-!
Buffers of bytes and copies between them.

A buffer is a function of the offset, without an end: where a copy may write is said by
what stays as it was.
-/

namespace Elfboot.Buffer

abbrev Bytes := ℕ → UInt8

/-- `n` bytes of `src` from `s` on, copied to `dst` at `d`. -/
def memcpy (dst : Bytes) (d : ℕ) (src : Bytes) (s n : ℕ) : Bytes :=
  fun i => if d ≤ i ∧ i < d + n then src (s + (i - d)) else dst i

/-- A little-endian word. -/
def le32 (b : Bytes) (i : ℕ) : ℕ :=
  (b i).toNat + (b (i + 1)).toNat * 2 ^ 8 + (b (i + 2)).toNat * 2 ^ 16 + (b (i + 3)).toNat * 2 ^ 24

def le16 (b : Bytes) (i : ℕ) : ℕ := (b i).toNat + (b (i + 1)).toNat * 2 ^ 8

/-- A little-endian word is written. -/
def put32 (b : Bytes) (i v : ℕ) : Bytes := fun j =>
  if i ≤ j ∧ j < i + 4 then UInt8.ofNat (v / 2 ^ (8 * (j - i))) else b j

/-- What the calls of `bmalloc` give, by their number: whether there is memory for the size
that is asked for, and what it holds. -/
structure Bmalloc where
  ok : ℕ → ℕ → Bool
  holds : ℕ → Bytes

def Bmalloc.call (m : Bmalloc) (i size : ℕ) : Option Bytes :=
  if m.ok i size then some (m.holds i) else none

/-- There is memory for everything, and it is zero. -/
def plenty : Bmalloc := ⟨fun _ _ => true, fun _ _ => 0⟩

lemma plenty_call (i size : ℕ) : plenty.call i size = some fun _ => 0 := rfl

/-- The bytes `[d, d + n)` of `dst` are the ones of `src` from `s` on, the others those of
`old`. -/
def Copied (old dst : Bytes) (d : ℕ) (src : Bytes) (s n : ℕ) : Prop :=
  ∀ i, dst i = if d ≤ i ∧ i < d + n then src (s + (i - d)) else old i

variable {old dst src : Bytes} {d s m n : ℕ}

lemma le32_lt (b : Bytes) (i : ℕ) : le32 b i < 2 ^ 32 := by
  have h0 := (b i).toNat_lt
  have h1 := (b (i + 1)).toNat_lt
  have h2 := (b (i + 2)).toNat_lt
  have h3 := (b (i + 3)).toNat_lt
  unfold le32
  omega

lemma le16_lt (b : Bytes) (i : ℕ) : le16 b i < 2 ^ 16 := by
  have h0 := (b i).toNat_lt
  have h1 := (b (i + 1)).toNat_lt
  unfold le16
  omega

lemma le32_congr {b c : Bytes} {i j : ℕ} (h : ∀ k < 4, b (i + k) = c (j + k)) :
    le32 b i = le32 c j := by
  have h0 := h 0 (by decide)
  rw [add_zero, add_zero] at h0
  unfold le32
  rw [h0, h 1 (by decide), h 2 (by decide), h 3 (by decide)]

lemma copied_zero (old : Bytes) (d : ℕ) (src : Bytes) (s : ℕ) : Copied old old d src s 0 := by
  intro i
  rw [if_neg (by omega)]

/-- A piece from a buffer that has the bytes of `src` there, then the rest. -/
lemma Copied.piece {buf : Bytes} {t : ℕ} (hb : ∀ k < m, buf (t + k) = src (s + k))
    (h : Copied (memcpy old d buf t m) dst (d + m) src (s + m) n) :
    Copied old dst d src s (m + n) := by
  intro i
  rw [h i]
  unfold memcpy
  by_cases h1 : d + m ≤ i ∧ i < d + m + n
  · rw [if_pos h1, if_pos (by omega)]
    congr 1; omega
  · rw [if_neg h1]
    by_cases h2 : d ≤ i ∧ i < d + m
    · rw [if_pos h2, if_pos (by omega)]
      exact hb (i - d) (by omega)
    · rw [if_neg h2, if_neg (by omega)]

lemma Copied.congr {src' : Bytes} {s' : ℕ} (h : Copied old dst d src s n)
    (heq : ∀ k < n, src (s + k) = src' (s' + k)) : Copied old dst d src' s' n := by
  intro i
  rw [h i]
  by_cases hi : d ≤ i ∧ i < d + n
  · rw [if_pos hi, if_pos hi]
    exact heq (i - d) (by omega)
  · rw [if_neg hi, if_neg hi]

end Elfboot.Buffer
