import Elfboot.Str

/-!
Copies of strings: `strcpy` and `strncpy`.

`strcpy` copies as many bytes as the string has characters, so what ends the copy is what has
been there before. `strncpy` leaves its loop to `strcpy` where the string fits, and does not pad.
-/

namespace Elfboot.StringCopy

open Elfboot.Buffer Elfboot.Str

def strcpy (n : ℕ) (dst : Bytes) (d : ℕ) (str : Bytes) (s : ℕ) : Bytes :=
  memcpy dst d str s (strlen str n s)

/-- The loop of `strncpy`, which copies characters without a look at them. -/
def strncpyLoop : ℕ → Bytes → ℕ → Bytes → ℕ → Bytes
  | 0, dst, _, _, _ => dst
  | len + 1, dst, d, str, s =>
    strncpyLoop len (Function.update dst d (str s)) (d + 1) str (s + 1)

def strncpy (n : ℕ) (dst : Bytes) (d : ℕ) (str : Bytes) (s len : ℕ) : Bytes :=
  if strlen str n s ≤ len then strcpy n dst d str s else strncpyLoop len dst d str s

/-- The `l` characters of a string and its terminator are copied, and nothing else. -/
structure CopiesString (old new : Bytes) (d : ℕ) (str : Bytes) (s l : ℕ) : Prop where
  bytes : ∀ i ≤ l, new (d + i) = str (s + i)
  others : ∀ j, j < d ∨ d + l < j → new j = old j

/-- `len` bytes are written: the characters that there are, then terminators. -/
structure CopiesPadded (old new : Bytes) (d : ℕ) (str : Bytes) (s l len : ℕ) : Prop where
  bytes : ∀ i < len, new (d + i) = if i < l then str (s + i) else 0
  others : ∀ j, j < d ∨ d + len ≤ j → new j = old j

variable {dst str : Bytes} {d s n len : ℕ} {l u : List UInt8}

lemma strncpyLoop_eq (len : ℕ) (dst : Bytes) (d s : ℕ) :
    strncpyLoop len dst d str s = memcpy dst d str s len := by
  induction len generalizing dst d s with
  | zero =>
      funext i
      rw [strncpyLoop, memcpy, if_neg (by omega)]
  | succ len ih =>
      rw [strncpyLoop, ih]
      funext i
      unfold memcpy
      by_cases hrest : d + 1 ≤ i ∧ i < d + 1 + len
      · rw [if_pos hrest, if_pos (by omega)]
        congr 1
        omega
      · rw [if_neg hrest]
        by_cases hfirst : i = d
        · rw [hfirst, Function.update_self, if_pos (by omega), Nat.sub_self, Nat.add_zero]
        · rw [Function.update_of_ne hfirst, if_neg (by omega)]

lemma strcpy_eq (h : CStr str s l) (hn : l.length ≤ n) :
    strcpy n dst d str s = memcpy dst d str s l.length := by
  rw [strcpy, strlen_eq h hn]

/-- `strncpy` copies the characters up to the end of the string, or up to its count. -/
lemma strncpy_eq (h : CStr str s l) (hn : l.length ≤ n) :
    strncpy n dst d str s len = memcpy dst d str s (min len l.length) := by
  rw [strncpy, strlen_eq h hn]
  split
  · next hle => rw [strcpy_eq h hn, Nat.min_eq_right hle]
  · next hle => rw [strncpyLoop_eq, Nat.min_eq_left (by omega)]

lemma memcpy_inside {i : ℕ} (h : i < len) : memcpy dst d str s len (d + i) = str (s + i) := by
  rw [memcpy, if_pos (by omega), Nat.add_sub_cancel_left]

lemma memcpy_outside {j : ℕ} (h : j < d ∨ d + len ≤ j) : memcpy dst d str s len j = dst j :=
  if_neg (by omega)

lemma strcpy_iff (h : CStr str s l) (hn : l.length ≤ n) :
    CopiesString dst (strcpy n dst d str s) d str s l.length ↔ dst (d + l.length) = 0 := by
  have hlast : strcpy n dst d str s (d + l.length) = dst (d + l.length) := by
    rw [strcpy_eq h hn]
    exact memcpy_outside (.inr le_rfl)
  constructor
  · intro hc
    rw [← hlast, hc.bytes _ le_rfl, h.end]
  · intro hzero
    refine ⟨fun i hi => ?_, fun j hj => ?_⟩
    · rcases Nat.lt_or_eq_of_le hi with hlt | rfl
      · rw [strcpy_eq h hn, memcpy_inside hlt]
      · rw [hlast, hzero, h.end]
    · rw [strcpy_eq h hn]
      exact memcpy_outside (by omega)

lemma strncpy_iff (h : CStr str s l) (hn : l.length ≤ n) (len : ℕ) :
    CopiesPadded dst (strncpy n dst d str s len) d str s l.length len ↔
      ∀ i, l.length ≤ i → i < len → dst (d + i) = 0 := by
  have htail (i : ℕ) (hi : l.length ≤ i) :
      strncpy n dst d str s len (d + i) = dst (d + i) := by
    rw [strncpy_eq h hn]
    exact memcpy_outside (by omega)
  constructor
  · intro hc i hi hlen
    rw [← htail i hi, hc.bytes i hlen, if_neg (Nat.not_lt.mpr hi)]
  · intro hzero
    refine ⟨fun i hi => ?_, fun j hj => ?_⟩
    · by_cases hlt : i < l.length
      · rw [if_pos hlt, strncpy_eq h hn, memcpy_inside (by omega)]
      · rw [if_neg hlt, htail i (by omega), hzero i (by omega) hi]
    · rw [strncpy_eq h hn]
      exact memcpy_outside (by omega)

/-- **The copies** are strings exactly where the old bytes are zero that should be the terminator
or the padding. -/
theorem string_copies_iff (h : CStr str s l) (hn : l.length ≤ n) :
    (CopiesString dst (strcpy n dst d str s) d str s l.length ↔ dst (d + l.length) = 0) ∧
      ∀ len, CopiesPadded dst (strncpy n dst d str s len) d str s l.length len ↔
        ∀ i, l.length ≤ i → i < len → dst (d + i) = 0 :=
  ⟨strcpy_iff h hn, strncpy_iff h hn⟩

/-- The string `ab`. -/
def text : Bytes := fun i => if i = 0 then 97 else if i = 1 then 98 else 0

theorem string_copies_text :
    (CopiesString (fun _ => 0xff) (strcpy 2 (fun _ => 0xff) 8 text 0) 8 text 0 2 ↔
        (0xff : UInt8) = 0) ∧
      ∀ len, CopiesPadded (fun _ => 0xff) (strncpy 2 (fun _ => 0xff) 8 text 0 len) 8 text 0 2 len ↔
        ∀ i, 2 ≤ i → i < len → (0xff : UInt8) = 0 :=
  string_copies_iff (l := [97, 98]) (by decide) (by decide)

/-- In memory that has been used, neither copy ends. -/
theorem not_string_copies : ¬ ∀ (dst : Bytes) (d : ℕ) (str : Bytes) (s n : ℕ) (l : List UInt8),
    CStr str s l → l.length ≤ n →
      CopiesString dst (strcpy n dst d str s) d str s l.length ∧
        ∀ len, CopiesPadded dst (strncpy n dst d str s len) d str s l.length len := by
  intro h
  have hcopy := (h (fun _ => 0xff) 8 text 0 2 [97, 98] (by decide) (by decide)).1
  have hlast : strcpy 2 (fun _ => 0xff) 8 text 0 (8 + 2) = text (0 + 2) := hcopy.bytes 2 le_rfl
  exact absurd hlast (by decide)

/-- **What is read back** after a copy over a longer string goes on with the end of that string. -/
theorem strcpy_over (h : CStr str s l) (hn : l.length ≤ n) (hu : CStr dst d u)
    (hle : l.length ≤ u.length) :
    CStr (strcpy n dst d str s) d (l ++ u.drop l.length) := by
  have hlen : (l ++ u.drop l.length).length = u.length := by
    rw [List.length_append, List.length_drop]
    omega
  rw [strcpy_eq h hn]
  refine CStr.of_get (fun i hi => ?_) (fun c hc => ?_) ?_
  · rw [hlen] at hi
    by_cases hlt : i < l.length
    · rw [memcpy_inside hlt, h.get hlt, List.getElem_append_left hlt]
    · rw [memcpy_outside (by omega), hu.get hi, List.getElem_append_right (by omega),
        List.getElem_drop]
      congr 1
      omega
  · rcases List.mem_append.mp hc with hc | hc
    · exact h.ne_zero hc
    · exact hu.ne_zero (List.mem_of_mem_drop hc)
  · rw [hlen, memcpy_outside (by omega), hu.end]

end Elfboot.StringCopy
