import Elfboot.Buffer
import Elfboot.Word

/-!
Strings in memory: the functions of `string.c`, on a buffer of bytes.

A pointer is an index. String literals are lists of bytes without the terminator. A loop that
runs to the end of a string takes the number of bytes it may read, which is enough where the
string ends before.
-/

namespace Elfboot.Str

open Elfboot.Buffer Elfboot.Word

/-- The bytes of a string literal. -/
def chars (l : List Char) : List UInt8 := l.map fun c => UInt8.ofNat c.toNat

variable (b : Bytes)

def strlen : ℕ → ℕ → ℕ
  | 0, _ => 0
  | n + 1, s => if b s = 0 then 0 else strlen n (s + 1) + 1

/-- `memcmp` against a literal. -/
def memcmp : ℕ → List UInt8 → ℕ → ℤ
  | _, _, 0 => 0
  | s, lit, n + 1 =>
    if b s < lit.headD 0 then -1
    else if lit.headD 0 < b s then 1
    else memcmp (s + 1) lit.tail n

/-- `strcmp` against a literal. The difference is one of signed characters. -/
def strcmp : ℕ → List UInt8 → ℤ
  | s, [] => if b s = 0 then 0 else (b s).toInt8.toInt
  | s, c :: lit =>
    let delta := (b s).toInt8.toInt - c.toInt8.toInt
    if delta ≠ 0 then delta else strcmp (s + 1) lit

/-- `strncmp` against a literal. -/
def strncmp : ℕ → List UInt8 → ℕ → ℤ
  | _, _, 0 => 0
  | s, lit, count + 1 =>
    let c1 := b s
    let c2 := lit.headD 0
    if c1 ≠ c2 then if c1 < c2 then -1 else 1
    else if c1 = 0 then 0
    else strncmp (s + 1) lit.tail count

/-- The loop of `strstr`, by what is left of `len1`. -/
def strstrLoop (lit : List UInt8) : ℕ → ℕ → Option ℕ
  | 0, _ => none
  | len1 + 1, s =>
    if lit.length ≤ len1 + 1 then
      if memcmp b s lit lit.length = 0 then some s else strstrLoop lit len1 (s + 1)
    else none

def strstr (n s : ℕ) (lit : List UInt8) : Option ℕ :=
  if lit.length = 0 then some s else strstrLoop b lit (strlen b n s) s

/-- Whether `strchr` finds a character. It finds the terminator, too. -/
def strchr (lit : List UInt8) (c : UInt8) : Bool := c ∈ lit ∨ c = 0

def strspn (delim : List UInt8) : ℕ → ℕ → ℕ
  | 0, _ => 0
  | n + 1, s => if b s ≠ 0 ∧ strchr delim (b s) then strspn delim n (s + 1) + 1 else 0

def strcspn (delim : List UInt8) : ℕ → ℕ → ℕ
  | 0, _ => 0
  | n + 1, s =>
    if b s = 0 then 0
    else if strchr delim (b s) then 0
    else strcspn delim n (s + 1) + 1

/-- `strtok_r`: the token, what is stored, and the buffer. -/
def strtokR (n : ℕ) (str : Option ℕ) (delim : List UInt8) (store : ℕ) : Option ℕ × ℕ × Bytes :=
  let str := str.getD store
  if b str = 0 then (none, str, b)
  else
    let str := str + strspn b delim n str
    if b str = 0 then (none, str, b)
    else
      let fin := str + strcspn b delim n str
      if b fin = 0 then (some str, fin, b)
      else (some str, fin + 1, Function.update b fin 0)

/-- `strtok`: the token, its static pointer, and the buffer. -/
def strtok (n : ℕ) (str : Option ℕ) (delim : List UInt8) (p : Option ℕ) :
    Option ℕ × Option ℕ × Bytes :=
  match str.or p with
  | none => (none, none, b)
  | some p =>
    let str := p + strspn b delim n p
    let p := str + strcspn b delim n str
    if p = str then (none, none, b)
    else if b p ≠ 0 then (some str, some (p + 1), Function.update b p 0)
    else (some str, none, b)

/-- The macro `TOLOWER`. -/
def toLower (c : UInt8) : UInt8 := c ||| 0x20

def isDigit (c : UInt8) : Bool := 48 ≤ c ∧ c ≤ 57

def isXdigit (c : UInt8) : Bool := isDigit c ∨ 97 ≤ c ∧ c ≤ 102 ∨ 65 ≤ c ∧ c ≤ 70

def simpleGuessBase (cp : ℕ) : ℕ :=
  if b cp = 48 then
    if toLower (b (cp + 1)) = 120 ∧ isXdigit (b (cp + 2)) then 16 else 8
  else 10

/-- The loop of `strtoul`: the result, and where it ends. -/
def strtoulLoop (base : ℕ) : ℕ → ℕ → ℕ → ℕ × ℕ
  | 0, cp, result => (result, cp)
  | n + 1, cp, result =>
    if isXdigit (b cp) then
      let value :=
        if isDigit (b cp) then (b cp).toNat - 48 else (toLower (b cp)).toNat - 97 + 10
      if base ≤ value then (result, cp)
      else strtoulLoop base n (cp + 1) (u32 (result * base + value))
    else (result, cp)

/-- `strtoul`, with what it stores to `endp`. -/
def strtoul (n cp base : ℕ) : ℕ × ℕ :=
  let base := if base = 0 then simpleGuessBase b cp else base
  let cp := if base = 16 ∧ b cp = 48 ∧ toLower (b (cp + 1)) = 120 then cp + 2 else cp
  strtoulLoop b base n cp 0

/-- The string at `s`, as a callee reads it. -/
def cstring : ℕ → ℕ → List UInt8
  | 0, _ => []
  | n + 1, s => if b s = 0 then [] else b s :: cstring n (s + 1)

/-! ### Strings -/

/-- At `s` the buffer has the string `l`, which is free of the terminator, and the
terminator. -/
def CStr : ℕ → List UInt8 → Prop
  | s, [] => b s = 0
  | s, c :: l => b s = c ∧ c ≠ 0 ∧ CStr (s + 1) l

instance decidableCStr : ∀ (s : ℕ) (l : List UInt8), Decidable (CStr b s l)
  | s, [] => inferInstanceAs (Decidable (b s = 0))
  | s, c :: l =>
    have := decidableCStr (s + 1) l
    inferInstanceAs (Decidable (b s = c ∧ c ≠ 0 ∧ CStr b (s + 1) l))

variable {b} {b' : Bytes} {s n : ℕ} {l u v lit delim : List UInt8} {c : UInt8}

lemma CStr.congr (h : CStr b s l) (hb : ∀ i, s ≤ i → i ≤ s + l.length → b' i = b i) :
    CStr b' s l := by
  induction l generalizing s with
  | nil => exact (hb s le_rfl (by simp)).trans h
  | cons c l ih =>
    rw [List.length_cons] at hb
    refine ⟨(hb s le_rfl (by omega)).trans h.1, h.2.1, ih h.2.2 fun i h1 h2 => ?_⟩
    exact hb i (by omega) (by omega)

lemma CStr.end (h : CStr b s l) : b (s + l.length) = 0 := by
  induction l generalizing s with
  | nil => exact h
  | cons c l ih =>
    rw [List.length_cons, ← Nat.add_assoc, Nat.add_right_comm]
    exact ih h.2.2

lemma CStr.get (h : CStr b s l) {i : ℕ} (hi : i < l.length) : b (s + i) = l[i] := by
  induction l generalizing s i with
  | nil => cases hi
  | cons c l ih =>
    cases i with
    | zero => exact h.1
    | succ i =>
      rw [← Nat.add_assoc, Nat.add_right_comm]
      exact ih h.2.2 (Nat.lt_of_succ_lt_succ hi)

lemma CStr.of_get (hb : ∀ i (h : i < l.length), b (s + i) = l[i]) (h0 : ∀ c ∈ l, c ≠ 0)
    (hend : b (s + l.length) = 0) : CStr b s l := by
  induction l generalizing s with
  | nil => exact hend
  | cons c l ih =>
    refine ⟨hb 0 (by simp), h0 c (by simp),
      ih (fun i hi => ?_) (fun d hd => h0 d (by simp [hd])) ?_⟩
    · rw [Nat.add_right_comm, Nat.add_assoc]
      exact hb (i + 1) (by simpa using hi)
    · rw [Nat.add_right_comm, Nat.add_assoc]
      exact hend

/-- The part of a string behind a prefix. -/
lemma CStr.drop (h : CStr b s (u ++ v)) : CStr b (s + u.length) v := by
  induction u generalizing s with
  | nil => exact h
  | cons c u ih =>
    rw [List.length_cons, ← Nat.add_assoc, Nat.add_right_comm]
    exact ih h.2.2

lemma CStr.head_ne (h : CStr b s (c :: l)) {d : UInt8} (hd : c ≠ d) : b s ≠ d := by
  rw [h.1]
  exact hd

lemma CStr.ne_zero (h : CStr b s l) (hc : c ∈ l) : c ≠ 0 := by
  induction l generalizing s with
  | nil => cases hc
  | cons d l ih =>
    rcases List.mem_cons.mp hc with rfl | hc
    · exact h.2.1
    · exact ih h.2.2 hc

/-- Cutting a string off where its prefix ends. -/
lemma CStr.cut (h : CStr b s (u ++ v)) : CStr (Function.update b (s + u.length) 0) s u := by
  induction u generalizing s with
  | nil => exact Function.update_self ..
  | cons c u ih =>
    refine ⟨?_, h.2.1, ?_⟩
    · rw [Function.update_of_ne (by simp)]
      exact h.1
    · have h1 := ih h.2.2
      rwa [Nat.add_right_comm] at h1

lemma strlen_eq (h : CStr b s l) (hn : l.length ≤ n) : strlen b n s = l.length := by
  induction l generalizing s n with
  | nil =>
    cases n with
    | zero => rfl
    | succ n => exact if_pos h
  | cons c l ih =>
    obtain ⟨n, rfl⟩ : ∃ k, n = k + 1 := ⟨n - 1, by simp at hn; omega⟩
    unfold strlen
    rw [if_neg (h.1 ▸ h.2.1), ih h.2.2 (by simpa using hn), List.length_cons]

/-- A copy of a string. -/
lemma cstr_memcpy {old : Bytes} (h : CStr b s l) :
    CStr (memcpy old 0 b s (l.length + 1)) 0 l := by
  refine CStr.of_get (fun j hj => ?_) (fun c hc => h.ne_zero hc) ?_
  · rw [memcpy, if_pos (by omega), Nat.zero_add, Nat.sub_zero, h.get hj]
  · rw [memcpy, if_pos (by omega), Nat.zero_add, Nat.sub_zero, h.end]

lemma cstring_eq (h : CStr b s l) (hn : l.length ≤ n) : cstring b n s = l := by
  induction l generalizing s n with
  | nil =>
    cases n with
    | zero => rfl
    | succ n => rw [cstring, if_pos (show b s = 0 from h)]
  | cons c l ih =>
    cases n with
    | zero => simp at hn
    | succ n =>
      rw [cstring, if_neg (h.1 ▸ h.2.1), h.1, ih h.2.2 (by simpa using hn)]

/-- A literal that is a prefix of the string compares equal. -/
lemma strncmp_prefix (lit : List UInt8) (h : CStr b s (lit ++ l)) :
    strncmp b s lit lit.length = 0 := by
  induction lit generalizing s with
  | nil => rfl
  | cons c lit ih =>
    obtain ⟨h1, h2, h3⟩ := h
    rw [List.length_cons]
    unfold strncmp
    dsimp only [List.headD_cons, List.tail_cons]
    rw [if_neg (not_not.mpr h1), if_neg (h1 ▸ h2)]
    exact ih h3

lemma strncmp_head (h : b s ≠ c) (n : ℕ) : strncmp b s (c :: lit) (n + 1) ≠ 0 := by
  unfold strncmp
  dsimp only [List.headD_cons]
  rw [if_pos h]
  split <;> decide

/-- What `strncmp` accepts: a name and the string agree as far as the name goes, or up to where
both end. -/
def agrees : List UInt8 → List UInt8 → Bool
  | [], _ => true
  | c :: l, lit => c = lit.headD 0 && (c = 0 || agrees l lit.tail)

/-- The bytes at `s` are `l`. -/
def Has (b : Bytes) (s : ℕ) (l : List UInt8) : Prop := ∀ i (h : i < l.length), b (s + i) = l[i]

lemma Has.tail (h : Has b s (c :: l)) : Has b (s + 1) l := by
  intro i hi
  have h1 := h (i + 1) (Nat.succ_lt_succ hi)
  rwa [← Nat.add_assoc, Nat.add_right_comm] at h1

lemma Has.congr (h : Has b s l) (hb : ∀ i < l.length, b' (s + i) = b (s + i)) : Has b' s l :=
  fun i hi => (hb i hi).trans (h i hi)

lemma strncmp_has (h : Has b s l) (lit : List UInt8) :
    strncmp b s lit l.length = 0 ↔ agrees l lit = true := by
  induction l generalizing s lit with
  | nil => exact iff_of_true rfl rfl
  | cons c l ih =>
    have hc : b s = c := h 0 (Nat.succ_pos _)
    have hrest : strncmp b (s + 1) lit.tail l.length = 0 ↔ agrees l lit.tail = true :=
      ih h.tail lit.tail
    rw [List.length_cons]
    unfold strncmp agrees
    dsimp only
    rw [hc, Bool.and_eq_true, Bool.or_eq_true, decide_eq_true_eq, decide_eq_true_eq]
    by_cases hne : c = lit.headD 0
    · rw [if_neg (not_not.mpr hne), and_iff_right hne]
      by_cases h0 : c = 0
      · rw [if_pos h0]
        exact iff_of_true rfl (Or.inl h0)
      · rw [if_neg h0, hrest, or_iff_right h0]
    · rw [if_pos hne]
      refine iff_of_false ?_ fun hand => hne hand.1
      split <;> decide

lemma strncmp_congr {t : ℕ} {count : ℕ} (hb : ∀ i < count, b (s + i) = b' (t + i)) :
    strncmp b s lit count = strncmp b' t lit count := by
  induction count generalizing s t lit with
  | zero => rfl
  | succ count ih =>
    have h0 : b s = b' t := hb 0 (Nat.succ_pos _)
    have hrest : ∀ lit, strncmp b (s + 1) lit count = strncmp b' (t + 1) lit count := by
      refine fun lit => ih fun i hi => ?_
      rw [Nat.add_right_comm, Nat.add_right_comm t]
      exact hb (i + 1) (Nat.succ_lt_succ hi)
    unfold strncmp
    rw [h0, hrest]

/-- A count that is larger than the string does not limit the comparison. -/
lemma strncmp_cstr {count : ℕ} (hlit : 0 ∉ lit) (hcount : lit.length < count) :
    strncmp b s lit count = 0 ↔ CStr b s lit := by
  induction lit generalizing s count with
  | nil =>
    obtain ⟨count, rfl⟩ : ∃ k, count = k + 1 := ⟨count - 1, by simp at hcount; omega⟩
    unfold strncmp CStr
    dsimp only [List.headD_nil]
    by_cases h0 : b s = 0
    · rw [if_neg (not_not.mpr h0), if_pos h0]
      exact iff_of_true rfl h0
    · rw [if_pos h0]
      refine iff_of_false ?_ h0
      split <;> decide
  | cons d lit ih =>
    rw [List.length_cons] at hcount
    rw [List.mem_cons, not_or] at hlit
    obtain ⟨count, rfl⟩ : ∃ k, count = k + 1 := ⟨count - 1, by omega⟩
    have hrest : strncmp b (s + 1) lit count = 0 ↔ CStr b (s + 1) lit := ih hlit.2 (by omega)
    unfold strncmp CStr
    dsimp only [List.headD_cons, List.tail_cons]
    by_cases hd : b s = d
    · have h0 : b s ≠ 0 := fun h => hlit.1 (h.symm.trans hd)
      rw [if_neg (not_not.mpr hd), if_neg h0, hrest]
      exact ⟨fun h => ⟨hd, Ne.symm hlit.1, h⟩, fun h => h.2.2⟩
    · rw [if_pos hd]
      refine iff_of_false ?_ fun h => hd h.1
      split <;> decide

lemma agrees_self (l : List UInt8) : agrees l l = true := by
  induction l with
  | nil => rfl
  | cons c l ih =>
    rw [agrees, List.headD_cons, List.tail_cons, ih, Bool.or_true, Bool.and_true]
    exact decide_eq_true rfl

/-- Characters with no difference are the same. -/
lemma delta_zero (x y : UInt8) : x.toInt8.toInt - y.toInt8.toInt = 0 ↔ x = y := by
  rw [Int.sub_eq_zero, Int8.toInt_inj]
  exact ⟨fun he => by simpa using congrArg Int8.toUInt8 he, fun he => he ▸ rfl⟩

/-- What compares equal to a literal is that string. -/
lemma strcmp_cstr (hlit : 0 ∉ lit) : strcmp b s lit = 0 ↔ CStr b s lit := by
  induction lit generalizing s with
  | nil =>
    unfold strcmp CStr
    by_cases h0 : b s = 0
    · rw [if_pos h0]
      exact iff_of_true rfl h0
    · have hne := (delta_zero (b s) 0).not.mpr h0
      rw [if_neg h0]
      exact iff_of_false (by simpa using hne) h0
  | cons d lit ih =>
    rw [List.mem_cons, not_or] at hlit
    unfold strcmp CStr
    dsimp only
    by_cases hd : b s = d
    · have hrest : strcmp b (s + 1) lit = 0 ↔ CStr b (s + 1) lit := ih hlit.2
      rw [if_neg (not_not.mpr ((delta_zero _ _).mpr hd)), hrest]
      exact ⟨fun h => ⟨hd, Ne.symm hlit.1, h⟩, fun h => h.2.2⟩
    · have hne := (delta_zero (b s) d).not.mpr hd
      rw [if_pos hne]
      exact iff_of_false hne fun h => hd h.1

lemma CStr.unique (h : CStr b s l) (h' : CStr b s u) : l = u := by
  induction l generalizing s u with
  | nil =>
    cases u with
    | nil => rfl
    | cons d u => exact absurd (h'.1.symm.trans h) h'.2.1
  | cons c l ih =>
    cases u with
    | nil => exact absurd (h.1.symm.trans h') h.2.1
    | cons d u => rw [← h.1, h'.1, ih h.2.2 h'.2.2]

lemma strcmp_eq_zero (h : CStr b s l) (hlit : 0 ∉ lit) : strcmp b s lit = 0 ↔ l = lit := by
  rw [strcmp_cstr hlit]
  exact ⟨fun h' => h.unique h', fun he => he ▸ h⟩

/-! ### Searching and tokenizing -/

lemma strchr_iff (hc : c ≠ 0) : strchr lit c = true ↔ c ∈ lit := by
  simp [strchr, hc]

lemma strspn_eq (h : CStr b s (u ++ v)) (hu : ∀ c ∈ u, c ∈ delim)
    (hv : ∀ c ∈ v.head?, c ∉ delim) (hn : u.length ≤ n) : strspn b delim n s = u.length := by
  induction u generalizing s n with
  | nil =>
    cases n with
    | zero => rfl
    | succ n =>
      refine if_neg ?_
      rintro ⟨h0, hin⟩
      cases v with
      | nil => exact h0 h
      | cons c v =>
        rw [strchr_iff h0, h.1] at hin
        exact hv c rfl hin
  | cons c u ih =>
    rw [List.length_cons] at hn ⊢
    obtain ⟨n, rfl⟩ : ∃ k, n = k + 1 := ⟨n - 1, by omega⟩
    have hc : b s ≠ 0 := h.1 ▸ h.2.1
    unfold strspn
    rw [if_pos ⟨hc, (strchr_iff hc).mpr (h.1 ▸ hu c (by simp))⟩,
      ih h.2.2 (fun d hd => hu d (by simp [hd])) (by omega)]

lemma strcspn_eq (h : CStr b s (u ++ v)) (hu : ∀ c ∈ u, c ∉ delim)
    (hv : ∀ c ∈ v.head?, c ∈ delim) (hn : u.length ≤ n) : strcspn b delim n s = u.length := by
  induction u generalizing s n with
  | nil =>
    cases n with
    | zero => rfl
    | succ n =>
      unfold strcspn
      cases v with
      | nil => exact if_pos h
      | cons c v =>
        have hc : b s ≠ 0 := h.1 ▸ h.2.1
        rw [if_neg hc, if_pos ((strchr_iff hc).mpr (h.1 ▸ hv c rfl))]
        rfl
  | cons c u ih =>
    rw [List.length_cons] at hn ⊢
    obtain ⟨n, rfl⟩ : ∃ k, n = k + 1 := ⟨n - 1, by omega⟩
    have hc : b s ≠ 0 := h.1 ▸ h.2.1
    unfold strcspn
    rw [if_neg hc, if_neg (fun hin => hu c (by simp) (h.1 ▸ (strchr_iff hc).mp hin)),
      ih h.2.2 (fun d hd => hu d (by simp [hd])) (by omega)]

lemma memcmp_char (b : Bytes) (s : ℕ) (c : UInt8) :
    memcmp b s [c] [c].length = 0 ↔ b s = c := by
  simp only [memcmp, List.headD_cons, List.length_singleton, UInt8.lt_iff_toNat_lt,
    ← UInt8.toNat_inj]
  split_ifs with h1 h2
  · simp [h1.ne]
  · simp [h2.ne']
  · exact ⟨fun _ => by omega, fun _ => rfl⟩

/-- The first occurrence of a character. -/
lemma strstr_char (h : CStr b s (u ++ c :: v)) (hu : c ∉ u) (hn : (u ++ c :: v).length ≤ n) :
    strstr b n s [c] = some (s + u.length) := by
  have hloop : ∀ k s (u : List UInt8), CStr b s (u ++ c :: v) → c ∉ u →
      k = (u ++ c :: v).length → strstrLoop b [c] k s = some (s + u.length) := by
    intro k
    induction k with
    | zero =>
      intro s u _ _ hk
      simp at hk
    | succ k ih =>
      intro s u h hu hk
      unfold strstrLoop
      rw [if_pos (by simp)]
      cases u with
      | nil => rw [if_pos ((memcmp_char b s c).mpr h.1)]; rfl
      | cons d u =>
        rw [List.mem_cons, not_or] at hu
        have hk' : k = (u ++ c :: v).length := by simpa using hk
        rw [if_neg ((memcmp_char b s c).not.mpr fun he => hu.1 (he.symm.trans h.1)),
          ih _ u h.2.2 hu.2 hk', List.length_cons, ← Nat.add_assoc, Nat.add_right_comm]
  unfold strstr
  rw [if_neg (by simp), strlen_eq h hn]
  exact hloop _ s u h hu rfl

/-- A character that does not occur. -/
lemma strstr_char_none (h : CStr b s l) (hl : c ∉ l) (hn : l.length ≤ n) :
    strstr b n s [c] = none := by
  have hloop : ∀ (l : List UInt8) s, CStr b s l → c ∉ l →
      strstrLoop b [c] l.length s = none := by
    intro l
    induction l with
    | nil => exact fun _ _ _ => rfl
    | cons d l ih =>
      intro s h hl
      rw [List.mem_cons, not_or] at hl
      rw [List.length_cons, strstrLoop, if_pos (by simp),
        if_neg ((memcmp_char b s c).not.mpr fun he => hl.1 (he.symm.trans h.1)), ih _ h.2.2 hl.2]
  unfold strstr
  rw [if_neg (by simp), strlen_eq h hn]
  exact hloop l s h hl

/-- Where a token begins and ends. -/
lemma token_spans (h : CStr b s (u ++ (l ++ v))) (hu : ∀ c ∈ u, c ∈ delim)
    (hl : ∀ c ∈ l, c ∉ delim) (hne : l ≠ []) (hv : ∀ c ∈ v.head?, c ∈ delim)
    (hn : (u ++ (l ++ v)).length ≤ n) :
    strspn b delim n s = u.length ∧ strcspn b delim n (s + u.length) = l.length ∧
      b (s + u.length) ≠ 0 := by
  rw [List.length_append, List.length_append] at hn
  obtain ⟨c, l', hcl⟩ := List.exists_cons_of_ne_nil hne
  have h1 := h.drop
  have hlc : ∀ d ∈ (l ++ v).head?, d ∉ delim := by
    rw [hcl]
    rintro d ⟨⟩
    exact hl c (by simp [hcl])
  refine ⟨strspn_eq h hu hlc (by omega), strcspn_eq h1 hl hv (by omega), ?_⟩
  rw [hcl] at h1
  exact h1.1 ▸ h1.2.1

/-- Where a string ends, ending it changes nothing. -/
lemma CStr.update_end (h : CStr b s l) : Function.update b (s + l.length) 0 = b := by
  rw [← h.end, Function.update_eq_self]

/-- What a tokenizer leaves: the token ends, and the rest is as it was. -/
lemma CStr.cut_token (h : CStr b s (u ++ (l ++ v))) :
    CStr (Function.update b (s + u.length + l.length) 0) (s + u.length) l ∧
      (v ≠ [] → CStr (Function.update b (s + u.length + l.length) 0)
        (s + u.length + l.length + 1) v.tail) ∧
      (v = [] → Function.update b (s + u.length + l.length) 0 = b) := by
  refine ⟨h.drop.cut, fun hv => ?_, fun hv => ?_⟩
  · obtain ⟨d, v, rfl⟩ := List.exists_cons_of_ne_nil hv
    refine h.drop.drop.2.2.congr fun i hi _ => Function.update_of_ne ?_ 0 b
    exact (Nat.lt_of_succ_le hi).ne'
  · subst hv
    have hlast : CStr b (s + u.length) (l ++ []) := h.drop
    rw [List.append_nil] at hlast
    exact hlast.update_end

/-- A token that `strtok_r` finds: it ends where the terminator is written, and the rest of the
string, if there is one, is behind that. -/
lemma strtokR_cuts {str : Option ℕ} {store : ℕ} (hs : str.getD store = s)
    (h : CStr b s (u ++ (l ++ v))) (hu : ∀ c ∈ u, c ∈ delim) (hl : ∀ c ∈ l, c ∉ delim)
    (hne : l ≠ []) (hv : ∀ c ∈ v.head?, c ∈ delim) (hn : (u ++ (l ++ v)).length ≤ n) :
    strtokR b n str delim store = (some (s + u.length),
      if v = [] then s + u.length + l.length else s + u.length + l.length + 1,
      Function.update b (s + u.length + l.length) 0) := by
  obtain ⟨hspn, hcspn, hstart⟩ := token_spans h hu hl hne hv hn
  have hs0 : b s ≠ 0 := by
    cases u with
    | nil => exact hstart
    | cons d u => exact h.1 ▸ h.2.1
  have hend : CStr b (s + u.length + l.length) v := h.drop.drop
  unfold strtokR
  dsimp only
  rw [hs, if_neg hs0, hspn, if_neg hstart, hcspn]
  cases v with
  | nil => rw [if_pos (show b _ = 0 from hend), if_pos rfl, h.cut_token.2.2 rfl]
  | cons d v => rw [if_neg (hend.1 ▸ hend.2.1), if_neg (List.cons_ne_nil d v)]

/-- **A token**: what is skipped, what is read, and what is left. The buffer changes inside
the string only. -/
theorem strtokR_token {str : Option ℕ} {store : ℕ} (hs : str.getD store = s)
    (h : CStr b s (u ++ (l ++ v))) (hu : ∀ c ∈ u, c ∈ delim) (hl : ∀ c ∈ l, c ∉ delim)
    (hne : l ≠ []) (hv : ∀ c ∈ v.head?, c ∈ delim) (hn : (u ++ (l ++ v)).length ≤ n) :
    ∃ b' store', strtokR b n str delim store = (some (s + u.length), store', b') ∧
      CStr b' (s + u.length) l ∧ CStr b' store' v.tail ∧
      s + u.length + l.length ≤ store' ∧ store' + v.tail.length ≤ s + (u ++ (l ++ v)).length ∧
      ∀ i, s + (u ++ (l ++ v)).length ≤ i → b' i = b i := by
  obtain ⟨hword, hrest, hlast⟩ := h.cut_token
  refine ⟨_, _, strtokR_cuts hs h hu hl hne hv hn, hword, ?_⟩
  rw [List.length_append, List.length_append]
  by_cases hv0 : v = []
  · rw [if_pos hv0, hlast hv0]
    subst hv0
    refine ⟨h.drop.drop, le_rfl, ?_, fun _ _ => rfl⟩
    rw [List.tail_nil, List.length_nil]
    omega
  · have hpos := List.length_pos_iff.2 hv0
    rw [if_neg hv0]
    refine ⟨hrest hv0, Nat.le_succ _, ?_, fun i hi => Function.update_of_ne (by omega) _ _⟩
    rw [List.length_tail]
    omega

/-- Nothing but delimiters is left. -/
lemma strtokR_none {str : Option ℕ} {store : ℕ} (hs : str.getD store = s) (h : CStr b s u)
    (hu : ∀ c ∈ u, c ∈ delim) (hn : u.length ≤ n) :
    ∃ store', strtokR b n str delim store = (none, store', b) ∧ b store' = 0 := by
  have hspn : strspn b delim n s = u.length :=
    strspn_eq (v := []) (by rwa [List.append_nil]) hu (by simp) hn
  unfold strtokR
  dsimp only
  rw [hs]
  split
  next h0 => exact ⟨s, rfl, h0⟩
  next =>
    rw [hspn, if_pos h.end]
    exact ⟨_, rfl, h.end⟩

/-- The static pointer of `strtok`: where the rest `l` of the string is, if there is one. -/
def Rest (b : Bytes) (p : Option ℕ) (l : List UInt8) : Prop :=
  (p = none ∧ l = []) ∨ ∃ q, p = some q ∧ CStr b q l

/-- A token that `strtok` finds. -/
lemma strtok_cuts {str p : Option ℕ} (hs : str.or p = some s) (h : CStr b s (u ++ (l ++ v)))
    (hu : ∀ c ∈ u, c ∈ delim) (hl : ∀ c ∈ l, c ∉ delim) (hne : l ≠ [])
    (hv : ∀ c ∈ v.head?, c ∈ delim) (hn : (u ++ (l ++ v)).length ≤ n) :
    strtok b n str delim p = (some (s + u.length),
      if v = [] then none else some (s + u.length + l.length + 1),
      Function.update b (s + u.length + l.length) 0) := by
  obtain ⟨hspn, hcspn, -⟩ := token_spans h hu hl hne hv hn
  have hpos := List.length_pos_iff.2 hne
  have hend : CStr b (s + u.length + l.length) v := h.drop.drop
  unfold strtok
  rw [hs]
  dsimp only
  rw [hspn, hcspn, if_neg (by omega)]
  cases v with
  | nil =>
    rw [if_neg (not_not.mpr (show b _ = 0 from hend)), if_pos rfl, h.cut_token.2.2 rfl]
  | cons d v => rw [if_pos (hend.1 ▸ hend.2.1), if_neg (List.cons_ne_nil d v)]

/-- A token, and what is left of the string. -/
lemma strtok_token {str p : Option ℕ} (hs : str.or p = some s) (h : CStr b s (u ++ (l ++ v)))
    (hu : ∀ c ∈ u, c ∈ delim) (hl : ∀ c ∈ l, c ∉ delim) (hne : l ≠ [])
    (hv : ∀ c ∈ v.head?, c ∈ delim) (hn : (u ++ (l ++ v)).length ≤ n) :
    ∃ b' p', strtok b n str delim p = (some (s + u.length), p', b') ∧
      CStr b' (s + u.length) l ∧ Rest b' p' v.tail := by
  obtain ⟨hword, hrest, -⟩ := h.cut_token
  refine ⟨_, _, strtok_cuts hs h hu hl hne hv hn, hword, ?_⟩
  by_cases hv0 : v = []
  · rw [if_pos hv0, hv0]
    exact Or.inl ⟨rfl, rfl⟩
  · rw [if_neg hv0]
    exact Or.inr ⟨_, rfl, hrest hv0⟩

/-- Nothing is left for `strtok`, or nothing but delimiters. -/
lemma strtok_none {str p : Option ℕ} (hs : Rest b (str.or p) u) (hu : ∀ c ∈ u, c ∈ delim)
    (hn : u.length ≤ n) : strtok b n str delim p = (none, none, b) := by
  unfold strtok
  rcases hs with ⟨hs, -⟩ | ⟨q, hs, h⟩
  · rw [hs]
  · have hspn : strspn b delim n q = u.length :=
      strspn_eq (v := []) (by rwa [List.append_nil]) hu (by simp) hn
    have hend : CStr b (q + u.length) ([] ++ []) := h.end
    have hcspn : strcspn b delim n (q + u.length) = 0 :=
      strcspn_eq (u := []) hend (by simp) (by simp) (Nat.zero_le _)
    rw [hs]
    dsimp only
    rw [hspn, hcspn, if_pos (Nat.add_zero _)]

/-- A token that ends before the string does, and what is left of the string. -/
lemma strtok_word {str p : Option ℕ} {d : UInt8} (hs : str.or p = some s)
    (h : CStr b s (l ++ d :: v)) (hl : ∀ c ∈ l, c ∉ delim) (hne : l ≠ []) (hd : d ∈ delim)
    (hn : (l ++ d :: v).length ≤ n) :
    strtok b n str delim p =
        (some s, some (s + l.length + 1), Function.update b (s + l.length) 0) ∧
      CStr (Function.update b (s + l.length) 0) s l ∧
      CStr (Function.update b (s + l.length) 0) (s + l.length + 1) v := by
  have hd' : ∀ c ∈ (d :: v).head?, c ∈ delim := by
    rintro c ⟨⟩
    exact hd
  have h' : CStr b s ([] ++ (l ++ d :: v)) := h
  obtain ⟨hword, hrest, -⟩ := h'.cut_token
  refine ⟨?_, hword, hrest (List.cons_ne_nil d v)⟩
  rw [strtok_cuts hs h' (List.forall_mem_nil _) hl hne hd' hn, if_neg (List.cons_ne_nil d v)]
  rfl

/-- A token that ends where the string does. -/
lemma strtok_last {str p : Option ℕ} (hs : str.or p = some s) (h : CStr b s l)
    (hl : ∀ c ∈ l, c ∉ delim) (hne : l ≠ []) (hn : l.length ≤ n) :
    strtok b n str delim p = (some s, none, b) := by
  have h' : CStr b s ([] ++ (l ++ [])) := by rwa [List.nil_append, List.append_nil]
  have hend : Function.update b (s + l.length) 0 = b := h.update_end
  rw [strtok_cuts hs h' (List.forall_mem_nil _) hl hne (by simp)
    (by rwa [List.nil_append, List.append_nil]), if_pos rfl, List.length_nil, Nat.add_zero, hend]

/-! ### Numerals -/

/-- A lower-case digit. -/
def hexDigit (d : ℕ) : UInt8 := UInt8.ofNat (if d < 10 then 48 + d else 87 + d)

/-- The last `k` hexadecimal digits. -/
def hexDigits : ℕ → ℕ → List UInt8
  | 0, _ => []
  | k + 1, v => hexDigit (v / 16 ^ k % 16) :: hexDigits k v

lemma hexDigit_read : ∀ d < 16, isXdigit (hexDigit d) = true ∧ hexDigit d ≠ 0 ∧
    toLower (hexDigit d) ≠ 120 ∧
    (if isDigit (hexDigit d) = true then (hexDigit d).toNat - 48
      else (toLower (hexDigit d)).toNat - 97 + 10) = d := by
  decide

lemma hexDigits_length (k v : ℕ) : (hexDigits k v).length = k := by
  induction k with
  | zero => rfl
  | succ k ih => rw [hexDigits, List.length_cons, ih]

lemma hexDigits_mem {k v : ℕ} (h : c ∈ hexDigits k v) : ∃ d < 16, c = hexDigit d := by
  induction k with
  | zero => cases h
  | succ k ih =>
    rcases List.mem_cons.mp h with rfl | h
    · exact ⟨_, Nat.mod_lt _ (by decide), rfl⟩
    · exact ih h

lemma strtoulLoop_hexDigits {k v r : ℕ} (h : CStr b s (hexDigits k v)) (hk : k ≤ n)
    (hr : r < 2 ^ 32) :
    strtoulLoop b 16 n s r = (u32 (r * 16 ^ k + v % 16 ^ k), s + k) := by
  induction k generalizing n s r with
  | zero =>
    rw [pow_zero, Nat.mod_one, Nat.mul_one, Nat.add_zero, u32_of_lt hr]
    cases n with
    | zero => rfl
    | succ n =>
      rw [strtoulLoop, show b s = 0 from h]
      rfl
  | succ k ih =>
    obtain ⟨n, rfl⟩ : ∃ j, n = j + 1 := ⟨n - 1, by omega⟩
    obtain ⟨h1, -, h2⟩ := h
    have hd : v / 16 ^ k % 16 < 16 := Nat.mod_lt _ (by decide)
    obtain ⟨hx, -, -, hval⟩ := hexDigit_read _ hd
    rw [strtoulLoop, h1, if_pos hx]
    dsimp only
    rw [hval, if_neg (not_le.mpr hd), ih h2 (Nat.le_of_succ_le_succ hk) (u32_lt _)]
    have hsplit : v % 16 ^ (k + 1) = v / 16 ^ k % 16 * 16 ^ k + v % 16 ^ k := by
      rw [pow_succ, Nat.mod_mul, Nat.add_comm, Nat.mul_comm]
    refine Prod.ext ?_ (by dsimp only; omega)
    dsimp only
    rw [hsplit, u32, u32, u32, Nat.add_mod, Nat.mul_mod, Nat.mod_mod, ← Nat.mul_mod,
      ← Nat.add_mod]
    exact congrArg (· % 2 ^ 32) (by ring)

/-- Hexadecimal digits without a prefix are read back. -/
lemma strtoul_hexDigits {k v : ℕ} (h : CStr b s (hexDigits k v)) (hk : k ≤ n) :
    strtoul b n s 16 = (u32 (v % 16 ^ k), s + k) := by
  have hprefix : ¬(b s = 48 ∧ toLower (b (s + 1)) = 120) := by
    rintro ⟨h48, h120⟩
    cases k with
    | zero =>
      have h0 : b s = 0 := h
      rw [h48] at h0
      exact absurd h0 (by decide)
    | succ k =>
      cases k with
      | zero =>
        have h0 : b (s + 1) = 0 := h.2.2
        rw [h0] at h120
        exact absurd h120 (by decide)
      | succ k =>
        have h1 : b (s + 1) = hexDigit (v / 16 ^ k % 16) := h.2.2.1
        rw [h1] at h120
        exact (hexDigit_read _ (Nat.mod_lt _ (by decide))).2.2.1 h120
  unfold strtoul
  dsimp only
  rw [if_neg (by decide), if_neg fun hp => hprefix hp.2, strtoulLoop_hexDigits h hk (by decide),
    Nat.zero_mul, Nat.zero_add]

end Elfboot.Str
