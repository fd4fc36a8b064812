import Elfboot.PrintfEnds

/-!
Signed decimal conversions.

`vsprintf` takes every argument of 32 bits as an `unsigned long`, before it looks for a sign. A
number of 64 bits keeps its own.
-/

namespace Elfboot.PrintfSigned

open Elfboot.Word Elfboot.Buffer Elfboot.Str Elfboot.Printf Elfboot.PrintfPieces
open Elfboot.PrintfEnds

/-- `%d`, `%ld` and `%lld` with their arguments. -/
inductive Signed
  | d (v : Int32)
  | ld (v : Int32)
  | lld (v : Int64)

def Signed.long : Signed → Long
  | .d _ => .none
  | .ld _ => .l
  | .lld _ => .ll

def Signed.arg : Signed → Arg
  | .d v => .int v
  | .ld v => .ulong v.toUInt32
  | .lld v => .ulonglong v.toUInt64

def Signed.value : Signed → ℤ
  | .d v => v.toInt
  | .ld v => v.toInt
  | .lld v => v.toInt

/-- Whether the number has 64 bits. -/
def Signed.wide : Signed → Prop
  | .lld _ => True
  | _ => False

structure Conversion where
  flags : List Flag
  width : Width
  subject : Signed

variable {c : Conversion} {mem : Bytes}

/-- The conversion behind its `%`. -/
def Conversion.bytes (c : Conversion) : List UInt8 :=
  c.flags.map Flag.byte ++ (c.width.bytes ++ (c.subject.long.bytes ++ [100]))

def Conversion.args (c : Conversion) : List Arg := c.width.args ++ [c.subject.arg]

/-- Padded on the right, or with zeros behind the sign, or with spaces before it. -/
def Conversion.padded (c : Conversion) (sign : Bool) (l : List UInt8) : List UInt8 :=
  padSigned (.minus ∈ c.flags ∨ c.width.left) (.zero ∈ c.flags)
    (c.width.value - ((signText sign).length + l.length)) (signText sign) l

/-- What the conversion is to write: the numeral of the number, with a sign if it is negative. -/
def Conversion.expected (c : Conversion) : List UInt8 :=
  c.padded (c.subject.value < 0) (numeral 10 c.subject.value.natAbs)

/-! ### What is written -/

/-- The number as `vsprintf` takes it. -/
def Signed.bits : Signed → ℕ
  | .d v => (v.toInt % 2 ^ 32).toNat
  | .ld v => v.toUInt32.toNat
  | .lld v => v.toUInt64.toNat

lemma toNat_toUInt32 (v : Int32) : (v.toUInt32.toNat : ℤ) = v.toInt % 2 ^ 32 := by
  have hcond := BitVec.toInt_eq_toNat_cond v.toBitVec
  have hnat : v.toUInt32.toNat = v.toBitVec.toNat := rfl
  have hint : v.toInt = v.toBitVec.toInt := rfl
  have hlt := v.toBitVec.isLt
  rw [hnat, hint, hcond]
  split_ifs <;> omega

lemma toNat_toUInt64 (v : Int64) : (v.toUInt64.toNat : ℤ) = v.toInt % 2 ^ 64 := by
  have hcond := BitVec.toInt_eq_toNat_cond v.toBitVec
  have hnat : v.toUInt64.toNat = v.toBitVec.toNat := rfl
  have hint : v.toInt = v.toBitVec.toInt := rfl
  have hlt := v.toBitVec.isLt
  rw [hnat, hint, hcond]
  split_ifs <;> omega

/-- A number of 32 bits has lost its sign. -/
lemma bits_narrow {s : Signed} (h : ¬ s.wide) :
    (s.bits : ℤ) = s.value % 2 ^ 32 ∧ -2 ^ 31 ≤ s.value ∧ s.value < 2 ^ 31 := by
  cases s with
  | d v =>
    refine ⟨?_, v.le_toInt, v.toInt_lt⟩
    show (((v.toInt % 2 ^ 32).toNat : ℕ) : ℤ) = v.toInt % 2 ^ 32
    omega
  | ld v => exact ⟨toNat_toUInt32 v, v.le_toInt, v.toInt_lt⟩
  | lld v => exact absurd trivial h

lemma bits_wide {s : Signed} (h : s.wide) :
    (s.bits : ℤ) = s.value % 2 ^ 64 ∧ -2 ^ 63 ≤ s.value ∧ s.value < 2 ^ 63 := by
  cases s with
  | d v => exact h.elim
  | ld v => exact h.elim
  | lld v => exact ⟨toNat_toUInt64 v, v.le_toInt, v.toInt_lt⟩

lemma bits_lt (s : Signed) : s.bits < 2 ^ 64 := by
  by_cases h : s.wide
  · have := (bits_wide h).1
    omega
  · have := (bits_narrow h).1
    omega

/-- The sign that is seen, and what is written behind it. -/
def Conversion.output (c : Conversion) : List UInt8 :=
  let sign := decide (2 ^ 63 ≤ c.subject.bits)
  c.padded sign (numeral 10 (if sign then sub64 0 c.subject.bits else c.subject.bits))

lemma vaNum_signed (s : Signed) (args : List Arg) :
    vaNum s.long.isLongLong (s.arg :: args) = some (s.bits, args) := by
  cases s <;> rfl

variable {r : List UInt8}

/-- The text of the number under the flags and the width of the conversion. -/
lemma numberText_signed (c : Conversion) (buf : List UInt8) :
    numberText ⟨buf, decide (.zero ∈ c.flags), decide (.minus ∈ c.flags) || c.width.left, true,
      padOf c.width, -1⟩ c.subject.bits 10 = c.output := by
  have hfilled : ∀ l : List UInt8, filled (-1 : ℤ).toNat l = l := fun l => filled_of_le (by omega)
  unfold numberText
  dsimp only
  rw [hfilled, padOf_toNat]
  unfold Conversion.output Conversion.padded
  dsimp only
  rw [Bool.decide_or, Bool.decide_eq_true]
  rfl

lemma convert_signed (c : Conversion) (args : List Arg) (buf : List UInt8) :
    convert mem (c.bytes ++ r) (c.args ++ args) buf = some (r, args, buf ++ c.output) := by
  obtain ⟨fs, w, s⟩ := c
  have hplain : Plain 100 := by decide
  have hlong : Plain ((s.long.bytes ++ 100 :: r).headD 0) := long_plain s.long hplain
  obtain ⟨hminus, hzero⟩ := width_head w hlong.1
  have hbytes : Conversion.bytes ⟨fs, w, s⟩ ++ r =
      fs.map Flag.byte ++ (w.bytes ++ (s.long.bytes ++ 100 :: r)) := by
    simp [Conversion.bytes]
  have hargs : Conversion.args ⟨fs, w, s⟩ ++ args = w.args ++ (s.arg :: args) := by
    simp [Conversion.args]
  rw [hbytes, hargs, convert, parseFlags_spec fs hminus hzero]
  dsimp only
  rw [parseWidth_spec w hlong.1, Option.bind_some]
  dsimp only
  have hprec := parsePrecision_spec none hlong (s.arg :: args)
    ⟨buf, false || decide (.zero ∈ fs), false || decide (.minus ∈ fs) || w.left, false, padOf w, 0⟩
  rw [Option.map_none, Option.map_none, Option.getD_none, Option.getD_none, List.nil_append,
    List.nil_append] at hprec
  rw [hprec, Option.bind_some]
  dsimp only
  rw [parseLong_spec (r := 100 :: r) s.long (by decide : (100 : UInt8) ≠ 108)]
  dsimp only
  unfold putArgument
  rw [List.headD_cons, if_neg (by decide), if_neg (by decide), if_pos (by decide), vaNum_signed,
    Option.bind_some, if_pos rfl, Bool.false_or, Bool.false_or]
  have htext := putNumber_text (by decide : 2 ≤ 10) (by decide : 10 ≤ 16) (bits_lt s)
    ⟨buf, decide (.zero ∈ fs), decide (.minus ∈ fs) || w.left, true, padOf w, -1⟩
  have hfit : NumberFits ⟨buf, decide (.zero ∈ fs), decide (.minus ∈ fs) || w.left, true, padOf w,
      -1⟩ s.bits 10 := (by decide : (-1 : ℤ) ≤ 0).trans (Int.natCast_nonneg _)
  rw [if_pos hfit, numberText_signed ⟨fs, w, s⟩ buf] at htext
  have hres := congrArg (Option.map fun l => (r, args, l)) htext
  rw [Option.map_map] at hres
  exact hres

/-! ### When the sign is there -/

lemma minus_not_mem_numeral (n : ℕ) : 45 ∉ numeral 10 n := by
  have hdigit : ∀ d < 10, upperDigit d ≠ 45 := by decide
  unfold numeral
  split_ifs
  · decide
  · intro hmem
    obtain ⟨d, hd, heq⟩ := List.mem_map.1 hmem
    exact hdigit d (Nat.digits_lt_base (by decide) (List.mem_reverse.1 hd)) heq

lemma minus_mem_padded (c : Conversion) (sign : Bool) (n : ℕ) :
    45 ∈ c.padded sign (numeral 10 n) ↔ sign = true := by
  have hnot := minus_not_mem_numeral n
  have hroom : ∀ (k : ℕ) (b : UInt8), b ≠ 45 → 45 ∉ List.replicate k b := fun k b hb hmem =>
    hb (List.eq_of_mem_replicate hmem).symm
  have hsign : 45 ∈ signText sign ↔ sign = true := by cases sign <;> decide
  unfold Conversion.padded padSigned
  split_ifs <;> simp only [List.mem_append, hsign, hnot, hroom _ 32 (by decide),
    hroom _ 48 (by decide), or_false, false_or]

/-- **The output is right** where the number has kept its sign. -/
lemma output_eq_iff (c : Conversion) :
    c.output = c.expected ↔ (c.subject.wide ∨ 0 ≤ c.subject.value) := by
  unfold Conversion.output Conversion.expected
  dsimp only
  by_cases hwide : c.subject.wide
  · obtain ⟨hbits, hmin, hmax⟩ := bits_wide hwide
    refine iff_of_true ?_ (Or.inl hwide)
    by_cases hneg : c.subject.value < 0
    · have hlarge : 2 ^ 63 ≤ c.subject.bits := by omega
      have hsub : sub64 0 c.subject.bits = c.subject.value.natAbs := by
        unfold sub64
        omega
      rw [decide_eq_true hlarge, decide_eq_true hneg, if_pos rfl, hsub]
    · have hsmall : ¬ 2 ^ 63 ≤ c.subject.bits := by omega
      have hnat : c.subject.bits = c.subject.value.natAbs := by omega
      rw [decide_eq_false hsmall, decide_eq_false hneg, if_neg Bool.false_ne_true, hnat]
  · obtain ⟨hbits, hmin, hmax⟩ := bits_narrow hwide
    have hsmall : ¬ 2 ^ 63 ≤ c.subject.bits := by omega
    rw [or_iff_right hwide, decide_eq_false hsmall, if_neg Bool.false_ne_true]
    constructor
    · intro heq
      by_contra hneg
      have hmem := (minus_mem_padded c true c.subject.value.natAbs).2 rfl
      rw [decide_eq_true (not_le.1 hneg)] at heq
      rw [← heq, minus_mem_padded] at hmem
      cases hmem
    · intro hnonneg
      have hnat : c.subject.bits = c.subject.value.natAbs := by omega
      rw [hnat, decide_eq_false (not_lt.2 hnonneg)]

/-! ### In a format -/

/-- A format with a signed conversion among other pieces. -/
def format (ps : List (Piece mem)) (c : Conversion) (qs : List (Piece mem)) : List UInt8 :=
  PrintfPieces.format ps ++ 37 :: (c.bytes ++ PrintfPieces.format qs)

def arguments (ps : List (Piece mem)) (c : Conversion) (qs : List (Piece mem)) : List Arg :=
  PrintfPieces.arguments ps ++ (c.args ++ PrintfPieces.arguments qs)

lemma vsprintf_signed (ps : List (Piece mem)) (c : Conversion) (qs : List (Piece mem)) :
    (vsprintf mem (format ps c qs) (arguments ps c qs)).map Prod.fst =
      some (PrintfPieces.output ps ++ (c.output ++ (PrintfPieces.output qs ++ [0]))) := by
  have hps := length_le_format ps
  have hqs := length_le_format qs
  obtain ⟨j, hj, hlen⟩ : ∃ j, qs.length < j ∧
      (format ps c qs).length + 1 = ps.length + (j + 1) := by
    refine ⟨(format ps c qs).length - ps.length, ?_, ?_⟩ <;>
    · simp only [format, List.length_append, List.length_cons]
      omega
  have hconv : convert mem (c.bytes ++ PrintfPieces.format qs)
      (c.args ++ PrintfPieces.arguments qs) (PrintfPieces.output ps) = some _ :=
    convert_signed c _ _
  have hrest := vsprintfLoop_spec qs [] (PrintfPieces.output ps ++ c.output) hj
  rw [List.append_nil] at hrest
  unfold vsprintf
  rw [hlen, format, arguments, vsprintfLoop_append, vsprintfLoop, List.headD_cons,
    if_neg (by decide), if_neg (by decide), List.tail_cons, List.nil_append, hconv,
    Option.bind_some]
  dsimp only
  rw [hrest, Option.map_some, Option.map_some, List.append_assoc, List.append_assoc,
    List.append_assoc]

/-- **A signed conversion** is written as the number with its sign if and only if the number has
64 bits or is not negative. -/
theorem writes_number_iff (ps : List (Piece mem)) (c : Conversion) (qs : List (Piece mem)) :
    (vsprintf mem (format ps c qs) (arguments ps c qs)).map Prod.fst =
        some (PrintfPieces.output ps ++ (c.expected ++ (PrintfPieces.output qs ++ [0]))) ↔
      (c.subject.wide ∨ 0 ≤ c.subject.value) := by
  rw [vsprintf_signed, Option.some.injEq, List.append_cancel_left_eq, List.append_cancel_right_eq]
  exact output_eq_iff c

/-- `%d` with nothing around it. -/
lemma not_writes_number : vsprintf (fun _ => 0) (chars ['%', 'd']) [.int (-5)] =
    some (chars ['4', '2', '9', '4', '9', '6', '7', '2', '9', '1'] ++ [0], 10) ∧
      (Conversion.expected ⟨[], .none, .d (-5)⟩ = chars ['-', '5']) := by
  decide

end Elfboot.PrintfSigned
