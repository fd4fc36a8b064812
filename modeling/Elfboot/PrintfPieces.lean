import Elfboot.Printf

/-!
What `vsprintf` writes for a format made of pieces.

A piece is a character or a conversion with the arguments it takes; it carries what the format
must keep to, such as a width that is an `int` and does not begin with a flag. Each part of a
conversion is read in one step of the parser, which leaves what follows it.
-/

namespace Elfboot.PrintfPieces

open Elfboot.Word Elfboot.Buffer Elfboot.Str Elfboot.Printf

/-! ### Pieces -/

/-- The value of decimal digits that follow `v`. -/
def decimalFrom (v : ℕ) (ds : List UInt8) : ℕ := ds.foldl (fun v c => v * 10 + (c.toNat - 48)) v

/-- The digits of an `int`. -/
structure Digits where
  ds : List UInt8
  digit : ∀ c ∈ ds, isDigit c = true
  small : decimalFrom 0 ds < 2 ^ 31

inductive Flag
  | minus
  | zero
  deriving DecidableEq

def Flag.byte : Flag → UInt8
  | .minus => 45
  | .zero => 48

inductive Width
  | none
  | digits (d : Digits) (c : UInt8) (ds : List UInt8) (hcons : d.ds = c :: ds) (hc : c ≠ 48)
  | star (v : Int32) (hv : -2 ^ 31 < v.toInt)

def Width.bytes : Width → List UInt8
  | .none => []
  | .digits d .. => d.ds
  | .star .. => [42]

def Width.args : Width → List Arg
  | .star v _ => [.int v]
  | _ => []

def Width.value : Width → ℕ
  | .none => 0
  | .digits d .. => decimalFrom 0 d.ds
  | .star v _ => v.toInt.natAbs

def Width.left : Width → Bool
  | .star v _ => v.toInt < 0
  | _ => false

inductive Precision
  | digits (d : Digits)
  | star (v : Int32) (hv : 0 ≤ v.toInt)

def Precision.bytes : Precision → List UInt8
  | .digits d => 46 :: d.ds
  | .star .. => [46, 42]

def Precision.args : Precision → List Arg
  | .digits _ => []
  | .star v _ => [.int v]

def Precision.value : Precision → ℕ
  | .digits d => decimalFrom 0 d.ds
  | .star v _ => v.toInt.toNat

/-- The length modifier. -/
inductive Long
  | none
  | l
  | ll

def Long.bytes : Long → List UInt8
  | .none => []
  | .l => [108]
  | .ll => [108, 108]

inductive Base
  | b
  | o
  | u
  | x

def Base.qual : Base → UInt8
  | .b => 98
  | .o => 111
  | .u => 117
  | .x => 120

def Base.value : Base → ℕ
  | .b => 2
  | .o => 8
  | .u => 10
  | .x => 16

/-- What a conversion is about, and its argument. A string that is written whole has the length
of an object at most. -/
inductive Subject (mem : Bytes)
  | char (long : Long) (v : Int32)
  | str (prec : Option Precision) (long : Long) (p : ℕ) (l : List UInt8) (hl : CStr mem p l)
    (short : prec = none → l.length < 2 ^ 31)
  | num (base : Base) (l : Bool) (v : UInt32)
  | numll (base : Base) (v : UInt64)

variable {mem : Bytes}

def Subject.prec : Subject mem → Option Precision
  | .str prec .. => prec
  | _ => none

def Subject.long : Subject mem → Long
  | .char long _ => long
  | .str _ long .. => long
  | .num _ l _ => if l then .l else .none
  | .numll .. => .ll

def Subject.qual : Subject mem → UInt8
  | .char .. => 99
  | .str .. => 115
  | .num base .. => base.qual
  | .numll base _ => base.qual

def Subject.arg : Subject mem → Arg
  | .char _ v => .int v
  | .str _ _ p .. => .str p
  | .num _ _ v => .ulong v
  | .numll _ v => .ulonglong v

/-- A digit of a numeral. -/
def upperDigit (d : ℕ) : UInt8 := UInt8.ofNat (if d < 10 then 48 + d else 55 + d)

/-- The numeral of a number, its first digit not zero unless it is the only one. -/
def numeral (base n : ℕ) : List UInt8 :=
  if n = 0 then [upperDigit 0] else (Nat.digits base n).reverse.map upperDigit

/-- What is written before it is padded. -/
def Subject.text : Subject mem → List UInt8
  | .char _ v => [UInt8.ofNat (v.toInt % 2 ^ 8).toNat]
  | .str prec _ _ l .. => (prec.map fun p => l.take p.value).getD l
  | .num base _ v => numeral base.value v.toNat
  | .numll base v => numeral base.value v.toNat

def Subject.isNumber : Subject mem → Bool
  | .num .. => true
  | .numll .. => true
  | _ => false

structure Conversion (mem : Bytes) where
  flags : List Flag
  width : Width
  subject : Subject mem

/-- The conversion behind its `%`. -/
def Conversion.bytes (c : Conversion mem) : List UInt8 :=
  c.flags.map Flag.byte ++ (c.width.bytes ++ ((c.subject.prec.map Precision.bytes).getD [] ++
    (c.subject.long.bytes ++ [c.subject.qual])))

def Conversion.args (c : Conversion mem) : List Arg :=
  c.width.args ++ ((c.subject.prec.map Precision.args).getD [] ++ [c.subject.arg])

/-- Text that is as wide as `width` at least. -/
def padded (left : Bool) (fill : UInt8) (width : ℕ) (text : List UInt8) : List UInt8 :=
  if left then text ++ List.replicate (width - text.length) 32
  else List.replicate (width - text.length) fill ++ text

def Conversion.output (c : Conversion mem) : List UInt8 :=
  padded (.minus ∈ c.flags ∨ c.width.left)
    (if c.subject.isNumber ∧ .zero ∈ c.flags then 48 else 32) c.width.value c.subject.text

inductive Piece (mem : Bytes)
  | literal (c : UInt8) (h0 : c ≠ 0) (hc : c ≠ 37)
  | conv (c : Conversion mem)

def Piece.bytes : Piece mem → List UInt8
  | .literal c .. => [c]
  | .conv c => 37 :: c.bytes

def Piece.args : Piece mem → List Arg
  | .literal .. => []
  | .conv c => c.args

def Piece.output : Piece mem → List UInt8
  | .literal c .. => [c]
  | .conv c => c.output

def format (ps : List (Piece mem)) : List UInt8 := ps.flatMap Piece.bytes

def arguments (ps : List (Piece mem)) : List Arg := ps.flatMap Piece.args

def output (ps : List (Piece mem)) : List UInt8 := ps.flatMap Piece.output

/-! ### The handlers -/

variable {f : FormatStruct} {l r : List UInt8} {p n k : ℕ}

lemma putChar_spec (f : FormatStruct) (v : Int32) :
    (vsprintfPutChar f v).buf =
      f.buf ++ padded f.padNeg 32 f.pad.toNat [UInt8.ofNat (v.toInt % 2 ^ 8).toNat] := by
  unfold vsprintfPutChar padded FormatStruct.put
  dsimp only
  rw [List.length_singleton]
  cases hneg : f.padNeg with
  | false =>
    rw [if_neg Bool.false_ne_true, if_neg Bool.false_ne_true, padWhile_eq, padWhile_eq]
    dsimp only
    have h0 : (min f.pad 1 - 1 - 1).toNat = 0 := by omega
    have hlen : (f.pad - 1).toNat = f.pad.toNat - 1 := by omega
    rw [h0, hlen, List.replicate_zero, List.append_nil, List.append_assoc]
  | true =>
    rw [if_pos rfl, if_pos rfl, padWhile_eq]
    dsimp only
    have hlen : (f.pad - 1).toNat = f.pad.toNat - 1 := by omega
    rw [hlen, List.append_assoc]

lemma strlen_min (h : CStr mem p l) : strlen mem n p = min n l.length := by
  induction l generalizing p n with
  | nil =>
    rw [List.length_nil, Nat.min_zero]
    cases n with
    | zero => rfl
    | succ n => exact if_pos h
  | cons c l ih =>
    cases n with
    | zero => rw [Nat.zero_min]; rfl
    | succ n =>
      rw [strlen, if_neg (h.1 ▸ h.2.1), ih h.2.2, List.length_cons, Nat.succ_min_succ]

lemma range_map_cstr (h : CStr mem p l) (hk : k ≤ l.length) :
    (List.range' p k).map mem = l.take k := by
  refine List.ext_getElem (by simpa using hk) fun i h1 h2 => ?_
  have hi : i < k := by simpa using h1
  rw [List.getElem_map, List.getElem_range', List.getElem_take, Nat.one_mul]
  exact h.get (hi.trans_le hk)

lemma int32_of_lt {n : ℕ} (h : n < 2 ^ 31) : int32 n = n :=
  Int.bmod_eq_of_le (by omega) (by omega)

lemma take_min_length (l : List UInt8) (n : ℕ) : l.take (min n l.length) = l.take n := by
  rcases Nat.le_total n l.length with h | h
  · rw [Nat.min_eq_left h]
  · rw [Nat.min_eq_right h, List.take_length, List.take_of_length_le h]

/-- A string is cut off at a length, and padded. -/
lemma putString_spec (h : CStr mem p l) (hlen : (f.pre % 2 ^ 32).toNat = n)
    (hn : min n l.length < 2 ^ 31) :
    ∃ pad, vsprintfPutString mem f p =
      { f with buf := f.buf ++ padded f.padNeg 32 f.pad.toNat (l.take n), pad := pad } := by
  have hcopy : (List.range' p (min n l.length)).map mem = l.take n := by
    rw [range_map_cstr h (Nat.min_le_right _ _), take_min_length]
  unfold vsprintfPutString padded strnlen
  dsimp only
  rw [hlen, strlen_min h, int32_of_lt hn, List.length_take, Int.toNat_natCast]
  generalize min n l.length = len at hcopy ⊢
  have hpad : (f.pad - len).toNat = f.pad.toNat - len := by omega
  cases hneg : f.padNeg with
  | false =>
    have h0 : (min f.pad len - 1 - len).toNat = 0 := by omega
    rw [if_neg Bool.false_ne_true, if_neg Bool.false_ne_true, padWhile_eq, putBytes_eq,
      padWhile_eq, hcopy]
    dsimp only
    rw [h0, hpad, List.replicate_zero, List.append_nil, List.append_assoc, hneg]
    exact ⟨_, rfl⟩
  | true =>
    rw [if_pos rfl, if_pos rfl, putBytes_eq, padWhile_eq, hcopy]
    dsimp only
    rw [hpad, List.append_assoc, hneg]
    exact ⟨_, rfl⟩

/-! ### Numerals -/

lemma digits_getD : ∀ d < 16, Printf.digits.getD d 0 = upperDigit d := by decide

/-- The digits of a number, the last one first. -/
lemma digitsLoop_eq {base : ℕ} (hbase : 2 ≤ base) (hbase' : base ≤ 16) (hn : n < 2 ^ k) :
    digitsLoop base k n = (Nat.digits base n).map upperDigit := by
  induction k generalizing n with
  | zero =>
    obtain rfl : n = 0 := by simpa using hn
    rw [digitsLoop, Nat.digits_zero, List.map_nil]
  | succ k ih =>
    rw [digitsLoop]
    by_cases h0 : n = 0
    · rw [if_neg (not_not.mpr h0), h0, Nat.digits_zero, List.map_nil]
    · have hdiv : n / base < 2 ^ k := by
        rw [pow_succ] at hn
        exact (Nat.div_le_div_left hbase (by decide)).trans_lt (by omega)
      have hmod : n % base < 16 := (Nat.mod_lt n (by omega)).trans_le hbase'
      have hqr : div n base = (n / base, n % base) := archDiv_eq (by omega)
      rw [if_pos h0, Nat.digits_def' hbase (Nat.pos_of_ne_zero h0), List.map_cons, hqr]
      dsimp only
      rw [digits_getD _ hmod, ih hdiv]

/-- Digits without a sign are padded. -/
lemma writeNumber_spec (f : FormatStruct) (hpre : f.pre = -1) (buf : List UInt8) :
    ∃ f', writeNumber f false buf = some f' ∧ f'.buf =
      f.buf ++ padded f.padNeg (if f.padNul then 48 else 32) f.pad.toNat buf.reverse := by
  have hlt : f.pre < buf.length := by omega
  have hpad : (f.pad - buf.length - 0).toNat = f.pad.toNat - buf.length := by omega
  unfold writeNumber padded
  rw [List.length_reverse, if_pos hlt, if_neg (lt_irrefl _), if_neg Bool.false_ne_true]
  refine ⟨_, rfl, ?_⟩
  cases hneg : f.padNeg with
  | true =>
    rw [Bool.true_or, if_pos rfl, if_pos rfl, if_pos rfl, padWhile_eq]
    dsimp only
    rw [hpad, List.append_assoc]
  | false =>
    cases hnul : f.padNul with
    | true =>
      rw [Bool.or_true, if_pos rfl, if_neg Bool.false_ne_true, if_neg Bool.false_ne_true,
        if_pos rfl, padWhile_eq, padWhile_eq]
      dsimp only
      have h0 : (min (f.pad - buf.length) 0 - 1 - 0).toNat = 0 := by omega
      rw [h0, hpad, List.replicate_zero, List.append_nil, List.append_assoc]
    | false =>
      have h0 : (min (f.pad - buf.length) 0 - 1 - 0).toNat = 0 := by omega
      have h1 : (min (min (f.pad - buf.length) 0 - 1) 0 - 1 - 0).toNat = 0 := by omega
      rw [Bool.or_false, if_neg Bool.false_ne_true, if_neg Bool.false_ne_true,
        padWhile_eq, padWhile_eq, padWhile_eq]
      dsimp only
      rw [if_neg Bool.false_ne_true]
      dsimp only
      rw [h0, h1, hpad, List.replicate_zero, List.append_nil, List.append_nil, List.append_assoc,
        if_neg Bool.false_ne_true]

/-- A number without a sign is written as its numeral, and padded. -/
lemma putNumber_spec {base : ℕ} (hbase : 2 ≤ base) (hbase' : base ≤ 16) (hn : n < 2 ^ 64)
    (hsgn : f.sgnPos = false) (hpre : f.pre = -1) :
    ∃ f', vsprintfPutNumber f n base = some f' ∧ f'.buf =
      f.buf ++ padded f.padNeg (if f.padNul then 48 else 32) f.pad.toNat (numeral base n) := by
  have hbuf : (if n = 0 then [48] else digitsLoop base 64 n).reverse = numeral base n := by
    unfold numeral
    by_cases h0 : n = 0
    · rw [if_pos h0, if_pos h0]
      rfl
    · rw [if_neg h0, if_neg h0, digitsLoop_eq hbase hbase' hn, List.map_reverse]
  unfold vsprintfPutNumber
  rw [if_neg (by omega), hsgn, Bool.false_and, ← hbuf]
  exact writeNumber_spec f hpre _

/-! ### The parser -/

/-- A character that no flag and no width begins with. -/
def Bare (c : UInt8) : Prop := isDigit c = false ∧ c ≠ 42 ∧ c ≠ 45

/-- A character that no part before the length modifier begins with. -/
def Plain (c : UInt8) : Prop := Bare c ∧ c ≠ 46

instance (c : UInt8) : Decidable (Bare c) := inferInstanceAs (Decidable (_ ∧ _))

instance (c : UInt8) : Decidable (Plain c) := inferInstanceAs (Decidable (_ ∧ _))

lemma decimalFrom_le (v : ℕ) (ds : List UInt8) : v ≤ decimalFrom v ds := by
  induction ds generalizing v with
  | nil => exact le_rfl
  | cons c ds ih => exact (by omega : v ≤ v * 10 + (c.toNat - 48)).trans (ih _)

lemma isDigit_bounds {c : UInt8} (h : isDigit c = true) : 48 ≤ c.toNat ∧ c.toNat ≤ 57 := by
  unfold isDigit at h
  exact of_decide_eq_true h

lemma vnsprintfNumber_spec {v : ℕ} {ds : List UInt8} (hds : ∀ c ∈ ds, isDigit c = true)
    (hr : isDigit (r.headD 0) = false) (hv : decimalFrom v ds < 2 ^ 31) :
    vnsprintfNumber (ds ++ r) v = ((decimalFrom v ds : ℤ), r) := by
  induction ds generalizing v with
  | nil =>
    rw [List.nil_append]
    cases r with
    | nil => rfl
    | cons c r =>
      rw [List.headD_cons] at hr
      rw [vnsprintfNumber, if_neg (by rw [hr]; exact Bool.false_ne_true)]
      rfl
  | cons c ds ih =>
    obtain ⟨hc, hds⟩ := List.forall_mem_cons.mp hds
    obtain ⟨h48, -⟩ := isDigit_bounds hc
    have hle := decimalFrom_le (v * 10 + (c.toNat - 48)) ds
    have hnum : int32 ((v : ℤ) * 10 + c.toNat - 48) = (v * 10 + (c.toNat - 48) : ℕ) := by
      have heq : (v : ℤ) * 10 + c.toNat - 48 = (v * 10 + (c.toNat - 48) : ℕ) := by omega
      rw [heq]
      exact int32_of_lt (hle.trans_lt hv)
    rw [List.cons_append, vnsprintfNumber, if_pos hc, hnum, ih hds hv]
    rfl

lemma Digits.read (d : Digits) (hr : isDigit (r.headD 0) = false) :
    vnsprintfNumber (d.ds ++ r) 0 = ((decimalFrom 0 d.ds : ℤ), r) :=
  vnsprintfNumber_spec d.digit hr d.small

lemma parseFlags_spec (fs : List Flag) (hr : r.headD 0 ≠ 45) (hr' : r.headD 0 ≠ 48)
    (f : FormatStruct) :
    parseFlags (fs.map Flag.byte ++ r) f =
      (r, { f with
        padNeg := f.padNeg || decide (.minus ∈ fs)
        padNul := f.padNul || decide (.zero ∈ fs) }) := by
  induction fs generalizing f with
  | nil =>
    simp only [List.map_nil, List.nil_append, List.not_mem_nil, decide_false, Bool.or_false]
    cases r with
    | nil => rfl
    | cons c r =>
      rw [List.headD_cons] at hr hr'
      rw [parseFlags, if_neg hr, if_neg hr']
  | cons a fs ih =>
    cases a with
    | minus =>
      rw [List.map_cons, List.cons_append, parseFlags, if_pos (by decide), ih]
      simp
    | zero =>
      rw [List.map_cons, List.cons_append, parseFlags, if_neg (by decide), if_pos (by decide), ih]
      simp

lemma Base.qual_plain (base : Base) : Plain base.qual ∧ base.qual ≠ 108 := by
  cases base <;> decide

lemma Subject.qual_plain (s : Subject mem) : Plain s.qual ∧ s.qual ≠ 108 := by
  cases s with
  | char => exact (by decide : Plain 99 ∧ (99 : UInt8) ≠ 108)
  | str => exact (by decide : Plain 115 ∧ (115 : UInt8) ≠ 108)
  | num base => exact base.qual_plain
  | numll base => exact base.qual_plain

lemma long_plain (long : Long) {c : UInt8} (hc : Plain c) :
    Plain ((long.bytes ++ c :: r).headD 0) := by
  cases long with
  | none => exact hc
  | l => exact (by decide : Plain 108)
  | ll => exact (by decide : Plain 108)

/-- Whether the argument has 64 bits. -/
def Long.isLongLong : Long → Bool
  | .ll => true
  | _ => false

lemma parseLong_spec (long : Long) (h : r.headD 0 ≠ 108) :
    parseLong (long.bytes ++ r) = (r, long.isLongLong) := by
  unfold parseLong
  cases long with
  | none => exact if_neg h
  | l => exact (if_pos rfl).trans (if_neg h)
  | ll => rfl

/-- What `pre` is before the argument is taken. -/
def preOf (prec : Option Precision) : ℤ := (prec.map fun p => (p.value : ℤ)).getD (-1)

lemma setPre_nonneg (f : FormatStruct) (n : ℕ) : f.setPre n = { f with pre := n } := by
  unfold FormatStruct.setPre
  rw [if_neg (by omega)]

lemma star_not_digit : ¬isDigit 42 = true := by decide

lemma parsePrecision_spec (prec : Option Precision) (hr : Plain (r.headD 0)) (args : List Arg)
    (f : FormatStruct) :
    parsePrecision ((prec.map Precision.bytes).getD [] ++ r)
        ((prec.map Precision.args).getD [] ++ args) f =
      some (r, args, { f with pre := preOf prec }) := by
  obtain ⟨⟨hdigit, hstar, -⟩, hdot⟩ := hr
  unfold parsePrecision
  cases prec with
  | none => exact if_neg hdot
  | some p =>
    cases p with
    | digits d =>
      obtain ⟨ds, hds, hsmall⟩ := d
      refine (if_pos rfl).trans ?_
      dsimp only [Option.map_some, Option.getD_some, Precision.bytes, Precision.args,
        List.cons_append, List.tail_cons]
      cases ds with
      | nil =>
        have hnot : ¬isDigit (r.headD 0) = true := by rw [hdigit]; exact Bool.false_ne_true
        exact (if_neg hnot).trans ((if_neg hstar).trans rfl)
      | cons c ds =>
        have hc : isDigit c = true := hds c List.mem_cons_self
        have hread : vnsprintfNumber (c :: ds ++ r) 0 = _ := vnsprintfNumber_spec hds hdigit hsmall
        rw [hread]
        refine (if_pos hc).trans ?_
        exact congrArg (fun f => some (r, args, f)) (setPre_nonneg f _)
    | star v hv =>
      have hval : v.toInt = (v.toInt.toNat : ℤ) := by omega
      refine (if_pos rfl).trans ((if_neg star_not_digit).trans ((if_pos rfl).trans ?_))
      refine congrArg (fun f => some (r, args, f)) ?_
      rw [hval]
      exact setPre_nonneg f _

/-- What `pad` is before the argument is taken. -/
def padOf : Width → ℤ
  | .none => -1
  | w => w.value

lemma parseWidth_spec (w : Width) (hr : Bare (r.headD 0)) (args : List Arg) (f : FormatStruct) :
    parseWidth (w.bytes ++ r) (w.args ++ args) f =
      some (r, args, { f with pad := padOf w, padNeg := f.padNeg || w.left }) := by
  obtain ⟨hdigit, hstar, -⟩ := hr
  unfold parseWidth
  cases w with
  | none =>
    have hnot : ¬isDigit (r.headD 0) = true := by rw [hdigit]; exact Bool.false_ne_true
    refine (if_neg hnot).trans ((if_neg hstar).trans ?_)
    rw [show Width.none.left = false from rfl, Bool.or_false]
    rfl
  | digits d c ds hcons hc =>
    have hdig : isDigit c = true := d.digit c (by rw [hcons]; exact List.mem_cons_self)
    have hread := d.read hdigit
    have hleft : (Width.digits d c ds hcons hc).left = false := rfl
    rw [Width.bytes, hread, hleft, Bool.or_false]
    refine (if_pos ?_).trans rfl
    rw [hcons]
    exact hdig
  | star v hv =>
    refine (if_neg star_not_digit).trans ((if_pos rfl).trans ?_)
    refine congrArg (fun f => some (r, args, f)) ?_
    by_cases h0 : v.toInt < 0
    · have hval : int32 (-v.toInt) = padOf (.star v hv) := by
        have hnat : -v.toInt = (v.toInt.natAbs : ℤ) := by omega
        rw [hnat]
        exact int32_of_lt (by omega)
      have hleft : (Width.star v hv).left = true := decide_eq_true h0
      refine (if_pos h0).trans ?_
      rw [hval, hleft, Bool.or_true]
    · have hval : v.toInt = padOf (.star v hv) := by
        show v.toInt = (v.toInt.natAbs : ℤ)
        omega
      have hleft : (Width.star v hv).left = false := decide_eq_false h0
      refine (if_neg h0).trans ?_
      rw [hval, hleft, Bool.or_false]

/-! ### The conversions -/

lemma Precision.value_lt (p : Precision) : p.value < 2 ^ 31 := by
  cases p with
  | digits d => exact d.small
  | star v hv =>
    have hlt := v.toInt_lt
    show v.toInt.toNat < 2 ^ 31
    omega

/-- How much of a string is written. -/
lemma take_prec (prec : Option Precision) (short : prec = none → l.length < 2 ^ 31) :
    min (preOf prec % 2 ^ 32).toNat l.length < 2 ^ 31 ∧
      l.take (preOf prec % 2 ^ 32).toNat = (prec.map fun p => l.take p.value).getD l := by
  cases prec with
  | none =>
    have hpre : (preOf none % 2 ^ 32).toNat = 2 ^ 32 - 1 := rfl
    have hlen := short rfl
    rw [hpre]
    exact ⟨by omega, List.take_of_length_le (by omega)⟩
  | some p =>
    have hlt := p.value_lt
    have hpre : (preOf (some p) % 2 ^ 32).toNat = p.value := by
      show ((p.value : ℤ) % 2 ^ 32).toNat = p.value
      omega
    rw [hpre]
    exact ⟨by omega, rfl⟩

lemma putArgument_number (base : Base) {isLongLong : Bool} {arg : Arg} {args : List Arg}
    (hva : vaNum isLongLong (arg :: args) = some (n, args)) (hn : n < 2 ^ 64)
    (hsgn : f.sgnPos = false) (hpre : f.pre = -1) :
    putArgument mem (base.qual :: r) isLongLong (arg :: args) f =
      some (r, args, f.buf ++
        padded f.padNeg (if f.padNul then 48 else 32) f.pad.toNat (numeral base.value n)) := by
  have hbase : 2 ≤ base.value ∧ base.value ≤ 16 ∧ vsprintfBase base.qual = base.value := by
    cases base <;> decide
  have hqual : base.qual ≠ 99 ∧ base.qual ≠ 115 ∧ base.qual ≠ 100 ∧
      (base.qual = 98 ∨ base.qual = 111 ∨ base.qual = 100 ∨ base.qual = 117 ∨ base.qual = 120) := by
    cases base <;> decide
  obtain ⟨f', heq, hbuf⟩ := putNumber_spec hbase.1 hbase.2.1 hn hsgn hpre
  unfold putArgument
  rw [List.headD_cons]
  dsimp only
  rw [if_neg hqual.1, if_neg hqual.2.1, if_pos hqual.2.2.2, if_neg hqual.2.2.1, hva,
    Option.bind_some]
  dsimp only
  rw [hbase.2.2, heq, Option.map_some, hbuf, List.tail_cons]

lemma putArgument_spec (s : Subject mem) (args : List Arg) (hsgn : f.sgnPos = false)
    (hpre : f.pre = preOf s.prec) :
    putArgument mem (s.qual :: r) s.long.isLongLong (s.arg :: args) f =
      some (r, args, f.buf ++
        padded f.padNeg (if s.isNumber && f.padNul then 48 else 32) f.pad.toNat s.text) := by
  cases s with
  | char long v =>
    unfold putArgument
    refine (if_pos rfl).trans ?_
    exact congrArg (fun buf => some (r, args, buf)) (putChar_spec f v)
  | str prec long p l hl short =>
    obtain ⟨hmin, htake⟩ := take_prec prec short
    rw [← show f.pre = preOf prec from hpre] at hmin htake
    obtain ⟨pad, heq⟩ := putString_spec hl rfl hmin
    have hbuf := congrArg FormatStruct.buf heq
    rw [htake] at hbuf
    unfold putArgument
    refine (if_neg (by decide : (115 : UInt8) ≠ 99)).trans ((if_pos rfl).trans ?_)
    exact congrArg (fun buf => some (r, args, buf)) hbuf
  | num base long v =>
    have hlong : (Subject.num base long v : Subject mem).long.isLongLong = false := by
      cases long <;> rfl
    have hlt : v.toNat < 2 ^ 64 := v.toNat_lt.trans (by decide)
    rw [hlong]
    exact putArgument_number base rfl hlt hsgn hpre
  | numll base v =>
    exact putArgument_number base rfl v.toNat_lt hsgn hpre

lemma padOf_toNat (w : Width) : (padOf w).toNat = w.value := by
  cases w <;> rfl

/-- What a width is followed by. -/
lemma prec_bare (prec : Option Precision) (hr : Plain (r.headD 0)) :
    Bare (((prec.map Precision.bytes).getD [] ++ r).headD 0) := by
  cases prec with
  | none => exact hr.1
  | some p => cases p <;> exact (by decide : Bare 46)

lemma width_head (w : Width) (hr : Bare (r.headD 0)) :
    (w.bytes ++ r).headD 0 ≠ 45 ∧ (w.bytes ++ r).headD 0 ≠ 48 := by
  have hdigit : ∀ c, isDigit c = true → c ≠ 45 := by
    rintro c hc rfl
    exact absurd hc (by decide)
  have hzero : ∀ c, isDigit c = false → c ≠ 48 := by
    rintro c hc rfl
    exact absurd hc (by decide)
  cases w with
  | none => exact ⟨hr.2.2, hzero _ hr.1⟩
  | digits d c ds hcons hc =>
    have hdig : isDigit c = true := d.digit c (by rw [hcons]; exact List.mem_cons_self)
    rw [Width.bytes, hcons, List.cons_append, List.headD_cons]
    exact ⟨hdigit c hdig, hc⟩
  | star => exact (by decide : (42 : UInt8) ≠ 45 ∧ (42 : UInt8) ≠ 48)

/-- **A conversion** writes what it stands for, and leaves what follows it. -/
lemma convert_spec (c : Conversion mem) (args : List Arg) (buf : List UInt8) :
    convert mem (c.bytes ++ r) (c.args ++ args) buf = some (r, args, buf ++ c.output) := by
  obtain ⟨fs, w, s⟩ := c
  obtain ⟨hplain, hl⟩ := s.qual_plain
  have hlong : Plain ((s.long.bytes ++ s.qual :: r).headD 0) := long_plain s.long hplain
  have hprec := prec_bare s.prec hlong
  obtain ⟨hminus, hzero⟩ := width_head w hprec
  have hbytes : Conversion.bytes ⟨fs, w, s⟩ ++ r =
      fs.map Flag.byte ++ (w.bytes ++ ((s.prec.map Precision.bytes).getD [] ++
        (s.long.bytes ++ s.qual :: r))) := by
    simp [Conversion.bytes]
  have hargs : Conversion.args ⟨fs, w, s⟩ ++ args =
      w.args ++ ((s.prec.map Precision.args).getD [] ++ s.arg :: args) := by
    simp [Conversion.args]
  rw [hbytes, hargs, convert, parseFlags_spec fs hminus hzero]
  dsimp only
  rw [parseWidth_spec w hprec, Option.bind_some]
  dsimp only
  rw [parsePrecision_spec s.prec hlong, Option.bind_some]
  dsimp only
  rw [parseLong_spec (r := s.qual :: r) s.long hl]
  dsimp only
  rw [putArgument_spec s args rfl rfl]
  dsimp only
  rw [padOf_toNat, Bool.false_or, Bool.false_or]
  simp only [Conversion.output, Bool.decide_or, Bool.decide_eq_true, Bool.and_eq_true,
    decide_eq_true_eq]

/-! ### The format -/

/-- The pieces at the beginning of a format take a turn each. -/
lemma vsprintfLoop_append (ps : List (Piece mem)) (args : List Arg) (buf : List UInt8) :
    vsprintfLoop mem (ps.length + k) (format ps ++ r) (arguments ps ++ args) buf =
      vsprintfLoop mem k r args (buf ++ output ps) := by
  induction ps generalizing buf with
  | nil =>
    have hout : output ([] : List (Piece mem)) = [] := rfl
    rw [hout, List.append_nil, List.length_nil, Nat.zero_add]
    rfl
  | cons p ps ih =>
    have hout : output (p :: ps) = p.output ++ output ps := List.flatMap_cons
    have hargs : arguments (p :: ps) ++ args = p.args ++ (arguments ps ++ args) := by
      rw [arguments, List.flatMap_cons, List.append_assoc, arguments]
    have hfmt : format (p :: ps) ++ r = p.bytes ++ (format ps ++ r) := by
      rw [format, List.flatMap_cons, List.append_assoc, format]
    rw [hfmt, hargs, hout, ← List.append_assoc buf, ← ih, List.length_cons, Nat.add_right_comm]
    cases p with
    | literal c h0 hc => exact (if_neg h0).trans (if_pos hc)
    | conv c =>
      refine (if_neg (by decide : (37 : UInt8) ≠ 0)).trans ((if_neg (not_not.mpr rfl)).trans ?_)
      exact congrArg (Option.bind · _) (convert_spec c _ buf)

lemma vsprintfLoop_spec (ps : List (Piece mem)) (args : List Arg) (buf : List UInt8)
    (hk : ps.length < k) :
    vsprintfLoop mem k (format ps) (arguments ps ++ args) buf = some (buf ++ output ps) := by
  obtain ⟨j, rfl⟩ := Nat.exists_eq_add_of_lt hk
  rw [← List.append_nil (format ps), Nat.add_assoc, vsprintfLoop_append]
  rfl

lemma length_le_format (ps : List (Piece mem)) : ps.length ≤ (format ps).length := by
  induction ps with
  | nil => exact Nat.zero_le _
  | cons p ps ih =>
    have hfmt : format (p :: ps) = p.bytes ++ format ps := List.flatMap_cons
    have hpos : 0 < p.bytes.length := by cases p <;> exact Nat.succ_pos _
    rw [hfmt, List.length_append, List.length_cons]
    omega

lemma vsprintf_spec (mem : Bytes) (ps : List (Piece mem)) (args : List Arg) :
    vsprintf mem (format ps) (arguments ps ++ args) =
      some (output ps ++ [0], int32 (output ps).length) := by
  have hk : ps.length < (format ps).length + 1 := Nat.lt_succ_of_le (length_le_format ps)
  rw [vsprintf, vsprintfLoop_spec ps args [] hk]
  rfl

/-- **The output** is what the pieces of the format stand for, with a terminator, and what is
returned is its length, as an `int`. -/
theorem vsprintf_pieces (mem : Bytes) (ps : List (Piece mem)) (args : List Arg) :
    vsprintf mem (format ps) (arguments ps ++ args) =
        some (output ps ++ [0], int32 (output ps).length) ∧
      ((output ps).length < 2 ^ 31 → int32 (output ps).length = (output ps).length) :=
  ⟨vsprintf_spec mem ps args, int32_of_lt⟩

/-- Both flags: the padding is on the right, and of spaces. -/
example : vsprintf (fun _ => 0) (chars ['%', '0', '-', '4', 'x', '!']) [.ulong 171] =
    some (chars ['A', 'B', ' ', ' ', '!'] ++ [0], 5) := by decide

end Elfboot.PrintfPieces
