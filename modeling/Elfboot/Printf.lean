import Elfboot.Str

/-!
Formatted output: `vsprintf` and its handlers, from `printf.c`.

What has been written is a list of bytes, and the format is the rest of it that is still to be
read. The arguments have the types they were passed with; taking one as another type has no
result. A loop that does not end has none either.
-/

namespace Elfboot.Printf

open Elfboot.Word Elfboot.Buffer Elfboot.Str

/-- Truncation to `int`. -/
def int32 (n : ℤ) : ℤ := n.bmod (2 ^ 32)

/-- `struct format_struct`, with a field for each of its flags. The width and the precision are
integers: where an `int` overflows the source has no meaning. -/
structure FormatStruct where
  buf : List UInt8
  padNul : Bool
  padNeg : Bool
  sgnPos : Bool
  pad : ℤ
  pre : ℤ

/-- An argument. A string is where it is in memory. -/
inductive Arg
  | int (v : Int32)
  | str (p : ℕ)
  | ulong (v : UInt32)
  | ulonglong (v : UInt64)

def vaInt : List Arg → Option (Int32 × List Arg)
  | .int v :: args => some (v, args)
  | _ => none

def vaStr : List Arg → Option (ℕ × List Arg)
  | .str p :: args => some (p, args)
  | _ => none

/-- An `unsigned long`, or an `unsigned long long`. The bits of an `int` are those of an
`unsigned long`. -/
def vaNum (isLongLong : Bool) : List Arg → Option (ℕ × List Arg)
  | .int v :: args => if isLongLong then none else some ((v.toInt % 2 ^ 32).toNat, args)
  | .ulong v :: args => if isLongLong then none else some (v.toNat, args)
  | .ulonglong v :: args => if isLongLong then some (v.toNat, args) else none
  | _ => none

def FormatStruct.put (f : FormatStruct) (c : UInt8) : FormatStruct :=
  { f with buf := f.buf ++ [c] }

/-- `while (fmts->pad-- > bound)` writes a character, with the turns it takes. -/
def padTurns (c : UInt8) (bound : ℤ) : ℕ → FormatStruct → FormatStruct
  | 0, f => { f with pad := f.pad - 1 }
  | k + 1, f =>
    if bound < f.pad then padTurns c bound k ({ f with pad := f.pad - 1 }.put c)
    else { f with pad := f.pad - 1 }

def padWhile (c : UInt8) (bound : ℤ) (f : FormatStruct) : FormatStruct :=
  padTurns c bound (f.pad - bound).toNat f

/-! ### The handlers -/

/-- `vsprintf_put_char`. Its loops `--fmts->pad > 0` are `fmts->pad-- > 1`. -/
def vsprintfPutChar (f : FormatStruct) (c : Int32) : FormatStruct :=
  let f := if f.padNeg then f else padWhile 32 1 f
  let f := f.put (UInt8.ofNat (c.toInt % 2 ^ 8).toNat)
  padWhile 32 1 f

def strnlen (mem : Bytes) (str maxlen : ℕ) : ℕ := strlen mem maxlen str

/-- The loop of `vsprintf_put_string` that copies. -/
def putBytes (mem : Bytes) : ℕ → ℕ → FormatStruct → FormatStruct
  | 0, _, f => f
  | k + 1, str, f => putBytes mem k (str + 1) (f.put (mem str))

/-- `vsprintf_put_string`. The precision is taken as a `size_t`. -/
def vsprintfPutString (mem : Bytes) (f : FormatStruct) (str : ℕ) : FormatStruct :=
  let len := int32 (strnlen mem str (f.pre % 2 ^ 32).toNat)
  let f := if f.padNeg then f else padWhile 32 len f
  let f := putBytes mem len.toNat str f
  padWhile 32 len f

def vsprintfBase (qual : UInt8) : ℕ :=
  if qual = 98 then 2
  else if qual = 111 then 8
  else if qual = 100 ∨ qual = 117 then 10
  else if qual = 120 then 16
  else 0

def digits : List UInt8 :=
  chars ['0', '1', '2', '3', '4', '5', '6', '7', '8', '9', 'A', 'B', 'C', 'D', 'E', 'F']

/-- The loop of `vsprintf_put_number` that fills `buf`, the last digit first. A number of 64 bits
has no more than 64 of them. -/
def digitsLoop (base : ℕ) : ℕ → ℕ → List UInt8
  | 0, _ => []
  | k + 1, n =>
    if n ≠ 0 then
      let qr := div n base
      digits.getD qr.2 0 :: digitsLoop base k qr.1
    else []

/-- `vsprintf_put_number` from where `buf` has the digits, the last one first. -/
def writeNumber (f : FormatStruct) (sign : Bool) (buf : List UInt8) : Option FormatStruct :=
  let c : UInt8 := if f.padNul then 48 else 32
  let pre := if f.pre < buf.length then (buf.length : ℤ) else f.pre
  let f := { f with pre := pre, pad := f.pad - pre }
  let f := if f.padNeg || f.padNul then f else padWhile 32 0 f
  let f := if sign then f.put 45 else f
  let f := if f.padNeg then f else padWhile c 0 f
  -- `i` is not counted up
  if buf.length < pre then none
  else some (padWhile 32 0 { f with buf := f.buf ++ buf.reverse })

/-- `vsprintf_put_number`, for the bits of `n`. -/
def vsprintfPutNumber (f : FormatStruct) (n base : ℕ) : Option FormatStruct :=
  if base = 0 then some f
  else
    let sign := f.sgnPos && 2 ^ 63 ≤ n
    let n := if sign then sub64 0 n else n
    let f := if sign then { f with pad := f.pad - 1 } else f
    writeNumber f sign (if n = 0 then [48] else digitsLoop base 64 n)

def vnsprintfNumber : List UInt8 → ℤ → ℤ × List UInt8
  | [], num => (num, [])
  | c :: str, num =>
    if isDigit c then vnsprintfNumber str (int32 (num * 10 + c.toNat - 48)) else (num, c :: str)

/-! ### The format -/

/-- The flags, from behind the `%` on. -/
def parseFlags : List UInt8 → FormatStruct → List UInt8 × FormatStruct
  | [], f => ([], f)
  | c :: fmt, f =>
    if c = 45 then parseFlags fmt { f with padNeg := true }
    else if c = 48 then parseFlags fmt { f with padNul := true }
    else (c :: fmt, f)

def parseWidth (fmt : List UInt8) (args : List Arg) (f : FormatStruct) :
    Option (List UInt8 × List Arg × FormatStruct) :=
  if isDigit (fmt.headD 0) then
    let (num, fmt) := vnsprintfNumber fmt 0
    some (fmt, args, { f with pad := num })
  else if fmt.headD 0 = 42 then
    (vaInt args).map fun (v, args) =>
      (fmt.tail, args,
        if v.toInt < 0 then { f with pad := int32 (-v.toInt), padNeg := true }
        else { f with pad := v.toInt })
  else some (fmt, args, { f with pad := -1 })

def FormatStruct.setPre (f : FormatStruct) (pre : ℤ) : FormatStruct :=
  { f with pre := if pre < 0 then 0 else pre }

def parsePrecision (fmt : List UInt8) (args : List Arg) (f : FormatStruct) :
    Option (List UInt8 × List Arg × FormatStruct) :=
  if fmt.headD 0 = 46 then
    let fmt := fmt.tail
    if isDigit (fmt.headD 0) then
      let (num, fmt) := vnsprintfNumber fmt 0
      some (fmt, args, f.setPre num)
    else if fmt.headD 0 = 42 then
      (vaInt args).map fun (v, args) => (fmt.tail, args, f.setPre v.toInt)
    else some (fmt, args, f.setPre (-1))
  else some (fmt, args, { f with pre := -1 })

def parseLong (fmt : List UInt8) : List UInt8 × Bool :=
  if fmt.headD 0 = 108 then
    if fmt.tail.headD 0 = 108 then (fmt.tail.tail, true) else (fmt.tail, false)
  else (fmt, false)

/-- The argument that the qualifier is about, and what is left of the format behind it. -/
def putArgument (mem : Bytes) (fmt : List UInt8) (isLongLong : Bool) (args : List Arg)
    (f : FormatStruct) : Option (List UInt8 × List Arg × List UInt8) :=
  let qual := fmt.headD 0
  if qual = 99 then
    (vaInt args).map fun (v, args) => (fmt.tail, args, (vsprintfPutChar f v).buf)
  else if qual = 115 then
    (vaStr args).map fun (p, args) => (fmt.tail, args, (vsprintfPutString mem f p).buf)
  else if qual = 98 ∨ qual = 111 ∨ qual = 100 ∨ qual = 117 ∨ qual = 120 then
    let f := if qual = 100 then { f with sgnPos := true } else f
    (vaNum isLongLong args).bind fun (num, args) =>
      (vsprintfPutNumber f num (vsprintfBase qual)).map fun f => (fmt.tail, args, f.buf)
  else if qual ≠ 0 then some (fmt.tail, args, ((f.put 37).put qual).buf)
  else some (fmt, args, (f.put 37).buf)

/-- What `vsprintf` does with a conversion, from behind the `%` on. -/
def convert (mem : Bytes) (fmt : List UInt8) (args : List Arg) (buf : List UInt8) :
    Option (List UInt8 × List Arg × List UInt8) :=
  let (fmt, f) := parseFlags fmt ⟨buf, false, false, false, 0, 0⟩
  (parseWidth fmt args f).bind fun (fmt, args, f) =>
    (parsePrecision fmt args f).bind fun (fmt, args, f) =>
      let (fmt, isLongLong) := parseLong fmt
      putArgument mem fmt isLongLong args f

/-- The loop of `vsprintf`. -/
def vsprintfLoop (mem : Bytes) : ℕ → List UInt8 → List Arg → List UInt8 → Option (List UInt8)
  | 0, _, _, _ => none
  | k + 1, fmt, args, buf =>
    if fmt.headD 0 = 0 then some buf
    else if fmt.headD 0 ≠ 37 then vsprintfLoop mem k fmt.tail args (buf ++ [fmt.headD 0])
    else
      (convert mem fmt.tail args buf).bind fun (fmt, args, buf) =>
        vsprintfLoop mem k fmt args buf

/-- `vsprintf`: what it writes, and what it returns. The format gets shorter with each turn. -/
def vsprintf (mem : Bytes) (fmt : List UInt8) (args : List Arg) : Option (List UInt8 × ℤ) :=
  (vsprintfLoop mem (fmt.length + 1) fmt args []).map fun buf => (buf ++ [0], int32 buf.length)

/-! ### Padding -/

lemma padTurns_eq (c : UInt8) (bound : ℤ) {k : ℕ} {f : FormatStruct}
    (hk : (f.pad - bound).toNat = k) :
    padTurns c bound k f =
      { f with buf := f.buf ++ List.replicate k c, pad := min f.pad bound - 1 } := by
  induction k generalizing f with
  | zero =>
    rw [padTurns, List.replicate_zero, List.append_nil, min_eq_left (by omega)]
  | succ k ih =>
    rw [padTurns, if_pos (by omega), ih (by dsimp only [FormatStruct.put]; omega)]
    unfold FormatStruct.put
    dsimp only
    rw [List.append_assoc, List.singleton_append, List.replicate_succ, min_eq_right (by omega),
      min_eq_right (by omega)]

/-- **A padding loop** writes what is missing, and leaves the counter below its bound. -/
lemma padWhile_eq (c : UInt8) (bound : ℤ) (f : FormatStruct) :
    padWhile c bound f =
      { f with
        buf := f.buf ++ List.replicate (f.pad - bound).toNat c
        pad := min f.pad bound - 1 } :=
  padTurns_eq c bound rfl

lemma putBytes_eq (mem : Bytes) (k str : ℕ) (f : FormatStruct) :
    putBytes mem k str f = { f with buf := f.buf ++ (List.range' str k).map mem } := by
  induction k generalizing str f with
  | zero => rw [putBytes, List.range'_zero, List.map_nil, List.append_nil]
  | succ k ih =>
    rw [putBytes, ih, FormatStruct.put, List.range'_succ, List.map_cons]
    dsimp only
    rw [List.append_assoc, List.singleton_append]

end Elfboot.Printf
