import Elfboot.PrintfLoops

/-!
What a format and its arguments stand for, and when formatting ends.

The format is taken apart into items before anything is written. Each item has a text; an integer
with a precision has one that is filled with zeros. It is written only if there is nothing to
fill.
-/

namespace Elfboot.PrintfEnds

open Elfboot.Fuel Elfboot.Word Elfboot.Buffer Elfboot.Str Elfboot.Printf Elfboot.PrintfPieces
open Elfboot.PrintfLoops

/-! ### The format gets shorter -/

variable {mem : Bytes} {f : FormatStruct} {n base : ℕ}

lemma vnsprintfNumber_length (fmt : List UInt8) (num : ℤ) :
    (vnsprintfNumber fmt num).2.length ≤ fmt.length := by
  induction fmt generalizing num with
  | nil => exact le_rfl
  | cons c fmt ih =>
    rw [vnsprintfNumber]
    split_ifs
    · exact (ih _).trans (Nat.le_succ _)
    · exact le_rfl

lemma parseFlags_length (fmt : List UInt8) (f : FormatStruct) :
    (parseFlags fmt f).1.length ≤ fmt.length := by
  induction fmt generalizing f with
  | nil => exact le_rfl
  | cons c fmt ih =>
    rw [parseFlags]
    split_ifs
    · exact (ih _).trans (Nat.le_succ _)
    · exact (ih _).trans (Nat.le_succ _)
    · exact le_rfl

variable {fmt fmt' : List UInt8} {args args' : List Arg}

lemma parseWidth_length {f' : FormatStruct} (h : parseWidth fmt args f = some (fmt', args', f')) :
    fmt'.length ≤ fmt.length := by
  unfold parseWidth at h
  split_ifs at h
  · obtain ⟨rfl, -⟩ := Prod.mk.inj (Option.some.inj h)
    exact vnsprintfNumber_length fmt 0
  · obtain ⟨x, -, hx⟩ := Option.map_eq_some_iff.1 h
    obtain ⟨rfl, -⟩ := Prod.mk.inj hx
    exact (List.tail_sublist fmt).length_le
  · obtain ⟨rfl, -⟩ := Prod.mk.inj (Option.some.inj h)
    exact le_rfl

lemma parsePrecision_length {f' : FormatStruct}
    (h : parsePrecision fmt args f = some (fmt', args', f')) : fmt'.length ≤ fmt.length := by
  have htail : fmt.tail.length ≤ fmt.length := (List.tail_sublist fmt).length_le
  unfold parsePrecision at h
  dsimp only at h
  split_ifs at h
  · obtain ⟨rfl, -⟩ := Prod.mk.inj (Option.some.inj h)
    exact (vnsprintfNumber_length fmt.tail 0).trans htail
  · obtain ⟨x, -, hx⟩ := Option.map_eq_some_iff.1 h
    obtain ⟨rfl, -⟩ := Prod.mk.inj hx
    exact (List.tail_sublist _).length_le.trans htail
  · obtain ⟨rfl, -⟩ := Prod.mk.inj (Option.some.inj h)
    exact htail
  · obtain ⟨rfl, -⟩ := Prod.mk.inj (Option.some.inj h)
    exact le_rfl

lemma parseLong_length (fmt : List UInt8) : (parseLong fmt).1.length ≤ fmt.length := by
  have htail : fmt.tail.length ≤ fmt.length := (List.tail_sublist fmt).length_le
  unfold parseLong
  split_ifs
  · exact (List.tail_sublist _).length_le.trans htail
  · exact htail
  · exact le_rfl

/-! ### Items -/

/-- A conversion with its argument, or characters that are written as they are. -/
inductive Item
  | bytes (l : List UInt8)
  | char (f : FormatStruct) (v : Int32)
  | str (f : FormatStruct) (p : ℕ)
  | num (f : FormatStruct) (n base : ℕ)

def parseArgument (fmt : List UInt8) (isLongLong : Bool) (args : List Arg) (f : FormatStruct) :
    Option (Item × List UInt8 × List Arg) :=
  let qual := fmt.headD 0
  if qual = 99 then (vaInt args).map fun (v, args) => (.char f v, fmt.tail, args)
  else if qual = 115 then (vaStr args).map fun (p, args) => (.str f p, fmt.tail, args)
  else if qual = 98 ∨ qual = 111 ∨ qual = 100 ∨ qual = 117 ∨ qual = 120 then
    let f := if qual = 100 then { f with sgnPos := true } else f
    (vaNum isLongLong args).map fun (num, args) =>
      (.num f num (vsprintfBase qual), fmt.tail, args)
  else if qual ≠ 0 then some (.bytes [37, qual], fmt.tail, args)
  else some (.bytes [37], fmt, args)

/-- The conversion behind a `%`, if the arguments match it. -/
def parseItem (fmt : List UInt8) (args : List Arg) : Option (Item × List UInt8 × List Arg) :=
  let (fmt, f) := parseFlags fmt ⟨[], false, false, false, 0, 0⟩
  (parseWidth fmt args f).bind fun (fmt, args, f) =>
    (parsePrecision fmt args f).bind fun (fmt, args, f) =>
      let (fmt, isLongLong) := parseLong fmt
      parseArgument fmt isLongLong args f

variable {it : Item}

lemma parseArgument_length {isLongLong : Bool}
    (h : parseArgument fmt isLongLong args f = some (it, fmt', args')) :
    fmt'.length ≤ fmt.length := by
  have htail : fmt.tail.length ≤ fmt.length := (List.tail_sublist fmt).length_le
  unfold parseArgument at h
  dsimp only at h
  generalize (if fmt.headD 0 = 100 then { f with sgnPos := true } else f) = f at h
  split_ifs at h
  · obtain ⟨x, -, hx⟩ := Option.map_eq_some_iff.1 h
    obtain ⟨-, rfl, -⟩ := hx
    exact htail
  · obtain ⟨x, -, hx⟩ := Option.map_eq_some_iff.1 h
    obtain ⟨-, rfl, -⟩ := hx
    exact htail
  · obtain ⟨x, -, hx⟩ := Option.map_eq_some_iff.1 h
    obtain ⟨-, rfl, -⟩ := hx
    exact htail
  · obtain ⟨-, rfl, -⟩ := h
    exact htail
  · obtain ⟨-, rfl, -⟩ := h
    exact le_rfl

lemma parseItem_length (h : parseItem fmt args = some (it, fmt', args')) :
    fmt'.length ≤ fmt.length := by
  obtain ⟨⟨fmt₁, args₁, f₁⟩, hwidth, h⟩ := Option.bind_eq_some_iff.1 h
  obtain ⟨⟨fmt₂, args₂, f₂⟩, hprec, h⟩ := Option.bind_eq_some_iff.1 h
  calc fmt'.length ≤ (parseLong fmt₂).1.length := parseArgument_length h
    _ ≤ fmt₂.length := parseLong_length fmt₂
    _ ≤ fmt₁.length := parsePrecision_length hprec
    _ ≤ (parseFlags fmt _).1.length := parseWidth_length hwidth
    _ ≤ fmt.length := parseFlags_length fmt _

/-- **The items** of a format, if the arguments match its conversions. -/
def items : List UInt8 → List Arg → Option (List Item)
  | [], _ => some []
  | c :: fmt, args =>
    if c = 0 then some []
    else if c ≠ 37 then (items fmt args).map (.bytes [c] :: ·)
    else
      match _h : parseItem fmt args with
      | none => none
      | some (it, fmt', args') => (items fmt' args').map (it :: ·)
  termination_by fmt => fmt.length
  decreasing_by
    · exact Nat.lt_succ_self _
    · exact Nat.lt_succ_of_le (parseItem_length _h)

/-! ### What is written -/

/-- The same, where this has been written before. -/
def withBuf (buf : List UInt8) (f : FormatStruct) : FormatStruct := { f with buf := buf }

/-- What is written for an item; an integer may have no end. -/
def Item.run (mem : Bytes) : Item → Option (List UInt8)
  | .bytes l => some l
  | .char f v => some (vsprintfPutChar (withBuf [] f) v).buf
  | .str f p => some (vsprintfPutString mem (withBuf [] f) p).buf
  | .num f n base => (vsprintfPutNumber (withBuf [] f) n base).map FormatStruct.buf

/-- The same behind what has been written before. -/
def behind (buf : List UInt8) (f : FormatStruct) : FormatStruct := { f with buf := buf ++ f.buf }

lemma withBuf_behind (buf : List UInt8) (f : FormatStruct) :
    withBuf buf f = behind buf (withBuf [] f) := by
  unfold withBuf behind
  dsimp only
  rw [List.append_nil]

lemma put_behind (buf : List UInt8) (f : FormatStruct) (c : UInt8) :
    (behind buf f).put c = behind buf (f.put c) := by
  unfold behind FormatStruct.put
  dsimp only
  rw [List.append_assoc]

lemma padWhile_behind (buf : List UInt8) (c : UInt8) (bound : ℤ) (f : FormatStruct) :
    padWhile c bound (behind buf f) = behind buf (padWhile c bound f) := by
  rw [padWhile_eq, padWhile_eq]
  unfold behind
  dsimp only
  rw [List.append_assoc]

lemma putBytes_behind (buf : List UInt8) (k p : ℕ) (f : FormatStruct) :
    putBytes mem k p (behind buf f) = behind buf (putBytes mem k p f) := by
  rw [putBytes_eq, putBytes_eq]
  unfold behind
  dsimp only
  rw [List.append_assoc]

lemma padUnless_behind (b : Bool) (buf : List UInt8) (c : UInt8) (bound : ℤ) (f : FormatStruct) :
    (if b then behind buf f else padWhile c bound (behind buf f)) =
      behind buf (if b then f else padWhile c bound f) := by
  rw [padWhile_behind, apply_ite (behind buf)]

lemma putChar_behind (buf : List UInt8) (f : FormatStruct) (v : Int32) :
    vsprintfPutChar (behind buf f) v = behind buf (vsprintfPutChar f v) := by
  unfold vsprintfPutChar
  dsimp only
  rw [show (behind buf f).padNeg = f.padNeg from rfl, padUnless_behind, put_behind,
    padWhile_behind]

lemma putString_behind (buf : List UInt8) (f : FormatStruct) (p : ℕ) :
    vsprintfPutString mem (behind buf f) p = behind buf (vsprintfPutString mem f p) := by
  unfold vsprintfPutString
  dsimp only
  rw [show (behind buf f).padNeg = f.padNeg from rfl, show (behind buf f).pre = f.pre from rfl,
    padUnless_behind, putBytes_behind, padWhile_behind]

/-- A sign and digits, with room on the side that the flags say. -/
def padSigned (neg nul : Bool) (room : ℕ) (sign l : List UInt8) : List UInt8 :=
  if neg then sign ++ l ++ List.replicate room 32
  else if nul then sign ++ List.replicate room 48 ++ l
  else List.replicate room 32 ++ sign ++ l

def signText (sign : Bool) : List UInt8 := if sign then [45] else []

lemma writeNumber_text (f : FormatStruct) (sign : Bool) (l : List UInt8) :
    (writeNumber f sign l).map FormatStruct.buf =
      if f.pre ≤ l.length then
        some (f.buf ++
          padSigned f.padNeg f.padNul (f.pad - l.length).toNat (signText sign) l.reverse)
      else none := by
  by_cases hpre : f.pre ≤ l.length
  · have hmax : (if f.pre < l.length then (l.length : ℤ) else f.pre) = l.length := by
      split_ifs <;> omega
    have hsign : ∀ f : FormatStruct, (if sign then f.put 45 else f) =
        { f with buf := f.buf ++ signText sign } := by
      intro f
      cases sign with
      | true => rfl
      | false => simp [signText]
    have hroom : ∀ x : ℤ, (min x 0 - 1).toNat = 0 ∧ (min (min x 0 - 1) 0 - 1).toNat = 0 := by
      intro x
      omega
    obtain ⟨b, nul, neg, sgn, pad, pre⟩ := f
    unfold writeNumber padSigned
    dsimp only at hpre hmax ⊢
    rw [if_pos hpre, hmax, if_neg (lt_irrefl _), Option.map_some, Option.some.injEq]
    cases neg with
    | true => simp [hsign, padWhile_eq]
    | false =>
      cases nul with
      | true => simp [hsign, padWhile_eq, hroom]
      | false => simp [hsign, padWhile_eq, hroom]
  · have hmax : (if f.pre < l.length then (l.length : ℤ) else f.pre) = f.pre :=
      if_neg (by omega)
    unfold writeNumber
    rw [if_neg hpre, hmax, if_pos (not_le.1 hpre)]
    rfl

/-- Whether an integer is written with a sign, and the number whose digits are written. -/
def negative (f : FormatStruct) (n : ℕ) : Bool := f.sgnPos && 2 ^ 63 ≤ n

def magnitude (f : FormatStruct) (n : ℕ) : ℕ := if negative f n then sub64 0 n else n

/-- Digits that are filled with zeros on the left. -/
def filled (p : ℕ) (l : List UInt8) : List UInt8 := List.replicate (p - l.length) 48 ++ l

/-- What an integer stands for: as many digits as the precision says, with zeros before those that
it has. -/
def numberText (f : FormatStruct) (n base : ℕ) : List UInt8 :=
  let l := filled f.pre.toNat (numeral base (magnitude f n))
  let sign := signText (negative f n)
  padSigned f.padNeg f.padNul (f.pad.toNat - (sign.length + l.length)) sign l

/-- An integer has at least as many digits as the precision says. -/
def NumberFits (f : FormatStruct) (n base : ℕ) : Prop :=
  f.pre ≤ (numeral base (magnitude f n)).length

instance (f : FormatStruct) (n base : ℕ) : Decidable (NumberFits f n base) :=
  inferInstanceAs (Decidable (f.pre ≤ _))

/-- The digits in the buffer are those of the numeral, the last one first. -/
lemma buffer_eq (hbase : 2 ≤ base) (hbase' : base ≤ 16) (hn : n < 2 ^ 64) :
    (if n = 0 then [48] else digitsLoop base 64 n).reverse = numeral base n := by
  unfold numeral
  by_cases h0 : n = 0
  · rw [if_pos h0, if_pos h0]
    rfl
  · rw [if_neg h0, if_neg h0, digitsLoop_eq hbase hbase' hn, List.map_reverse]

lemma filled_of_le {p : ℤ} {l : List UInt8} (h : p ≤ l.length) : filled p.toNat l = l := by
  unfold filled
  rw [Nat.sub_eq_zero_of_le (by omega), List.replicate_zero, List.nil_append]

/-- The width of a field is counted down for its sign. -/
lemma writeSigned_text (f : FormatStruct) (sign : Bool) {buf l : List UInt8}
    (hbuf : buf.reverse = l) :
    (writeNumber (if sign then { f with pad := f.pad - 1 } else f) sign buf).map FormatStruct.buf =
      if f.pre ≤ l.length then
        some (f.buf ++ padSigned f.padNeg f.padNul
          (f.pad.toNat - ((signText sign).length + l.length)) (signText sign) l)
      else none := by
  subst hbuf
  rw [writeNumber_text, List.length_reverse]
  cases sign with
  | true =>
    have hroom : (f.pad - 1 - buf.length).toNat = f.pad.toNat - (1 + buf.length) := by omega
    rw [if_pos rfl]
    dsimp only [signText, if_true]
    rw [hroom]
    rfl
  | false =>
    have hroom : (f.pad - buf.length).toNat = f.pad.toNat - (0 + buf.length) := by omega
    rw [if_neg Bool.false_ne_true, hroom]
    rfl

/-- **An integer** is written as what it stands for, or has no end. -/
lemma putNumber_text (hbase : 2 ≤ base) (hbase' : base ≤ 16) (hn : n < 2 ^ 64)
    (f : FormatStruct) :
    (vsprintfPutNumber f n base).map FormatStruct.buf =
      if NumberFits f n base then some (f.buf ++ numberText f n base) else none := by
  have hm : magnitude f n < 2 ^ 64 := by
    unfold magnitude
    split_ifs
    · exact Nat.mod_lt _ (by decide)
    · exact hn
  have htext := writeSigned_text f (negative f n) (buffer_eq hbase hbase' hm)
  unfold vsprintfPutNumber
  rw [if_neg (by omega)]
  refine htext.trans ?_
  by_cases hfit : NumberFits f n base
  · refine (if_pos hfit).trans ?_
    rw [if_pos hfit, numberText, filled_of_le hfit]
  · exact (if_neg hfit).trans (if_neg hfit).symm

/-! ### A conversion is that of its item -/

lemma parseFlags_withBuf (buf fmt : List UInt8) (f : FormatStruct) :
    parseFlags fmt (withBuf buf f) = ((parseFlags fmt f).1, withBuf buf (parseFlags fmt f).2) := by
  induction fmt generalizing f with
  | nil => rfl
  | cons c fmt ih =>
    rw [parseFlags, parseFlags]
    split_ifs
    · exact ih { f with padNeg := true }
    · exact ih { f with padNul := true }
    · rfl

lemma parseWidth_withBuf (buf fmt : List UInt8) (args : List Arg) (f : FormatStruct) :
    parseWidth fmt args (withBuf buf f) =
      (parseWidth fmt args f).map fun x => (x.1, x.2.1, withBuf buf x.2.2) := by
  unfold parseWidth
  split_ifs
  · rfl
  · rw [Option.map_map]
    refine congrArg (fun g => (vaInt args).map g) (funext fun x => ?_)
    dsimp only [Function.comp_apply]
    split_ifs <;> rfl
  · rfl

lemma parsePrecision_withBuf (buf fmt : List UInt8) (args : List Arg) (f : FormatStruct) :
    parsePrecision fmt args (withBuf buf f) =
      (parsePrecision fmt args f).map fun x => (x.1, x.2.1, withBuf buf x.2.2) := by
  unfold parsePrecision
  dsimp only
  split_ifs
  · rfl
  · rw [Option.map_map]
    rfl
  · rfl
  · rfl

lemma sgnPos_withBuf (p : Prop) [Decidable p] (buf : List UInt8) (f : FormatStruct) :
    (if p then { withBuf buf f with sgnPos := true } else withBuf buf f) =
      withBuf buf (if p then { f with sgnPos := true } else f) := by
  split_ifs <;> rfl

lemma run_num (mem : Bytes) (hbase : 2 ≤ base) (hbase' : base ≤ 16) (hn : n < 2 ^ 64)
    (f : FormatStruct) :
    (Item.num f n base).run mem =
      if NumberFits f n base then some (numberText f n base) else none :=
  putNumber_text hbase hbase' hn (withBuf [] f)

/-- An integer is written behind what is there as it is written on its own. -/
lemma putNumber_run (mem : Bytes) (hbase : 2 ≤ base) (hbase' : base ≤ 16) (hn : n < 2 ^ 64)
    (f : FormatStruct) (buf : List UInt8) :
    (vsprintfPutNumber (withBuf buf f) n base).map FormatStruct.buf =
      ((Item.num f n base).run mem).map fun l => buf ++ l := by
  rw [run_num mem hbase hbase' hn, putNumber_text hbase hbase' hn]
  by_cases hfit : NumberFits f n base
  · rw [if_pos hfit]
    exact if_pos hfit
  · rw [if_neg hfit]
    exact if_neg hfit

lemma putArgument_items (mem : Bytes) (buf fmt : List UInt8) (isLongLong : Bool) (args : List Arg)
    (f : FormatStruct) :
    putArgument mem fmt isLongLong args (withBuf buf f) =
      (parseArgument fmt isLongLong args f).bind fun x =>
        (x.1.run mem).map fun l => (x.2.1, x.2.2, buf ++ l) := by
  unfold putArgument parseArgument
  dsimp only
  rw [sgnPos_withBuf]
  generalize (if fmt.headD 0 = 100 then { f with sgnPos := true } else f) = f'
  by_cases hchar : fmt.headD 0 = 99
  · rw [if_pos hchar, if_pos hchar, Option.bind_map, Option.map_eq_bind]
    refine Option.bind_congr fun x _ => congrArg (fun l => some (fmt.tail, x.2, l)) ?_
    rw [withBuf_behind, putChar_behind]
    rfl
  rw [if_neg hchar, if_neg hchar]
  by_cases hstr : fmt.headD 0 = 115
  · rw [if_pos hstr, if_pos hstr, Option.bind_map, Option.map_eq_bind]
    refine Option.bind_congr fun x _ => congrArg (fun l => some (fmt.tail, x.2, l)) ?_
    rw [withBuf_behind, putString_behind]
    rfl
  rw [if_neg hstr, if_neg hstr]
  by_cases hnum : fmt.headD 0 = 98 ∨ fmt.headD 0 = 111 ∨ fmt.headD 0 = 100 ∨ fmt.headD 0 = 117 ∨
      fmt.headD 0 = 120
  · obtain ⟨hbase, hbase'⟩ := vsprintfBase_bounds hnum
    rw [if_pos hnum, if_pos hnum, Option.bind_map]
    refine Option.bind_congr fun x hx => ?_
    have hrun := putNumber_run mem hbase hbase' (vaNum_lt hx) f' buf
    have hmap := congrArg (Option.map fun l => (fmt.tail, x.2, l)) hrun
    rw [Option.map_map, Option.map_map] at hmap
    exact hmap
  rw [if_neg hnum, if_neg hnum]
  by_cases h0 : fmt.headD 0 = 0
  · rw [if_neg (not_not.2 h0), if_neg (not_not.2 h0)]
    rfl
  · rw [if_pos h0, if_pos h0]
    exact congrArg (fun l => some (fmt.tail, args, l)) (List.append_assoc buf [37] _)

lemma convert_items (mem : Bytes) (fmt : List UInt8) (args : List Arg) (buf : List UInt8) :
    convert mem fmt args buf =
      (parseItem fmt args).bind fun x =>
        (x.1.run mem).map fun l => (x.2.1, x.2.2, buf ++ l) := by
  unfold convert parseItem
  have hflags := parseFlags_withBuf buf fmt ⟨[], false, false, false, 0, 0⟩
  rw [show (⟨buf, false, false, false, 0, 0⟩ : FormatStruct) =
    withBuf buf ⟨[], false, false, false, 0, 0⟩ from rfl, hflags]
  dsimp only
  rw [parseWidth_withBuf, Option.bind_map, Option.bind_assoc]
  refine Option.bind_congr fun x _ => ?_
  dsimp only [Function.comp_apply]
  rw [parsePrecision_withBuf, Option.bind_map, Option.bind_assoc]
  refine Option.bind_congr fun y _ => ?_
  exact putArgument_items mem buf _ _ _ _

lemma convert_length {buf buf' : List UInt8}
    (h : convert mem fmt args buf = some (fmt', args', buf')) : fmt'.length ≤ fmt.length := by
  rw [convert_items] at h
  obtain ⟨⟨it, fmt₁, args₁⟩, hparse, h⟩ := Option.bind_eq_some_iff.1 h
  obtain ⟨l, -, hl⟩ := Option.map_eq_some_iff.1 h
  obtain ⟨rfl, -⟩ := Prod.mk.inj hl
  exact parseItem_length hparse

/-! ### The loop of the format -/

lemma format_yields (mem : Bytes) {m : ℕ} (hm : fmt.length < m) (args : List Arg)
    (buf : List UInt8) (d : ℕ) :
    Yields (fun k => formatLoops mem k (k - d) fmt args buf) (vsprintfLoop mem m fmt args buf) := by
  induction m generalizing fmt args buf d with
  | zero => exact absurd hm (Nat.not_lt_zero _)
  | succ m ih =>
    -- the turns before the loop has been entered, and this one
    have hturn : (fun k => formatLoops mem k (k - d) fmt args buf) = fun k =>
        if k ≤ d then none
        else if fmt.headD 0 = 0 then some buf
        else if fmt.headD 0 ≠ 37 then
          formatLoops mem k (k - (d + 1)) fmt.tail args (buf ++ [fmt.headD 0])
        else
          (convertLoops mem k fmt.tail args buf).bind fun x =>
            formatLoops mem k (k - (d + 1)) x.1 x.2.1 x.2.2 := by
      funext k
      rcases Nat.lt_or_ge d k with hlt | hle
      · obtain ⟨j, rfl⟩ := Nat.exists_eq_add_of_lt hlt
        rw [if_neg (Nat.not_le_of_lt hlt), show d + j + 1 - d = j + 1 by omega,
          show d + j + 1 - (d + 1) = j by omega]
        rfl
      · rw [if_pos hle, Nat.sub_eq_zero_of_le hle]
        rfl
    rw [hturn]
    refine Yields.delay ?_ d
    unfold vsprintfLoop
    have htail : fmt.headD 0 ≠ 0 → fmt.tail.length < m := by
      intro h0
      cases fmt with
      | nil => exact absurd rfl h0
      | cons c fmt => exact Nat.lt_of_succ_lt_succ hm
    refine Yields.ite (fun _ => Yields.const _) fun h0 => Yields.ite (fun _ => ?_) fun _ => ?_
    · exact ih (htail h0) _ _ _
    · refine (convert_yields mem fmt.tail args buf).bind fun x hx => ?_
      exact ih ((convert_length hx).trans_lt (htail h0)) _ _ _

/-- **Formatting** with its loops run turn by turn yields what `Printf` has for its result. -/
theorem vsprintf_yields (mem : Bytes) (fmt : List UInt8) (args : List Arg) :
    Yields (vsprintfLoops mem fmt args) (vsprintf mem fmt args) :=
  (format_yields mem (Nat.lt_succ_self _) args [] 0).map fun buf => (buf ++ [0], int32 buf.length)

/-! ### The text of the items -/

/-- What stands for an item: of an integer what it stands for, and of the others what is
written. -/
def Item.text (mem : Bytes) : Item → List UInt8
  | .num f n base => numberText f n base
  | it => (it.run mem).getD []

/-- There is nothing to fill with zeros. -/
def Item.Fits : Item → Prop
  | .num f n base => NumberFits f n base
  | _ => True

/-- What an integer conversion has for a number and a base. -/
def Item.Ok : Item → Prop
  | .num _ n base => 2 ≤ base ∧ base ≤ 16 ∧ n < 2 ^ 64
  | _ => True

lemma parseArgument_ok {isLongLong : Bool}
    (h : parseArgument fmt isLongLong args f = some (it, fmt', args')) : it.Ok := by
  unfold parseArgument at h
  dsimp only at h
  generalize (if fmt.headD 0 = 100 then { f with sgnPos := true } else f) = f at h
  split_ifs at h with _ _ hqual
  · obtain ⟨x, -, hx⟩ := Option.map_eq_some_iff.1 h
    obtain ⟨rfl, -⟩ := hx
    exact trivial
  · obtain ⟨x, -, hx⟩ := Option.map_eq_some_iff.1 h
    obtain ⟨rfl, -⟩ := hx
    exact trivial
  · obtain ⟨x, hva, hx⟩ := Option.map_eq_some_iff.1 h
    obtain ⟨rfl, -⟩ := hx
    exact ⟨(vsprintfBase_bounds hqual).1, (vsprintfBase_bounds hqual).2, vaNum_lt hva⟩
  · obtain ⟨rfl, -⟩ := h
    exact trivial
  · obtain ⟨rfl, -⟩ := h
    exact trivial

lemma parseItem_ok (h : parseItem fmt args = some (it, fmt', args')) : it.Ok := by
  obtain ⟨_, -, h⟩ := Option.bind_eq_some_iff.1 h
  obtain ⟨_, -, h⟩ := Option.bind_eq_some_iff.1 h
  exact parseArgument_ok h

lemma run_of_fits (mem : Bytes) (hok : it.Ok) (h : it.Fits) : it.run mem = some (it.text mem) := by
  have hwritten : ∀ r : Option (List UInt8), r ≠ none → r = some (r.getD []) := by
    intro r hr
    obtain ⟨l, rfl⟩ := Option.ne_none_iff_exists'.1 hr
    rfl
  cases it with
  | bytes l => exact hwritten _ (Option.some_ne_none _)
  | char f v => exact hwritten _ (Option.some_ne_none _)
  | str f p => exact hwritten _ (Option.some_ne_none _)
  | num f n base =>
    have hfit : NumberFits f n base := h
    obtain ⟨hbase, hbase', hn⟩ : 2 ≤ base ∧ base ≤ 16 ∧ n < 2 ^ 64 := hok
    rw [run_num mem hbase hbase' hn, if_pos hfit, Item.text]

lemma run_of_not_fits (mem : Bytes) (hok : it.Ok) (h : ¬ it.Fits) : it.run mem = none := by
  cases it with
  | bytes l => exact absurd trivial h
  | char f v => exact absurd trivial h
  | str f p => exact absurd trivial h
  | num f n base =>
    have hfit : ¬ NumberFits f n base := h
    obtain ⟨hbase, hbase', hn⟩ : 2 ≤ base ∧ base ≤ 16 ∧ n < 2 ^ 64 := hok
    rw [run_num mem hbase hbase' hn, if_neg hfit]

/-- What stands for the items in the end. -/
def text (mem : Bytes) (is : List Item) : List UInt8 := is.flatMap (Item.text mem)

lemma items_cons {c : UInt8} {is : List Item} (h : items (c :: fmt) args = some is) :
    c = 0 ∧ is = [] ∨
      c ≠ 0 ∧ ∃ it fmt' args' is', is = it :: is' ∧ items fmt' args' = some is' ∧
        (c ≠ 37 ∧ it = .bytes [c] ∧ fmt' = fmt ∧ args' = args ∨
          c = 37 ∧ parseItem fmt args = some (it, fmt', args')) := by
  rw [items] at h
  split_ifs at h with h0 hc
  · exact Or.inl ⟨h0, (Option.some.inj h).symm⟩
  · obtain ⟨is', hrest, rfl⟩ := Option.map_eq_some_iff.1 h
    exact Or.inr ⟨h0, _, _, _, is', rfl, hrest, Or.inl ⟨hc, rfl, rfl, rfl⟩⟩
  · split at h
    · cases h
    · next it fmt' args' hparse =>
      obtain ⟨is', hrest, rfl⟩ := Option.map_eq_some_iff.1 h
      exact Or.inr ⟨h0, it, fmt', args', is', rfl, hrest, Or.inr ⟨not_not.1 hc, hparse⟩⟩

/-- What the loop of `vsprintf` does with the items: their text, unless there is one that does
not fit. -/
lemma vsprintfLoop_items (mem : Bytes) {m : ℕ} (hm : fmt.length < m) {is : List Item}
    (h : items fmt args = some is) (buf : List UInt8) :
    ((∀ it ∈ is, it.Fits) → vsprintfLoop mem m fmt args buf = some (buf ++ text mem is)) ∧
      (¬ (∀ it ∈ is, it.Fits) → vsprintfLoop mem m fmt args buf = none) := by
  induction m generalizing fmt args buf is with
  | zero => exact absurd hm (Nat.not_lt_zero _)
  | succ m ih =>
    cases fmt with
    | nil =>
      rw [items] at h
      obtain rfl := Option.some.inj h
      refine ⟨fun _ => ?_, fun hnot => absurd (List.forall_mem_nil _) hnot⟩
      exact congrArg some (List.append_nil buf).symm
    | cons c fmt =>
      have hlen : fmt.length < m := Nat.lt_of_succ_lt_succ hm
      rw [vsprintfLoop, List.headD_cons, List.tail_cons]
      obtain ⟨h0, rfl⟩ | ⟨h0, it, fmt', args', is', rfl, hrest, hit⟩ := items_cons h
      · rw [if_pos h0]
        refine ⟨fun _ => ?_, fun hnot => absurd (List.forall_mem_nil _) hnot⟩
        exact congrArg some (List.append_nil buf).symm
      rw [if_neg h0, List.forall_mem_cons]
      obtain ⟨hc, rfl, rfl, rfl⟩ | ⟨hc, hparse⟩ := hit
      · rw [if_pos hc, and_iff_right (show (Item.bytes [c]).Fits from trivial)]
        have htext : text mem (.bytes [c] :: is') = [c] ++ text mem is' := List.flatMap_cons
        rw [htext, ← List.append_assoc]
        exact ih hlen hrest _
      · rw [if_neg (not_not.2 hc), convert_items, hparse, Option.bind_some]
        dsimp only
        have hok := parseItem_ok hparse
        by_cases hfit : it.Fits
        · have htext : text mem (it :: is') = it.text mem ++ text mem is' := List.flatMap_cons
          rw [run_of_fits mem hok hfit, Option.map_some, Option.bind_some, and_iff_right hfit,
            htext, ← List.append_assoc]
          exact ih ((parseItem_length hparse).trans_lt hlen) hrest _
        · rw [run_of_not_fits mem hok hfit]
          exact ⟨fun hall => absurd hall.1 hfit, fun _ => rfl⟩

/-- **Formatting ends**, with each integer filled with zeros to its precision, if and only if no
integer has anything to fill. -/
theorem formatting_ends_iff {mem : Bytes} {fmt : List UInt8} {args : List Arg} {is : List Item}
    (h : items fmt args = some is) :
    ((∃ k r, vsprintfLoops mem fmt args k = some r) ↔ ∀ it ∈ is, it.Fits) ∧
      ((∃ k, vsprintfLoops mem fmt args k =
          some (text mem is ++ [0], int32 (text mem is).length)) ↔ ∀ it ∈ is, it.Fits) := by
  have hyields := vsprintf_yields mem fmt args
  obtain ⟨hfits, hnot⟩ := vsprintfLoop_items mem (Nat.lt_succ_self fmt.length) h []
  by_cases hall : ∀ it ∈ is, it.Fits
  · have hres : vsprintf mem fmt args =
        some (text mem is ++ [0], int32 (text mem is).length) := by
      rw [vsprintf, hfits hall, Option.map_some, List.nil_append]
    obtain ⟨k, hk⟩ := hyields.ends_iff.2 hres
    exact ⟨iff_of_true ⟨k, _, hk⟩ hall, iff_of_true ⟨k, hk⟩ hall⟩
  · have hres : vsprintf mem fmt args = none := by
      rw [vsprintf, hnot hall, Option.map_none]
    rw [hres] at hyields
    have hnever := Yields.iff_none.1 hyields
    refine ⟨iff_of_false ?_ hall, iff_of_false ?_ hall⟩
    · rintro ⟨k, r, hk⟩
      rw [hnever k] at hk
      cases hk
    · rintro ⟨k, hk⟩
      rw [hnever k] at hk
      cases hk

/-- An `int` with two digits at least. -/
abbrev twoDigits (v : Int32) : Item :=
  .num ⟨[], false, false, true, -1, 2⟩ (v.toInt % 2 ^ 32).toNat 10

lemma items_twoDigits (v : Int32) :
    items (chars ['%', '.', '2', 'd']) [.int v] = some [twoDigits v] := by
  have hparse : parseItem (chars ['.', '2', 'd']) [.int v] = some (twoDigits v, [], []) := rfl
  rw [show chars ['%', '.', '2', 'd'] = 37 :: chars ['.', '2', 'd'] from rfl, items,
    if_neg (by decide), if_neg (by decide)]
  split
  · next hnone =>
    rw [hparse] at hnone
    cases hnone
  · next it fmt' args' hsome =>
    rw [hparse] at hsome
    obtain ⟨rfl, rfl, rfl⟩ := hsome
    rw [items]
    rfl

/-- Two digits are written as they are. -/
lemma ends_twoDigits : ∃ k, vsprintfLoops (fun _ => 0) (chars ['%', '.', '2', 'd']) [.int 42] k =
    some (text (fun _ => 0) [twoDigits 42] ++ [0],
      int32 (text (fun _ => 0) [twoDigits 42]).length) :=
  (formatting_ends_iff (items_twoDigits 42)).2.2 (List.forall_mem_singleton.2
    (by decide : NumberFits ⟨[], false, false, true, -1, 2⟩ 42 10))

/-- One digit is filled with zeros for ever. -/
lemma not_ends : items (chars ['%', '.', '2', 'd']) [.int 5] = some [twoDigits 5] ∧
    ¬ ∃ k r, vsprintfLoops (fun _ => 0) (chars ['%', '.', '2', 'd']) [.int 5] k = some r := by
  refine ⟨items_twoDigits 5, ?_⟩
  have hres : vsprintf (fun _ => 0) (chars ['%', '.', '2', 'd']) [.int 5] = none := by decide
  have hyields := vsprintf_yields (fun _ => 0) (chars ['%', '.', '2', 'd']) [.int 5]
  rw [hres] at hyields
  rintro ⟨k, r, hk⟩
  rw [Yields.iff_none.1 hyields k] at hk
  cases hk

end Elfboot.PrintfEnds
