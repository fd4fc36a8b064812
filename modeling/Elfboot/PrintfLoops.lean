import Elfboot.Fuel
import Elfboot.PrintfPieces

/-!
Formatted output with every loop run turn by turn.

The functions are those of `Printf` again, with a number of turns that each loop may take. What
they yield is what the functions of `Printf` have for a result: a conversion that has none because
of a loop is one that writes zeros for ever.
-/

namespace Elfboot.PrintfLoops

open Elfboot.Fuel Elfboot.Word Elfboot.Buffer Elfboot.Str Elfboot.Printf Elfboot.PrintfPieces

/-! ### The loops -/

/-- `while (fmts->pad-- > bound) *fmts->buf++ = c`. -/
def padTurn (c : UInt8) (bound : ℤ) (f : FormatStruct) : Bool × FormatStruct :=
  if bound < f.pad then (true, { f with pad := f.pad - 1 }.put c)
  else (false, { f with pad := f.pad - 1 })

/-- `while (*es && maxlen)`. -/
def strnlenTurn (mem : Bytes) : ℕ × ℕ → Bool × ℕ × ℕ
  | (es, maxlen) =>
    if mem es ≠ 0 ∧ maxlen ≠ 0 then (true, es + 1, maxlen - 1) else (false, es, maxlen)

/-- `for (i = 0; i < len; ++i) *fmts->buf++ = *str++`. -/
def putBytesTurn (mem : Bytes) (len : ℤ) : ℤ × ℕ × FormatStruct → Bool × ℤ × ℕ × FormatStruct
  | (i, str, f) => if i < len then (true, i + 1, str + 1, f.put (mem str)) else (false, i, str, f)

/-- `while (n != 0)`, which fills `buf`. -/
def digitsTurn (base : ℕ) : ℕ × List UInt8 → Bool × ℕ × List UInt8
  | (n, buf) =>
    if n ≠ 0 then
      let qr := div n base
      (true, qr.1, buf ++ [digits.getD qr.2 0])
    else (false, n, buf)

/-- `while (i < fmts->pre) *fmts->buf++ = '0'`. -/
def zerosTurn (i : ℕ) (f : FormatStruct) : Bool × FormatStruct :=
  if i < f.pre then (true, f.put 48) else (false, f)

/-- `while (i-- > 0) *fmts->buf++ = buf[i]`. -/
def reverseTurn (buf : List UInt8) : ℕ × FormatStruct → Bool × ℕ × FormatStruct
  | (i, f) => if 0 < i then (true, i - 1, f.put (buf.getD (i - 1) 0)) else (false, i, f)

def strnlenLoops (mem : Bytes) (k str maxlen : ℕ) : Option ℕ :=
  (loop (strnlenTurn mem) k (str, maxlen)).map fun s => s.1 - str

def putBytesLoop (mem : Bytes) (len : ℤ) (k str : ℕ) (f : FormatStruct) : Option FormatStruct :=
  (loop (putBytesTurn mem len) k (0, str, f)).map fun s => s.2.2

def digitsLoops (base k n : ℕ) : Option (List UInt8) :=
  (loop (digitsTurn base) k (n, [])).map Prod.snd

def reverseLoop (buf : List UInt8) (k : ℕ) (f : FormatStruct) : Option FormatStruct :=
  (loop (reverseTurn buf) k (buf.length, f)).map Prod.snd

/-! ### The functions -/

def putCharLoops (k : ℕ) (f : FormatStruct) (c : Int32) : Option FormatStruct :=
  (if f.padNeg then some f else loop (padTurn 32 1) k f).bind fun f =>
    loop (padTurn 32 1) k (f.put (UInt8.ofNat (c.toInt % 2 ^ 8).toNat))

def putStringLoops (mem : Bytes) (k : ℕ) (f : FormatStruct) (str : ℕ) : Option FormatStruct :=
  (strnlenLoops mem k str (f.pre % 2 ^ 32).toNat).bind fun n =>
    let len := int32 n
    (if f.padNeg then some f else loop (padTurn 32 len) k f).bind fun f =>
      (putBytesLoop mem len k str f).bind fun f => loop (padTurn 32 len) k f

def writeNumberLoops (k : ℕ) (f : FormatStruct) (sign : Bool) (buf : List UInt8) :
    Option FormatStruct :=
  let c : UInt8 := if f.padNul then 48 else 32
  let pre := if f.pre < buf.length then (buf.length : ℤ) else f.pre
  let f := { f with pre := pre, pad := f.pad - pre }
  (if f.padNeg || f.padNul then some f else loop (padTurn 32 0) k f).bind fun f =>
    let f := if sign then f.put 45 else f
    (if f.padNeg then some f else loop (padTurn c 0) k f).bind fun f =>
      (loop (zerosTurn buf.length) k f).bind fun f =>
        (reverseLoop buf k f).bind fun f => loop (padTurn 32 0) k f

def putNumberLoops (k : ℕ) (f : FormatStruct) (n base : ℕ) : Option FormatStruct :=
  if base = 0 then some f
  else
    let sign := f.sgnPos && 2 ^ 63 ≤ n
    let n := if sign then sub64 0 n else n
    let f := if sign then { f with pad := f.pad - 1 } else f
    (if n = 0 then some [48] else digitsLoops base k n).bind fun buf =>
      writeNumberLoops k f sign buf

def putArgumentLoops (mem : Bytes) (k : ℕ) (fmt : List UInt8) (isLongLong : Bool)
    (args : List Arg) (f : FormatStruct) : Option (List UInt8 × List Arg × List UInt8) :=
  let qual := fmt.headD 0
  if qual = 99 then
    (vaInt args).bind fun (v, args) =>
      (putCharLoops k f v).map fun f => (fmt.tail, args, f.buf)
  else if qual = 115 then
    (vaStr args).bind fun (p, args) =>
      (putStringLoops mem k f p).map fun f => (fmt.tail, args, f.buf)
  else if qual = 98 ∨ qual = 111 ∨ qual = 100 ∨ qual = 117 ∨ qual = 120 then
    let f := if qual = 100 then { f with sgnPos := true } else f
    (vaNum isLongLong args).bind fun (num, args) =>
      (putNumberLoops k f num (vsprintfBase qual)).map fun f => (fmt.tail, args, f.buf)
  else if qual ≠ 0 then some (fmt.tail, args, ((f.put 37).put qual).buf)
  else some (fmt, args, (f.put 37).buf)

def convertLoops (mem : Bytes) (k : ℕ) (fmt : List UInt8) (args : List Arg) (buf : List UInt8) :
    Option (List UInt8 × List Arg × List UInt8) :=
  let (fmt, f) := parseFlags fmt ⟨buf, false, false, false, 0, 0⟩
  (parseWidth fmt args f).bind fun (fmt, args, f) =>
    (parsePrecision fmt args f).bind fun (fmt, args, f) =>
      let (fmt, isLongLong) := parseLong fmt
      putArgumentLoops mem k fmt isLongLong args f

/-- The loop of `vsprintf`, with the turns that are left to it, where the others may take `k`. -/
def formatLoops (mem : Bytes) (k : ℕ) :
    ℕ → List UInt8 → List Arg → List UInt8 → Option (List UInt8)
  | 0, _, _, _ => none
  | j + 1, fmt, args, buf =>
    if fmt.headD 0 = 0 then some buf
    else if fmt.headD 0 ≠ 37 then formatLoops mem k j fmt.tail args (buf ++ [fmt.headD 0])
    else
      (convertLoops mem k fmt.tail args buf).bind fun (fmt, args, buf) =>
        formatLoops mem k j fmt args buf

def vsprintfLoops (mem : Bytes) (fmt : List UInt8) (args : List Arg) (k : ℕ) :
    Option (List UInt8 × ℤ) :=
  (formatLoops mem k k fmt args []).map fun buf => (buf ++ [0], int32 buf.length)

/-! ### What they yield -/

variable {mem : Bytes} {f : FormatStruct} {buf : List UInt8} {n base : ℕ}

lemma padWhile_stop {c : UInt8} {bound : ℤ} (h : ¬ bound < f.pad) :
    padWhile c bound f = { f with pad := f.pad - 1 } := by
  rw [padWhile_eq, min_eq_left (by omega), Int.toNat_of_nonpos (by omega), List.replicate_zero,
    List.append_nil]

lemma padWhile_turn {c : UInt8} {bound : ℤ} (h : bound < f.pad) :
    padWhile c bound f = padWhile c bound ({ f with pad := f.pad - 1 }.put c) := by
  obtain ⟨k, hk⟩ : ∃ k, (f.pad - bound).toNat = k + 1 := ⟨(f.pad - bound).toNat - 1, by omega⟩
  have hk' : (f.pad - 1 - bound).toNat = k := by omega
  unfold padWhile FormatStruct.put
  dsimp only
  rw [hk, hk', padTurns, if_pos h]
  rfl

lemma pad_yields (c : UInt8) (bound : ℤ) (f : FormatStruct) :
    Yields (fun k => loop (padTurn c bound) k f) (some (padWhile c bound f)) := by
  refine yields_loop _ (g := padWhile c bound) (fun _ => True) (fun f => (f.pad - bound).toNat)
    (fun f _ ht => ?_) (fun f _ ht => ?_) trivial
  · unfold padTurn at ht ⊢
    split_ifs at ht ⊢ with h
    refine ⟨⟨trivial, padWhile_turn h⟩, ?_⟩
    dsimp only [FormatStruct.put]
    omega
  · unfold padTurn at ht ⊢
    split_ifs at ht ⊢ with h
    exact padWhile_stop h

lemma strnlen_yields (mem : Bytes) (str maxlen : ℕ) :
    Yields (fun k => strnlenLoops mem k str maxlen) (some (strnlen mem str maxlen)) := by
  have hloop := yields_loop (strnlenTurn mem)
    (g := fun s => (s.1 + strlen mem s.2 s.1, s.2 - strlen mem s.2 s.1)) (fun _ => True) Prod.snd
    (fun s _ ht => ?_) (fun s _ ht => ?_) (s := (str, maxlen)) trivial
  · have hres := hloop.map fun s => s.1 - str
    rw [Option.map_some, Nat.add_sub_cancel_left] at hres
    exact hres
  · obtain ⟨es, maxlen⟩ := s
    dsimp only [strnlenTurn] at ht ⊢
    split_ifs at ht ⊢ with h
    obtain ⟨hbyte, hmax⟩ := h
    obtain ⟨m, rfl⟩ := Nat.exists_eq_succ_of_ne_zero hmax
    refine ⟨⟨trivial, ?_⟩, Nat.lt_succ_self m⟩
    rw [Nat.succ_sub_one, strlen, if_neg hbyte]
    dsimp only
    exact Prod.ext (by omega) (by omega)
  · obtain ⟨es, maxlen⟩ := s
    dsimp only [strnlenTurn] at ht ⊢
    split_ifs at ht ⊢ with h
    have h0 : strlen mem maxlen es = 0 := by
      cases maxlen with
      | zero => rfl
      | succ m => exact if_pos (by simpa using h)
    rw [h0]
    rfl

lemma putBytes_yields (mem : Bytes) (len : ℤ) (str : ℕ) (f : FormatStruct) :
    Yields (fun k => putBytesLoop mem len k str f)
      (some (putBytes mem len.toNat str f)) := by
  have hloop := yields_loop (putBytesTurn mem len)
    (g := fun s => (max s.1 len, s.2.1 + (len - s.1).toNat,
      putBytes mem (len - s.1).toNat s.2.1 s.2.2)) (fun _ => True) (fun s => (len - s.1).toNat)
    (fun s _ ht => ?_) (fun s _ ht => ?_) (s := (0, str, f)) trivial
  · have hres := hloop.map fun s => s.2.2
    rw [Option.map_some, sub_zero] at hres
    exact hres
  · obtain ⟨i, str, f⟩ := s
    dsimp only [putBytesTurn] at ht ⊢
    split_ifs at ht ⊢ with h
    obtain ⟨j, hj⟩ : ∃ j, (len - i).toNat = j + 1 := ⟨(len - i).toNat - 1, by omega⟩
    have hj' : (len - (i + 1)).toNat = j := by omega
    dsimp only
    rw [hj, hj', putBytes, max_eq_right h.le, max_eq_right (Int.add_one_le_of_lt h)]
    refine ⟨⟨trivial, ?_⟩, Nat.lt_succ_self j⟩
    rw [Nat.add_right_comm, Nat.add_assoc]
  · obtain ⟨i, str, f⟩ := s
    dsimp only [putBytesTurn] at ht ⊢
    split_ifs at ht ⊢ with h
    dsimp only
    rw [Int.toNat_of_nonpos (by omega), max_eq_left (by omega), putBytes]
    rfl

lemma digits_yields (hbase : 2 ≤ base) (hbase' : base ≤ 16) (hn : n < 2 ^ 64) :
    Yields (fun k => digitsLoops base k n)
      (some (digitsLoop base 64 n)) := by
  have hloop := yields_loop (digitsTurn base)
    (g := fun s => (0, s.2 ++ (Nat.digits base s.1).map upperDigit)) (fun s => s.1 < 2 ^ 64)
    Prod.fst (fun s hs ht => ?_) (fun s _ ht => ?_) (s := (n, [])) hn
  · have hres := hloop.map Prod.snd
    rw [Option.map_some, List.nil_append, ← digitsLoop_eq hbase hbase' hn] at hres
    exact hres
  · obtain ⟨n, buf⟩ := s
    dsimp only [digitsTurn] at ht ⊢
    split_ifs at ht ⊢ with h
    have hmod : n % base < 16 := (Nat.mod_lt n (by omega)).trans_le hbase'
    have hlt : n / base < n := Nat.div_lt_self (Nat.pos_of_ne_zero h) hbase
    have hqr : div n base = (n / base, n % base) := archDiv_eq (by omega)
    dsimp only
    rw [hqr, Nat.digits_def' hbase (Nat.pos_of_ne_zero h), List.map_cons]
    dsimp only
    rw [digits_getD _ hmod, List.append_assoc, List.singleton_append]
    exact ⟨⟨hlt.trans hs, rfl⟩, hlt⟩
  · obtain ⟨n, buf⟩ := s
    dsimp only [digitsTurn] at ht ⊢
    split_ifs at ht ⊢ with h
    rw [not_not] at h
    dsimp only
    rw [h, Nat.digits_zero, List.map_nil, List.append_nil]

/-- What does not count up does not end. -/
lemma zeros_yields (i : ℕ) (f : FormatStruct) :
    Yields (fun k => loop (zerosTurn i) k f) (if i < f.pre then none else some f) := by
  by_cases h : i < f.pre
  · rw [if_pos h]
    refine yields_loop_none (fun f => (i : ℤ) < f.pre) (fun f hf => ?_) h
    unfold zerosTurn
    rw [if_pos hf]
    exact ⟨rfl, hf⟩
  · rw [if_neg h]
    refine yields_loop _ (g := id) (fun f => ¬ (i : ℤ) < f.pre) (fun _ => 0) (fun f hf ht => ?_)
      (fun f hf ht => ?_) h
    · unfold zerosTurn at ht
      rw [if_neg hf] at ht
      exact absurd ht Bool.false_ne_true
    · unfold zerosTurn
      rw [if_neg hf]
      rfl

lemma reverse_yields (buf : List UInt8) (f : FormatStruct) :
    Yields (fun k => reverseLoop buf k f)
      (some { f with buf := f.buf ++ buf.reverse }) := by
  have hloop := yields_loop (reverseTurn buf)
    (g := fun s => (0, { s.2 with buf := s.2.buf ++ (buf.take s.1).reverse }))
    (fun s => s.1 ≤ buf.length) Prod.fst (fun s hs ht => ?_) (fun s _ ht => ?_)
    (s := (buf.length, f)) le_rfl
  · have hres := hloop.map Prod.snd
    rw [Option.map_some, List.take_length] at hres
    exact hres
  · obtain ⟨i, f⟩ := s
    dsimp only [reverseTurn] at ht ⊢
    split_ifs at ht ⊢ with h
    obtain ⟨i, rfl⟩ := Nat.exists_eq_succ_of_ne_zero h.ne'
    have hi : i < buf.length := hs
    dsimp only [FormatStruct.put]
    rw [Nat.succ_sub_one, List.take_succ_eq_append_getElem hi, List.reverse_append,
      List.append_assoc, List.getD_eq_getElem _ _ hi]
    exact ⟨⟨hi.le, rfl⟩, Nat.lt_succ_self i⟩
  · obtain ⟨i, f⟩ := s
    dsimp only [reverseTurn] at ht ⊢
    split_ifs at ht ⊢ with h
    obtain rfl : i = 0 := by omega
    dsimp only
    rw [List.take_zero, List.reverse_nil, List.append_nil]

/-- A padding loop that a flag may leave out. -/
lemma pad_unless_yields (b : Bool) (c : UInt8) (bound : ℤ) (f : FormatStruct) :
    Yields (fun k => if b then some f else loop (padTurn c bound) k f)
      (some (if b then f else padWhile c bound f)) := by
  cases b with
  | true => exact Yields.const _
  | false => exact pad_yields c bound f

lemma putChar_yields (f : FormatStruct) (c : Int32) :
    Yields (fun k => putCharLoops k f c) (some (vsprintfPutChar f c)) := by
  have hchar := (pad_unless_yields f.padNeg 32 1 f).bind (β := FormatStruct)
    fun f _ => pad_yields 32 1 (f.put (UInt8.ofNat (c.toInt % 2 ^ 8).toNat))
  exact hchar

lemma putString_yields (mem : Bytes) (f : FormatStruct) (str : ℕ) :
    Yields (fun k => putStringLoops mem k f str) (some (vsprintfPutString mem f str)) := by
  have hstr := (strnlen_yields mem str (f.pre % 2 ^ 32).toNat).bind fun n _ =>
    (pad_unless_yields f.padNeg 32 (int32 n) f).bind fun f _ =>
      (putBytes_yields mem (int32 n) str f).bind fun f _ => pad_yields 32 (int32 n) f
  exact hstr

/-- The digits are written when no zero is. -/
lemma writeDigits_yields (f : FormatStruct) (buf : List UInt8) :
    Yields
      (fun k => (loop (zerosTurn buf.length) k f).bind fun f =>
        (reverseLoop buf k f).bind fun f => loop (padTurn 32 0) k f)
      (if buf.length < f.pre then none
        else some (padWhile 32 0 { f with buf := f.buf ++ buf.reverse })) := by
  have hall := (zeros_yields buf.length f).bind fun f _ =>
    (reverse_yields buf f).bind fun f _ => pad_yields 32 0 f
  by_cases h : buf.length < f.pre
  · rw [if_pos h] at hall ⊢
    exact hall
  · rw [if_neg h] at hall ⊢
    exact hall

/-- Nothing before the digits changes how many there are to be. -/
lemma pre_unless (b : Bool) (c : UInt8) (bound : ℤ) (f : FormatStruct) :
    (if b then f else padWhile c bound f).pre = f.pre := by
  cases b with
  | true => rfl
  | false =>
    rw [if_neg Bool.false_ne_true, padWhile_eq]

lemma pre_sign (b : Bool) (f : FormatStruct) : (if b then f.put 45 else f).pre = f.pre := by
  cases b <;> rfl

lemma writeNumber_yields (f : FormatStruct) (sign : Bool) (buf : List UInt8) :
    Yields (fun k => writeNumberLoops k f sign buf) (writeNumber f sign buf) := by
  unfold writeNumberLoops writeNumber
  generalize (if f.pre < buf.length then (buf.length : ℤ) else f.pre) = pre
  generalize (if f.padNul then 48 else 32 : UInt8) = c
  dsimp only
  refine (pad_unless_yields (f.padNeg || f.padNul) 32 0 _).andThen ?_
  have hpre := pre_unless (f.padNeg || f.padNul) 32 0 { f with pre := pre, pad := f.pad - pre }
  dsimp only at hpre
  generalize (if f.padNeg || f.padNul then _ else _ : FormatStruct) = f at hpre ⊢
  rw [← pre_sign sign f] at hpre
  generalize (if sign then f.put 45 else f) = f at hpre ⊢
  refine (pad_unless_yields f.padNeg c 0 f).andThen ?_
  rw [← pre_unless f.padNeg c 0 f] at hpre
  rw [← hpre]
  exact writeDigits_yields _ buf

lemma putNumber_yields (hbase : 2 ≤ base) (hbase' : base ≤ 16) (hn : n < 2 ^ 64)
    (f : FormatStruct) :
    Yields (fun k => putNumberLoops k f n base) (vsprintfPutNumber f n base) := by
  unfold putNumberLoops vsprintfPutNumber
  simp only [if_neg (by omega : base ≠ 0)]
  generalize (f.sgnPos && decide (2 ^ 63 ≤ n)) = sign
  have hm : (if sign then sub64 0 n else n) < 2 ^ 64 := by
    cases sign with
    | true => exact Nat.mod_lt _ (by decide)
    | false => exact hn
  generalize (if sign then sub64 0 n else n) = m at hm ⊢
  have hbuf : Yields (fun k => if m = 0 then some [48] else digitsLoops base k m)
      (some (if m = 0 then [48] else digitsLoop base 64 m)) := by
    rw [apply_ite some]
    exact Yields.ite (fun _ => Yields.const _) fun _ => digits_yields hbase hbase' hm
  exact hbuf.bind fun buf _ => writeNumber_yields _ sign buf

lemma vaNum_lt {isLongLong : Bool} {args args' : List Arg}
    (h : vaNum isLongLong args = some (n, args')) : n < 2 ^ 64 := by
  cases args with
  | nil => cases h
  | cons a args =>
    cases a with
    | str p => cases h
    | int v =>
      cases isLongLong with
      | true => cases h
      | false =>
        obtain ⟨rfl, -⟩ := Prod.mk.inj (Option.some.inj h)
        omega
    | ulong v =>
      cases isLongLong with
      | true => cases h
      | false =>
        obtain ⟨rfl, -⟩ := Prod.mk.inj (Option.some.inj h)
        exact v.toNat_lt.trans (by decide)
    | ulonglong v =>
      cases isLongLong with
      | true =>
        obtain ⟨rfl, -⟩ := Prod.mk.inj (Option.some.inj h)
        exact v.toNat_lt
      | false => cases h

lemma vsprintfBase_bounds {qual : UInt8}
    (h : qual = 98 ∨ qual = 111 ∨ qual = 100 ∨ qual = 117 ∨ qual = 120) :
    2 ≤ vsprintfBase qual ∧ vsprintfBase qual ≤ 16 := by
  rcases h with rfl | rfl | rfl | rfl | rfl <;> decide

lemma putArgument_yields (mem : Bytes) (fmt : List UInt8) (isLongLong : Bool) (args : List Arg)
    (f : FormatStruct) :
    Yields (fun k => putArgumentLoops mem k fmt isLongLong args f)
      (putArgument mem fmt isLongLong args f) := by
  unfold putArgumentLoops putArgument
  refine Yields.ite (fun _ => ?_) fun _ => Yields.ite (fun _ => ?_) fun _ =>
    Yields.ite (fun hqual => ?_) fun _ => Yields.const _
  · rw [Option.map_eq_bind]
    refine (Yields.const (vaInt args)).bind fun x _ => ?_
    exact (putChar_yields f x.1).map fun f => (fmt.tail, x.2, f.buf)
  · rw [Option.map_eq_bind]
    refine (Yields.const (vaStr args)).bind fun x _ => ?_
    exact (putString_yields mem f x.1).map fun f => (fmt.tail, x.2, f.buf)
  · obtain ⟨hbase, hbase'⟩ := vsprintfBase_bounds hqual
    refine (Yields.const (vaNum isLongLong args)).bind fun x hx => ?_
    exact (putNumber_yields hbase hbase' (vaNum_lt hx) _).map fun f => (fmt.tail, x.2, f.buf)

lemma convert_yields (mem : Bytes) (fmt : List UInt8) (args : List Arg) (buf : List UInt8) :
    Yields (fun k => convertLoops mem k fmt args buf) (convert mem fmt args buf) := by
  unfold convertLoops convert
  dsimp only
  refine (Yields.const (parseWidth _ args _)).bind fun x _ => ?_
  refine (Yields.const (parsePrecision x.1 x.2.1 x.2.2)).bind fun y _ => ?_
  exact putArgument_yields mem _ _ y.2.1 y.2.2

end Elfboot.PrintfLoops
