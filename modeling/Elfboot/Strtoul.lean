import Elfboot.PrintfPieces

/-!
Numbers are read back: `strtoul`, on any string and on what `vsprintf` writes.
-/

namespace Elfboot.Strtoul

open Elfboot.Buffer Elfboot.Word Elfboot.Str Elfboot.Printf Elfboot.PrintfPieces

/-- What a character counts for, where it is a digit of any base. -/
def digitValue (c : UInt8) : Option ℕ :=
  if 48 ≤ c ∧ c ≤ 57 then some (c.toNat - 48)
  else if 97 ≤ c ∧ c ≤ 102 then some (c.toNat - 87)
  else if 65 ≤ c ∧ c ≤ 70 then some (c.toNat - 55)
  else none

def isDigitOf (base : ℕ) (c : UInt8) : Bool := (digitValue c).any (· < base)

/-- The value of a numeral, its first digit the highest one. -/
def valueOf (base : ℕ) (ds : List UInt8) : ℕ :=
  Nat.ofDigits base (ds.map fun c => (digitValue c).getD 0).reverse

/-- The length of the prefix of base 16, with the letter in either case. -/
def prefixLength (base : ℕ) (l : List UInt8) : ℕ :=
  if base = 16 ∧ l.head? = some 48 ∧ (l[1]? = some 120 ∨ l[1]? = some 88) then 2 else 0

/-- The longest part of digits that the string has behind the prefix. -/
def numeralOf (base : ℕ) (l : List UInt8) : List UInt8 :=
  (l.drop (prefixLength base l)).takeWhile (isDigitOf base)

variable {b : Bytes} {s n base r : ℕ} {l : List UInt8} {c : UInt8}

lemma digit_read (c : UInt8) : digitValue c = if isXdigit c then
    some (if isDigit c then c.toNat - 48 else (toLower c).toNat - 97 + 10) else none := by
  have hall : ∀ i < 256, digitValue (UInt8.ofNat i) = if isXdigit (UInt8.ofNat i) then
      some (if isDigit (UInt8.ofNat i) then (UInt8.ofNat i).toNat - 48
        else (toLower (UInt8.ofNat i)).toNat - 97 + 10) else none := by
    decide +kernel
  have hc := hall c.toNat c.toNat_lt
  rwa [UInt8.ofNat_toNat] at hc

lemma lower_x_iff (c : UInt8) : toLower c = 120 ↔ c = 120 ∨ c = 88 := by
  have hall : ∀ i < 256, toLower (UInt8.ofNat i) = 120 ↔
      UInt8.ofNat i = 120 ∨ UInt8.ofNat i = 88 := by
    decide +kernel
  have hc := hall c.toNat c.toNat_lt
  rwa [UInt8.ofNat_toNat] at hc

lemma valueOf_cons (ds : List UInt8) : valueOf base (c :: ds) =
    (digitValue c).getD 0 * base ^ ds.length + valueOf base ds := by
  rw [valueOf, List.map_cons, List.reverse_cons, Nat.ofDigits_append, Nat.ofDigits_singleton,
    List.length_reverse, List.length_map, Nat.mul_comm, Nat.add_comm, valueOf]

/-- **The loop** reads the digits that the string begins with. -/
lemma strtoulLoop_eq (base : ℕ) (h : CStr b s l) (hn : l.length ≤ n) (r : ℕ) :
    strtoulLoop b base n s (u32 r) =
      (u32 (r * base ^ (l.takeWhile (isDigitOf base)).length +
          valueOf base (l.takeWhile (isDigitOf base))),
        s + (l.takeWhile (isDigitOf base)).length) := by
  induction l generalizing n s r with
  | nil =>
    have hzero : strtoulLoop b base n s (u32 r) = (u32 r, s) := by
      cases n with
      | zero => rfl
      | succ n =>
        rw [strtoulLoop, show b s = 0 from h]
        rfl
    rw [hzero, List.takeWhile_nil, List.length_nil, pow_zero, Nat.mul_one]
    rfl
  | cons c l ih =>
    obtain ⟨n, rfl⟩ : ∃ j, n = j + 1 := ⟨n - 1, by rw [List.length_cons] at hn; omega⟩
    obtain ⟨hc, -, hl⟩ := h
    have hread := digit_read c
    rw [strtoulLoop, hc]
    cases hx : isXdigit c with
    | false =>
      have hnot : ¬ isDigitOf base c = true := by
        rw [isDigitOf, hread, hx, if_neg Bool.false_ne_true]
        exact Bool.false_ne_true
      rw [if_neg Bool.false_ne_true, List.takeWhile_cons_of_neg hnot, List.length_nil, pow_zero,
        Nat.mul_one]
      rfl
    | true =>
      rw [hx, if_pos rfl] at hread
      rw [if_pos rfl]
      dsimp only
      obtain ⟨v, hv⟩ : ∃ v, v = if isDigit c then c.toNat - 48 else (toLower c).toNat - 97 + 10 :=
        ⟨_, rfl⟩
      rw [← hv] at hread ⊢
      have hdigit : isDigitOf base c = decide (v < base) := by
        rw [isDigitOf, hread, Option.any_some]
      by_cases hlt : v < base
      · rw [if_neg (not_le.2 hlt), List.takeWhile_cons_of_pos (hdigit.trans (decide_eq_true hlt)),
          List.length_cons, valueOf_cons, hread, Option.getD_some]
        have hstep : u32 (u32 r * base + v) = u32 (r * base + v) := by
          unfold u32
          rw [Nat.add_mod, Nat.mod_mul_mod, ← Nat.add_mod]
        rw [hstep, ih hl (Nat.le_of_succ_le_succ hn)]
        refine Prod.ext (congrArg u32 ?_) (by dsimp only; omega)
        ring
      · have hnot : ¬ isDigitOf base c = true := by
          rw [hdigit, decide_eq_true_eq]
          exact hlt
        rw [if_pos (not_lt.1 hlt), List.takeWhile_cons_of_neg hnot, List.length_nil, pow_zero,
          Nat.mul_one]
        rfl

lemma prefix_iff (h : CStr b s l) : (b s = 48 ∧ toLower (b (s + 1)) = 120) ↔
    l.head? = some 48 ∧ (l[1]? = some 120 ∨ l[1]? = some 88) := by
  rw [lower_x_iff]
  cases l with
  | nil =>
    refine iff_of_false (fun hp => ?_) fun hp => Option.some_ne_none 48 hp.1.symm
    rw [show b s = 0 from h] at hp
    exact absurd hp.1 (by decide)
  | cons c l =>
    obtain ⟨hc, -, hl⟩ := h
    rw [hc, List.head?_cons, Option.some_inj, List.getElem?_cons_succ]
    cases l with
    | nil =>
      refine and_congr_right fun _ => iff_of_false (fun hp => ?_) fun hp => ?_
      · rw [show b (s + 1) = 0 from hl] at hp
        exact absurd hp (by decide)
      · exact hp.elim (fun hp => Option.some_ne_none _ hp.symm)
          fun hp => Option.some_ne_none _ hp.symm
    | cons d l =>
      rw [hl.1, List.getElem?_cons_zero, Option.some_inj, Option.some_inj]

lemma strtoul_eq (h : CStr b s l) (hn : l.length ≤ n) (hbase : base ≠ 0) :
    strtoul b n s base = (u32 (valueOf base (numeralOf base l)),
      s + prefixLength base l + (numeralOf base l).length) := by
  have hprefix : (if base = 16 ∧ b s = 48 ∧ toLower (b (s + 1)) = 120 then s + 2 else s) =
      s + prefixLength base l := by
    simp only [prefix_iff h, prefixLength]
    split_ifs <;> rfl
  have hle : prefixLength base l ≤ l.length := by
    unfold prefixLength
    split_ifs with hp
    · obtain ⟨-, -, hsecond⟩ := hp
      by_contra hlt
      rw [List.getElem?_eq_none (by omega)] at hsecond
      exact hsecond.elim (fun hp => Option.some_ne_none _ hp.symm)
        fun hp => Option.some_ne_none _ hp.symm
    · exact Nat.zero_le _
  have hbody : CStr b (s + prefixLength base l) (l.drop (prefixLength base l)) := by
    have hdrop : CStr b s (l.take (prefixLength base l) ++ l.drop (prefixLength base l)) := by
      rwa [List.take_append_drop]
    have hrest := hdrop.drop
    rwa [List.length_take, Nat.min_eq_left hle] at hrest
  have hlen : (l.drop (prefixLength base l)).length ≤ n := by
    rw [List.length_drop]
    omega
  have hloop := strtoulLoop_eq base hbody hlen 0
  rw [Nat.zero_mul, Nat.zero_add] at hloop
  unfold strtoul
  dsimp only
  rw [if_neg hbase, hprefix]
  exact hloop

/-! ### What is written -/

lemma digitValue_upper : ∀ d < 16, digitValue (upperDigit d) = some d ∧ upperDigit d ≠ 0 ∧
    upperDigit d ≠ 120 ∧ upperDigit d ≠ 88 := by
  decide

/-- The digits of a numeral, the last one first. -/
def numeralDigits (base n : ℕ) : List ℕ := if n = 0 then [0] else Nat.digits base n

lemma numeral_eq (base n : ℕ) :
    numeral base n = (numeralDigits base n).reverse.map upperDigit := by
  unfold numeral numeralDigits
  split_ifs <;> rfl

lemma numeralDigits_lt (hbase : 2 ≤ base) {v d : ℕ} (hd : d ∈ numeralDigits base v) :
    d < base := by
  unfold numeralDigits at hd
  split_ifs at hd with hv
  · rw [List.mem_singleton.1 hd]
    exact Nat.lt_of_lt_of_le Nat.zero_lt_two hbase
  · exact Nat.digits_lt_base hbase hd

lemma ofDigits_numeral (base v : ℕ) : Nat.ofDigits base (numeralDigits base v) = v := by
  unfold numeralDigits
  split_ifs with hv
  · rw [hv, Nat.ofDigits_singleton]
  · exact Nat.ofDigits_digits base v

/-- The characters of a numeral are digits, and have the values they were written for. -/
lemma mem_numeral (hbase : 2 ≤ base) (hbase' : base ≤ 16) {v : ℕ} (hc : c ∈ numeral base v) :
    isDigitOf base c = true ∧ c ≠ 0 ∧ c ≠ 120 ∧ c ≠ 88 := by
  rw [numeral_eq, List.mem_map] at hc
  obtain ⟨d, hd, rfl⟩ := hc
  have hlt := numeralDigits_lt hbase (List.mem_reverse.1 hd)
  obtain ⟨hvalue, hrest⟩ := digitValue_upper d (Nat.lt_of_lt_of_le hlt hbase')
  refine ⟨?_, hrest⟩
  rw [isDigitOf, hvalue, Option.any_some]
  exact decide_eq_true hlt

lemma valueOf_numeral (hbase : 2 ≤ base) (hbase' : base ≤ 16) (v : ℕ) :
    valueOf base (numeral base v) = v := by
  have hmap : (numeralDigits base v).map ((fun c => (digitValue c).getD 0) ∘ upperDigit) =
      numeralDigits base v := by
    refine (List.map_congr_left fun d hd => ?_).trans (List.map_id _)
    have hlt := Nat.lt_of_lt_of_le (numeralDigits_lt hbase hd) hbase'
    rw [Function.comp_apply, (digitValue_upper d hlt).1]
    rfl
  rw [valueOf, numeral_eq, List.map_map, ← List.map_reverse, List.reverse_reverse, hmap,
    ofDigits_numeral]

/-- A numeral is read back whole. -/
lemma strtoul_numeral (hbase : 2 ≤ base) (hbase' : base ≤ 16) {v : ℕ} (hv : v < 2 ^ 32)
    (h : CStr b s (numeral base v)) (hn : (numeral base v).length ≤ n) :
    strtoul b n s base = (v, s + (numeral base v).length) := by
  have hprefix : prefixLength base (numeral base v) = 0 := by
    refine if_neg fun hp => ?_
    rcases hp.2.2 with hx | hx
    · exact (mem_numeral hbase hbase' (List.mem_of_getElem? hx)).2.2.1 rfl
    · exact (mem_numeral hbase hbase' (List.mem_of_getElem? hx)).2.2.2 rfl
  have hall : numeralOf base (numeral base v) = numeral base v := by
    rw [numeralOf, hprefix, List.drop_zero, List.takeWhile_eq_self_iff]
    exact fun c hc => (mem_numeral hbase hbase' hc).1
  rw [strtoul_eq h hn (by omega), hall, hprefix, valueOf_numeral hbase hbase', u32_of_lt hv,
    Nat.add_zero]

/-- The piece of a format that is a number of type `unsigned long`. -/
def longPiece (mem : Bytes) (base : Base) (v : UInt32) : Piece mem :=
  .conv ⟨[], .none, .num base true v⟩

lemma output_long (mem : Bytes) (base : Base) (v : UInt32) :
    output [longPiece mem base v] = numeral base.value v.toNat := by
  have hpad : padded false (if True ∧ Flag.zero ∈ [] then 48 else 32) 0
      (numeral base.value v.toNat) = numeral base.value v.toNat := by
    rw [padded, if_neg Bool.false_ne_true, Nat.zero_sub]
    rfl
  rw [output, List.flatMap_singleton]
  exact hpad

/-- What `%lo`, `%lu` and `%lx` write. -/
lemma vsprintf_long (mem : Bytes) (base : Base) (v : UInt32) :
    (vsprintf mem (chars ['%', 'l'] ++ [base.qual]) [.ulong v]).map Prod.fst =
      some (numeral base.value v.toNat ++ [0]) := by
  have hpieces := vsprintf_spec mem [longPiece mem base v] []
  have hfmt : format [longPiece mem base v] = chars ['%', 'l'] ++ [base.qual] := rfl
  have hargs : arguments [longPiece mem base v] ++ [] = [.ulong v] := rfl
  rw [output_long, hfmt, hargs] at hpieces
  rw [hpieces]
  rfl

/-- **Printing and reading**: of a number that is written `strtoul` gives the value, and where the
text ends; of any string, the value of the longest part of digits that it has behind the prefix. -/
theorem strtoul_inverse {radix : ℕ} (h : CStr b s l) (hn : l.length ≤ n) (hradix : 2 ≤ radix)
    (hradix' : radix ≤ 16) (mem : Bytes) (base : Base) (v : UInt32) :
    (∃ text, (vsprintf mem (chars ['%', 'l'] ++ [base.qual]) [.ulong v]).map Prod.fst =
        some (text ++ [0]) ∧ 0 ∉ text ∧
      ∀ (b : Bytes) (s n : ℕ), (∀ i (hi : i < (text ++ [0]).length), b (s + i) = (text ++ [0])[i]) →
        text.length ≤ n → strtoul b n s base.value = (v.toNat, s + text.length)) ∧
      strtoul b n s radix = (valueOf radix (numeralOf radix l) % 2 ^ 32,
        s + prefixLength radix l + (numeralOf radix l).length) := by
  have hbase : 2 ≤ base.value ∧ base.value ≤ 16 := by
    cases base <;> decide
  refine ⟨⟨_, vsprintf_long mem base v, fun h0 => ?_, fun b s n hb hn => ?_⟩, ?_⟩
  · exact (mem_numeral hbase.1 hbase.2 h0).2.1 rfl
  · refine strtoul_numeral hbase.1 hbase.2 v.toNat_lt (CStr.of_get (fun i hi => ?_) ?_ ?_) hn
    · rw [hb i (by rw [List.length_append]; omega), List.getElem_append_left hi]
    · exact fun c hc => (mem_numeral hbase.1 hbase.2 hc).2.1
    · rw [hb _ (by rw [List.length_append]; exact Nat.lt_succ_self _),
        List.getElem_concat_length rfl]
  · exact strtoul_eq h hn (by omega)

/-- A prefix, digits, and what is none. -/
abbrev text : List UInt8 := chars ['0', 'X', '1', 'f', 'G']

def textBytes : Bytes := fun i => text.getD i 0

lemma strtoul_inverse_text :
    (∃ text, (vsprintf textBytes (chars ['%', 'l', 'x']) [.ulong 0xc0ffee]).map Prod.fst =
        some (text ++ [0]) ∧ 0 ∉ text ∧
      ∀ (b : Bytes) (s n : ℕ), (∀ i (hi : i < (text ++ [0]).length), b (s + i) = (text ++ [0])[i]) →
        text.length ≤ n → strtoul b n s 16 = (0xc0ffee, s + text.length)) ∧
      strtoul textBytes 5 0 16 = (31, 4) :=
  strtoul_inverse (l := text) (by decide) (by decide) (by decide) (by decide) textBytes .x 0xc0ffee

end Elfboot.Strtoul
