import Elfboot.Str
import Elfboot.Spans

/-!
`strtok` and `strtok_r`, called again and again.

They were written apart, and keep the place they have come to in different ways. What is said of
both is said of any tokenizer: a call skips delimiters, ends the token that follows, and goes on
behind it.
-/

namespace Elfboot.Tokenizers

open Elfboot.Buffer Elfboot.Str Elfboot.Spans

/-- The first call of `strtok` with the string, and the ones with `NULL` after it. -/
def strtokCalls (n : ℕ) (b : Bytes) (s : ℕ) (delim : List UInt8) (p : Option ℕ) :
    ℕ → Option ℕ × Option ℕ × Bytes
  | 0 => strtok b n (some s) delim p
  | k + 1 =>
    let (_, p, b) := strtokCalls n b s delim p k
    strtok b n none delim p

def strtokRCalls (n : ℕ) (b : Bytes) (s : ℕ) (delim : List UInt8) (store : ℕ) :
    ℕ → Option ℕ × ℕ × Bytes
  | 0 => strtokR b n (some s) delim store
  | k + 1 =>
    let (_, store, b) := strtokRCalls n b s delim store k
    strtokR b n none delim store

/-- The characters of tokens. -/
def inToken (delim : List UInt8) (c : UInt8) : Bool := c ∉ delim

/-- The calls give the tokens of the string `l`, and then `NULL`; each token ends where it should
from its call on, and outside of the string nothing changes. -/
structure Tokenizes {π : Type} (calls : ℕ → Option ℕ × π × Bytes) (b : Bytes) (s : ℕ)
    (l : List UInt8) (toks : List (ℕ × List UInt8)) : Prop where
  token : ∀ k, (calls k).1 = toks[k]?.map fun w => s + w.1
  ends : ∀ k, ∀ w ∈ toks.take (k + 1), CStr (calls k).2.2 (s + w.1) w.2
  frame : ∀ k i, i < s ∨ s + l.length ≤ i → (calls k).2.2 i = b i

/-- What is common to the two: the calls with `NULL`, and how the pointer that is kept says that
the string `l` at `q` is still to come. Of an empty string the place is not kept. -/
structure Tokenizer (n : ℕ) (delim : List UInt8) (π : Type) where
  call : Bytes → π → Option ℕ × π × Bytes
  At : Bytes → π → ℕ → List UInt8 → Prop
  done : ∀ {b p q l}, At b p q l → (∀ c ∈ l, c ∈ delim) → l.length ≤ n →
    ∃ p', call b p = (none, p', b) ∧ At b p' q []
  token : ∀ {b p q u w v}, At b p q (u ++ (w ++ v)) → (∀ c ∈ u, c ∈ delim) →
    (∀ c ∈ w, c ∉ delim) → w ≠ [] → (∀ c ∈ v.head?, c ∈ delim) → (u ++ (w ++ v)).length ≤ n →
    ∃ p' b', call b p = (some (q + u.length), p', b') ∧ CStr b' (q + u.length) w ∧
      At b' p' (q + u.length + w.length + 1) v.tail ∧
      ∀ i, i ≠ q + u.length + w.length ∨ v = [] → b' i = b i

variable {n : ℕ} {delim : List UInt8}

def strtokTokenizer (n : ℕ) (delim : List UInt8) : Tokenizer n delim (Option ℕ) where
  call b p := strtok b n none delim p
  At b p q l := p = none ∧ l = [] ∨ p = some q ∧ CStr b q l
  done := by
    intro b p q l h hl hn
    have hrest : Rest b (Option.or none p) l := by
      rw [Option.none_or]
      exact h.imp id fun h => ⟨q, h⟩
    exact ⟨_, strtok_none hrest hl hn, .inl ⟨rfl, rfl⟩⟩
  token := by
    intro b p q u w v h hu hw hne hv hn
    obtain ⟨rfl, hstr⟩ : p = some q ∧ CStr b q (u ++ (w ++ v)) := by
      refine h.resolve_left fun hnil => ?_
      rw [List.append_eq_nil_iff, List.append_eq_nil_iff] at hnil
      exact hne hnil.2.2.1
    obtain ⟨hword, hrest, hlast⟩ := hstr.cut_token
    refine ⟨_, _, strtok_cuts rfl hstr hu hw hne hv hn, hword, ?_, fun i hi => ?_⟩
    · by_cases hv0 : v = []
      · rw [if_pos hv0, hv0]
        exact .inl ⟨rfl, rfl⟩
      · rw [if_neg hv0]
        exact .inr ⟨rfl, hrest hv0⟩
    · rcases hi with hi | hv0
      · exact Function.update_of_ne hi 0 b
      · rw [hlast hv0]

def strtokRTokenizer (n : ℕ) (delim : List UInt8) : Tokenizer n delim ℕ where
  call b store := strtokR b n none delim store
  At b store q l := CStr b store l ∧ (l = [] ∨ store = q)
  done := by
    intro b store q l h hl hn
    have hstore : (Option.none : Option ℕ).getD store = store := rfl
    obtain ⟨store', hcall, hend⟩ := strtokR_none hstore h.1 hl hn
    exact ⟨store', hcall, hend, .inl rfl⟩
  token := by
    intro b store q u w v ⟨h, hq⟩ hu hw hne hv hn
    obtain rfl : store = q := by
      refine hq.resolve_left fun hnil => ?_
      rw [List.append_eq_nil_iff, List.append_eq_nil_iff] at hnil
      exact hne hnil.2.1
    obtain ⟨hword, hrest, hlast⟩ := h.cut_token
    refine ⟨_, _, strtokR_cuts rfl h hu hw hne hv hn, hword, ?_, fun i hi => ?_⟩
    · by_cases hv0 : v = []
      · rw [if_pos hv0, hlast hv0]
        subst hv0
        exact ⟨h.drop.drop, .inl rfl⟩
      · rw [if_neg hv0]
        exact ⟨hrest hv0, .inr rfl⟩
    · rcases hi with hi | hv0
      · exact Function.update_of_ne hi 0 b
      · rw [hlast hv0]

/-! ### Any tokenizer -/

section anyTokenizer

variable {π : Type} {T : Tokenizer n delim π} {toks : List (ℕ × List UInt8)} {b₀ b : Bytes}
  {s k : ℕ} {l : List UInt8} {p : π}

def Tokenizer.calls (T : Tokenizer n delim π) (b : Bytes) (p : π) : ℕ → Option ℕ × π × Bytes
  | 0 => T.call b p
  | k + 1 => T.call (T.calls b p k).2.2 (T.calls b p k).2.1

/-- Before a call, with `k` tokens found: what is left of the string has the others, and those found
stay as they are. -/
structure Found (T : Tokenizer n delim π) (toks : List (ℕ × List UInt8)) (b₀ : Bytes) (s : ℕ)
    (l : List UInt8) (k : ℕ) (b : Bytes) (p : π) : Prop where
  rest : ∃ i r, T.At b p (s + i) r ∧ spans (inToken delim) i r = toks.drop k ∧ r.length ≤ n ∧
    (r = [] ∨ i + r.length = l.length) ∧ ∀ w ∈ toks.take k, r = [] ∨ w.1 + w.2.length < i
  ends : ∀ w ∈ toks.take k, CStr b (s + w.1) w.2
  frame : ∀ i, i < s ∨ s + l.length ≤ i → b i = b₀ i

lemma inToken_iff {c : UInt8} : inToken delim c = true ↔ c ∉ delim := decide_eq_true_iff

lemma inToken_false_iff {c : UInt8} : inToken delim c = false ↔ c ∈ delim := by
  rw [← Bool.not_eq_true, inToken_iff, not_not]

/-- **One call** gives the next token, if there is one. -/
lemma found_call (h : Found T toks b₀ s l k b p) :
    (T.call b p).1 = toks[k]?.map (fun w => s + w.1) ∧
      Found T toks b₀ s l (k + 1) (T.call b p).2.2 (T.call b p).2.1 := by
  obtain ⟨⟨i, r, hat, hspans, hn, hlen, hbefore⟩, hends, hframe⟩ := h
  rcases cases_span (inToken delim) r with hall | ⟨u, w, v, rfl, hu, hw, hne, hv⟩
  · have hnil : toks.drop k = [] := by
      have hskip := spans_skip (i := i) (v := []) hall
      rw [List.append_nil, hspans] at hskip
      exact hskip
    have hk : toks.length ≤ k := List.drop_eq_nil_iff.1 hnil
    obtain ⟨p', hcall, hat'⟩ := T.done hat (fun c hc => inToken_false_iff.1 (hall c hc)) hn
    have htake : toks.take (k + 1) = toks.take k := by
      rw [List.take_of_length_le hk, List.take_of_length_le (Nat.le_succ_of_le hk)]
    rw [hcall, List.getElem?_eq_none hk]
    refine ⟨rfl, ⟨i, [], hat', ?_, Nat.zero_le n, .inl rfl, fun _ _ => .inl rfl⟩, ?_, hframe⟩
    · exact (List.drop_eq_nil_iff.2 (Nat.le_succ_of_le hk)).symm
    · rwa [htake]
  · have hspans' : toks.drop k =
        (i + u.length, w) :: spans (inToken delim) (i + u.length + w.length + 1) v.tail := by
      rw [← hspans, spans_skip hu, spans_span hw hne hv]
    obtain ⟨hlt, hget, hdrop⟩ : ∃ h : k < toks.length, toks[k] = (i + u.length, w) ∧
        toks.drop (k + 1) = spans (inToken delim) (i + u.length + w.length + 1) v.tail := by
      have hlt : k < toks.length := by
        refine Nat.lt_of_not_le fun hle => ?_
        rw [List.drop_eq_nil_iff.2 hle] at hspans'
        cases hspans'
      rw [List.drop_eq_getElem_cons hlt] at hspans'
      exact ⟨hlt, List.cons.inj hspans'⟩
    have hnonempty : u ++ (w ++ v) ≠ [] := by
      rw [ne_eq, List.append_eq_nil_iff, List.append_eq_nil_iff]
      exact fun hnil => hne hnil.2.1
    have hlen' := hlen.resolve_left hnonempty
    obtain ⟨p', b', hcall, hword, hat', hframe'⟩ := T.token hat
      (fun c hc => inToken_false_iff.1 (hu c hc)) (fun c hc => inToken_iff.1 (hw c hc)) hne
      (fun c hc => inToken_false_iff.1 (hv c hc)) hn
    rw [List.length_append, List.length_append] at hlen' hn
    have hpos : v = [] ∨ 0 < v.length := (em (v = [])).imp id List.length_pos_iff.2
    have htake : toks.take (k + 1) = toks.take k ++ [(i + u.length, w)] := by
      rw [List.take_succ_eq_append_getElem hlt, hget]
    rw [hcall, List.getElem?_eq_getElem hlt, hget]
    refine ⟨congrArg some (Nat.add_assoc _ _ _), ⟨_, v.tail, ?_, hdrop.symm, ?_, ?_, ?_⟩, ?_, ?_⟩
    · simp only [Nat.add_assoc] at hat' ⊢
      exact hat'
    · rw [List.length_tail]
      omega
    · rw [List.length_tail]
      refine hpos.imp (fun hv0 => ?_) fun hv0 => ?_
      · rw [hv0, List.tail_nil]
      · omega
    · intro x hx
      rw [htake, List.mem_append, List.mem_singleton] at hx
      right
      rcases hx with hx | rfl
      · have hold := (hbefore x hx).resolve_left hnonempty
        omega
      · exact Nat.lt_succ_self _
    · intro x hx
      rw [htake, List.mem_append, List.mem_singleton] at hx
      rcases hx with hx | rfl
      · have hold := (hbefore x hx).resolve_left hnonempty
        exact (hends x hx).congr fun j _ hj => hframe' j (.inl (by omega))
      · rw [← Nat.add_assoc]
        exact hword
    · intro j hj
      refine (hframe' j ?_).trans (hframe j hj)
      exact (hpos.imp id fun hv0 => by omega).symm

/-- **A run of calls** from the start of the string. -/
theorem tokenizes (hat : T.At b p s l) (hn : l.length ≤ n) :
    Tokenizes (T.calls b p) b s l (spans (inToken delim) 0 l) := by
  have hstart : Found T (spans (inToken delim) 0 l) b s l 0 b p := by
    refine ⟨⟨0, l, hat, rfl, hn, .inr (Nat.zero_add _), ?_⟩, ?_, fun _ _ => rfl⟩
    · exact List.forall_mem_nil _
    · exact List.forall_mem_nil _
  have hrun : ∀ k, (T.calls b p k).1 = (spans (inToken delim) 0 l)[k]?.map (fun w => s + w.1) ∧
      Found T (spans (inToken delim) 0 l) b s l (k + 1) (T.calls b p k).2.2
        (T.calls b p k).2.1 := by
    intro k
    induction k with
    | zero => exact found_call hstart
    | succ k ih => exact found_call ih.2
  exact ⟨fun k => (hrun k).1, fun k => (hrun k).2.ends, fun k => (hrun k).2.frame⟩

end anyTokenizer

/-! ### The two of them -/

variable {b c : Bytes} {s t : ℕ} {l : List UInt8}

lemma strtokCalls_eq (p : Option ℕ) (k : ℕ) :
    strtokCalls n b s delim p k = (strtokTokenizer n delim).calls b (some s) k := by
  induction k with
  | zero => rfl
  | succ k ih => rw [strtokCalls, ih, Tokenizer.calls, strtokTokenizer]

lemma strtokRCalls_eq (store k : ℕ) :
    strtokRCalls n b s delim store k = (strtokRTokenizer n delim).calls b s k := by
  induction k with
  | zero => rfl
  | succ k ih => rw [strtokRCalls, ih, Tokenizer.calls, strtokRTokenizer]

/-- **The two tokenizers agree**: on a string and a copy of it both give the maximal stretches
without delimiters, in order, and then nothing. -/
theorem tokenizers_agree (h : CStr b s l) (hcopy : CStr c t l) (hn : l.length ≤ n)
    (delim : List UInt8) (p : Option ℕ) (store : ℕ) :
    ∃ toks : List (ℕ × List UInt8),
      (toks.Pairwise fun v w => v.1 < w.1) ∧
      (∀ i w, (i, w) ∈ toks ↔ IsSpan (inToken delim) 0 l i w) ∧
      Tokenizes (strtokCalls n b s delim p) b s l toks ∧
      Tokenizes (strtokRCalls n c t delim store) c t l toks := by
  refine ⟨spans (inToken delim) 0 l, spans_ascending, fun i w => mem_spans_iff, ?_, ?_⟩
  · rw [funext (strtokCalls_eq p)]
    exact tokenizes (T := strtokTokenizer n delim) (.inr ⟨rfl, h⟩) hn
  · rw [funext (strtokRCalls_eq store)]
    exact tokenizes (T := strtokRTokenizer n delim) ⟨hcopy, .inr rfl⟩ hn

/-- Two delimiters, with others in front, between and behind. -/
abbrev text : List UInt8 := chars [',', 'a', 'b', ';', ',', 'c', ';']

def textAt (s : ℕ) : Bytes := fun i => text.getD (i - s) 0

lemma tokenizers_agree_text : ∃ toks : List (ℕ × List UInt8),
    (toks.Pairwise fun v w => v.1 < w.1) ∧
    (∀ i w, (i, w) ∈ toks ↔ IsSpan (inToken (chars [',', ';'])) 0 text i w) ∧
    Tokenizes (strtokCalls 7 (textAt 16) 16 (chars [',', ';']) none) (textAt 16) 16 text toks ∧
    Tokenizes (strtokRCalls 7 (textAt 48) 48 (chars [',', ';']) 0) (textAt 48) 48 text toks :=
  tokenizers_agree (by decide) (by decide) (by decide) (chars [',', ';']) none 0

end Elfboot.Tokenizers
