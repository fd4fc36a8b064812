import Elfboot.Str

/-!
Two buffers that hold the same string, and what the functions of `string.c` make of them.

The string may lie at different places in the two, and what lies behind its terminator does not
matter: the functions find, copy and cut the same of both.
-/

namespace Elfboot.StrTwin

open Elfboot.Buffer Elfboot.Str

/-- From `p` and from `q` on the buffers hold the same `len` bytes and a terminator. -/
structure Twin (b c : Bytes) (p q len : ℕ) : Prop where
  same : ∀ j ≤ len, b (p + j) = c (q + j)
  stop : b (p + len) = 0

variable {b c : Bytes} {p q len x n : ℕ} {l : List UInt8}

lemma twin_cstr (hb : CStr b p l) (hc : CStr c q l) : Twin b c p q l.length := by
  refine ⟨fun j hj => ?_, hb.end⟩
  rcases Nat.eq_or_lt_of_le hj with rfl | hlt
  · rw [hb.end, hc.end]
  · rw [hb.get hlt, hc.get hlt]

lemma Twin.cstr (h : Twin b c p q l.length) (hb : CStr b p l) : CStr c q l := by
  refine CStr.of_get (fun i hi => ?_) (fun d hd => hb.ne_zero hd) ?_
  · rw [← h.same i hi.le, hb.get hi]
  · rw [← h.same _ le_rfl, h.stop]

section

variable (h : Twin b c p q len)
include h

/-- Only the terminator ends the string. -/
lemma Twin.lt (hx : x ≤ len) (hne : b (p + x) ≠ 0) : x + 1 ≤ len := by
  rcases Nat.eq_or_lt_of_le hx with rfl | hlt
  · exact absurd h.stop hne
  · exact hlt

lemma Twin.strspn (hx : x ≤ len) (n : ℕ) (delim : List UInt8) :
    strspn c delim n (q + x) = strspn b delim n (p + x) ∧
      x + strspn b delim n (p + x) ≤ len := by
  induction n generalizing x with
  | zero => exact ⟨rfl, hx⟩
  | succ n ih =>
    unfold Str.strspn
    rw [← h.same x hx]
    split_ifs with hd
    · obtain ⟨heq, hle⟩ := ih (h.lt hx hd.1)
      rw [Nat.add_assoc, Nat.add_assoc]
      exact ⟨congrArg (· + 1) heq, by omega⟩
    · exact ⟨rfl, hx⟩

lemma Twin.strcspn (hx : x ≤ len) (n : ℕ) (delim : List UInt8) :
    strcspn c delim n (q + x) = strcspn b delim n (p + x) ∧
      x + strcspn b delim n (p + x) ≤ len := by
  induction n generalizing x with
  | zero => exact ⟨rfl, hx⟩
  | succ n ih =>
    unfold Str.strcspn
    rw [← h.same x hx]
    split_ifs with h0 hd
    · exact ⟨rfl, hx⟩
    · exact ⟨rfl, hx⟩
    · obtain ⟨heq, hle⟩ := ih (h.lt hx h0)
      rw [Nat.add_assoc, Nat.add_assoc]
      exact ⟨congrArg (· + 1) heq, by omega⟩

lemma Twin.strlen (hx : x ≤ len) (n : ℕ) : strlen c n (q + x) = strlen b n (p + x) ∧
    x + strlen b n (p + x) ≤ len := by
  induction n generalizing x with
  | zero => exact ⟨rfl, hx⟩
  | succ n ih =>
    unfold Str.strlen
    rw [← h.same x hx]
    split_ifs with h0
    · exact ⟨rfl, hx⟩
    · obtain ⟨heq, hle⟩ := ih (h.lt hx h0)
      rw [Nat.add_assoc, Nat.add_assoc]
      exact ⟨congrArg (· + 1) heq, by omega⟩

lemma Twin.strcmp (hx : x ≤ len) {lit : List UInt8} (hlit : 0 ∉ lit) :
    strcmp c (q + x) lit = strcmp b (p + x) lit := by
  induction lit generalizing x with
  | nil =>
    unfold Str.strcmp
    rw [← h.same x hx]
  | cons d lit ih =>
    rw [List.mem_cons, not_or] at hlit
    unfold Str.strcmp
    rw [← h.same x hx]
    dsimp only
    split_ifs with hdelta
    · rfl
    · have hd : b (p + x) = d := (delta_zero _ _).1 (not_not.1 hdelta)
      exact ih (h.lt hx (hd ▸ Ne.symm hlit.1)) hlit.2

lemma Twin.memcpy {k : ℕ} (hk : x + k ≤ len) (old : Bytes) :
    memcpy old 0 c (q + x) (k + 1) = memcpy old 0 b (p + x) (k + 1) := by
  funext i
  unfold Buffer.memcpy
  split_ifs with hi
  · rw [Nat.add_assoc, Nat.add_assoc]
    exact (h.same _ (by omega)).symm
  · rfl

/-- The same byte is cut. -/
lemma Twin.cut (x : ℕ) :
    Twin (Function.update b (p + x) 0) (Function.update c (q + x) 0) p q len := by
  refine ⟨fun j hj => ?_, ?_⟩
  · by_cases hjx : j = x
    · rw [hjx, Function.update_self, Function.update_self]
    · rw [Function.update_of_ne (by omega), Function.update_of_ne (by omega)]
      exact h.same j hj
  · by_cases hlen : len = x
    · rw [hlen, Function.update_self]
    · rw [Function.update_of_ne (by omega)]
      exact h.stop

/-- **The tokenizer** finds the same token in both, and writes nothing from the terminator on. -/
theorem Twin.strtokR {str str' : Option ℕ} {store store' : ℕ} (hstr : str.getD store = p + x)
    (hstr' : str'.getD store' = q + x) (hx : x ≤ len) (n : ℕ) (delim : List UInt8) :
    ∃ (tok : Option ℕ) (st : ℕ) (b' c' : Bytes),
      strtokR b n str delim store = (tok.map (p + ·), p + st, b') ∧
      strtokR c n str' delim store' = (tok.map (q + ·), q + st, c') ∧
      Twin b' c' p q len ∧ st ≤ len ∧ (∀ t ∈ tok, t ≤ len) ∧
      ∀ j, p + len ≤ j → b' j = b j := by
  obtain ⟨hspn, hspn_le⟩ := h.strspn hx n delim
  obtain ⟨hcspn, hcspn_le⟩ := h.strcspn hspn_le n delim
  unfold Str.strtokR
  dsimp only
  rw [hstr, hstr', hspn, Nat.add_assoc p, Nat.add_assoc q, hcspn, Nat.add_assoc p,
    Nat.add_assoc q, ← h.same x hx, ← h.same _ hspn_le, ← h.same _ hcspn_le]
  split_ifs with h1 h2 h3
  · exact ⟨none, x, b, c, rfl, rfl, h, hx, by simp, fun _ _ => rfl⟩
  · exact ⟨none, _, b, c, rfl, rfl, h, hspn_le, by simp, fun _ _ => rfl⟩
  · refine ⟨some _, _, b, c, rfl, rfl, h, hcspn_le, ?_, fun _ _ => rfl⟩
    rintro t ⟨⟩
    exact hspn_le
  · have hlt := h.lt hcspn_le h3
    refine ⟨some _, _, _, _, rfl, rfl, h.cut _, hlt, ?_, fun j hj => ?_⟩
    · rintro t ⟨⟩
      exact hspn_le
    · exact Function.update_of_ne (by omega) _ _

end

end Elfboot.StrTwin
