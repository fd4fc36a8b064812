import Elfboot.LoaderEnds
import Elfboot.StrTwin

/-!
What a line of an option reads and writes.

An option with its argument is processed the same wherever the line is and whatever is behind
it. A line that is one of the three words alone is not: the argument begins behind the terminator
that its newline has become, so it is the line behind.
-/

namespace Elfboot.LoaderOption

open Elfboot.Circular Elfboot.Buffer Elfboot.Str Elfboot.StrTwin Elfboot.Loader
  Elfboot.LoaderParse Elfboot.LoaderRuns

/-- A line without the tabs and spaces in front. -/
def stripped (l : List UInt8) : List UInt8 := l.dropWhile fun c => c = 32 ∨ c = 9

/-- The line is an option that takes an argument, without one. -/
def Bare (l : List UInt8) : Prop :=
  stripped l = kernelWord ∨ stripped l = initrdWord ∨ stripped l = cmdlineWord

instance (l : List UInt8) : Decidable (Bare l) := inferInstanceAs (Decidable (_ ∨ _ ∨ _))

/-- Processing the line changes nothing behind it, and sets the entry that is open from the
line only: in every text that is the same up to the end of the line it is set the same. -/
def OnlyItself (l : List UInt8) : Prop :=
  ∀ (m : Bmalloc) (n i p : ℕ) (s : State) (r : ℤ) (s' : State), CStr s.text p l →
    loaderParseEntry m n s i p = some (r, s') →
      (∀ j, p + l.length < j → s'.text j = s.text j) ∧
      (∀ j, j ≠ i → s'.entries j = s.entries j) ∧
      ∀ text r' s'', (∀ j ≤ p + l.length, text j = s.text j) →
        loaderParseEntry m n { s with text } i p = some (r', s'') → s''.entries i = s'.entries i

variable {m : Bmalloc} {n i j k p q x st len e : ℕ} {s s' s'' t : State} {b : Bytes}
variable {l w lit : List UInt8} {tok : Option ℕ}

/-! ### Two states -/

/-- Two states with the same line at `p` and `q`, the same open entry, and the same memory. -/
structure Twins (p q len i j : ℕ) (s t : State) : Prop where
  text : Twin s.text t.text p q len
  entry : s.entries i = t.entries j
  calls : s.calls = t.calls

/-- What is done in the two states is the same, and changes nothing else in the first. -/
inductive Alike (p q len i j : ℕ) (s : State) :
    Option (ℤ × State) → Option (ℤ × State) → Prop
  | stuck : Alike p q len i j s none none
  | done {r : ℤ} {s' t' : State} (h : Twins p q len i j s' t')
    (hsame : Same i (p + len) s s') : Alike p q len i j s (some (r, s')) (some (r, t'))

lemma Alike.same {a b : Option (ℤ × State)} (h : Alike p q len i j s' a b)
    (hsame : Same i (p + len) s s') : Alike p q len i j s a b := by
  cases h with
  | stuck => exact .stuck
  | done h hsame' => exact .done h (hsame.trans hsame')

lemma Alike.of_some {a b : Option (ℤ × State)} {r : ℤ} (h : Alike p q len i j s a b)
    (ha : a = some (r, s')) :
    ∃ t', b = some (r, t') ∧ Twins p q len i j s' t' ∧ Same i (p + len) s s' := by
  cases h with
  | stuck => cases ha
  | done h hsame =>
    cases ha
    exact ⟨_, rfl, h, hsame⟩

section Twins

variable (h : Twins p q len i j s t)
include h

lemma Twins.setEntry (f : BootEntry → BootEntry) :
    Twins p q len i j (s.setEntry i f) (t.setEntry j f) := by
  refine ⟨h.text, ?_, h.calls⟩
  unfold State.setEntry
  dsimp only
  rw [Function.update_self, Function.update_self, h.entry]

lemma Twins.tokenize (str str' : Option ℕ) (store store' : ℕ) (hstr : str.getD store = p + x)
    (hstr' : str'.getD store' = q + x) (hx : x ≤ len) (n : ℕ) (delim : List UInt8) :
    ∃ (tok : Option ℕ) (st : ℕ) (s' t' : State),
      tokenize n s str delim store = (tok.map (p + ·), p + st, s') ∧
      tokenize n t str' delim store' = (tok.map (q + ·), q + st, t') ∧
      Twins p q len i j s' t' ∧ Same i (p + len) s s' ∧ st ≤ len ∧ ∀ x ∈ tok, x ≤ len := by
  obtain ⟨tok, st, b', c', h1, h2, htwin, hst, htok, hframe⟩ :=
    h.text.strtokR hstr hstr' hx n delim
  unfold Loader.tokenize
  rw [h1, h2]
  exact ⟨tok, st, _, _, rfl, rfl, ⟨htwin, h.entry, h.calls⟩,
    ⟨rfl, rfl, rfl, fun _ _ => rfl, le_rfl, hframe⟩, hst, htok⟩

/-- The same string is copied. -/
lemma Twins.bstrdup (hx : x ≤ len) (m : Bmalloc) (n : ℕ) : ∃ buf,
    bstrdup m n s (p + x) = (buf, { s with calls := s.calls + 1 }) ∧
    bstrdup m n t (q + x) = (buf, { t with calls := t.calls + 1 }) := by
  obtain ⟨hlen, hle⟩ := h.text.strlen hx n
  unfold Loader.bstrdup Loader.bmalloc
  dsimp only
  rw [hlen, h.calls]
  cases m.call t.calls (strlen s.text n (p + x) + 1) with
  | none => exact ⟨none, rfl, rfl⟩
  | some buf =>
    dsimp only
    rw [h.text.memcpy hle]
    exact ⟨_, rfl, rfl⟩

lemma Twins.call : Twins p q len i j { s with calls := s.calls + 1 }
    { t with calls := t.calls + 1 } := ⟨h.text, h.entry, congrArg (· + 1) h.calls⟩

end Twins

/-! ### The options -/

lemma kernelLoop_twins (h : Twins p q len i j s t) (htok : ∀ x ∈ tok, x ≤ len) (hst : st ≤ len)
    (m : Bmalloc) (n k : ℕ) :
    Alike p q len i j s (parseKernelLoop m n i k (tok.map (p + ·)) (p + st) s)
      (parseKernelLoop m n j k (tok.map (q + ·)) (q + st) t) := by
  induction k generalizing tok st s t with
  | zero => exact .stuck
  | succ k ih =>
    cases tok with
    | none => exact .done h (Same.refl ..)
    | some x =>
      have hx := htok x rfl
      have hcmp : ∀ {lit : List UInt8}, 0 ∉ lit →
          strcmp t.text (q + x) lit = strcmp s.text (p + x) lit := h.text.strcmp hx
      -- after a protocol the next token is looked at
      have hnext : ∀ prot d d',
          tokenize n (s.setEntry i fun e => { e with prot }) none wordDelimiter (p + st) = d →
          tokenize n (t.setEntry j fun e => { e with prot }) none wordDelimiter (q + st) = d' →
          Alike p q len i j s (parseKernelLoop m n i k d.1 d.2.1 d.2.2)
            (parseKernelLoop m n j k d'.1 d'.2.1 d'.2.2) := by
        rintro prot d d' rfl rfl
        obtain ⟨tok', st', s', t', h1, h2, htwins, hsame, hst', htok'⟩ :=
          (h.setEntry fun e => { e with prot }).tokenize none none (p + st) (q + st) rfl rfl hst n
            wordDelimiter
        rw [h1, h2]
        exact (ih htwins htok' hst').same ((same_setEntry ..).trans hsame)
      obtain ⟨buf, hdup, hdup'⟩ := h.bstrdup hx m n
      rw [Option.map_some, Option.map_some, parseKernelLoop, parseKernelLoop]
      dsimp only
      rw [hcmp (by decide), hcmp (by decide), hcmp (by decide), ← h.entry, hdup, hdup']
      split_ifs
      · exact hnext _ _ _ rfl rfl
      · exact hnext _ _ _ rfl rfl
      · exact hnext _ _ _ rfl rfl
      · exact .done h (Same.refl ..)
      · exact .done (h.call.setEntry _) ((same_call ..).trans (same_setEntry ..))
      · exact .done (h.call.setEntry _) ((same_call ..).trans (same_setEntry ..))

lemma initrdLoop_twins (h : Twins p q len i j s t) (htok : ∀ x ∈ tok, x ≤ len) (hst : st ≤ len)
    (m : Bmalloc) (n k : ℕ) :
    Alike p q len i j s (parseInitrdLoop m n i k (tok.map (p + ·)) (p + st) s)
      (parseInitrdLoop m n j k (tok.map (q + ·)) (q + st) t) := by
  induction k generalizing tok st s t with
  | zero => exact .stuck
  | succ k ih =>
    cases tok with
    | none => exact .done h (Same.refl ..)
    | some x =>
      obtain ⟨buf, hdup, hdup'⟩ := h.bstrdup (htok x rfl) m n
      have hset := h.call.setEntry fun e => { e with initrdPath := buf }
      have hsame : Same i (p + len) s (State.setEntry { s with calls := s.calls + 1 } i fun e =>
        { e with initrdPath := buf }) := (same_call ..).trans (same_setEntry ..)
      obtain ⟨tok', st', s', t', h1, h2, htwins, hsame', hst', htok'⟩ :=
        hset.tokenize none none (p + st) (q + st) rfl rfl hst n wordDelimiter
      rw [Option.map_some, Option.map_some, parseInitrdLoop, parseInitrdLoop, hdup, hdup']
      dsimp only
      rw [h1, h2]
      split_ifs
      · exact .done hset hsame
      · exact (ih htwins htok' hst').same (hsame.trans hsame')

lemma parseKernel_twins (h : Twins p q len i j s t) (hx : x ≤ len) (m : Bmalloc) (n : ℕ) :
    Alike p q len i j s (loaderParseKernel m n s i (p + x))
      (loaderParseKernel m n t j (q + x)) := by
  obtain ⟨tok, st, s', t', h1, h2, htwins, hsame, hst, htok⟩ :=
    h.tokenize (some (p + x)) (some (q + x)) 0 0 rfl rfl hx n wordDelimiter
  rw [loaderParseKernel, loaderParseKernel, h1, h2]
  exact (kernelLoop_twins htwins htok hst m n n).same hsame

lemma parseInitrd_twins (h : Twins p q len i j s t) (hx : x ≤ len) (m : Bmalloc) (n : ℕ) :
    Alike p q len i j s (loaderParseInitrd m n s i (p + x))
      (loaderParseInitrd m n t j (q + x)) := by
  obtain ⟨tok, st, s', t', h1, h2, htwins, hsame, hst, htok⟩ :=
    h.tokenize (some (p + x)) (some (q + x)) 0 0 rfl rfl hx n wordDelimiter
  rw [loaderParseInitrd, loaderParseInitrd, h1, h2]
  exact (initrdLoop_twins htwins htok hst m n n).same hsame

lemma parseCmdline_twins (h : Twins p q len i j s t) (hx : x ≤ len) (m : Bmalloc) (n : ℕ) :
    Alike p q len i j s (some (loaderParseCmdline m n s i (p + x)))
      (some (loaderParseCmdline m n t j (q + x))) := by
  obtain ⟨buf, hdup, hdup'⟩ := h.bstrdup hx m n
  have hset := h.call.setEntry fun e => { e with cmdline := buf }
  have hsame : Same i (p + len) s (State.setEntry { s with calls := s.calls + 1 } i fun e =>
    { e with cmdline := buf }) := (same_call ..).trans (same_setEntry ..)
  rw [loaderParseCmdline, loaderParseCmdline, hdup, hdup']
  dsimp only
  split_ifs
  · exact .done hset hsame
  · exact .done hset hsame

/-! ### The line -/

lemma strncmp_one (b : Bytes) (p : ℕ) (d : UInt8) : strncmp b p [d] 1 = 0 ↔ b p = d := by
  unfold strncmp
  dsimp only [List.headD_cons]
  by_cases hd : b p = d
  · rw [if_neg (not_not.2 hd)]
    split_ifs <;> exact iff_of_true rfl hd
  · rw [if_pos hd]
    split_ifs <;> exact iff_of_false (by decide) hd

lemma strncmp_lit (h : CStr b p w) (hlit : 0 ∉ lit) :
    strncmp b p lit lit.length = 0 ↔ lit <+: w := by
  induction lit generalizing p w with
  | nil => exact iff_of_true rfl List.nil_prefix
  | cons d lit ih =>
    rw [List.mem_cons, not_or] at hlit
    cases w with
    | nil =>
      have hne : b p ≠ d := fun hd => hlit.1 (h.symm.trans hd)
      exact iff_of_false (strncmp_head hne lit.length) (by simp)
    | cons c w =>
      by_cases hd : c = d
      · subst hd
        rw [List.length_cons, List.cons_prefix_cons, ← ih h.2.2 hlit.2]
        unfold strncmp
        dsimp only [List.headD_cons, List.tail_cons]
        rw [if_neg (not_not.2 h.1), if_neg (h.1 ▸ h.2.1), eq_self, true_and]
        rw [strncmp.eq_def]
      · refine iff_of_false (strncmp_head (h.head_ne hd) lit.length) fun hp => hd ?_
        exact (List.cons_prefix_cons.1 hp).1.symm

/-- How far the option of a line is from its start. -/
def indent (l : List UInt8) : ℕ := l.length - (stripped l).length

lemma stripped_le (l : List UInt8) : (stripped l).length ≤ l.length :=
  (List.dropWhile_sublist _).length_le

lemma stripped_cons (c : UInt8) (l : List UInt8) :
    stripped (c :: l) = if c = 32 ∨ c = 9 then stripped l else c :: l := by
  unfold stripped
  rw [List.dropWhile_cons]
  simp

lemma cstr_stripped (h : CStr b p l) : CStr b (p + indent l) (stripped l) := by
  induction l generalizing p with
  | nil => exact h
  | cons c l ih =>
    have hle := stripped_le l
    unfold indent
    rw [stripped_cons]
    split_ifs with hc
    · have hrest := ih h.2.2
      unfold indent at hrest
      rwa [List.length_cons, Nat.succ_sub hle, Nat.add_succ, ← Nat.succ_add]
    · rw [Nat.sub_self]
      exact h

lemma strip_eq (h : CStr b p l) (k : ℕ) :
    loaderStripEntryLine b k p = if indent l < k then some (p + indent l) else none := by
  induction k generalizing p l with
  | zero => rfl
  | succ k ih =>
    have htab : strncmp b p infoDelimiter 1 = 0 ↔ b p = 9 := strncmp_one b p 9
    have hspace : strncmp b p wordDelimiter 1 = 0 ↔ b p = 32 := strncmp_one b p 32
    rw [loaderStripEntryLine, if_congr (or_congr hspace htab) rfl rfl]
    cases l with
    | nil =>
      have h0 : b p = 0 := h
      rw [h0, if_neg (by decide)]
      exact (if_pos (Nat.succ_pos k)).symm
    | cons c l =>
      have hle := stripped_le l
      rw [h.1]
      unfold indent
      rw [stripped_cons]
      split_ifs with hc hk hk
      · rw [ih h.2.2, if_pos (by unfold indent; simp at hk; omega), Nat.add_assoc]
        unfold indent
        congr 2
        simp
        omega
      · rw [ih h.2.2, if_neg (by unfold indent; simp at hk; omega)]
      · simp
      · simp at hk

/-- What is done for a line, by its option. -/
lemma parseEntry_eq (h : CStr s.text p l) (m : Bmalloc) (n i : ℕ) :
    loaderParseEntry m n s i p =
      if indent l < n then
        if kernelWord <+: stripped l then loaderParseKernel m n s i (p + (indent l + 7))
        else if initrdWord <+: stripped l then loaderParseInitrd m n s i (p + (indent l + 7))
        else if cmdlineWord <+: stripped l then
          some (loaderParseCmdline m n s i (p + (indent l + 8)))
        else some (0, s)
      else none := by
  have hopt := cstr_stripped h
  have hkernel : strncmp s.text (p + indent l) kernelWord 6 = 0 ↔ kernelWord <+: stripped l :=
    strncmp_lit hopt (by decide)
  have hinitrd : strncmp s.text (p + indent l) initrdWord 6 = 0 ↔ initrdWord <+: stripped l :=
    strncmp_lit hopt (by decide)
  have hcmdline : strncmp s.text (p + indent l) cmdlineWord 7 = 0 ↔ cmdlineWord <+: stripped l :=
    strncmp_lit hopt (by decide)
  unfold loaderParseEntry
  rw [strip_eq h]
  by_cases hn : indent l < n
  · rw [if_pos hn, if_pos hn]
    dsimp only
    simp only [hkernel, hinitrd, hcmdline, Nat.add_assoc]
  · rw [if_neg hn, if_neg hn]

/-- An option that is not the whole line leaves room for what separates it from its argument. -/
lemma indent_room (hp : w <+: stripped l) (hne : stripped l ≠ w) :
    indent l + (w.length + 1) ≤ l.length := by
  have hle := stripped_le l
  have hlt : w.length < (stripped l).length :=
    lt_of_le_of_ne hp.length_le fun heq => hne (hp.eq_of_length heq).symm
  unfold indent
  omega

/-- **A line that is no bare option** is processed the same at any place in any text. -/
theorem parseEntry_twins (hl : CStr s.text p l) (h : Twins p q l.length i j s t) (hbare : ¬ Bare l)
    (m : Bmalloc) (n : ℕ) :
    Alike p q l.length i j s (loaderParseEntry m n s i p) (loaderParseEntry m n t j q) := by
  unfold Bare at hbare
  rw [not_or, not_or] at hbare
  rw [parseEntry_eq hl, parseEntry_eq (h.text.cstr hl)]
  split_ifs with hn hkernel hinitrd hcmdline
  · exact parseKernel_twins h (indent_room hkernel hbare.1) m n
  · exact parseInitrd_twins h (indent_room hinitrd hbare.2.1) m n
  · exact parseCmdline_twins h (indent_room hcmdline hbare.2.2) m n
  · exact .done h (Same.refl ..)
  · exact .stuck

/-! ### A bare option -/

/-- A text with a line, and a string behind its terminator. -/
def textWith (l after : List UInt8) : Bytes := fun j =>
  if j ≤ l.length then bufferOf l j else bufferOf after (j - (l.length + 1))

def stateWith (l after : List UInt8) : State := { initial [] with text := textWith l after }

lemma cstr_line (h : 0 ∉ l) (after : List UInt8) : CStr (stateWith l after).text 0 l :=
  (cstr_bufferOf h).congr fun j _ hj => if_pos (by omega)

lemma cstr_after (l : List UInt8) (h : 0 ∉ w) : CStr (stateWith l w).text (l.length + 1) w := by
  have hoff : ∀ j, textWith l w (l.length + 1 + j) = bufferOf w j := by
    intro j
    unfold textWith
    rw [if_neg (by omega), Nat.add_sub_cancel_left]
  refine CStr.of_get (fun i hi => ?_) (fun c hc h0 => h (h0 ▸ hc)) ?_
  · exact (hoff i).trans (by simp [bufferOf, hi])
  · exact (hoff _).trans (by simp [bufferOf])

/-- What is behind the line makes a difference. -/
lemma not_onlyItself {r r' : ℤ} (h0 : 0 ∉ l)
    (h1 : loaderParseEntry m n (stateWith l w) 0 0 = some (r, s'))
    (h2 : loaderParseEntry m n (stateWith l []) 0 0 = some (r', s''))
    (hne : s''.entries 0 ≠ s'.entries 0) : ¬ OnlyItself l := by
  intro h
  refine hne ((h m n 0 0 _ r s' (cstr_line h0 w) h1).2.2 (stateWith l []).text r' s'' ?_ h2)
  intro j hj
  rw [Nat.zero_add] at hj
  exact (if_pos hj).trans (if_pos hj).symm

lemma parseKernel_nil (h : CStr s.text p []) (hn : 1 ≤ n) :
    loaderParseKernel m n s i p = some (0, s) := by
  obtain ⟨n, rfl⟩ : ∃ k, n = k + 1 := ⟨n - 1, by omega⟩
  obtain ⟨store, heq⟩ := tokenize_none (n := n + 1) (some p) 0 wordDelimiter rfl h (by simp)
    (Nat.zero_le _)
  rw [loaderParseKernel, heq]
  rfl

lemma parseInitrd_nil (h : CStr s.text p []) (hn : 1 ≤ n) :
    loaderParseInitrd m n s i p = some (0, s) := by
  obtain ⟨n, rfl⟩ : ∃ k, n = k + 1 := ⟨n - 1, by omega⟩
  obtain ⟨store, heq⟩ := tokenize_none (n := n + 1) (some p) 0 wordDelimiter rfl h (by simp)
    (Nat.zero_le _)
  rw [loaderParseInitrd, heq]
  rfl

lemma parseKernel_word (pr : Protocol) (h : CStr s.text p pr.word) (hn : pr.word.length ≤ n)
    (hn2 : 2 ≤ n) : ∃ s', loaderParseKernel m n s i p = some (0, s') ∧
      (s'.entries i).prot = pr.code := by
  obtain ⟨k, rfl⟩ : ∃ k, n = k + 2 := ⟨n - 2, by omega⟩
  obtain ⟨text, store, heq, hword, hend, -⟩ := tokenize_word (n := k + 2) (some p) 0 rfl h
    pr.word_mem pr.word_ne hn
  obtain ⟨store2, hnone⟩ := tokenize_none (n := k + 2) none store wordDelimiter (u := [])
    (s := State.setEntry { s with text } i fun e => { e with prot := pr.code }) rfl hend (by simp)
    (Nat.zero_le _)
  rw [loaderParseKernel, heq]
  dsimp only
  rw [kernelLoop_word pr hword]
  dsimp only
  rw [hnone]
  refine ⟨_, rfl, ?_⟩
  simp [State.setEntry]

lemma parseInitrd_word (hm : Plenty m) (h : CStr s.text p w) (hmem : ∀ c ∈ w, c ∉ wordDelimiter)
    (hne : w ≠ []) (hn : w.length ≤ n) (hn2 : 2 ≤ n) :
    ∃ s' buf, loaderParseInitrd m n s i p = some (0, s') ∧
      (s'.entries i).initrdPath = some buf := by
  obtain ⟨k, rfl⟩ : ∃ k, n = k + 2 := ⟨n - 2, by omega⟩
  obtain ⟨text, store, heq, hword, hend, -⟩ := tokenize_word (n := k + 2) (some p) 0 rfl h
    hmem hne hn
  obtain ⟨buf, hdup, -⟩ := bstrdup_spec (s := { s with text }) (n := k + 2) hm hword hn
  obtain ⟨store2, hnone⟩ := tokenize_none (n := k + 2) none store wordDelimiter (u := [])
    (s := State.setEntry { s with text, calls := s.calls + 1 } i fun e =>
      { e with initrdPath := some buf }) rfl hend (by simp) (Nat.zero_le _)
  rw [loaderParseInitrd, heq]
  dsimp only
  rw [parseInitrdLoop, hdup]
  dsimp only
  rw [if_neg (by simp), hnone]
  refine ⟨_, buf, rfl, ?_⟩
  simp [State.setEntry]

/-- Every call of `bmalloc` gives memory. -/
def allMemory : Bmalloc := ⟨fun _ _ => true, fun _ _ => 0⟩

lemma zero_notMem (hw : stripped l = w) (h : 0 ∉ w) : 0 ∉ l := by
  intro h0
  have hsplit := List.takeWhile_append_dropWhile (p := fun c : UInt8 => c = 32 ∨ c = 9) (l := l)
  rw [← hsplit, List.mem_append] at h0
  rcases h0 with h0 | h0
  · exact absurd (List.mem_takeWhile_imp h0) (by decide)
  · exact h (hw ▸ h0)

/-- The argument of a bare option is what is behind the line. -/
lemma indent_bare (hw : stripped l = w) : 0 + (indent l + (w.length + 1)) = l.length + 1 := by
  have hle := stripped_le l
  unfold indent
  rw [hw] at hle ⊢
  omega

lemma bare_kernel (hw : stripped l = kernelWord) (hn : indent l < n) (m : Bmalloc)
    (after : List UInt8) : loaderParseEntry m n (stateWith l after) 0 0 =
      loaderParseKernel m n (stateWith l after) 0 (l.length + 1) := by
  rw [parseEntry_eq (cstr_line (zero_notMem hw (by decide)) after), if_pos hn, hw,
    if_pos List.prefix_rfl, ← indent_bare hw]
  rfl

lemma bare_initrd (hw : stripped l = initrdWord) (hn : indent l < n) (m : Bmalloc)
    (after : List UInt8) : loaderParseEntry m n (stateWith l after) 0 0 =
      loaderParseInitrd m n (stateWith l after) 0 (l.length + 1) := by
  rw [parseEntry_eq (cstr_line (zero_notMem hw (by decide)) after), if_pos hn, hw,
    if_neg (by decide), if_pos List.prefix_rfl, ← indent_bare hw]
  rfl

lemma bare_cmdline (hw : stripped l = cmdlineWord) (hn : indent l < n) (m : Bmalloc)
    (after : List UInt8) : loaderParseEntry m n (stateWith l after) 0 0 =
      some (loaderParseCmdline m n (stateWith l after) 0 (l.length + 1)) := by
  rw [parseEntry_eq (cstr_line (zero_notMem hw (by decide)) after), if_pos hn, hw,
    if_neg (by decide), if_neg (by decide), if_pos List.prefix_rfl, ← indent_bare hw]
  rfl

/-- The string `linux` behind the line is taken for the protocol, the path or the arguments. -/
lemma not_onlyItself_bare (h : Bare l) : ¬ OnlyItself l := by
  have hn : indent l < l.length + 5 := by
    unfold indent
    omega
  have hlen : Protocol.linux.word.length ≤ l.length + 5 := Nat.le_add_left 5 _
  have hlinux := cstr_after l (w := Protocol.linux.word) (by decide)
  have hnil := cstr_after l (w := []) (by simp)
  rcases h with hw | hw | hw
  · obtain ⟨s', h1, hprot⟩ := parseKernel_word (m := allMemory) (n := l.length + 5) (i := 0)
      .linux hlinux hlen (by omega)
    have h2 := parseKernel_nil (m := allMemory) (n := l.length + 5) (i := 0) hnil (by omega)
    refine not_onlyItself (zero_notMem hw (by decide)) ((bare_kernel hw hn allMemory _).trans h1)
      ((bare_kernel hw hn allMemory _).trans h2) fun heq => ?_
    rw [← heq] at hprot
    cases hprot
  · obtain ⟨s', buf, h1, hpath⟩ := parseInitrd_word (m := allMemory) (n := l.length + 5) (i := 0)
      (fun _ _ => rfl) hlinux Protocol.linux.word_mem Protocol.linux.word_ne hlen (by omega)
    have h2 := parseInitrd_nil (m := allMemory) (n := l.length + 5) (i := 0) hnil (by omega)
    refine not_onlyItself (zero_notMem hw (by decide)) ((bare_initrd hw hn allMemory _).trans h1)
      ((bare_initrd hw hn allMemory _).trans h2) fun heq => ?_
    rw [← heq] at hpath
    cases hpath
  · obtain ⟨buf, hdup, hbuf⟩ := bstrdup_spec (m := allMemory) (fun _ _ => rfl) hlinux hlen
    obtain ⟨buf', hdup', hbuf'⟩ := bstrdup_spec (m := allMemory) (n := l.length + 5)
      (fun _ _ => rfl) hnil (Nat.zero_le _)
    have h1 := bare_cmdline hw hn allMemory Protocol.linux.word
    have h2 := bare_cmdline hw hn allMemory []
    rw [loaderParseCmdline, hdup] at h1
    rw [loaderParseCmdline, hdup'] at h2
    refine not_onlyItself (zero_notMem hw (by decide)) h1 h2 fun heq => ?_
    have hsame : some buf' = some buf := by
      have hcmd := congrArg BootEntry.cmdline heq
      simpa [State.setEntry] using hcmd
    have hhead : buf 0 = 108 := hbuf.1
    rw [← Option.some_inj.1 hsame] at hhead
    exact absurd (hhead.symm.trans hbuf') (by decide)

/-- **A line is processed for itself**, wherever it is and whatever lies behind it, exactly if
it is not one of the options without its argument. -/
theorem onlyItself_iff (l : List UInt8) : OnlyItself l ↔ ¬ Bare l := by
  constructor
  · exact fun h hbare => not_onlyItself_bare hbare h
  · intro hbare m n i p s r s' hl heq
    have htwins : ∀ text : Bytes, (∀ j ≤ p + l.length, text j = s.text j) →
        Twins p p l.length i i s { s with text } := fun text ht =>
      ⟨⟨fun j hj => (ht _ (by omega)).symm, hl.end⟩, rfl, rfl⟩
    obtain ⟨-, -, -, hsame⟩ := (parseEntry_twins hl (htwins s.text fun _ _ => rfl) hbare m
      n).of_some heq
    refine ⟨fun j hj => hsame.text j hj.le, hsame.entries, fun text r' s'' ht heq' => ?_⟩
    obtain ⟨t', htwo, htwins', -⟩ := (parseEntry_twins hl (htwins text ht) hbare m n).of_some heq
    rw [htwo] at heq'
    cases heq'
    exact htwins'.entry.symm

/-- A line that is `kernel` behind a tab. -/
theorem not_onlyItself_kernel : ¬ OnlyItself (9 :: kernelWord) :=
  not_onlyItself_bare (.inl (by decide))

end Elfboot.LoaderOption
