import Elfboot.LoaderRuns

/-!
Where the parser of the configuration ends.

Whatever the lines say, all that is written to the text is terminators. So the end of the text
stays where it is, and a tokenizer that finds a token has moved on. Only a comment keeps the
loop where it is.
-/

namespace Elfboot.LoaderEnds

open Elfboot.Circular Elfboot.Buffer Elfboot.Str Elfboot.Loader

/-- A text in which some bytes of the other are cut to terminators. -/
def Cuts (o b : Bytes) : Prop := ∀ j, b j = o j ∨ b j = 0

variable {m : Bmalloc} {n i k p e fin lend lopt tok store : ℕ} {s s' : State} {o b b' : Bytes}
variable {line topt be : Option ℕ} {delim : List UInt8}

lemma Cuts.refl (b : Bytes) : Cuts b b := fun _ => .inl rfl

lemma Cuts.trans {c : Bytes} (h : Cuts o b) (h' : Cuts b c) : Cuts o c := by
  intro j
  rcases h' j with hj | hj
  · rw [hj]
    exact h j
  · exact .inr hj

lemma Cuts.zero {j : ℕ} (h : Cuts o b) (hj : o j = 0) : b j = 0 := by
  rcases h j with hb | hb
  · exact hb.trans hj
  · exact hb

lemma Cuts.eq {j : ℕ} (h : Cuts o b) (hj : b j ≠ 0) : b j = o j := (h j).resolve_right hj

/-! ### Tokens -/

lemma strspn_mem (b : Bytes) (delim : List UInt8) (n s j : ℕ) (hj : j < strspn b delim n s) :
    b (s + j) ∈ delim := by
  induction n generalizing s j with
  | zero => cases hj
  | succ n ih =>
    unfold strspn at hj
    split at hj
    · next h =>
      cases j with
      | zero => exact (strchr_iff h.1).mp h.2
      | succ j =>
        have := ih (s + 1) j (by omega)
        rwa [Nat.add_right_comm, Nat.add_assoc] at this
    · cases hj

/-- What is spanned lies before any terminator. -/
lemma strspn_le (b : Bytes) (delim : List UInt8) (n s : ℕ) (h0 : b fin = 0) (hs : s ≤ fin) :
    s + strspn b delim n s ≤ fin := by
  induction n generalizing s with
  | zero => exact hs
  | succ n ih =>
    unfold strspn
    split
    · next h =>
      have hne : s ≠ fin := by
        rintro rfl
        exact h.1 h0
      have := ih (s + 1) (by omega)
      omega
    · exact hs

lemma strcspn_le (b : Bytes) (delim : List UInt8) (n s : ℕ) (h0 : b fin = 0) (hs : s ≤ fin) :
    s + strcspn b delim n s ≤ fin := by
  induction n generalizing s with
  | zero => exact hs
  | succ n ih =>
    unfold strcspn
    split_ifs with h1 h2
    · exact hs
    · exact hs
    · have hne : s ≠ fin := by
        rintro rfl
        exact h1 h0
      have := ih (s + 1) (by omega)
      omega

/-- With enough turns, what stands where a span ends is a delimiter or the terminator. -/
lemma strcspn_stop (b : Bytes) (delim : List UInt8) (n s : ℕ) (h0 : b fin = 0) (hs : s ≤ fin)
    (hn : fin < s + n) : b (s + strcspn b delim n s) = 0 ∨ b (s + strcspn b delim n s) ∈ delim := by
  induction n generalizing s with
  | zero => omega
  | succ n ih =>
    unfold strcspn
    split_ifs with h1 h2
    · exact .inl h1
    · exact .inr ((strchr_iff h1).mp h2)
    · have hne : s ≠ fin := by
        rintro rfl
        exact h1 h0
      have := ih (s + 1) (by omega) (by omega)
      rwa [Nat.add_right_comm, Nat.add_assoc] at this

/-- What the tokenizer does that finds a token, with a terminator at `fin`. -/
structure Token (b : Bytes) (delim : List UInt8) (start fin tok store : ℕ) (b' : Bytes) : Prop where
  start_le : start ≤ tok
  lt_store : tok < store
  store_le : store ≤ fin
  ne_zero : b tok ≠ 0
  skipped : ∀ j, start ≤ j → j < tok → b j ∈ delim
  last : b' store = 0 ∨ b (store - 1) ∈ delim
  cuts : Cuts b b'

/-- **The tokenizer moves on**, or there is nothing left. -/
lemma strtokR_spec {str : Option ℕ} (h0 : b fin = 0) (hs : str.getD store ≤ fin)
    (hn : fin < str.getD store + n) :
    (∃ store', strtokR b n str delim store = (none, store', b)) ∨
      ∃ tok store' b', strtokR b n str delim store = (some tok, store', b') ∧
        Token b delim (str.getD store) fin tok store' b' := by
  unfold strtokR
  dsimp only
  generalize str.getD store = start at *
  have hspn := strspn_le b delim n start h0 hs
  have hcspn := strcspn_le b delim n _ h0 hspn
  by_cases h1 : b start = 0
  · rw [if_pos h1]
    exact .inl ⟨_, rfl⟩
  · rw [if_neg h1]
    by_cases h2 : b (start + strspn b delim n start) = 0
    · rw [if_pos h2]
      exact .inl ⟨_, rfl⟩
    · rw [if_neg h2]
      right
      have hstop := strcspn_stop b delim n _ h0 hspn (by omega)
      have hskip : ∀ j, start ≤ j → j < start + strspn b delim n start → b j ∈ delim := by
        intro j h3 h4
        have := strspn_mem b delim n start (j - start) (by omega)
        rwa [Nat.add_sub_cancel' h3] at this
      set tok := start + strspn b delim n start with htok
      by_cases h3 : b (tok + strcspn b delim n tok) = 0
      · rw [if_pos h3]
        refine ⟨_, _, b, rfl, Nat.le_add_right _ _, ?_, hcspn, h2, hskip, .inl h3, .refl b⟩
        rcases Nat.eq_zero_or_pos (strcspn b delim n tok) with h4 | h4
        · rw [h4] at h3
          exact absurd h3 h2
        · exact Nat.lt_add_of_pos_right h4
      · rw [if_neg h3]
        have hne : tok + strcspn b delim n tok ≠ fin := fun he => h3 (he ▸ h0)
        refine ⟨_, _, _, rfl, Nat.le_add_right _ _, by omega, by omega, h2, hskip, .inr ?_, ?_⟩
        · exact hstop.resolve_left h3
        · intro j
          by_cases hj : j = tok + strcspn b delim n tok
          · subst hj
            exact .inr (Function.update_self ..)
          · exact .inl (Function.update_of_ne hj ..)

lemma tokenize_spec (s : State) {str : Option ℕ} (h0 : s.text fin = 0) (hs : str.getD store ≤ fin)
    (hn : fin < str.getD store + n) :
    (∃ store', tokenize n s str delim store = (none, store', s)) ∨
      ∃ tok store' text, tokenize n s str delim store = (some tok, store', { s with text }) ∧
        Token s.text delim (str.getD store) fin tok store' text := by
  unfold tokenize
  rcases @strtokR_spec n fin store s.text delim str h0 hs hn with
    ⟨store', heq⟩ | ⟨tok, store', b', heq, ht⟩
  · rw [heq]
    exact .inl ⟨store', rfl⟩
  · rw [heq]
    exact .inr ⟨tok, store', b', rfl, ht⟩

/-! ### The lines of an entry -/

/-- Memory ends at `e`. -/
def EndsAt (b : Bytes) (e : ℕ) : Prop := ∀ j, e ≤ j → b j = 0

lemma EndsAt.cuts (h : EndsAt b e) (hc : Cuts b b') : EndsAt b' e := fun j hj => hc.zero (h j hj)

/-- Tokenizing anywhere in memory. -/
lemma tokenize_any (s : State) (str : Option ℕ) (store : ℕ) (delim : List UInt8)
    (hz : EndsAt s.text e) (hn : e < n) :
    (∃ store', tokenize n s str delim store = (none, store', s)) ∨
      ∃ tok store' text, tokenize n s str delim store = (some tok, store', { s with text }) ∧
        str.getD store < store' ∧ str.getD store < e ∧ Cuts s.text text := by
  have h0 := hz (max e (str.getD store)) (le_max_left ..)
  have hfin : max e (str.getD store) < str.getD store + n := by omega
  rcases @tokenize_spec n _ store delim s str h0 (le_max_right ..) hfin with
    ⟨store', heq⟩ | ⟨tok, store', text, heq, ht⟩
  · exact .inl ⟨store', heq⟩
  · refine .inr ⟨tok, store', text, heq, ht.start_le.trans_lt ht.lt_store, ?_, ht.cuts⟩
    by_contra hle
    exact ht.ne_zero (hz tok (by have := ht.start_le; omega))

lemma bstrdup_text (m : Bmalloc) (n : ℕ) (s : State) (str : ℕ) :
    (bstrdup m n s str).2.text = s.text := by
  unfold bstrdup bmalloc
  dsimp only
  cases m.call s.calls (strlen s.text n str + 1) <;> rfl

lemma kernelLoop_ends (hz : EndsAt s.text e) (hn : e < n) (hk : 1 ≤ k)
    (hk' : topt ≠ none → e - lopt + 2 ≤ k) : ∃ r s',
      parseKernelLoop m n i k topt lopt s = some (r, s') ∧ Cuts s.text s'.text := by
  induction k generalizing topt lopt s with
  | zero => omega
  | succ k ih =>
    cases topt with
    | none => exact ⟨0, s, rfl, .refl _⟩
    | some topt =>
      have hk' := hk' (by simp)
      have hnext : ∀ prot d,
          tokenize n (s.setEntry i fun e => { e with prot }) none wordDelimiter lopt = d →
          ∃ r s', parseKernelLoop m n i k d.1 d.2.1 d.2.2 = some (r, s') ∧
            Cuts s.text s'.text := by
        rintro prot d rfl
        rcases tokenize_any (s.setEntry i fun e => { e with prot }) none lopt wordDelimiter hz hn
          with ⟨lopt', heq⟩ | ⟨tok, lopt', text, heq, hlt, hlt', hc⟩
        · rw [heq]
          exact ih hz (by omega) (absurd rfl)
        · rw [heq]
          rw [Option.getD_none] at hlt hlt'
          obtain ⟨r, s', h1, h2⟩ := @ih lopt'
            { s.setEntry i (fun e => { e with prot }) with text } (some tok) (hz.cuts hc) (by omega)
            fun _ => by omega
          exact ⟨r, s', h1, hc.trans h2⟩
      have hdup := bstrdup_text m n s topt
      rw [parseKernelLoop]
      dsimp only
      split_ifs
      · exact hnext _ _ rfl
      · exact hnext _ _ rfl
      · exact hnext _ _ rfl
      · exact ⟨_, _, rfl, .refl _⟩
      · refine ⟨_, _, rfl, ?_⟩
        rw [← hdup]
        exact .refl _
      · refine ⟨_, _, rfl, ?_⟩
        rw [← hdup]
        exact .refl _

lemma initrdLoop_ends (hz : EndsAt s.text e) (hn : e < n) (hk : 1 ≤ k)
    (hk' : topt ≠ none → e - lopt + 2 ≤ k) : ∃ r s',
      parseInitrdLoop m n i k topt lopt s = some (r, s') ∧ Cuts s.text s'.text := by
  induction k generalizing topt lopt s with
  | zero => omega
  | succ k ih =>
    cases topt with
    | none => exact ⟨0, s, rfl, .refl _⟩
    | some topt =>
      have hk' := hk' (by simp)
      have hdup := bstrdup_text m n s topt
      rw [parseInitrdLoop]
      dsimp only
      generalize bstrdup m n s topt = d at hdup
      have htext : (d.2.setEntry i fun e => { e with initrdPath := d.1 }).text = s.text := hdup
      split_ifs
      · refine ⟨_, _, rfl, ?_⟩
        rw [htext]
        exact .refl _
      · rcases tokenize_any (d.2.setEntry i fun e => { e with initrdPath := d.1 }) none lopt
          wordDelimiter (htext ▸ hz) hn with ⟨lopt', heq⟩ | ⟨tok, lopt', text, heq, hlt, hlt', hc⟩
        · rw [heq]
          obtain ⟨r, s', h1, h2⟩ := @ih lopt' (d.2.setEntry i fun e =>
            { e with initrdPath := d.1 }) none (htext ▸ hz) (by omega) (absurd rfl)
          exact ⟨r, s', h1, htext ▸ h2⟩
        · rw [heq]
          rw [Option.getD_none] at hlt hlt'
          rw [htext] at hc
          obtain ⟨r, s', h1, h2⟩ := @ih lopt' { d.2.setEntry i (fun e =>
            { e with initrdPath := d.1 }) with text } (some tok) (hz.cuts hc) (by omega)
            fun _ => by omega
          exact ⟨r, s', h1, hc.trans h2⟩

lemma strip_ends (hz : EndsAt b e) (hk : e - p < k) :
    ∃ option, loaderStripEntryLine b k p = some option := by
  induction k generalizing p with
  | zero => omega
  | succ k ih =>
    rw [loaderStripEntryLine]
    split_ifs with h
    · have hlt : p < e := by
        by_contra hle
        have h0 := hz p (not_lt.mp hle)
        rcases h with h | h
        · exact strncmp_head (by rw [h0]; decide) 0 h
        · exact strncmp_head (by rw [h0]; decide) 0 h
      exact ih (by omega)
    · exact ⟨p, rfl⟩

lemma parseEntry_ends (hz : EndsAt s.text e) (hn : e < n) :
    ∃ r s', loaderParseEntry m n s i p = some (r, s') ∧ Cuts s.text s'.text := by
  obtain ⟨option, hopt⟩ := strip_ends hz (show e - p < n by omega)
  have hdup := bstrdup_text m n s (option + 8)
  rw [loaderParseEntry, hopt]
  dsimp only
  split_ifs
  · rw [loaderParseKernel]
    rcases tokenize_any s (some (option + 7)) 0 wordDelimiter hz hn with
      ⟨lopt, heq⟩ | ⟨tok, lopt, text, heq, hlt, hlt', hc⟩
    · rw [heq]
      exact kernelLoop_ends hz hn (by omega) (absurd rfl)
    · rw [heq]
      rw [Option.getD_some] at hlt hlt'
      obtain ⟨r, s', h1, h2⟩ := @kernelLoop_ends m n i n e lopt { s with text } (some tok)
        (hz.cuts hc) hn (by omega) fun _ => by omega
      exact ⟨r, s', h1, hc.trans h2⟩
  · rw [loaderParseInitrd]
    rcases tokenize_any s (some (option + 7)) 0 wordDelimiter hz hn with
      ⟨lopt, heq⟩ | ⟨tok, lopt, text, heq, hlt, hlt', hc⟩
    · rw [heq]
      exact initrdLoop_ends hz hn (by omega) (absurd rfl)
    · rw [heq]
      rw [Option.getD_some] at hlt hlt'
      obtain ⟨r, s', h1, h2⟩ := @initrdLoop_ends m n i n e lopt { s with text } (some tok)
        (hz.cuts hc) hn (by omega) fun _ => by omega
      exact ⟨r, s', h1, hc.trans h2⟩
  · refine ⟨(loaderParseCmdline m n s i (option + 8)).1,
      (loaderParseCmdline m n s i (option + 8)).2, rfl, ?_⟩
    have htext : (loaderParseCmdline m n s i (option + 8)).2.text = s.text := by
      unfold loaderParseCmdline
      dsimp only
      split <;> exact hdup
    rw [htext]
    exact .refl _
  · exact ⟨0, s, rfl, .refl _⟩

/-- **Every line is done with**, and cuts the text at most. -/
theorem parseLine_ends (hz : EndsAt s.text e) (hn : e < n) (be : Option ℕ) (p : ℕ) :
    ∃ be' s', parseLine m n s be p = some (be', s') ∧ Cuts s.text s'.text := by
  have hname : ∀ s p, (loaderParseName m n s p).2.text = s.text := by
    intro s p
    unfold loaderParseName bmalloc
    split
    · rfl
    · dsimp only
      split
      · rfl
      · split
        · next h => exact (congrArg State.text (Prod.mk.inj h).2).symm
        · next h => exact (congrArg State.text (Prod.mk.inj h).2).symm
  have hcreate : ∀ s name, (loaderCreateEntry m s name).2.text = s.text := by
    intro s name
    unfold loaderCreateEntry bmalloc
    dsimp only
    split
    · next h => exact (congrArg State.text (Prod.mk.inj h).2).symm
    · next h => exact (congrArg State.text (Prod.mk.inj h).2).symm
  unfold parseLine
  split
  · dsimp only
    have hnamed : ∀ s1 : State, s1.text = s.text →
        (∃ s2, loaderParseName m n s1 p = (none, s2) ∧ Cuts s.text s2.text) ∨
          ∃ name s2, loaderParseName m n s1 p = (some name, s2) ∧
            Cuts s.text (loaderCreateEntry m s2 name).2.text := by
      intro s1 h1
      have h2 := hname s1 p
      rcases hp : loaderParseName m n s1 p with ⟨name, s2⟩
      rw [hp] at h2
      have hcuts : Cuts s.text s2.text := by
        rw [← h1, ← h2]
        exact .refl _
      cases name with
      | none => exact .inl ⟨s2, rfl, hcuts⟩
      | some name => exact .inr ⟨name, s2, rfl, by rwa [hcreate]⟩
    cases be with
    | none =>
      rcases hnamed s rfl with ⟨s2, heq, hc⟩ | ⟨name, s2, heq, hc⟩
      · exact ⟨none, s2, by rw [heq], hc⟩
      · exact ⟨_, _, by rw [heq], hc⟩
    | some i =>
      rcases hnamed (loaderFreeEntry s i) rfl with ⟨s2, heq, hc⟩ | ⟨name, s2, heq, hc⟩
      · exact ⟨some i, s2, by dsimp only; rw [heq], hc⟩
      · exact ⟨_, _, by dsimp only; rw [heq], hc⟩
  · split
    · cases be with
      | none => exact ⟨none, s, rfl, .refl _⟩
      | some i =>
        obtain ⟨r, s', heq, hc⟩ := @parseEntry_ends m n i p e s hz hn
        dsimp only
        rw [heq]
        exact ⟨some i, s', rfl, hc⟩
    · split
      · cases be with
        | none => exact ⟨none, s, rfl, .refl _⟩
        | some i => exact ⟨none, loaderStoreEntry s i, rfl, .refl _⟩
      · exact ⟨be, s, rfl, .refl _⟩

/-! ### The loop -/

/-- A turn of the loop at a line: the next line, what is stored, the open entry, the state. -/
def turn (m : Bmalloc) (n line lend : ℕ) (be : Option ℕ) (s : State) :
    Option (Option ℕ × ℕ × Option ℕ × State) :=
  if s.text line = firstChar charComment then some (some line, lend, be, s)
  else
    match parseLine m n s be line with
    | none => none
    | some (be, s) =>
      let (line, lend, s) := tokenize n s none lineDelimiter lend
      some (line, lend, be, s)

lemma parseLoop_turn {line' : Option ℕ} {lend' : ℕ} {be' : Option ℕ}
    (h : turn m n p lend be s = some (line', lend', be', s')) (k : ℕ) :
    parseLoop m n (k + 1) (some p) lend be s = parseLoop m n k line' lend' be' s' := by
  unfold turn at h
  rw [parseLoop]
  split_ifs at h with hc
  · cases h
    rw [if_pos hc]
  · rw [if_neg hc]
    cases hp : parseLine m n s be p with
    | none => rw [hp] at h; cases h
    | some r =>
      rw [hp] at h
      dsimp only at h ⊢
      cases h
      rfl

/-- The lines that the loop comes to, with the state before the turn. -/
inductive Visits (m : Bmalloc) (n : ℕ) (s0 : State) (config : ℕ) :
    ℕ → ℕ → Option ℕ → State → Prop
  | first {line lend : ℕ} {s : State}
    (h : tokenize n s0 (some config) lineDelimiter 0 = (some line, lend, s)) :
    Visits m n s0 config line lend none s
  | next {line lend line' lend' : ℕ} {be be' : Option ℕ} {s s' : State}
    (h : Visits m n s0 config line lend be s)
    (ht : turn m n line lend be s = some (some line', lend', be', s')) :
    Visits m n s0 config line' lend' be' s'

/-- Parsing the text at `config` ends, and every turn of the loop is followed by one at a later
line of the text, or is the last. -/
structure Parses (m : Bmalloc) (n : ℕ) (s0 : State) (config : ℕ) (t : List UInt8) : Prop where
  ends : ∃ s', loaderParseEntries m n s0 config = some s'
  moves : ∀ line lend be s, Visits m n s0 config line lend be s →
    ∃ line' lend' be' s', turn m n line lend be s = some (line', lend', be', s') ∧
      ∀ p ∈ line', line < p ∧ p < config + t.length

/-- A line with a comment begins at the place. -/
def IsComment (b : Bytes) (line : ℕ) : Prop := b line = firstChar charComment

variable {config : ℕ} {s0 : State} {t : List UInt8} {p' lend' : ℕ} {be' : Option ℕ}

/-- What holds whenever the loop comes to a line. -/
structure Sane (s0 : State) (config fin line lend : ℕ) (s : State) : Prop where
  cuts : Cuts s0.text s.text
  ge : config ≤ line
  lt : line < lend
  le : lend ≤ fin
  first : line = config ∨ s0.text (line - 1) ∈ lineDelimiter
  stored : s.text lend = 0 ∨ s0.text (lend - 1) ∈ lineDelimiter

lemma sane_token (hc : Cuts s0.text s.text) {start : ℕ} {text : Bytes} (hge : config ≤ start)
    (hstart : start = config ∨ s.text start = 0 ∨ s0.text (start - 1) ∈ lineDelimiter)
    (h : Token s.text lineDelimiter start fin p lend text) :
    Sane s0 config fin p lend { s with text } := by
  have hdelim : ∀ j, s.text j ∈ lineDelimiter → s0.text j ∈ lineDelimiter := by
    intro j hj
    have hne : s.text j ≠ 0 := fun h0 => absurd (h0 ▸ hj) (by decide)
    rwa [← hc.eq hne]
  refine ⟨hc.trans h.cuts, hge.trans h.start_le, h.lt_store, h.store_le, ?_, ?_⟩
  · rcases Nat.eq_or_lt_of_le h.start_le with he | hlt
    · rcases hstart with hs | hs | hs
      · exact .inl (he.symm.trans hs)
      · exact absurd (he ▸ hs) h.ne_zero
      · exact .inr (he ▸ hs)
    · exact .inr (hdelim _ (h.skipped _ (by omega) (by omega)))
  · exact h.last.imp_right (hdelim _)

/-- Everything that stays the same while a text is parsed. -/
structure Setup (n : ℕ) (s0 : State) (config e : ℕ) (t : List UInt8) : Prop where
  text : CStr s0.text config t
  memory : EndsAt s0.text e
  bound : e < n

lemma Setup.length_lt (h : Setup n s0 config e t) : t.length < n := by
  by_contra hle
  have h1 := h.text.get (show e < t.length by have := h.bound; omega)
  rw [h.memory _ (Nat.le_add_left ..)] at h1
  exact h.text.ne_zero (List.getElem_mem _) h1.symm

/-- The turn at a line that is no comment. -/
lemma turn_spec (m : Bmalloc) (be : Option ℕ) (hset : Setup n s0 config e t)
    (h : Sane s0 config (config + t.length) p lend s) (hc : ¬ IsComment s.text p) :
    (∃ lend' be' s', turn m n p lend be s = some (none, lend', be', s')) ∨
      ∃ p' lend' be' s', turn m n p lend be s = some (some p', lend', be', s') ∧ lend ≤ p' ∧
        Sane s0 config (config + t.length) p' lend' s' := by
  obtain ⟨be', s1, heq, hcuts⟩ := parseLine_ends (m := m) (hset.memory.cuts h.cuts) hset.bound be p
  have hcuts' := h.cuts.trans hcuts
  have hlen := hset.length_lt
  have hle := h.le
  have hlt := h.lt
  have hge := h.ge
  have hfirst : lend = config ∨ s1.text lend = 0 ∨ s0.text (lend - 1) ∈ lineDelimiter :=
    .inr (h.stored.imp_left hcuts.zero)
  unfold turn
  rw [if_neg (show ¬ s.text p = firstChar charComment from hc), heq]
  dsimp only
  rcases @tokenize_spec n _ lend lineDelimiter s1 none (hcuts'.zero hset.text.end) h.le
    (by rw [Option.getD_none]; omega) with ⟨lend', htok⟩ | ⟨p', lend', text, htok, ht⟩
  · rw [htok]
    exact .inl ⟨lend', be', s1, rfl⟩
  · rw [htok]
    exact .inr ⟨p', lend', be', _, rfl, ht.start_le,
      sane_token hcuts' (hge.trans hlt.le) hfirst ht⟩

/-- The tokenizer's first line. -/
lemma first_spec (hset : Setup n s0 config e t) :
    (∃ lend, tokenize n s0 (some config) lineDelimiter 0 = (none, lend, s0)) ∨
      ∃ p lend s, tokenize n s0 (some config) lineDelimiter 0 = (some p, lend, s) ∧
        Sane s0 config (config + t.length) p lend s := by
  have hlen := hset.length_lt
  rcases @tokenize_spec n _ 0 lineDelimiter s0 (some config) hset.text.end (Nat.le_add_right ..)
    (by rw [Option.getD_some]; omega) with ⟨lend, htok⟩ | ⟨p, lend, text, htok, ht⟩
  · exact .inl ⟨lend, htok⟩
  · exact .inr ⟨p, lend, _, htok, sane_token (.refl _) le_rfl (.inl rfl) ht⟩

lemma Visits.sane (hset : Setup n s0 config e t) (h : Visits m n s0 config p lend be s) :
    Sane s0 config (config + t.length) p lend s := by
  induction h with
  | first heq =>
    rcases first_spec hset with ⟨lend, htok⟩ | ⟨p, lend, s, htok, hs⟩
    · rw [htok] at heq
      cases heq
    · rw [htok] at heq
      cases heq
      exact hs
  | @next line lend line' lend' be be' s s' h ht ih =>
    by_cases hc : IsComment s.text line
    · unfold turn at ht
      rw [if_pos (show s.text line = firstChar charComment from hc)] at ht
      cases ht
      exact ih
    · rcases turn_spec m be hset ih hc with
        ⟨lend1, be1, s1, heq⟩ | ⟨p1, lend1, be1, s1, heq, -, hs⟩
      · rw [heq] at ht
        cases ht
      · rw [heq] at ht
        cases ht
        exact hs

/-- The loop ends that comes to no comment: what is left of the text gets shorter. -/
lemma parseLoop_ends (hset : Setup n s0 config e t)
    (hno : ∀ line lend be s, Visits m n s0 config line lend be s → ¬ IsComment s.text line)
    (h : Visits m n s0 config p lend be s) (hk : config + t.length + 2 ≤ lend + k) :
    ∃ s', parseLoop m n k (some p) lend be s = some s' := by
  induction k generalizing p lend be s with
  | zero =>
    have := (h.sane hset).le
    omega
  | succ k ih =>
    have hsane := h.sane hset
    have hle := hsane.le
    have hlt := hsane.lt
    rcases turn_spec m be hset hsane (hno _ _ _ _ h) with
      ⟨lend1, be1, s1, heq⟩ | ⟨p1, lend1, be1, s1, heq, hle1, hs1⟩
    · rw [parseLoop_turn heq]
      obtain ⟨k, rfl⟩ : ∃ j, k = j + 1 := ⟨k - 1, by omega⟩
      exact ⟨s1, rfl⟩
    · rw [parseLoop_turn heq]
      have hlt1 := hs1.lt
      exact ih (h.next heq) (by omega)

lemma parses_of_visits (m : Bmalloc) (hset : Setup n s0 config e t)
    (hno : ∀ line lend be s, Visits m n s0 config line lend be s → ¬ IsComment s.text line) :
    Parses m n s0 config t := by
  refine ⟨?_, fun line lend be s hv => ?_⟩
  · have hlen := hset.length_lt
    unfold loaderParseEntries
    rcases first_spec hset with ⟨lend, htok⟩ | ⟨p, lend, s, htok, hs⟩
    · rw [htok]
      obtain ⟨n, rfl⟩ : ∃ j, n = j + 1 := ⟨n - 1, by omega⟩
      exact ⟨s0, rfl⟩
    · rw [htok]
      have hge := hs.ge
      have hlt := hs.lt
      exact parseLoop_ends hset hno (.first htok) (by omega)
  · rcases turn_spec m be hset (hv.sane hset) (hno _ _ _ _ hv) with
      ⟨lend', be', s', heq⟩ | ⟨p', lend', be', s', heq, hle, hs⟩
    · exact ⟨none, lend', be', s', heq, by simp⟩
    · refine ⟨some p', lend', be', s', heq, ?_⟩
      intro p hp
      obtain rfl := Option.mem_some_iff.mp hp
      exact ⟨(hv.sane hset).lt.trans_le hle, hs.lt.trans_le hs.le⟩

/-- **The parser ends** exactly if the loop comes to no comment, and then each turn leads to a
later line. -/
theorem parses_iff (m : Bmalloc) (hset : Setup n s0 config e t) :
    Parses m n s0 config t ↔
      ∀ line lend be s, Visits m n s0 config line lend be s → ¬ IsComment s.text line := by
  refine ⟨fun h line lend be s hv hc => ?_, parses_of_visits m hset⟩
  obtain ⟨line', lend', be', s', heq, hmoves⟩ := h.moves line lend be s hv
  unfold turn at heq
  rw [if_pos (show s.text line = firstChar charComment from hc)] at heq
  cases heq
  exact absurd (hmoves line rfl).1 (lt_irrefl _)

/-- A text none of whose lines is a comment. -/
def NoComment (b : Bytes) (config : ℕ) (t : List UInt8) : Prop :=
  ∀ j, config ≤ j → j < config + t.length → (j = config ∨ b (j - 1) ∈ lineDelimiter) →
    ¬ IsComment b j

/-- **Without comments** the parser ends on every text. -/
theorem parses_of_noComment (m : Bmalloc) (hset : Setup n s0 config e t)
    (h : NoComment s0.text config t) : Parses m n s0 config t := by
  refine parses_of_visits m hset fun line lend be s hv hc => ?_
  have hs := hv.sane hset
  have hne : s.text line ≠ 0 := fun h0 => absurd (h0.symm.trans hc) (by decide)
  exact h line hs.ge (hs.lt.trans_le hs.le) hs.first ((hs.cuts.eq hne).symm.trans hc)

/-! ### Two texts -/

open Elfboot.LoaderRuns

lemma setup_oneText : Setup 100 (initial oneText) 0 oneText.length oneText := by
  refine ⟨cstr_bufferOf (by decide), fun j hj => ?_, by decide⟩
  change bufferOf oneText j = 0
  simp [bufferOf, hj]

theorem parses_iff_one :
    Parses ⟨fun _ _ => true, fun _ _ => 0⟩ 100 (initial oneText) 0 oneText ↔
      ∀ line lend be s,
        Visits ⟨fun _ _ => true, fun _ _ => 0⟩ 100 (initial oneText) 0 line lend be s →
          ¬ IsComment s.text line :=
  parses_iff _ setup_oneText

lemma parseLoop_comment (h : IsComment s.text p) :
    parseLoop m n k (some p) lend be s = none := by
  induction k with
  | zero => rfl
  | succ k ih =>
    rw [parseLoop, if_pos (show s.text p = firstChar charComment from h)]
    exact ih

/-- A text of one comment. -/
def commentText : List UInt8 := chars ['#']

theorem not_parses :
    ¬ ∃ n, Parses ⟨fun _ _ => true, fun _ _ => 0⟩ n (initial commentText) 0 commentText := by
  rintro ⟨n, ⟨s', heq⟩, -⟩
  cases n with
  | zero => cases heq
  | succ n =>
    have htok : tokenize (n + 1) (initial commentText) (some 0) lineDelimiter 0 =
        (some 0, 1, initial commentText) := by
      have hcspn : strcspn (bufferOf commentText) lineDelimiter (n + 1) 0 = 1 :=
        strcspn_eq (b := bufferOf commentText) (u := commentText) (v := [])
          (cstr_bufferOf (by decide)) (List.all_iff_forall_prop.mp (by decide)) (by simp)
          (by simp [commentText, chars])
      have hhead : ∀ c ∈ commentText.head?, c ∉ lineDelimiter := by
        intro c hc
        obtain rfl := Option.mem_some_iff.mp hc
        decide
      have hspn : strspn (bufferOf commentText) lineDelimiter (n + 1) 0 = 0 :=
        strspn_eq (b := bufferOf commentText) (u := []) (v := commentText)
          (cstr_bufferOf (by decide)) (by simp) hhead (Nat.zero_le _)
      have htok : strtokR (bufferOf commentText) (n + 1) (some 0) lineDelimiter 0 =
          (some 0, 1, bufferOf commentText) := by
        unfold strtokR
        dsimp only [Option.getD_some]
        rw [if_neg (by decide), hspn, if_neg (by decide), hcspn, if_pos (by decide)]
      unfold tokenize
      rw [show (initial commentText).text = bufferOf commentText from rfl, htok]
      rfl
    unfold loaderParseEntries at heq
    rw [htok] at heq
    dsimp only at heq
    rw [parseLoop_comment (show IsComment (initial commentText).text 0 from rfl)] at heq
    cases heq

end Elfboot.LoaderEnds
