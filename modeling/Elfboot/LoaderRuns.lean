import Elfboot.LoaderParse

/-!
The boot configuration from its text to the array of boot options.

A text is laid out as lines with newlines between them, and any number of blank lines
anywhere; the last line may end with the text. The parser goes through the lines of one entry
after the other, and the entries it has stored are on the list in their order.
-/

namespace Elfboot.LoaderRuns

open List (all_iff_forall_prop)
open Elfboot.Circular Elfboot.Buffer Elfboot.Str Elfboot.Loader Elfboot.LoaderParse

/-- A boot entry as it is written. -/
structure Entry where
  name : List UInt8
  prot : Protocol
  kernel : List UInt8
  initrd : List UInt8
  cmdline : List UInt8
  name_ok : ∀ c ∈ name, c ∉ nameDelimiter ∧ c ∉ lineDelimiter ∧ c ≠ 0
  kernel_ok : IsPath kernel
  initrd_ok : IsPath initrd
  cmdline_ok : ∀ c ∈ cmdline, c ∉ lineDelimiter ∧ c ≠ 0

/-- The lines of an entry, as `elfboot.cfg` has them. -/
def Entry.lines (e : Entry) : List (List UInt8) :=
  [bootentryWord ++ 32 :: 34 :: (e.name ++ 34 :: chars [' ', '{']),
    9 :: (kernelWord ++ 32 :: (e.prot.word ++ 32 :: e.kernel)),
    9 :: (initrdWord ++ 32 :: e.initrd),
    9 :: (cmdlineWord ++ 32 :: e.cmdline),
    bootDelimiter]

/-- A text that has the lines. -/
inductive Layout : List (List UInt8) → List UInt8 → Prop
  | blank (k : ℕ) : Layout [] (List.replicate k 10)
  | last (k : ℕ) (l : List UInt8) : Layout [l] (List.replicate k 10 ++ l)
  | line (k : ℕ) (l : List UInt8) {ls : List (List UInt8)} {t : List UInt8} (h : Layout ls t) :
    Layout (l :: ls) (List.replicate k 10 ++ (l ++ 10 :: t))

/-- What an entry in memory is to hold. -/
structure Holds (b : BootEntry) (e : Entry) : Prop where
  name : ∃ buf, b.name = some buf ∧ CStr buf 0 e.name
  kernel : ∃ buf, b.kernelPath = some buf ∧ CStr buf 0 e.kernel
  initrd : ∃ buf, b.initrdPath = some buf ∧ CStr buf 0 e.initrd
  cmdline : ∃ buf, b.cmdline = some buf ∧ CStr buf 0 e.cmdline
  prot : b.prot = e.prot.code

variable {m : Bmalloc} {n i p k lend store : ℕ} {s s' : State} {line be : Option ℕ}
variable {l t : List UInt8} {ls : List (List UInt8)} {ids : List ℕ} {es : List Entry} {e : Entry}

/-! ### Lines -/

/-- A line that the tokenizer gives as it is: not empty, and in one piece. -/
def IsLine (l : List UInt8) : Prop := l ≠ [] ∧ ∀ c ∈ l, c ∉ lineDelimiter

lemma Layout.length_le (h : Layout ls t) (hok : ∀ l ∈ ls, IsLine l) : ls.length ≤ t.length := by
  induction h with
  | blank k => simp
  | last k l =>
    have hpos := List.length_pos_iff.mpr (hok l (by simp)).1
    rw [List.length_append, List.length_singleton]
    omega
  | line k l h ih =>
    have ih := ih fun l' hl' => hok l' (by simp [hl'])
    rw [List.length_append, List.length_append, List.length_cons, List.length_cons]
    omega

/-- The parser is at the first of the lines, if there is one, with the others behind it. -/
def AtLine (n : ℕ) (line : Option ℕ) (lend : ℕ) (s : State) : List (List UInt8) → Prop
  | [] => line = none
  | l :: ls => ∃ p t, line = some p ∧ CStr s.text p l ∧ l.length ≤ n ∧ p + l.length ≤ lend ∧
      CStr s.text lend t ∧ t.length ≤ n ∧ Layout ls t

/-- Tokenizing leads to the next line. -/
lemma atLine_next (str : Option ℕ) (store : ℕ) (hl : Layout ls t) (hok : ∀ l ∈ ls, IsLine l)
    (hs : str.getD store = p) (h : CStr s.text p t) {c : ℕ} (hn : t.length ≤ c) (hc : c ≤ n) :
    ∃ line lend text, tokenize n s str lineDelimiter store = (line, lend, { s with text }) ∧
      AtLine c line lend { s with text } ls := by
  have hblank : ∀ k, ∀ c ∈ List.replicate k (10 : UInt8), c ∈ lineDelimiter := by
    intro k c hc
    rw [(List.mem_replicate.mp hc).2]
    decide
  cases hl with
  | blank k =>
    obtain ⟨store', heq⟩ := tokenize_none str store lineDelimiter hs h (hblank k) (hn.trans hc)
    exact ⟨none, store', s.text, heq, rfl⟩
  | last k l =>
    obtain ⟨hne, hmem⟩ := hok l (by simp)
    have hn' : (List.replicate k 10 ++ (l ++ [])).length ≤ n := by
      rw [List.append_nil]
      exact hn.trans hc
    obtain ⟨text, store', heq, h1, h2, h3, -, -⟩ := tokenize_token (v := []) str store _ hs
      (by rwa [List.append_nil]) (hblank k) hmem hne (by simp) hn'
    rw [List.length_append] at hn
    exact ⟨_, store', text, heq, _, [], rfl, h1, by omega, h3, h2, Nat.zero_le _, .blank 0⟩
  | line k l hl' =>
    obtain ⟨hne, hmem⟩ := hok l (by simp)
    obtain ⟨text, store', heq, h1, h2, h3, -, -⟩ :=
      tokenize_token str store _ hs h (hblank k) hmem hne
      (by rintro c ⟨⟩; decide) (hn.trans hc)
    rw [List.tail_cons] at h2
    rw [List.length_append, List.length_append, List.length_cons] at hn
    exact ⟨_, store', text, heq, _, _, rfl, h1, by omega, h3, h2, by omega, hl'⟩

/-- One turn of the loop, for a line that is no comment and whatever it does to the state. -/
lemma loop_step (be : Option ℕ) {Q : Option ℕ → State → Prop} (h : AtLine n line lend s (l :: ls))
    (hok : ∀ l ∈ ls, IsLine l) (hne : l ≠ []) (hc : l.head? ≠ some 35)
    (hline : ∀ p, CStr s.text p l → l.length ≤ n → ∃ be' s', parseLine m n s be p = some (be', s') ∧
      (∀ j, p + l.length ≤ j → s'.text j = s.text j) ∧ ∀ text, Q be' { s' with text }) (k : ℕ) :
    ∃ line' lend' be' s',
      parseLoop m n (k + 1) line lend be s = parseLoop m n k line' lend' be' s' ∧
      AtLine n line' lend' s' ls ∧ Q be' s' := by
  obtain ⟨p, t, rfl, hp, hn, hle, ht, htn, hlay⟩ := h
  obtain ⟨be', s', heq, htext, hQ⟩ := hline p hp hn
  have ht' : CStr s'.text lend t := ht.congr fun j hj _ => htext j (by omega)
  obtain ⟨line', lend', text, htok, hat⟩ := atLine_next none lend hlay hok rfl
    ht' htn le_rfl
  have hcomment : s.text p ≠ firstChar charComment := by
    cases l with
    | nil => exact absurd rfl hne
    | cons c l => exact hp.head_ne fun e => hc (e ▸ rfl)
  refine ⟨line', lend', be', { s' with text }, ?_, hat, hQ text⟩
  rw [parseLoop, if_neg hcomment, heq]
  dsimp only
  rw [htok]

/-! ### Entries -/

/-- The entries on the list. -/
structure Stored (s : State) (ids : List ℕ) (es : List Entry) : Prop where
  list : IsList s.links .bootList (ids.map .entry)
  number : s.bootNumber = es.length
  choice : s.bootChoice = es.length
  below : ∀ i ∈ ids, i < s.calls
  holds : List.Forall₂ (fun i e => Holds (s.entries i) e) ids es

/-- With an entry that is open besides. -/
structure Open (i : ℕ) (s : State) (ids : List ℕ) (es : List Entry) (P : BootEntry → Prop) :
    Prop where
  stored : Stored s ids es
  fresh : i ∉ ids
  below : i < s.calls
  entry : P (s.entries i)

lemma forall₂_congr {s s' : State} (h : List.Forall₂ (fun i e => Holds (s.entries i) e) ids es)
    (he : ∀ j ∈ ids, s'.entries j = s.entries j) :
    List.Forall₂ (fun i e => Holds (s'.entries i) e) ids es := by
  induction h with
  | nil => exact .nil
  | cons h1 h2 ih =>
    refine .cons ?_ (ih fun j hj => he j (by simp [hj]))
    rw [he _ (by simp)]
    exact h1

lemma Open.same {P P' : BootEntry → Prop} {e : ℕ} (h : Open i s ids es P) (hs : Same i e s s')
    (he : P (s.entries i) → P' (s'.entries i)) (text : Bytes) :
    Open i { s' with text } ids es P' := by
  obtain ⟨⟨hlist, hnum, hchoice, hbelow, hholds⟩, hfresh, hlt, hP⟩ := h
  refine ⟨⟨?_, ?_, ?_, ?_, ?_⟩, hfresh, hlt.trans_le hs.calls, he hP⟩
  · exact hs.links ▸ hlist
  · exact hs.bootNumber.trans hnum
  · exact hs.bootChoice.trans hchoice
  · exact fun j hj => (hbelow j hj).trans_le hs.calls
  · refine forall₂_congr hholds fun j hj => hs.entries j ?_
    rintro rfl
    exact hfresh hj

/-- A new entry is on no list. -/
lemma isList_new {L : Links Node} (h : IsList L .bootList (ids.map .entry)) (hi : i ∉ ids) :
    IsList ((L.setPrev (.entry i) .null).setNext (.entry i) .null) .bootList (ids.map .entry) := by
  have hoff : ∀ x ∈ Node.bootList :: ids.map .entry, x ≠ .entry i := by
    rintro x hx rfl
    rcases List.mem_cons.mp hx with he | hx
    · cases he
    · obtain ⟨j, hj, he⟩ := List.mem_map.mp hx
      exact hi (Node.entry.inj he ▸ hj)
  refine h.congr (fun x hx => ?_) fun x hx => ?_
  · simp [hoff x hx]
  · simp [hoff x hx]

lemma isList_store (h : IsList s.links .bootList (ids.map .entry)) (hi : i ∉ ids) :
    IsList (loaderStoreEntry s i).links .bootList ((ids ++ [i]).map .entry) := by
  rw [List.map_append]
  exact h.addTail (by simpa using hi)

lemma Stored.open_new (h : Stored s ids es) {b : BootEntry} {P : BootEntry → Prop} (hP : P b)
    (hentries : s'.entries = Function.update s.entries (s.calls + 1) b)
    (hlinks : s'.links = (s.links.setPrev (.entry (s.calls + 1)) .null).setNext
      (.entry (s.calls + 1)) .null)
    (hnum : s'.bootNumber = s.bootNumber) (hchoice : s'.bootChoice = s.bootChoice)
    (hcalls : s'.calls = s.calls + 2) (text : Bytes) :
    Open (s.calls + 1) { s' with text } ids es P := by
  have hne : ∀ j ∈ ids, j ≠ s.calls + 1 := fun j hj => by
    have := h.below j hj
    omega
  refine ⟨⟨?_, ?_, ?_, ?_, ?_⟩, ?_, ?_, ?_⟩
  · change IsList s'.links _ _
    rw [hlinks]
    exact isList_new h.list fun hj => hne _ hj rfl
  · exact hnum.trans h.number
  · exact hchoice.trans h.choice
  · intro j hj
    have := h.below j hj
    dsimp only
    omega
  · refine forall₂_congr h.holds fun j hj => ?_
    dsimp only
    rw [hentries, Function.update_of_ne (hne j hj)]
  · exact fun hm => hne _ hm rfl
  · dsimp only
    omega
  · dsimp only
    rw [hentries, Function.update_self]
    exact hP

/-- Storing the open entry puts it behind the others. -/
lemma open_close (h : Open i s ids es fun b => Holds b e) (text : Bytes) :
    Stored { loaderStoreEntry s i with text } (ids ++ [i]) (es ++ [e]) := by
  obtain ⟨⟨hlist, hnum, hchoice, hbelow, hholds⟩, hfresh, hlt, hP⟩ := h
  refine ⟨isList_store hlist hfresh, ?_, ?_, ?_, ?_⟩
  · simp [loaderStoreEntry, hnum]
  · simp [loaderStoreEntry, hchoice]
  · intro j hj
    rcases List.mem_append.mp hj with hj | hj
    · exact hbelow j hj
    · rw [List.mem_singleton.mp hj]
      exact hlt
  · exact List.rel_append hholds (.cons hP .nil)

lemma Entry.lines_ok (e : Entry) : ∀ l ∈ e.lines, IsLine l := by
  have hpath : ∀ {l}, IsPath l → ∀ c ∈ l, c ∉ lineDelimiter := fun h c hc => (h.2 c hc).2.1
  have hprot : ∀ c ∈ e.prot.word, c ∉ lineDelimiter := by
    cases e.prot <;> exact all_iff_forall_prop.mp (by decide)
  have h1 : ∀ c ∈ bootentryWord ++ 32 :: 34 :: (e.name ++ 34 :: chars [' ', '{']),
      c ∉ lineDelimiter := by
    simp only [List.forall_mem_append, List.forall_mem_cons]
    exact ⟨all_iff_forall_prop.mp (by decide), by decide, by decide,
      fun c hc => (e.name_ok c hc).2.1, by decide, all_iff_forall_prop.mp (by decide)⟩
  have h2 : ∀ c ∈ 9 :: (kernelWord ++ 32 :: (e.prot.word ++ 32 :: e.kernel)),
      c ∉ lineDelimiter := by
    simp only [List.forall_mem_append, List.forall_mem_cons]
    exact ⟨by decide, all_iff_forall_prop.mp (by decide), by decide, hprot, by decide,
      hpath e.kernel_ok⟩
  have h3 : ∀ c ∈ 9 :: (initrdWord ++ 32 :: e.initrd), c ∉ lineDelimiter := by
    simp only [List.forall_mem_append, List.forall_mem_cons]
    exact ⟨by decide, all_iff_forall_prop.mp (by decide), by decide, hpath e.initrd_ok⟩
  have h4 : ∀ c ∈ 9 :: (cmdlineWord ++ 32 :: e.cmdline), c ∉ lineDelimiter := by
    simp only [List.forall_mem_append, List.forall_mem_cons]
    exact ⟨by decide, all_iff_forall_prop.mp (by decide), by decide,
      fun c hc => (e.cmdline_ok c hc).1⟩
  unfold Entry.lines
  simp only [List.forall_mem_cons]
  refine ⟨⟨?_, h1⟩, ⟨?_, h2⟩, ⟨?_, h3⟩, ⟨?_, h4⟩,
    ⟨by decide, all_iff_forall_prop.mp (by decide)⟩, by simp⟩
  all_goals simp [bootentryWord, chars]

/-- A turn for an option line of the open entry. -/
lemma option_turn {P R : BootEntry → Prop} (hat : AtLine n line lend s (l :: ls))
    (hok : ∀ l ∈ ls, IsLine l) (hl : IsLine l) (hc : l.head? ≠ some 35) (h : Open i s ids es P)
    (hline : ∀ p, CStr s.text p l → l.length ≤ n → ∃ s', parseLine m n s (some i) p =
      some (some i, s') ∧ Same i (p + l.length) s s' ∧ (P (s.entries i) → R (s'.entries i)))
    (k : ℕ) : ∃ line' lend' s',
      parseLoop m n (k + 1) line lend (some i) s = parseLoop m n k line' lend' (some i) s' ∧
        AtLine n line' lend' s' ls ∧ Open i s' ids es R := by
  obtain ⟨line', lend', be', s', heq, hat', rfl, hopen⟩ := loop_step (some i)
    (Q := fun be s' => be = some i ∧ Open i s' ids es R) hat hok hl.1 hc (fun p hp hn => by
      obtain ⟨s', heq, hsame, hP⟩ := hline p hp hn
      exact ⟨_, s', heq, hsame.text, fun text => ⟨rfl, h.same hsame hP text⟩⟩) k
  exact ⟨line', lend', s', heq, hat', hopen⟩

/-- **One entry**: five turns of the loop put it behind the ones stored before. -/
theorem entry_run (hm : Plenty m) (e : Entry) (hat : AtLine n line lend s (e.lines ++ ls))
    (hok : ∀ l ∈ ls, IsLine l) (h : Stored s ids es) (k : ℕ) : ∃ line' lend' i s',
      parseLoop m n (k + 5) line lend none s = parseLoop m n k line' lend' none s' ∧
        AtLine n line' lend' s' ls ∧ Stored s' (ids ++ [i]) (es ++ [e]) := by
  have hlines := e.lines_ok
  unfold Entry.lines at hlines hat
  simp only [List.forall_mem_cons] at hlines
  simp only [List.cons_append, List.nil_append] at hat
  obtain ⟨hk1, hk2, hk3, hk4, hk5, -⟩ := hlines
  have hok5 : ∀ l ∈ bootDelimiter :: ls, IsLine l := List.forall_mem_cons.mpr ⟨hk5, hok⟩
  have hok4 := List.forall_mem_cons.mpr ⟨hk4, hok5⟩
  have hok3 := List.forall_mem_cons.mpr ⟨hk3, hok4⟩
  have hok2 := List.forall_mem_cons.mpr ⟨hk2, hok3⟩
  -- the name
  obtain ⟨line1, lend1, be1, s1, heq1, hat1, i, rfl, hopen1⟩ := loop_step none
    (Q := fun be s' => ∃ i, be = some i ∧ Open i s' ids es fun b =>
      ∃ buf, b.name = some buf ∧ CStr buf 0 e.name) hat hok2 hk1.1
    (by simp [bootentryWord, chars]) (fun p hp hn => by
      obtain ⟨s', buf, heq, hbuf, h1, h2, h3, h4, h5, h6⟩ := bootentry_line hm
        (fun hq => (e.name_ok _ hq).1 (by decide)) hp hn
      exact ⟨_, s', heq, fun j _ => by rw [h6], fun text => ⟨_, rfl,
        h.open_new ⟨buf, rfl, hbuf⟩ h1 h2 h3 h4 h5 text⟩⟩) (k + 4)
  -- the options
  obtain ⟨line2, lend2, s2, heq2, hat2, hopen2⟩ := option_turn (m := m)
    (R := fun b => (∃ buf, b.name = some buf ∧ CStr buf 0 e.name) ∧
      (∃ buf, b.kernelPath = some buf ∧ CStr buf 0 e.kernel) ∧ b.prot = e.prot.code)
    hat1 hok3 hk2 (by simp) hopen1 (fun p hp hn => by
      obtain ⟨s', buf, heq, hsame, hbuf, hentry⟩ := kernel_line hm e.prot e.kernel_ok hp hn
      refine ⟨s', heq, hsame, fun hP => ?_⟩
      rw [hentry]
      exact ⟨hP, ⟨buf, rfl, hbuf⟩, rfl⟩) (k + 3)
  obtain ⟨line3, lend3, s3, heq3, hat3, hopen3⟩ := option_turn (m := m)
    (R := fun b => (∃ buf, b.name = some buf ∧ CStr buf 0 e.name) ∧
      (∃ buf, b.kernelPath = some buf ∧ CStr buf 0 e.kernel) ∧ b.prot = e.prot.code ∧
      ∃ buf, b.initrdPath = some buf ∧ CStr buf 0 e.initrd)
    hat2 hok4 hk3 (by simp) hopen2 (fun p hp hn => by
      obtain ⟨s', buf, heq, hsame, hbuf, hentry⟩ := initrd_line hm e.initrd_ok hp hn
      refine ⟨s', heq, hsame, fun hP => ?_⟩
      rw [hentry]
      exact ⟨hP.1, hP.2.1, hP.2.2, buf, rfl, hbuf⟩) (k + 2)
  obtain ⟨line4, lend4, s4, heq4, hat4, hopen4⟩ := option_turn (m := m)
    (R := fun b => Holds b e) hat3 hok5 hk4 (by simp) hopen3 (fun p hp hn => by
      obtain ⟨s', buf, heq, hsame, hbuf, hentry⟩ := cmdline_line hm hp hn
      refine ⟨s', heq, hsame, fun hP => ?_⟩
      rw [hentry]
      exact ⟨hP.1, hP.2.1, hP.2.2.2, ⟨buf, rfl, hbuf⟩, hP.2.2.1⟩) (k + 1)
  -- the brace
  obtain ⟨line5, lend5, be5, s5, heq5, hat5, rfl, hstored⟩ := loop_step (m := m) (some i)
    (Q := fun be s' => be = none ∧ Stored s' (ids ++ [i]) (es ++ [e])) hat4 hok
    hk5.1 (by decide) (fun p hp _ =>
      ⟨none, _, brace_line hp, fun _ _ => rfl, fun text => ⟨rfl, open_close hopen4 text⟩⟩) k
  exact ⟨line5, lend5, i, s5, heq1.trans (heq2.trans (heq3.trans (heq4.trans heq5))), hat5, hstored⟩

/-- **All entries**, one after the other. -/
theorem entries_run (hm : Plenty m) : ∀ (es' : List Entry) {line : Option ℕ} {lend : ℕ} {s : State}
    {ids : List ℕ} {es : List Entry}, AtLine n line lend s (es'.flatMap Entry.lines) →
    Stored s ids es → ∀ k, 5 * es'.length < k →
      ∃ ids' s', parseLoop m n k line lend none s = some s' ∧ Stored s' ids' (es ++ es')
  | [], line, lend, s, ids, es, hat, h, k, hk => by
    obtain ⟨k, rfl⟩ : ∃ j, k = j + 1 := ⟨k - 1, by omega⟩
    obtain rfl : line = none := hat
    rw [List.append_nil]
    exact ⟨ids, s, rfl, h⟩
  | e :: es', line, lend, s, ids, es, hat, h, k, hk => by
    rw [List.length_cons] at hk
    obtain ⟨k, rfl⟩ : ∃ j, k = j + 5 := ⟨k - 5, by omega⟩
    have hok : ∀ l ∈ es'.flatMap Entry.lines, IsLine l := by
      intro l hl
      obtain ⟨e', -, hl⟩ := List.mem_flatMap.mp hl
      exact e'.lines_ok l hl
    obtain ⟨line', lend', i, s1, heq1, hat1, h1⟩ := entry_run hm e hat hok h k
    obtain ⟨ids', s', heq2, h2⟩ := entries_run hm es' hat1 h1 k (by omega)
    rw [List.append_assoc] at h2
    exact ⟨ids', s', heq1.trans heq2, h2⟩

/-! ### The boot options -/

/-- The loop over the list copies the entries to the places that the counter gives. -/
lemma bootOptionsLoop_spec {done : List Entry} {a : Node} {opts : ℤ → BootEntry}
    (hholds : List.Forall₂ (fun i e => Holds (s.entries i) e) ids es)
    (hseg : Seg s.links a (ids.map .entry) .bootList) (hc : s.bootChoice = es.length)
    (hnum : s.bootNumber = done.length + es.length)
    (hdone : ∀ j (h : j < done.length), Holds (opts j) done[j]) (hn : ids.length < n) :
    ∃ opts', bootOptionsLoop n (s.links.next a) opts s =
        some { s with bootChoice := 0, bootOptions := some opts' } ∧
      ∀ j (h : j < (done ++ es).length), Holds (opts' j) (done ++ es)[j] := by
  obtain ⟨n, rfl⟩ : ∃ k, n = k + 1 := ⟨n - 1, by omega⟩
  induction ids generalizing s es done a opts n with
  | nil =>
    obtain rfl := List.forall₂_nil_left_iff.mp hholds
    have hnext : s.links.next a = .bootList := hseg.1
    rw [hnext, bootOptionsLoop, ← show s.bootChoice = 0 from hc]
    refine ⟨opts, rfl, fun j hj => ?_⟩
    simp only [List.append_nil] at hj ⊢
    exact hdone j hj
  | cons i ids ih =>
    obtain ⟨e, es, h1, h2, rfl⟩ := List.forall₂_cons_left_iff.mp hholds
    obtain ⟨hnext, -, hrest⟩ := hseg
    rw [List.length_cons, Nat.cast_succ] at hc hnum
    rw [List.length_cons] at hn
    obtain ⟨n, rfl⟩ : ∃ k, n = k + 1 := ⟨n - 1, by omega⟩
    have hnew : ∀ j (h : j < (done ++ [e]).length),
        Holds (Function.update opts (done.length : ℤ) (s.entries i) j) (done ++ [e])[j] := by
      intro j hj
      rw [List.length_append, List.length_singleton] at hj
      rcases Nat.lt_succ_iff_lt_or_eq.mp hj with hlt | rfl
      · rw [Function.update_of_ne (by omega), List.getElem_append_left hlt]
        exact hdone j hlt
      · rw [Function.update_self, List.getElem_concat_length rfl]
        exact h1
    obtain ⟨opts', heq, hopts⟩ := @ih { s with bootChoice := s.bootChoice - 1 } es (done ++ [e])
      (.entry i) _ h2 hrest (by dsimp only; omega)
      (by simp only [List.length_append, List.length_singleton]; omega) hnew n (by omega)
    rw [hnext, bootOptionsLoop, show s.bootNumber - s.bootChoice = (done.length : ℤ) by omega]
    refine ⟨opts', heq, ?_⟩
    simpa only [List.append_assoc, List.singleton_append] using hopts

lemma flatMap_lines_length (es : List Entry) :
    (es.flatMap Entry.lines).length = 5 * es.length := by
  induction es with
  | nil => rfl
  | cons e es ih =>
    rw [List.flatMap_cons, List.length_append, List.length_cons, ih]
    simp only [Entry.lines, List.length_cons, List.length_nil]
    omega

lemma flatMap_lines_ok (es : List Entry) : ∀ l ∈ es.flatMap Entry.lines, IsLine l := by
  intro l hl
  obtain ⟨e, -, hl⟩ := List.mem_flatMap.mp hl
  exact e.lines_ok l hl

/-- **Round trip**: a text with the lines of the entries is parsed to the end, and the boot
options are the entries in their order. -/
theorem config_round_trip (hm : Plenty m) (hne : es ≠ []) (ht : Layout (es.flatMap Entry.lines) t)
    {config : ℕ} (htext : CStr s.text config t) (hn : t.length < n)
    (hlist : IsList s.links .bootList []) (hnum : s.bootNumber = 0) (hchoice : s.bootChoice = 0)
    (old : ℤ → BootEntry) :
    ∃ s1 s2 opts, loaderParseEntries m n s config = some s1 ∧
      loaderInitBootOptions m n old s1 = some (0, s2) ∧ s2.bootNumber = es.length ∧
      s2.bootChoice = 0 ∧ s2.bootOptions = some opts ∧
      ∀ k (h : k < es.length), Holds (opts k) es[k] := by
  have hok := flatMap_lines_ok es
  have hlines := flatMap_lines_length es
  have hle := ht.length_le hok
  obtain ⟨line, lend, text, heq, hat⟩ := atLine_next (some config) 0 ht hok rfl
    htext hn.le le_rfl
  have hstored : Stored { s with text } [] [] := ⟨hlist, hnum, hchoice, by simp, .nil⟩
  obtain ⟨ids, s1, hrun, h1⟩ := entries_run hm es hat hstored n (by omega)
  rw [List.nil_append] at h1
  have hpos : es.length ≠ 0 := by simpa using hne
  obtain ⟨opts, hloop, hopts⟩ := @bootOptionsLoop_spec n { s1 with calls := s1.calls + 1 } ids es
    [] .bootList old h1.holds h1.list.seg h1.choice (by simp [h1.number]) (by simp)
    (by rw [h1.holds.length_eq]; omega)
  have hs : loaderParseEntries m n s config = some s1 := by
    rw [loaderParseEntries, heq]
    exact hrun
  have hinit : loaderInitBootOptions m n old s1 = some (0, { s1 with
      calls := s1.calls + 1, bootChoice := 0, bootOptions := some opts }) := by
    have hnum : s1.bootNumber ≠ 0 := by
      rw [h1.number]
      exact_mod_cast hpos
    rw [loaderInitBootOptions, if_neg hnum, bmalloc_plenty hm]
    dsimp only at hloop ⊢
    rw [hloop]
  exact ⟨s1, _, opts, hs, hinit, h1.number, rfl, rfl, hopts⟩

/-! ### An entry -/

/-- The buffer that holds a text from its start on. -/
def bufferOf (t : List UInt8) : Bytes := fun i => t.getD i 0

lemma cstr_bufferOf (h : (0 : UInt8) ∉ t) : CStr (bufferOf t) 0 t := by
  refine CStr.of_get (fun i hi => ?_) (fun c hc h0 => h (h0 ▸ hc)) ?_
  · simp [bufferOf, hi]
  · simp [bufferOf]

def oneEntry : Entry where
  name := chars ['o', 's']
  prot := .multiboot2
  kernel := chars ['/', 'k']
  initrd := chars ['/', 'i']
  cmdline := chars ['v', ' ', '=', '1']
  name_ok := all_iff_forall_prop.mp (by decide)
  kernel_ok := ⟨rfl, all_iff_forall_prop.mp (by decide)⟩
  initrd_ok := ⟨rfl, all_iff_forall_prop.mp (by decide)⟩
  cmdline_ok := all_iff_forall_prop.mp (by decide)

/-- The lines of the entry, with a blank line in front and one behind the name. -/
def oneText : List UInt8 :=
  10 :: (chars ['b', 'o', 'o', 't', 'e', 'n', 't', 'r', 'y', ' ', '"', 'o', 's', '"', ' ', '{'] ++
    10 :: 10 :: (9 :: chars ['k', 'e', 'r', 'n', 'e', 'l', ' ', 'm', 'u', 'l', 't', 'i', 'b', 'o',
      'o', 't', '2', ' ', '/', 'k'] ++
    10 :: (9 :: chars ['i', 'n', 'i', 't', 'r', 'd', ' ', '/', 'i'] ++
    10 :: (9 :: chars ['c', 'm', 'd', 'l', 'i', 'n', 'e', ' ', 'v', ' ', '=', '1'] ++
    10 :: chars ['}']))))

/-- Before the configuration is read, with a list of no entries. -/
def initial (t : List UInt8) : State where
  text := bufferOf t
  links := ⟨id, id⟩
  entries := fun _ => ⟨none, none, none, none, 0⟩
  bootNumber := 0
  bootChoice := 0
  bootOptions := none
  calls := 0

def otherEntry : Entry where
  name := chars ['o', 'l', 'd', ' ', 'o', 's']
  prot := .linux
  kernel := chars ['/', 'v']
  initrd := chars ['/', 'r']
  cmdline := chars ['q']
  name_ok := all_iff_forall_prop.mp (by decide)
  kernel_ok := ⟨rfl, all_iff_forall_prop.mp (by decide)⟩
  initrd_ok := ⟨rfl, all_iff_forall_prop.mp (by decide)⟩
  cmdline_ok := all_iff_forall_prop.mp (by decide)

/-- The two entries, with a blank line between them. -/
def twoText : List UInt8 :=
  oneText ++ 10 :: 10 :: (chars ['b', 'o', 'o', 't', 'e', 'n', 't', 'r', 'y', ' ', '"', 'o', 'l',
      'd', ' ', 'o', 's', '"', ' ', '{'] ++
    10 :: (9 :: chars ['k', 'e', 'r', 'n', 'e', 'l', ' ', 'l', 'i', 'n', 'u', 'x', ' ', '/', 'v'] ++
    10 :: (9 :: chars ['i', 'n', 'i', 't', 'r', 'd', ' ', '/', 'r'] ++
    10 :: (9 :: chars ['c', 'm', 'd', 'l', 'i', 'n', 'e', ' ', 'q'] ++
    10 :: chars ['}', '\n']))))

lemma layout_twoText : Layout ([oneEntry, otherEntry].flatMap Entry.lines) twoText :=
  .line 1 _ (.line 1 _ (.line 0 _ (.line 0 _ (.line 0 _ (.line 1 _ (.line 0 _ (.line 0 _
    (.line 0 _ (.line 0 _ (.blank 0))))))))))

theorem config_round_trip_two :
    ∃ s1 s2 opts,
      loaderParseEntries ⟨fun _ _ => true, fun _ _ => 0⟩ 200 (initial twoText) 0 = some s1 ∧
      loaderInitBootOptions ⟨fun _ _ => true, fun _ _ => 0⟩ 200
        (fun _ => ⟨none, none, none, none, 0⟩) s1 = some (0, s2) ∧
      s2.bootNumber = 2 ∧ s2.bootChoice = 0 ∧ s2.bootOptions = some opts ∧
      ∀ k (h : k < [oneEntry, otherEntry].length), Holds (opts k) [oneEntry, otherEntry][k] :=
  config_round_trip (fun _ _ => rfl) (by decide) layout_twoText
    (cstr_bufferOf (by decide +kernel)) (by decide +kernel) ⟨List.nodup_singleton _, rfl, rfl⟩
    rfl rfl _

end Elfboot.LoaderRuns
