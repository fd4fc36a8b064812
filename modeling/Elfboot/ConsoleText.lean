import Elfboot.LoaderBlocks
import Elfboot.MenuRuns
import Elfboot.PrintfPieces

/-!
The texts of `loader.c` for the console, and the buffers they are written to.

Nothing bounds what `vsprintf` writes. A message has the buffer of `bprintf`, a text of the menu one
of the width of the logo, which a text that is padded to this width and terminated does not fit.
-/

namespace Elfboot.ConsoleText

open Elfboot.Errno Elfboot.Buffer Elfboot.Str Elfboot.Printf Elfboot.PrintfPieces Elfboot.Loader
open Elfboot.LoaderEnds Elfboot.LoaderOption Elfboot.LoaderBlocks Elfboot.LoaderRuns

/-- `char buffer[256]` of `bprintf`. -/
abbrev sizeofBuffer : ℕ := 256

def unsupportedFormat : List UInt8 :=
  chars "EBL: Unsupported bootentry option \"%s\"\n".toList

def entryFormat : List UInt8 := chars " %s (%s) ".toList

def paddedFormat : List UInt8 := chars "%-*s".toList

/-! ### Messages -/

/-- The message of `loader_parse_entry`: what `bprintln` has in its buffer. -/
def entryMessage (n : ℕ) (s : State) (line : ℕ) : Option (List UInt8) :=
  match loaderStripEntryLine s.text n line with
  | none => none
  | some option =>
    if strncmp s.text option kernelWord 6 = 0 then none
    else if strncmp s.text option initrdWord 6 = 0 then none
    else if strncmp s.text option cmdlineWord 7 = 0 then none
    else (vsprintf s.text unsupportedFormat [.str option]).map Prod.fst

/-- The message of a turn of `loader_parse_entries`. -/
def turnMessage (n : ℕ) (s : State) (bootEntry : Option ℕ) (line : ℕ) : Option (List UInt8) :=
  if strncmp s.text line bootentryWord 9 = 0 then none
  else if s.text line = firstChar infoDelimiter then
    match bootEntry with
    | none => none
    | some _ => entryMessage n s line
  else none

/-- Every message of the parser fits. -/
def MessagesFit (m : Bmalloc) (n : ℕ) (s0 : State) (config : ℕ) : Prop :=
  ∀ line lend be s, Visits m n s0 config line lend be s →
    ∀ out ∈ turnMessage n s be line, out.length ≤ sizeofBuffer

/-- The line is an option that the parser knows. -/
def Known (l : List UInt8) : Prop :=
  kernelWord <+: stripped l ∨ initrdWord <+: stripped l ∨ cmdlineWord <+: stripped l

instance (l : List UInt8) : Decidable (Known l) := inferInstanceAs (Decidable (_ ∨ _ ∨ _))

/-- The line is no option of an open entry, or one the parser knows, or short enough. -/
def Short (s : State) (be : Option ℕ) (line : ℕ) : Prop :=
  ∀ l, CStr s.text line l → be.isSome → kind l = .option →
    Known l ∨ (stripped l).length + 38 ≤ sizeofBuffer

/-! ### The menu -/

/-- Memory after a text has been written to a buffer. -/
def written (mem : Bytes) (buffer : ℕ) (out : List UInt8) : Bytes := fun j =>
  if buffer ≤ j ∧ j < buffer + out.length then out.getD (j - buffer) 0 else mem j

/-- `sprintf(.., "%-*s", logo->width, str)`. -/
def paddedText (mem : Bytes) (logo : Menu.TmgHeader) (str : ℕ) : Option (List UInt8) :=
  (vsprintf mem paddedFormat [.int (Int32.ofNat logo.width.toNat), .str str]).map Prod.fst

/-- What `loader_menu_show_entry` writes to `bent` and `fent`. -/
def entryTexts (mem : Bytes) (logo : Menu.TmgHeader) (bent name cmdline : ℕ) :
    Option (List UInt8 × List UInt8) :=
  (vsprintf mem entryFormat [.str name, .str cmdline]).bind fun b =>
    (paddedText (written mem bent b.1) logo bent).map fun f => (b.1, f)

variable (m : Bmalloc) (logo : Menu.TmgHeader)

/-- The texts of a call of `loader_menu_show_entry`: it writes them where it draws the entry. -/
def showEntryTexts (mem : Bytes) (bent name cmdline : ℕ) (index : ℤ) (consAttr : Menu.ConsoleAttr)
    (s : Menu.State) : List (List UInt8) :=
  if (Menu.loaderMenuShowEntry m logo index consAttr s).1 ≠ 0 then []
  else (entryTexts mem logo bent name cmdline).elim [] fun b => [b.1, b.2]

/-- The text of a call of `loader_menu_init_selected`. -/
def initSelectedTexts (mem : Bytes) (blank : ℕ) (c : UInt8) (s : Menu.State) : List (List UInt8) :=
  if !(Menu.bmalloc m logo s).1 then []
  else if c = 0 ∨ c = Menu.consoleCtrlEnter then []
  else (paddedText mem logo blank).elim [] fun f => [f]

/-- Every text fits the buffer of `logo->width` bytes. -/
def AllFit (texts : List (List UInt8)) : Prop := ∀ out ∈ texts, out.length ≤ logo.width.toNat

variable {m logo} {n p config e line lend : ℕ} {s s0 : State} {be : Option ℕ}
variable {mem : Bytes} {bent name cmdline blank : ℕ} {l q d t : List UInt8}

/-! ### Formats -/

/-- The format with the arguments stands for the output. -/
def Stands (mem : Bytes) (fmt : List UInt8) (args : List Arg) (out : List UInt8) : Prop :=
  ∃ ps : List (Piece mem), format ps = fmt ∧ arguments ps = args ∧ output ps = out

variable {fmt out : List UInt8} {args : List Arg}

lemma stands_nil : Stands mem [] [] [] := ⟨[], rfl, rfl, rfl⟩

lemma Stands.cons (pc : Piece mem) (h : Stands mem fmt args out) :
    Stands mem (pc.bytes ++ fmt) (pc.args ++ args) (pc.output ++ out) := by
  obtain ⟨ps, rfl, rfl, rfl⟩ := h
  exact ⟨pc :: ps, List.flatMap_cons, List.flatMap_cons, List.flatMap_cons⟩

/-- Characters stand for themselves. -/
lemma Stands.literals (h : Stands mem fmt args out) (hl : ∀ c ∈ l, c ≠ 0 ∧ c ≠ 37) :
    Stands mem (l ++ fmt) args (l ++ out) := by
  induction l with
  | nil => exact h
  | cons c l ih =>
    obtain ⟨hc, hl⟩ := List.forall_mem_cons.mp hl
    exact (ih hl).cons (.literal c hc.1 hc.2)

/-- `%s` stands for a string. -/
lemma Stands.str (h : Stands mem fmt args out) (hl : CStr mem p l) (short : l.length < 2 ^ 31) :
    Stands mem (37 :: 115 :: fmt) (.str p :: args) (l ++ out) := by
  have hcons := h.cons (.conv ⟨[], .none, .str none .none p l hl fun _ => short⟩)
  have hout : (Piece.conv ⟨[], .none, .str none .none p l hl fun _ => short⟩ : Piece mem).output =
      l := by
    change padded false 32 0 l = l
    simp [padded]
  rwa [hout] at hcons

/-- `%-*s` stands for a string with spaces behind it. -/
lemma Stands.padded (h : Stands mem fmt args out) {v : Int32} (hv : 0 ≤ v.toInt)
    (hl : CStr mem p l) (short : l.length < 2 ^ 31) :
    Stands mem (37 :: 45 :: 42 :: 115 :: fmt) (.int v :: .str p :: args)
      (padded true 32 v.toInt.toNat l ++ out) := by
  have hcons := h.cons (.conv ⟨[.minus], .star v (by omega), .str none .none p l hl fun _ => short⟩)
  have hnat : v.toInt.natAbs = v.toInt.toNat := by omega
  have hout : (Piece.conv ⟨[.minus], .star v (by omega), .str none .none p l hl fun _ => short⟩ :
      Piece mem).output = PrintfPieces.padded true 32 v.toInt.toNat l := by
    rw [← hnat]
    rfl
  rwa [hout] at hcons

lemma Stands.vsprintf (h : Stands mem fmt args out) :
    vsprintf mem fmt args = some (out ++ [0], int32 out.length) := by
  obtain ⟨ps, rfl, rfl, rfl⟩ := h
  have hspec := vsprintf_spec mem ps []
  rwa [List.append_nil] at hspec

/-! ### What is written -/

lemma message_length (hl : CStr mem p l) (short : l.length < 2 ^ 31) :
    ∃ out, (vsprintf mem unsupportedFormat [.str p]).map Prod.fst = some out ∧
      out.length = l.length + 38 := by
  have hstands := ((stands_nil.literals (l := chars "\"\n".toList)
    (List.all_iff_forall_prop.mp (by decide))).str hl short).literals
      (l := chars "EBL: Unsupported bootentry option \"".toList)
      (List.all_iff_forall_prop.mp (by decide))
  have hfmt : unsupportedFormat = chars "EBL: Unsupported bootentry option \"".toList ++
      37 :: 115 :: (chars "\"\n".toList ++ []) := by decide
  rw [hfmt, hstands.vsprintf]
  refine ⟨_, rfl, ?_⟩
  simp only [List.length_append, chars, List.length_map, List.length_nil]
  have h1 : "EBL: Unsupported bootentry option \"".toList.length = 35 := by decide
  have h2 : "\"\n".toList.length = 2 := by decide
  simp only [h1, h2, List.length_singleton]
  omega

lemma entry_length (hq : CStr mem name q) (hd : CStr mem cmdline d)
    (short : q.length + d.length + 5 < 2 ^ 31) :
    ∃ out, (vsprintf mem entryFormat [.str name, .str cmdline]).map Prod.fst = some (out ++ [0]) ∧
      out.length = q.length + d.length + 5 ∧ 0 ∉ out := by
  have hstands := ((((stands_nil.literals (l := chars ") ".toList)
    (List.all_iff_forall_prop.mp (by decide))).str hd (by omega)).literals (l := chars " (".toList)
      (List.all_iff_forall_prop.mp (by decide))).str hq (by omega)).literals (l := chars " ".toList)
      (List.all_iff_forall_prop.mp (by decide))
  have hfmt : entryFormat = chars " ".toList ++ 37 :: 115 :: (chars " (".toList ++
      37 :: 115 :: (chars ") ".toList ++ [])) := by decide
  rw [hfmt, hstands.vsprintf]
  refine ⟨_, rfl, ?_, ?_⟩
  · have h1 : (chars " ".toList).length = 1 := by decide
    have h2 : (chars " (".toList).length = 2 := by decide
    have h3 : (chars ") ".toList).length = 2 := by decide
    simp only [List.length_append, List.length_nil, h1, h2, h3]
    omega
  · have hne : ∀ {p l}, CStr mem p l → 0 ∉ l := fun h h0 => h.ne_zero h0 rfl
    simp only [List.mem_append, List.not_mem_nil, or_false, not_or]
    exact ⟨by decide, hne hq, by decide, hne hd, by decide⟩

variable (logo) in
/-- A padded text is never shorter than the width. -/
lemma padded_length (hl : CStr mem p l) (short : l.length < 2 ^ 31) :
    ∃ out, paddedText mem logo p = some out ∧
      out.length = max logo.width.toNat l.length + 1 := by
  have hv : (Int32.ofNat logo.width.toNat).toInt = logo.width.toNat := by
    have := logo.width.toNat_lt
    rw [Int32.toInt_ofNat_of_lt (by omega)]
  have hstands := stands_nil.padded (v := Int32.ofNat logo.width.toNat) (by omega) hl short
  unfold paddedText paddedFormat
  rw [show chars "%-*s".toList = 37 :: 45 :: 42 :: 115 :: [] by decide, hstands.vsprintf]
  refine ⟨_, rfl, ?_⟩
  rw [hv, Int.toNat_natCast]
  unfold padded
  simp only [if_true, List.length_append, List.length_replicate, List.length_nil,
    List.length_singleton]
  omega

lemma cstr_written (h0 : 0 ∉ out) : CStr (written mem bent (out ++ [0])) bent out := by
  refine CStr.of_get (fun i hi => ?_) (fun c hc he => h0 (he ▸ hc)) ?_
  · unfold written
    rw [if_pos ⟨by omega, by simp; omega⟩, Nat.add_sub_cancel_left,
      List.getD_append _ _ _ _ hi, List.getD_eq_getElem _ _ hi]
  · unfold written
    rw [if_pos ⟨by omega, by simp⟩, Nat.add_sub_cancel_left]
    simp

/-! ### The messages of the parser -/

lemma exists_cstr {b : Bytes} {fin : ℕ} (h0 : b fin = 0) (hp : p ≤ fin) :
    ∃ l, CStr b p l ∧ p + l.length ≤ fin := by
  induction hd : fin - p generalizing p with
  | zero =>
    obtain rfl : p = fin := by omega
    exact ⟨[], h0, le_rfl⟩
  | succ k ih =>
    by_cases hb : b p = 0
    · exact ⟨[], hb, hp⟩
    · obtain ⟨l, hl, hle⟩ := ih (show p + 1 ≤ fin by omega) (by omega)
      exact ⟨b p :: l, ⟨rfl, hb, hl⟩, by rw [List.length_cons]; omega⟩

/-- An option that is not known has a message; it is as long as the option and 38 characters. -/
lemma entryMessage_eq (h : CStr s.text line l) (hn : l.length < n) (hshort : l.length < 2 ^ 31) :
    if Known l then entryMessage n s line = none
    else ∃ out, entryMessage n s line = some out ∧ out.length = (stripped l).length + 38 := by
  have hindent : indent l < n := by
    unfold indent
    omega
  have hopt := cstr_stripped h
  have hkernel : strncmp s.text (line + indent l) kernelWord 6 = 0 ↔ kernelWord <+: stripped l :=
    strncmp_lit hopt (by decide)
  have hinitrd : strncmp s.text (line + indent l) initrdWord 6 = 0 ↔ initrdWord <+: stripped l :=
    strncmp_lit hopt (by decide)
  have hcmdline : strncmp s.text (line + indent l) cmdlineWord 7 = 0 ↔
      cmdlineWord <+: stripped l := strncmp_lit hopt (by decide)
  unfold entryMessage Known
  rw [strip_eq h, if_pos hindent]
  simp only [hkernel, hinitrd, hcmdline]
  by_cases h1 : kernelWord <+: stripped l
  · rw [if_pos (Or.inl h1), if_pos h1]
  · by_cases h2 : initrdWord <+: stripped l
    · rw [if_pos (Or.inr (Or.inl h2)), if_neg h1, if_pos h2]
    · by_cases h3 : cmdlineWord <+: stripped l
      · rw [if_pos (Or.inr (Or.inr h3)), if_neg h1, if_neg h2, if_pos h3]
      · rw [if_neg (by simp [h1, h2, h3]), if_neg h1, if_neg h2, if_neg h3]
        exact message_length hopt ((stripped_le l).trans_lt hshort)

/-- **The message of a turn** fits if and only if the line is short. -/
lemma turnMessage_fits (h : CStr s.text line l) (hn : l.length < n) (hshort : l.length < 2 ^ 31) :
    (∀ out ∈ turnMessage n s be line, out.length ≤ sizeofBuffer) ↔ Short s be line := by
  have hboot := bootentry_iff h
  have htab : s.text line = firstChar infoDelimiter ↔ l.head? = some 9 := head_iff h (by decide)
  have hshort_iff : Short s be line ↔ (be.isSome → kind l = .option →
      Known l ∨ (stripped l).length + 38 ≤ sizeofBuffer) := by
    refine ⟨fun hs => hs l h, fun hs u hu => ?_⟩
    rwa [hu.unique h]
  have hkind : kind l = .option ↔ ¬ kind l = .bootentry ∧ l.head? = some 9 := by
    unfold kind
    split_ifs <;> simp_all
  have hmessage := entryMessage_eq h hn hshort
  rw [hshort_iff, hkind]
  unfold turnMessage
  simp only [hboot, htab]
  by_cases h1 : kind l = .bootentry
  · rw [if_pos h1]
    exact iff_of_true (by simp) fun _ hk => absurd h1 hk.1
  · by_cases h2 : l.head? = some 9
    · rw [if_neg h1, if_pos h2]
      cases be with
      | none => exact iff_of_true (by simp) (by simp)
      | some i =>
        by_cases hknown : Known l
        · rw [if_pos hknown] at hmessage
          rw [hmessage]
          exact iff_of_true (by simp) fun _ _ => Or.inl hknown
        · rw [if_neg hknown] at hmessage
          obtain ⟨out, heq, hlen⟩ := hmessage
          simp only [heq, Option.mem_some_iff, forall_eq', hlen]
          simp [hknown, h1, h2]
    · rw [if_neg h1, if_neg h2]
      exact iff_of_true (by simp) fun _ hk => absurd hk.2 h2

lemma messagesFit_iff (hset : Setup n s0 config e t) (hshort : t.length < 2 ^ 31) :
    MessagesFit m n s0 config ↔
      ∀ line lend be s, Visits m n s0 config line lend be s → Short s be line := by
  have hturn : ∀ line lend be s, Visits m n s0 config line lend be s →
      ((∀ out ∈ turnMessage n s be line, out.length ≤ sizeofBuffer) ↔ Short s be line) := by
    intro line lend be s hvisits
    have hsane := hvisits.sane hset
    have hend := hsane.cuts.zero hset.text.end
    obtain ⟨l, hl, hle⟩ := exists_cstr hend (hsane.lt.le.trans hsane.le)
    have hge := hsane.ge
    have hlen := hset.length_lt
    exact turnMessage_fits hl (by omega) (by omega)
  exact ⟨fun h line lend be s hv => (hturn line lend be s hv).mp (h line lend be s hv),
    fun h line lend be s hv => (hturn line lend be s hv).mpr (h line lend be s hv)⟩

/-! ### The texts of the menu -/

variable (logo bent) in
/-- The first text of an entry fits if and only if the name and the command line leave room for
six characters. -/
theorem entry_text_fits (hq : CStr mem name q) (hd : CStr mem cmdline d)
    (short : q.length + d.length + 5 < 2 ^ 31) : ∃ b f,
      entryTexts mem logo bent name cmdline = some (b, f) ∧
      (b.length ≤ logo.width.toNat ↔ q.length + d.length + 6 ≤ logo.width.toNat) ∧
      logo.width.toNat < f.length := by
  obtain ⟨out, hout, hlen, h0⟩ := entry_length hq hd short
  obtain ⟨r, hr⟩ : ∃ r,
      vsprintf mem entryFormat [.str name, .str cmdline] = some (out ++ [0], r) := by
    cases hv : vsprintf mem entryFormat [.str name, .str cmdline] with
    | none =>
      rw [hv] at hout
      cases hout
    | some x =>
      rw [hv] at hout
      exact ⟨x.2, by rw [← Option.some.inj hout]⟩
  have htext : CStr (written mem bent (out ++ [0])) bent out := cstr_written h0
  obtain ⟨f, hf, hflen⟩ := padded_length logo htext (by omega)
  refine ⟨out ++ [0], f, ?_, ?_, by omega⟩
  · unfold entryTexts
    rw [hr, Option.bind_some, hf]
    rfl
  · rw [List.length_append, List.length_singleton, hlen]

/-- The entry is drawn: there is memory for both of its texts, and it is one. -/
def Draws (m : Bmalloc) (logo : Menu.TmgHeader) (index : ℤ) (s : Menu.State) : Prop :=
  m.ok s.calls logo.width.toNat ∧ m.ok (s.calls + 1) logo.width.toNat ∧ index < s.bootNumber

/-- The line with the seconds is cleared: there is memory for the text, and a key that is not
ENTER. -/
def Clears (m : Bmalloc) (logo : Menu.TmgHeader) (c : UInt8) (s : Menu.State) : Prop :=
  m.ok s.calls logo.width.toNat ∧ c ≠ 0 ∧ c ≠ Menu.consoleCtrlEnter

lemma showEntry_draws (index : ℤ) (consAttr : Menu.ConsoleAttr) (u : Menu.State) :
    (Menu.loaderMenuShowEntry m logo index consAttr u).1 = 0 ↔ Draws m logo index u := by
  unfold Draws
  by_cases hindex : index < u.bootNumber
  · rcases Menu.showEntry_spec m logo consAttr hindex with
      ⟨h1, h2, a, -, heq⟩ | ⟨hno, err, herr, calls, heq⟩
    · rw [heq]
      exact iff_of_true rfl ⟨h1, h2, hindex⟩
    · rw [heq]
      exact iff_of_false herr fun h => hno ⟨h.1, h.2.1⟩
  · refine iff_of_false ?_ fun h => hindex h.2.2
    unfold Menu.loaderMenuShowEntry Menu.bmalloc Menu.loaderMenuFont
    dsimp only
    split_ifs
    all_goals simp_all [enomem, efault]

lemma showEntryTexts_fit {index : ℤ} {consAttr : Menu.ConsoleAttr} {u : Menu.State}
    (hq : CStr mem name q) (hd : CStr mem cmdline d) (short : q.length + d.length + 5 < 2 ^ 31) :
    AllFit logo (showEntryTexts m logo mem bent name cmdline index consAttr u) ↔
      ¬ Draws m logo index u := by
  obtain ⟨b, f, heq, -, hlt⟩ := entry_text_fits logo bent hq hd short
  unfold AllFit showEntryTexts
  rw [heq, ← showEntry_draws index consAttr u]
  split_ifs with hdraws
  · exact iff_of_true (by simp) hdraws
  · refine iff_of_false (fun h => ?_) hdraws
    have := h f (by simp)
    omega

lemma initSelectedTexts_fit {c : UInt8} {u : Menu.State} (hblank : CStr mem blank []) :
    AllFit logo (initSelectedTexts m logo mem blank c u) ↔ ¬ Clears m logo c u := by
  obtain ⟨f, heq, hlen⟩ := padded_length logo hblank (by decide)
  unfold AllFit initSelectedTexts Menu.bmalloc Clears
  rw [heq]
  by_cases hok : m.ok u.calls logo.width.toNat
  · by_cases hc : c = 0 ∨ c = Menu.consoleCtrlEnter
    · rw [if_neg (by simp [hok]), if_pos hc]
      exact iff_of_true (by simp) fun h => hc.elim h.2.1 h.2.2
    · rw [if_neg (by simp [hok]), if_neg hc]
      rw [not_or] at hc
      refine iff_of_false (fun h => ?_) (not_not.mpr ⟨hok, hc⟩)
      have := h f (by simp)
      omega
  · rw [if_pos (by simp [hok])]
    exact iff_of_true (by simp) fun h => hok h.1

/-- **The texts fit** if and only if every line that the parser has a message for is short, and the
menu draws no entry and clears no line. -/
theorem texts_fit_iff {index : ℤ} {consAttr : Menu.ConsoleAttr} {c : UInt8} {u v : Menu.State}
    (hset : Setup n s0 config e t) (hshort : t.length < 2 ^ 31)
    (hq : CStr mem name q) (hd : CStr mem cmdline d) (hlen : q.length + d.length + 5 < 2 ^ 31)
    (hblank : CStr mem blank []) :
    (MessagesFit m n s0 config ∧
      AllFit logo (showEntryTexts m logo mem bent name cmdline index consAttr u) ∧
      AllFit logo (initSelectedTexts m logo mem blank c v)) ↔
    (∀ line lend be s, Visits m n s0 config line lend be s → Short s be line) ∧
      ¬ Draws m logo index u ∧ ¬ Clears m logo c v := by
  rw [messagesFit_iff hset hshort, showEntryTexts_fit hq hd hlen, initSelectedTexts_fit hblank]

/-! ### An entry -/

/-- A name and an empty command line. -/
def entryMemory : Bytes := bufferOf (chars ['a', 'r', 'c', 'h'])

theorem texts_fit_iff_one :
    (MessagesFit allMemory 100 (initial oneText) 0 ∧
      AllFit Menu.logo52 (showEntryTexts Menu.roomy Menu.logo52 entryMemory 50 0 4 1 Menu.console
        (Menu.start 2 Menu.console 0)) ∧
      AllFit Menu.logo52 (initSelectedTexts Menu.roomy Menu.logo52 entryMemory 4 65
        (Menu.start 2 Menu.console 0))) ↔
    (∀ line lend be s, Visits allMemory 100 (initial oneText) 0 line lend be s →
        Short s be line) ∧
      ¬ Draws Menu.roomy Menu.logo52 1 (Menu.start 2 Menu.console 0) ∧
      ¬ Clears Menu.roomy Menu.logo52 65 (Menu.start 2 Menu.console 0) :=
  texts_fit_iff (q := chars ['a', 'r', 'c', 'h']) (d := []) setup_oneText (by decide)
    (by decide) (by decide) (by decide) (by decide)

/-- The second text of an entry has a byte more than the logo has columns. -/
theorem not_texts_fit : ¬ AllFit Menu.logo52 (showEntryTexts Menu.roomy Menu.logo52 entryMemory 50
    0 4 1 Menu.console (Menu.start 2 Menu.console 0)) := by
  rw [showEntryTexts_fit (q := chars ['a', 'r', 'c', 'h']) (d := []) (by decide) (by decide)
    (by decide), not_not]
  exact ⟨rfl, rfl, by decide⟩

end Elfboot.ConsoleText
