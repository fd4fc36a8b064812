import Elfboot.Loader

/-!
Parsing the lines of a boot entry.

A line leaves the text behind it alone. What it does to the entry that is open is stated for
each kind of line on its own, as a change of that entry and of nothing else that is stored.
-/

namespace Elfboot.LoaderParse

open Elfboot.Circular Elfboot.Buffer Elfboot.Str Elfboot.Loader

inductive Protocol
  | multiboot1
  | multiboot2
  | linux

def Protocol.word : Protocol → List UInt8
  | .multiboot1 => chars ['m', 'u', 'l', 't', 'i', 'b', 'o', 'o', 't', '1']
  | .multiboot2 => chars ['m', 'u', 'l', 't', 'i', 'b', 'o', 'o', 't', '2']
  | .linux => chars ['l', 'i', 'n', 'u', 'x']

def Protocol.code : Protocol → ℕ
  | .multiboot1 => loaderProtocolMultiboot1
  | .multiboot2 => loaderProtocolMultiboot2
  | .linux => loaderProtocolLinux

/-- A path: it begins with a slash, and has no space, no newline and no terminator. -/
def IsPath (l : List UInt8) : Prop :=
  l.head? = some (47 : UInt8) ∧ ∀ c ∈ l, c ∉ wordDelimiter ∧ c ∉ lineDelimiter ∧ c ≠ 0

variable {m : Bmalloc} {n i p : ℕ} {s s' : State} {l u v path : List UInt8}

/-! ### Allocating strings -/

/-- Every allocation succeeds. -/
def Plenty (m : Bmalloc) : Prop := ∀ i size, m.ok i size = true

lemma bmalloc_plenty (hm : Plenty m) (s : State) (size : ℕ) :
    bmalloc m s size = (some (m.holds s.calls), { s with calls := s.calls + 1 }) := by
  unfold bmalloc Bmalloc.call
  rw [hm, if_pos rfl]

lemma bstrdup_spec (hm : Plenty m) (h : CStr s.text p l) (hn : l.length ≤ n) :
    ∃ buf, bstrdup m n s p = (some buf, { s with calls := s.calls + 1 }) ∧ CStr buf 0 l := by
  unfold bstrdup
  dsimp only
  rw [bmalloc_plenty hm, strlen_eq h hn]
  exact ⟨_, rfl, cstr_memcpy h⟩

/-- The name is copied from between the first two quotes. -/
lemma parseName_quotes (h : CStr s.text p (u ++ 34 :: (l ++ 34 :: v))) (hu : 34 ∉ u) (hl : 34 ∉ l)
    (hn : (u ++ 34 :: (l ++ 34 :: v)).length ≤ n) : loaderParseName m n s p =
      ((m.call s.calls (l.length + 1)).map fun buf =>
        Function.update (memcpy buf 0 s.text (p + u.length + 1) l.length) l.length 0,
      { s with calls := s.calls + 1 }) := by
  have h1 : CStr s.text (p + u.length + 1) (l ++ 34 :: v) := h.drop.2.2
  have hlen : (l ++ 34 :: v).length ≤ n := by
    rw [List.length_append, List.length_cons] at hn
    omega
  have hbeg := strstr_char h hu hn
  have hend := strstr_char h1 hl hlen
  unfold loaderParseName
  change strstr s.text n p nameDelimiter = _ at hbeg
  change strstr s.text n _ nameDelimiter = _ at hend
  rw [hbeg]
  dsimp only
  rw [hend]
  dsimp only
  rw [Nat.add_sub_cancel_left, bmalloc]
  cases m.call s.calls (l.length + 1) with
  | none => rfl
  | some buf => rfl

/-- The name is what stands between the first two quotes. -/
lemma parseName_spec (hm : Plenty m) (h : CStr s.text p (u ++ 34 :: (l ++ 34 :: v)))
    (hu : 34 ∉ u) (hl : 34 ∉ l) (hn : (u ++ 34 :: (l ++ 34 :: v)).length ≤ n) :
    ∃ buf, loaderParseName m n s p = (some buf, { s with calls := s.calls + 1 }) ∧
      CStr buf 0 l := by
  have h1 : CStr s.text (p + u.length + 1) (l ++ 34 :: v) := h.drop.2.2
  have hcall : m.call s.calls (l.length + 1) = some (m.holds s.calls) := by
    unfold Bmalloc.call
    rw [hm, if_pos rfl]
  rw [parseName_quotes h hu hl hn, hcall, Option.map_some]
  refine ⟨_, rfl, CStr.of_get (fun j hj => ?_) (fun c hc => h1.ne_zero (by simp [hc])) ?_⟩
  · have hget := h1.get (i := j) (by simp; omega)
    rw [Function.update_of_ne (by omega), memcpy, if_pos (by omega), Nat.zero_add, Nat.sub_zero,
      hget, List.getElem_append_left hj]
  · rw [Nat.zero_add, Function.update_self]

/-! ### What a line changes -/

/-- Two states that differ in the open entry, in the text before `e`, and in the number of
calls of `bmalloc`. -/
structure Same (i e : ℕ) (s s' : State) : Prop where
  links : s'.links = s.links
  bootNumber : s'.bootNumber = s.bootNumber
  bootChoice : s'.bootChoice = s.bootChoice
  entries : ∀ j, j ≠ i → s'.entries j = s.entries j
  calls : s.calls ≤ s'.calls
  text : ∀ j, e ≤ j → s'.text j = s.text j

lemma Same.refl (i e : ℕ) (s : State) : Same i e s s :=
  ⟨rfl, rfl, rfl, fun _ _ => rfl, le_rfl, fun _ _ => rfl⟩

lemma Same.trans {e : ℕ} {s'' : State} (h : Same i e s s') (h' : Same i e s' s'') :
    Same i e s s'' :=
  ⟨h'.links.trans h.links, h'.bootNumber.trans h.bootNumber, h'.bootChoice.trans h.bootChoice,
    fun j hj => (h'.entries j hj).trans (h.entries j hj), h.calls.trans h'.calls,
    fun j hj => (h'.text j hj).trans (h.text j hj)⟩

lemma same_setEntry (i e : ℕ) (s : State) (f : BootEntry → BootEntry) :
    Same i e s (s.setEntry i f) :=
  ⟨rfl, rfl, rfl, fun _ hj => Function.update_of_ne hj _ _, le_rfl, fun _ _ => rfl⟩

lemma same_call (i e : ℕ) (s : State) : Same i e s { s with calls := s.calls + 1 } :=
  ⟨rfl, rfl, rfl, fun _ _ => rfl, Nat.le_succ _, fun _ _ => rfl⟩

/-- Tokenizing the text, by what the tokenizer does to the buffer. -/
lemma tokenize_token (str : Option ℕ) (store : ℕ) (delim : List UInt8) (hs : str.getD store = p)
    (h : CStr s.text p (u ++ (l ++ v))) (hu : ∀ c ∈ u, c ∈ delim) (hl : ∀ c ∈ l, c ∉ delim)
    (hne : l ≠ []) (hv : ∀ c ∈ v.head?, c ∈ delim) (hn : (u ++ (l ++ v)).length ≤ n) :
    ∃ text store', tokenize n s str delim store = (some (p + u.length), store', { s with text }) ∧
      CStr text (p + u.length) l ∧ CStr text store' v.tail ∧ p + u.length + l.length ≤ store' ∧
      store' + v.tail.length ≤ p + (u ++ (l ++ v)).length ∧
      ∀ j, p + (u ++ (l ++ v)).length ≤ j → text j = s.text j := by
  obtain ⟨text, store', heq, h1⟩ := strtokR_token hs h hu hl hne hv hn
  unfold tokenize
  rw [heq]
  exact ⟨text, store', rfl, h1⟩

lemma tokenize_none (str : Option ℕ) (store : ℕ) (delim : List UInt8) (hs : str.getD store = p)
    (h : CStr s.text p u) (hu : ∀ c ∈ u, c ∈ delim) (hn : u.length ≤ n) :
    ∃ store', tokenize n s str delim store = (none, store', s) := by
  obtain ⟨store', heq, -⟩ := strtokR_none hs h hu hn
  unfold tokenize
  rw [heq]
  exact ⟨store', rfl⟩

/-! ### Option lines -/

lemma Protocol.word_ne (pr : Protocol) : pr.word ≠ [] := by cases pr <;> decide

lemma Protocol.word_mem (pr : Protocol) : ∀ c ∈ pr.word, c ∉ wordDelimiter := by
  cases pr <;> exact List.all_iff_forall_prop.mp (by decide)

lemma Protocol.code_ne (pr : Protocol) : pr.code ≠ 0 := by cases pr <;> decide

lemma IsPath.ne_nil (h : IsPath path) : path ≠ [] := by
  rintro rfl
  exact absurd h.1 (by decide)

/-- A path is not a protocol. -/
lemma IsPath.ne_word (h : IsPath path) (pr : Protocol) : path ≠ pr.word := by
  rintro rfl
  have h1 := h.1
  revert h1
  cases pr <;> decide

/-- A protocol word sets the protocol. -/
lemma kernelLoop_word (pr : Protocol) (h : CStr s.text p pr.word) (k lopt : ℕ) :
    parseKernelLoop m n i (k + 1) (some p) lopt s =
      let s := s.setEntry i fun e => { e with prot := pr.code }
      let (topt, lopt, s) := tokenize n s none wordDelimiter lopt
      parseKernelLoop m n i k topt lopt s := by
  have hcmp : ∀ pr' : Protocol, strcmp s.text p pr'.word = 0 ↔ pr.word = pr'.word := fun pr' =>
    strcmp_eq_zero h (by cases pr' <;> decide)
  have h1 := hcmp .multiboot1
  have h2 := hcmp .multiboot2
  have h3 := hcmp .linux
  unfold Protocol.word at h1 h2 h3
  rw [parseKernelLoop]
  dsimp only
  cases pr
  · rw [if_pos (h1.mpr rfl)]
    rfl
  · rw [if_neg (h1.not.mpr (by decide)), if_pos (h2.mpr rfl)]
    rfl
  · rw [if_neg (h1.not.mpr (by decide)), if_neg (h2.not.mpr (by decide)), if_pos (h3.mpr rfl)]
    rfl

/-- A path behind a protocol is the kernel. -/
lemma kernelLoop_path (hm : Plenty m) (hp : IsPath path) (h : CStr s.text p path)
    (hn : path.length ≤ n) (hprot : (s.entries i).prot ≠ 0) (k lopt : ℕ) :
    ∃ buf, CStr buf 0 path ∧ parseKernelLoop m n i (k + 1) (some p) lopt s =
      some (0, State.setEntry { s with calls := s.calls + 1 } i fun e =>
        { e with kernelPath := some buf }) := by
  have hcmp : ∀ pr : Protocol, strcmp s.text p pr.word ≠ 0 := fun pr =>
    (strcmp_eq_zero h (by cases pr <;> decide)).not.mpr (hp.ne_word pr)
  obtain ⟨buf, heq, hbuf⟩ := bstrdup_spec hm h hn
  have h1 := hcmp .multiboot1
  have h2 := hcmp .multiboot2
  have h3 := hcmp .linux
  unfold Protocol.word at h1 h2 h3
  refine ⟨buf, hbuf, ?_⟩
  rw [parseKernelLoop]
  dsimp only
  rw [if_neg h1, if_neg h2, if_neg h3, if_neg hprot, heq]
  rfl

/-- Leading tabs and spaces are skipped. -/
lemma strip_spec {b : Bytes} {c : UInt8} (h : CStr b p (9 :: c :: l)) (h9 : c ≠ 9) (h32 : c ≠ 32)
    (hn : 2 ≤ n) : loaderStripEntryLine b n p = some (p + 1) := by
  obtain ⟨k, rfl⟩ : ∃ k, n = k + 2 := ⟨n - 2, by omega⟩
  have htab : strncmp b p infoDelimiter 1 = 0 := strncmp_prefix infoDelimiter h
  have hword : strncmp b (p + 1) wordDelimiter 1 ≠ 0 := strncmp_head (h.2.2.head_ne h32) 0
  have hinfo : strncmp b (p + 1) infoDelimiter 1 ≠ 0 := strncmp_head (h.2.2.head_ne h9) 0
  unfold loaderStripEntryLine
  rw [if_pos (Or.inr htab)]
  unfold loaderStripEntryLine
  rw [if_neg (by rw [not_or]; exact ⟨hword, hinfo⟩)]

/-- A line that begins with a tab is an option. -/
lemma parseLine_option (h : CStr s.text p (9 :: l)) : parseLine m n s (some i) p =
    (loaderParseEntry m n s i p).map fun r => (some i, r.2) := by
  have hboot : strncmp s.text p bootentryWord 9 ≠ 0 := strncmp_head (h.head_ne (by decide)) 8
  unfold parseLine
  rw [if_neg hboot, if_pos (show s.text p = firstChar infoDelimiter from h.1)]
  dsimp only
  cases loaderParseEntry m n s i p <;> rfl

/-- A single word is the next token, and the last. -/
lemma tokenize_word (str : Option ℕ) (store : ℕ) (hs : str.getD store = p)
    (h : CStr s.text p l) (hmem : ∀ c ∈ l, c ∉ wordDelimiter) (hne : l ≠ []) (hn : l.length ≤ n) :
    ∃ text store', tokenize n s str wordDelimiter store = (some p, store', { s with text }) ∧
      CStr text p l ∧ CStr text store' [] ∧ ∀ j, p + l.length ≤ j → text j = s.text j := by
  obtain ⟨text, store', heq, h1, h2, -, -, h3⟩ := tokenize_token (u := []) (v := []) (n := n)
    str store wordDelimiter hs (by rw [List.append_nil]; exact h) (by simp) hmem hne (by simp)
    (by rw [List.append_nil, List.nil_append]; exact hn)
  rw [List.append_nil, List.nil_append] at h3
  exact ⟨text, store', heq, h1, h2, h3⟩

lemma IsPath.mem (h : IsPath path) : ∀ c ∈ path, c ∉ wordDelimiter := fun c hc => (h.2 c hc).1

theorem kernel_line (hm : Plenty m) (pr : Protocol) (hp : IsPath path)
    (h : CStr s.text p (9 :: (kernelWord ++ 32 :: (pr.word ++ 32 :: path))))
    (hn : (9 :: (kernelWord ++ 32 :: (pr.word ++ 32 :: path))).length ≤ n) :
    ∃ s' buf, parseLine m n s (some i) p = some (some i, s') ∧
      Same i (p + (9 :: (kernelWord ++ 32 :: (pr.word ++ 32 :: path))).length) s s' ∧
      CStr buf 0 path ∧
      s'.entries i = { s.entries i with prot := pr.code, kernelPath := some buf } := by
  have hlen : (9 :: (kernelWord ++ 32 :: (pr.word ++ 32 :: path))).length =
      8 + (pr.word ++ 32 :: path).length := by
    simp [kernelWord, chars]
    omega
  have hlen2 : (pr.word ++ 32 :: path).length = pr.word.length + path.length + 1 := by
    simp
    omega
  have h8 : CStr s.text (p + 8) (pr.word ++ 32 :: path) :=
    CStr.drop (u := 9 :: (kernelWord ++ [32])) h
  have hopt : loaderParseEntry m n s i p = loaderParseKernel m n s i (p + 8) := by
    have hword : strncmp s.text (p + 1) kernelWord 6 = 0 := strncmp_prefix kernelWord h.2.2
    unfold loaderParseEntry
    rw [strip_spec (c := 107) h (by decide) (by decide) (by omega)]
    dsimp only
    rw [if_pos hword]
  obtain ⟨text, store, heq, hword, hrest, -, hstore, htext⟩ := tokenize_token (u := []) (n := n)
    (p := p + 8) (some (p + 8)) 0 wordDelimiter rfl h8 (by simp)
    pr.word_mem pr.word_ne (by rintro c ⟨⟩; decide) (by rw [List.nil_append]; omega)
  rw [List.length_nil, Nat.add_zero] at heq hword
  rw [List.nil_append] at htext hstore
  rw [List.tail_cons] at hrest hstore
  obtain ⟨k, rfl⟩ : ∃ k, n = k + 2 := ⟨n - 2, by omega⟩
  -- the protocol, then the path
  obtain ⟨text2, store2, heq2, hpath, -, htext2⟩ := tokenize_word (n := k + 2) (p := store)
    none store
    (s := State.setEntry { s with text } i fun e => { e with prot := pr.code }) rfl hrest
    hp.mem hp.ne_nil (by omega)
  obtain ⟨buf, hbuf, hloop⟩ := kernelLoop_path (n := k + 2) (i := i)
    (s := { State.setEntry { s with text } i fun e => { e with prot := pr.code } with
      text := text2 }) hm hp hpath (by omega) (by simp [State.setEntry, pr.code_ne]) k store2
  have hline : parseLine m (k + 2) s (some i) p = _ := parseLine_option h
  rw [hopt, loaderParseKernel, heq] at hline
  dsimp only at hline
  rw [kernelLoop_word pr hword] at hline
  dsimp only at hline
  rw [heq2] at hline
  dsimp only at hline
  rw [hloop] at hline
  refine ⟨_, buf, hline, ?_, hbuf, ?_⟩
  · refine ⟨rfl, rfl, rfl, fun j hj => ?_, Nat.le_succ _, fun j hj => ?_⟩
    · simp [State.setEntry, hj]
    · exact (htext2 j (by omega)).trans (htext j (by omega))
  · simp [State.setEntry]

theorem initrd_line (hm : Plenty m) (hp : IsPath path)
    (h : CStr s.text p (9 :: (initrdWord ++ 32 :: path)))
    (hn : (9 :: (initrdWord ++ 32 :: path)).length ≤ n) :
    ∃ s' buf, parseLine m n s (some i) p = some (some i, s') ∧
      Same i (p + (9 :: (initrdWord ++ 32 :: path)).length) s s' ∧ CStr buf 0 path ∧
      s'.entries i = { s.entries i with initrdPath := some buf } := by
  have hlen : (9 :: (initrdWord ++ 32 :: path)).length = 8 + path.length := by
    simp [initrdWord, chars]
    omega
  have h8 : CStr s.text (p + 8) path := CStr.drop (u := 9 :: (initrdWord ++ [32])) h
  have hopt : loaderParseEntry m n s i p = loaderParseInitrd m n s i (p + 8) := by
    have hword : strncmp s.text (p + 1) initrdWord 6 = 0 := strncmp_prefix initrdWord h.2.2
    have hkernel : strncmp s.text (p + 1) kernelWord 6 ≠ 0 :=
      strncmp_head (h.2.2.head_ne (by decide)) 5
    unfold loaderParseEntry
    rw [strip_spec (c := 105) h (by decide) (by decide) (by omega)]
    dsimp only
    rw [if_neg hkernel, if_pos hword]
  obtain ⟨k, rfl⟩ : ∃ k, n = k + 2 := ⟨n - 2, by omega⟩
  -- the path, and then nothing
  obtain ⟨text, store, heq, hpath, hend, htext⟩ := tokenize_word (n := k + 2) (p := p + 8)
    (some (p + 8)) 0 rfl h8 hp.mem hp.ne_nil (by omega)
  obtain ⟨buf, hdup, hbuf⟩ := bstrdup_spec (s := { s with text }) (n := k + 2) hm hpath (by omega)
  obtain ⟨store2, hnone⟩ := tokenize_none (n := k + 2) none store wordDelimiter
    (u := [])
    (s := State.setEntry { s with text, calls := s.calls + 1 } i fun e =>
      { e with initrdPath := some buf }) rfl hend (by simp) (Nat.zero_le _)
  have hline : parseLine m (k + 2) s (some i) p = _ := parseLine_option h
  rw [hopt, loaderParseInitrd, heq] at hline
  dsimp only at hline
  rw [parseInitrdLoop, hdup] at hline
  dsimp only at hline
  rw [if_neg (by simp), hnone] at hline
  refine ⟨_, buf, hline, ?_, hbuf, ?_⟩
  · refine ⟨rfl, rfl, rfl, fun j hj => ?_, Nat.le_succ _, fun j hj => htext j (by omega)⟩
    simp [State.setEntry, hj]
  · simp [State.setEntry]

theorem cmdline_line (hm : Plenty m) (h : CStr s.text p (9 :: (cmdlineWord ++ 32 :: l)))
    (hn : (9 :: (cmdlineWord ++ 32 :: l)).length ≤ n) :
    ∃ s' buf, parseLine m n s (some i) p = some (some i, s') ∧
      Same i (p + (9 :: (cmdlineWord ++ 32 :: l)).length) s s' ∧ CStr buf 0 l ∧
      s'.entries i = { s.entries i with cmdline := some buf } := by
  have hlen : (9 :: (cmdlineWord ++ 32 :: l)).length = 9 + l.length := by
    simp [cmdlineWord, chars]
    omega
  have h9 : CStr s.text (p + 9) l := CStr.drop (u := 9 :: (cmdlineWord ++ [32])) h
  have hopt : loaderParseEntry m n s i p = some (loaderParseCmdline m n s i (p + 9)) := by
    have hword : strncmp s.text (p + 1) cmdlineWord 7 = 0 :=
      strncmp_prefix cmdlineWord h.2.2
    have hkernel : strncmp s.text (p + 1) kernelWord 6 ≠ 0 :=
      strncmp_head (h.2.2.head_ne (by decide)) 5
    have hinitrd : strncmp s.text (p + 1) initrdWord 6 ≠ 0 :=
      strncmp_head (h.2.2.head_ne (by decide)) 5
    unfold loaderParseEntry
    rw [strip_spec (c := 99) h (by decide) (by decide) (by omega)]
    dsimp only
    rw [if_neg hkernel, if_neg hinitrd, if_pos hword]
  obtain ⟨buf, hdup, hbuf⟩ := bstrdup_spec (n := n) hm h9 (by omega)
  have hline : parseLine m n s (some i) p = _ := parseLine_option h
  rw [hopt, loaderParseCmdline, hdup] at hline
  dsimp only at hline
  rw [if_neg (by simp)] at hline
  refine ⟨_, buf, hline, ?_, hbuf, ?_⟩
  · refine ⟨rfl, rfl, rfl, fun j hj => ?_, Nat.le_succ _, fun j _ => rfl⟩
    simp [State.setEntry, hj]
  · simp [State.setEntry]

/-! ### The lines around an entry -/

/-- The line that opens an entry: what the new entry holds, and what stays as it was. -/
theorem bootentry_line (hm : Plenty m) (hl : 34 ∉ l)
    (h : CStr s.text p (bootentryWord ++ 32 :: 34 :: (l ++ 34 :: v)))
    (hn : (bootentryWord ++ 32 :: 34 :: (l ++ 34 :: v)).length ≤ n) :
    ∃ s' buf, parseLine m n s none p = some (some (s.calls + 1), s') ∧ CStr buf 0 l ∧
      s'.entries = Function.update s.entries (s.calls + 1) ⟨some buf, none, none, none, 0⟩ ∧
      s'.links = (s.links.setPrev (.entry (s.calls + 1)) .null).setNext (.entry (s.calls + 1))
        .null ∧
      s'.bootNumber = s.bootNumber ∧ s'.bootChoice = s.bootChoice ∧ s'.calls = s.calls + 2 ∧
      s'.text = s.text := by
  have hboot : strncmp s.text p bootentryWord 9 = 0 := strncmp_prefix bootentryWord h
  have hquote : bootentryWord ++ 32 :: 34 :: (l ++ 34 :: v) =
      (bootentryWord ++ [32]) ++ 34 :: (l ++ 34 :: v) := by simp
  rw [hquote] at h hn
  obtain ⟨buf, heq, hbuf⟩ := parseName_spec hm h (by decide) hl hn
  have hcreate := bmalloc_plenty hm { s with calls := s.calls + 1 } sizeofBootEntry
  unfold parseLine
  rw [if_pos hboot]
  dsimp only
  rw [heq]
  dsimp only
  unfold loaderCreateEntry
  dsimp only
  rw [hcreate]
  exact ⟨_, buf, rfl, hbuf, rfl, rfl, rfl, rfl, rfl, rfl⟩

/-- The line that closes an entry stores it. -/
theorem brace_line (h : CStr s.text p bootDelimiter) :
    parseLine m n s (some i) p = some (none, loaderStoreEntry s i) := by
  have hboot : strncmp s.text p bootentryWord 9 ≠ 0 := strncmp_head (h.head_ne (by decide)) 8
  have hinfo : s.text p ≠ firstChar infoDelimiter := h.head_ne (by decide)
  unfold parseLine
  rw [if_neg hboot, if_neg hinfo, if_pos (show s.text p = firstChar bootDelimiter from h.1)]

end Elfboot.LoaderParse
