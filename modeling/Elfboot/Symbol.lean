import Elfboot.Errno
import Elfboot.Circular
import Elfboot.Str

/-!
The symbols that modules may use: `symbol.c`.

The map is the output of `nm`, in one buffer that the tokenizer writes to. A symbol is the number
of the call of `bmalloc` that gave it.
-/

namespace Elfboot.Symbol

open Elfboot.Errno Elfboot.Circular Elfboot.Word Elfboot.Buffer Elfboot.Str

def sizeofElfbootSymbol : ℕ := 16

def delimiter : List UInt8 := chars [' ', '\n']

/-- `struct elfboot_symbol`, less its list node. The name is in a buffer of its own. -/
structure ElfbootSymbol where
  name : List UInt8
  addr : ℕ
  isString : 0 ∉ name

inductive Node
  | symbols
  | symbol (i : ℕ)
  deriving DecidableEq

structure State where
  text : Bytes
  /-- the static pointer of `strtok` -/
  p : Option ℕ
  links : Links Node
  symbol : ℕ → ElfbootSymbol
  numSymbols : ℕ
  /-- the calls of `bmalloc` so far -/
  calls : ℕ

lemma zero_notMem_cstring (b : Bytes) (n s : ℕ) : 0 ∉ cstring b n s := by
  induction n generalizing s with
  | zero => exact List.not_mem_nil
  | succ n ih =>
    rw [cstring]
    by_cases h0 : b s = 0
    · rw [if_pos h0]
      exact List.not_mem_nil
    · rw [if_neg h0, List.mem_cons, not_or]
      exact ⟨Ne.symm h0, ih _⟩

variable (m : Bmalloc) (n : ℕ)

def bmalloc (s : State) (size : ℕ) : Option Bytes × State :=
  (m.call s.calls size, { s with calls := s.calls + 1 })

/-- `symbol_add`, less the call of `bfree`. The name is the copy that `bstrdup` makes. -/
def symbolAdd (s : State) (name addr : ℕ) : ℤ × State :=
  let i := s.calls
  match bmalloc m s sizeofElfbootSymbol with
  | (none, s) => (-enomem, s)
  | (some _, s) =>
    match bmalloc m s (strlen s.text n name + 1) with
    | (none, s) => (-enomem, s)
    | (some _, s) =>
      let symbol := ⟨cstring s.text n name, addr, zero_notMem_cstring _ _ _⟩
      (0, { s with
        symbol := Function.update s.symbol i symbol
        links := listAddTail s.links (.symbol i) .symbols
        numSymbols := u32 (s.numSymbols + 1) })

/-- The loop of `symbol_lookup_name`, for the name at `name`, from a position of the list on. -/
def lookupNameLoop (s : State) (b : Bytes) (name : ℕ) : ℕ → Node → Option ℕ
  | 0, _ => none
  | _ + 1, .symbols => some 0
  | k + 1, .symbol i =>
    if strcmp b name (s.symbol i).name ≠ 0 then
      lookupNameLoop s b name k (s.links.next (.symbol i))
    else some (s.symbol i).addr

def symbolLookupName (s : State) (b : Bytes) (name : ℕ) : Option ℕ :=
  lookupNameLoop s b name n (s.links.next .symbols)

/-- `strtok` on the map. -/
def tokenize (s : State) (str : Option ℕ) : Option ℕ × State :=
  let (tok, p, text) := strtok s.text n str delimiter s.p
  (tok, { s with p, text })

/-- The loop of `symbol_parse_map`. There is no result where a name is read through the null
pointer. -/
def parseMapLoop : ℕ → Option ℕ → State → Option (ℤ × State)
  | 0, _, _ => none
  | _ + 1, none, s => some (0, s)
  | k + 1, some addr, s =>
    let (_, s) := tokenize n s none
    let (name, s) := tokenize n s none
    match name with
    | none => none
    | some name =>
      let (ret, s) :=
        if s.text name = 95 then (0, s)
        else symbolAdd m n s name (strtoul s.text n addr 16).1
      if ret ≠ 0 then some (-enomem, s)
      else
        let (addr, s) := tokenize n s none
        parseMapLoop k addr s

/-- `symbol_parse_map`, less the message. -/
def symbolParseMap (s : State) (syms : ℕ) : Option (ℤ × State) :=
  let (addr, s) := tokenize n s (some syms)
  parseMapLoop m n n addr s

/-! ### The list -/

/-- The list of symbols is `l`, in this order. -/
def Imported (s : State) (l : List ElfbootSymbol) : Prop :=
  ∃ is : List ℕ, IsList s.links .symbols (is.map .symbol) ∧ is.map s.symbol = l ∧
    ∀ i ∈ is, i < s.calls

/-- `symbol_add` where there is memory: one more symbol at the end, after the two calls of
`bmalloc` for it and for its name. -/
def State.push (s : State) (e : ElfbootSymbol) : State :=
  { s with
    symbol := Function.update s.symbol s.calls e
    links := listAddTail s.links (.symbol s.calls) .symbols
    numSymbols := u32 (s.numSymbols + 1)
    calls := s.calls + 2 }

lemma nil_string : 0 ∉ ([] : List UInt8) := List.not_mem_nil

def noSymbol : ElfbootSymbol := ⟨[], 0, nil_string⟩

/-- Nothing has been imported yet. -/
def noSymbols : State where
  text _ := 0
  p := none
  links := ⟨fun _ => .symbols, fun _ => .symbols⟩
  symbol _ := noSymbol
  numSymbols := 0
  calls := 0

/-- The symbols of a list, added one after the other. -/
def importing (l : List ElfbootSymbol) : State := l.foldl State.push noSymbols

/-- The first symbol whose name stands at `a`. -/
def firstNamed (l : List ElfbootSymbol) (b : Bytes) (a : ℕ) : Option ElfbootSymbol :=
  l.find? fun e => CStr b a e.name

variable {m n} {b : Bytes} {s : State} {k a nm : ℕ} {l : List ElfbootSymbol}
  {r : List UInt8}

lemma lookupNameLoop_eq {is : List ℕ} {node : Node}
    (h : Seg s.links node (is.map .symbol) .symbols) (hk : is.length < k) :
    lookupNameLoop s b a k (s.links.next node) =
      some (((firstNamed (is.map s.symbol) b a).map ElfbootSymbol.addr).getD 0) := by
  induction is generalizing k node with
  | nil =>
    obtain ⟨k, rfl⟩ : ∃ j, k = j + 1 := ⟨k - 1, by omega⟩
    rw [h.1]
    rfl
  | cons i is ih =>
    obtain ⟨k, rfl⟩ : ∃ j, k = j + 1 := ⟨k - 1, by omega⟩
    have hcmp := strcmp_cstr (b := b) (s := a) (s.symbol i).isString
    obtain ⟨hnext, -, hrest⟩ := h
    rw [hnext, lookupNameLoop, List.map_cons, firstNamed]
    by_cases he : CStr b a (s.symbol i).name
    · rw [if_neg (not_not.mpr (hcmp.mpr he)), List.find?_cons, decide_eq_true he]
      rfl
    · rw [if_pos (hcmp.not.mpr he), List.find?_cons, decide_eq_false he]
      exact ih hrest (Nat.lt_of_succ_lt_succ hk)

/-- **A name is looked up** as the first symbol of the list that has it. -/
lemma symbolLookupName_eq (h : Imported s l) (b : Bytes) (a : ℕ) (hn : l.length < n) :
    symbolLookupName n s b a = some (((firstNamed l b a).map ElfbootSymbol.addr).getD 0) := by
  obtain ⟨is, hlist, rfl, -⟩ := h
  rw [List.length_map] at hn
  exact lookupNameLoop_eq hlist.2 hn

/-- The text is used up behind the list. -/
lemma Imported.setText (h : Imported s l) (p : Option ℕ) (text : Bytes) :
    Imported { s with p, text } l := h

lemma imported_noSymbols : Imported noSymbols [] :=
  ⟨[], ⟨List.nodup_singleton _, rfl, rfl⟩, rfl, nofun⟩

lemma Imported.push (h : Imported s l) (e : ElfbootSymbol) : Imported (s.push e) (l ++ [e]) := by
  obtain ⟨is, hlist, rfl, hlt⟩ := h
  have hnew : s.calls ∉ is := fun hmem => lt_irrefl _ (hlt _ hmem)
  have hfresh : Node.symbol s.calls ∉ Node.symbols :: is.map .symbol := by
    rw [List.mem_cons, not_or]
    refine ⟨nofun, fun hmem => ?_⟩
    obtain ⟨i, hi, ⟨⟩⟩ := List.mem_map.mp hmem
    exact hnew hi
  refine ⟨is ++ [s.calls], ?_, ?_, ?_⟩
  · rw [List.map_append]
    exact hlist.addTail hfresh
  · have hsame : is.map (Function.update s.symbol s.calls e) = is.map s.symbol :=
      List.map_congr_left fun i hi => Function.update_of_ne (ne_of_mem_of_not_mem hi hnew) _ _
    rw [List.map_append]
    exact congrArg₂ _ hsame (congrArg (fun e => [e]) (Function.update_self ..))
  · intro i hi
    rcases List.mem_append.mp hi with hi | hi
    · exact (hlt i hi).trans (Nat.lt_add_of_pos_right Nat.two_pos)
    · rw [List.mem_singleton.mp hi]
      exact Nat.lt_add_of_pos_right Nat.two_pos

lemma Imported.foldl (h : Imported s l) (l' : List ElfbootSymbol) :
    Imported (l'.foldl State.push s) (l ++ l') := by
  induction l' generalizing s l with
  | nil =>
    rw [List.append_nil]
    exact h
  | cons e l' ih =>
    have hrest := ih (h.push e)
    rwa [List.append_assoc, List.singleton_append] at hrest

lemma imported_importing (l : List ElfbootSymbol) : Imported (importing l) l :=
  imported_noSymbols.foldl l

lemma symbolAdd_spec (hm : ∀ i size, m.ok i size = true) (h : Imported s l) (e : ElfbootSymbol)
    (hb : CStr s.text nm e.name) (hn : e.name.length ≤ n) :
    ∃ s', symbolAdd m n s nm e.addr = (0, s') ∧ s'.text = s.text ∧ s'.p = s.p ∧
      Imported s' (l ++ [e]) := by
  obtain ⟨name, addr, h0⟩ := e
  obtain rfl : cstring s.text n nm = name := cstring_eq hb hn
  unfold symbolAdd bmalloc Bmalloc.call
  dsimp only
  rw [hm, if_pos rfl]
  dsimp only
  rw [hm, if_pos rfl]
  exact ⟨_, rfl, rfl, rfl, h.push _⟩

/-! ### The map -/

/-- A line of the output of `nm`. -/
structure Triple where
  addr : ℕ
  type : UInt8
  name : List UInt8
  small : addr < 2 ^ 32
  letter : type ≠ 0 ∧ type ∉ delimiter
  named : name ≠ []
  word : ∀ c ∈ name, c ≠ 0 ∧ c ∉ delimiter

def Triple.line (t : Triple) : List UInt8 := hexDigits 8 t.addr ++ 32 :: t.type :: 32 :: t.name

def nmOutput (ts : List Triple) : List UInt8 := ts.flatMap fun t => t.line ++ [10]

/-- The map, with a newline after the last line or without one. -/
def IsMap (ts : List Triple) (text : List UInt8) : Prop :=
  text = nmOutput ts ∨ text = (nmOutput ts).dropLast

/-- Symbols that are not internal. -/
def Triple.Public (t : Triple) : Prop := t.name.head? ≠ some (95 : UInt8)

instance (t : Triple) : Decidable t.Public := inferInstanceAs (Decidable (_ ≠ _))

def Triple.symbol (t : Triple) : ElfbootSymbol :=
  ⟨t.name, t.addr, fun h0 => (t.word 0 h0).1 rfl⟩

/-- What is imported from a map. -/
def imports (ts : List Triple) : List ElfbootSymbol :=
  (ts.filter fun t => t.Public).map Triple.symbol

variable {t : Triple} {ts : List Triple}

/-- What follows a line. -/
def Follows (ts : List Triple) (r : List UInt8) : Prop :=
  r = 10 :: nmOutput ts ∨ r = (10 :: nmOutput ts).dropLast

lemma isMap_cons {text : List UInt8} (h : IsMap (t :: ts) text) :
    ∃ r, text = t.line ++ r ∧ Follows ts r := by
  have hout : nmOutput (t :: ts) = t.line ++ 10 :: nmOutput ts := by
    rw [nmOutput, List.flatMap_cons, List.append_assoc, List.singleton_append, nmOutput]
  rcases h with rfl | rfl
  · exact ⟨_, hout, Or.inl rfl⟩
  · refine ⟨_, ?_, Or.inr rfl⟩
    rw [hout, List.dropLast_append_of_ne_nil (List.cons_ne_nil _ _)]

lemma Follows.cases (h : Follows ts r) : r = [] ∧ ts = [] ∨ ∃ v, r = 10 :: v ∧ IsMap ts v := by
  cases ts with
  | nil =>
    rcases h with rfl | rfl
    · exact Or.inr ⟨[], rfl, Or.inl rfl⟩
    · exact Or.inl ⟨rfl, rfl⟩
  | cons t ts =>
    have hne : nmOutput (t :: ts) ≠ [] := by simp [nmOutput, Triple.line]
    rcases h with rfl | rfl
    · exact Or.inr ⟨_, rfl, Or.inl rfl⟩
    · rw [List.dropLast_cons_of_ne_nil hne]
      exact Or.inr ⟨_, rfl, Or.inr rfl⟩

lemma IsMap.nil {text : List UInt8} (h : IsMap [] text) : text = [] := by
  rcases h with rfl | rfl <;> rfl

/-- What the tokenizer has found and what it has left when a line is to be read. -/
def Ahead (s : State) (n : ℕ) : List Triple → Option ℕ → Prop
  | [], addr => addr = none
  | t :: ts, addr => ∃ a q r, addr = some a ∧ s.p = some q ∧ a + 8 < q ∧
      CStr s.text a (hexDigits 8 t.addr) ∧ CStr s.text q (t.type :: 32 :: (t.name ++ r)) ∧
      Follows ts r ∧ t.name.length + r.length + 11 ≤ n

lemma hexDigits_notMem {c : UInt8} (k v : ℕ) (h : c ∈ hexDigits k v) : c ∉ delimiter := by
  obtain ⟨d, hd, rfl⟩ := hexDigits_mem h
  have hall : ∀ d < 16, hexDigit d ∉ delimiter := by decide
  exact hall d hd

/-- The next address, where there is another line. -/
lemma tokenize_ahead {str : Option ℕ} {text : List UInt8} (hmap : IsMap ts text)
    (h : Rest s.text (str.or s.p) text) (hn : text.length ≤ n) :
    Ahead (tokenize n s str).2 n ts (tokenize n s str).1 := by
  cases ts with
  | nil =>
    obtain rfl : text = [] := hmap.nil
    have heq : strtok s.text n str delimiter s.p = (none, none, s.text) :=
      strtok_none h (by simp) (Nat.zero_le _)
    unfold tokenize
    rw [heq]
    rfl
  | cons t ts =>
    obtain ⟨r, rfl, hr⟩ := isMap_cons hmap
    rcases h with ⟨-, hnil⟩ | ⟨a, hs, h⟩
    · simp [Triple.line] at hnil
    · have hlen := hexDigits_length 8 t.addr
      have hl : t.line ++ r = hexDigits 8 t.addr ++ 32 :: t.type :: 32 :: (t.name ++ r) := by
        simp [Triple.line]
      rw [hl] at h hn
      have hne : hexDigits 8 t.addr ≠ [] := List.cons_ne_nil _ _
      obtain ⟨heq, hdig, hrest⟩ := strtok_word hs h
        (fun c => hexDigits_notMem 8 t.addr) hne (by decide) hn
      unfold tokenize
      rw [heq, hlen]
      rw [hlen] at hdig hrest
      refine ⟨a, a + 8 + 1, r, rfl, rfl, Nat.lt_succ_self _, hdig, hrest, hr, ?_⟩
      simp only [List.length_append, List.length_cons] at hn
      omega

/-- The rest of a line is read. -/
lemma tokenize_line {addr : Option ℕ} (h : Ahead s n (t :: ts) addr) :
    ∃ a nm p v b', addr = some a ∧
      tokenize n (tokenize n s none).2 none = (some nm, { s with p, text := b' }) ∧
      CStr b' a (hexDigits 8 t.addr) ∧ CStr b' nm t.name ∧ IsMap ts v ∧ Rest b' p v ∧
      t.name.length + v.length + 8 < n := by
  obtain ⟨a, q, r, rfl, hp, hlt, hdig, hline, hr, hn⟩ := h
  have hs : (none : Option ℕ).or s.p = some q := hp
  have hletter : ∀ c ∈ [t.type], c ∉ delimiter := by
    intro c hc
    rw [List.mem_singleton.mp hc]
    exact t.letter.2
  have hword : ∀ c ∈ t.name, c ∉ delimiter := fun c hc => (t.word c hc).2
  obtain ⟨heq, -, hrest⟩ := strtok_word (l := [t.type]) hs hline hletter
    (List.cons_ne_nil _ _) (by decide) (n := n) (by simp; omega)
  rw [List.length_singleton] at heq hrest
  have htype : (tokenize n s none).2 =
      { s with p := some (q + 1 + 1), text := Function.update s.text (q + 1) 0 } := by
    unfold tokenize
    rw [heq]
  have hdig' : CStr (Function.update s.text (q + 1) 0) a (hexDigits 8 t.addr) := by
    refine hdig.congr fun i _ hi => Function.update_of_ne ?_ _ _
    rw [hexDigits_length] at hi
    omega
  rw [htype]
  have hat : (none : Option ℕ).or (some (q + 1 + 1)) = some (q + 1 + 1) := rfl
  rcases hr.cases with ⟨rfl, rfl⟩ | ⟨v, rfl, hv⟩
  · rw [List.append_nil] at hrest
    have hlast := strtok_last (n := n) hat hrest hword t.named (by omega)
    refine ⟨a, q + 1 + 1, none, [], _, rfl, ?_, hdig', hrest, Or.inl rfl, Or.inl ⟨rfl, rfl⟩,
      ?_⟩
    · unfold tokenize
      rw [hlast]
    · rw [List.length_nil] at hn ⊢
      omega
  · rw [List.length_cons] at hn
    obtain ⟨hname, hcut, hnext⟩ := strtok_word (n := n) hat hrest hword t.named
      (by decide) (by simp; omega)
    refine ⟨a, q + 1 + 1, _, v, _, rfl, ?_, ?_, hcut, hv, Or.inr ⟨_, rfl, hnext⟩, by omega⟩
    · unfold tokenize
      rw [hname]
    · refine hdig'.congr fun i _ hi => Function.update_of_ne ?_ _ _
      rw [hexDigits_length] at hi
      omega

lemma parseMapLoop_spec (hm : ∀ i size, m.ok i size = true) {addr : Option ℕ}
    (h : Ahead s n ts addr) (himp : Imported s l) (hk : ts.length < k) :
    ∃ s', parseMapLoop m n k addr s = some (0, s') ∧ Imported s' (l ++ imports ts) := by
  induction ts generalizing k s l addr with
  | nil =>
    obtain ⟨k, rfl⟩ : ∃ j, k = j + 1 := ⟨k - 1, by omega⟩
    obtain rfl : addr = none := h
    refine ⟨s, rfl, ?_⟩
    rw [imports, List.filter_nil, List.map_nil, List.append_nil]
    exact himp
  | cons t ts ih =>
    obtain ⟨k, rfl⟩ : ∃ j, k = j + 1 := ⟨k - 1, by omega⟩
    obtain ⟨a, nm, p, v, b', rfl, heq, hdig, hname, hv, hrest, hn⟩ := tokenize_line h
    have hk' : ts.length < k := Nat.lt_of_succ_lt_succ hk
    have hadd : b' nm = 95 ↔ ¬t.Public := by
      obtain ⟨c, w, hcw⟩ := List.exists_cons_of_ne_nil t.named
      rw [hcw] at hname
      rw [Triple.Public, hcw, hname.1, List.head?_cons, not_not, Option.some_inj]
    rw [imports, List.filter_cons]
    unfold parseMapLoop
    dsimp only
    rw [heq]
    dsimp only
    by_cases hpub : t.Public
    · have hval : (strtoul b' n a 16).1 = t.addr := by
        rw [strtoul_hexDigits hdig (by omega), show 16 ^ 8 = 2 ^ 32 from rfl,
          Nat.mod_eq_of_lt t.small, u32_of_lt t.small]
      obtain ⟨s', hs', htext, hp, himp'⟩ :=
        symbolAdd_spec hm (himp.setText p b') t.symbol hname (n := n) (by
          show t.name.length ≤ n
          omega)
      rw [if_neg (hadd.not.mpr (not_not.mpr hpub)), hval,
        show symbolAdd m n _ nm t.addr = _ from hs']
      dsimp only
      rw [if_neg (not_not.mpr rfl), if_pos (decide_eq_true hpub), List.map_cons]
      have hahead : Ahead (tokenize n s' none).2 n ts (tokenize n s' none).1 :=
        tokenize_ahead hv (by rwa [htext, hp]) (by omega)
      obtain ⟨s'', heq'', himp''⟩ := ih hahead himp' hk'
      refine ⟨s'', heq'', ?_⟩
      rwa [List.append_assoc, List.singleton_append] at himp''
    · have hahead : Ahead (tokenize n { s with p, text := b' } none).2 n ts
          (tokenize n { s with p, text := b' } none).1 := tokenize_ahead hv hrest (by omega)
      rw [if_pos (hadd.mpr hpub)]
      dsimp only
      rw [if_neg (not_not.mpr rfl), if_neg (by simpa using hpub)]
      exact ih hahead (himp.setText p b') hk'

lemma nmOutput_length (ts : List Triple) : 2 * ts.length ≤ (nmOutput ts).length := by
  induction ts with
  | nil => exact Nat.zero_le _
  | cons t ts ih =>
    have hline : 0 < t.line.length := by simp [Triple.line]
    rw [nmOutput] at ih ⊢
    rw [List.flatMap_cons, List.length_append, List.length_append, List.length_cons,
      List.length_singleton]
    omega

lemma IsMap.length_le {text : List UInt8} (h : IsMap ts text) : ts.length ≤ text.length := by
  have hout := nmOutput_length ts
  rcases h with rfl | rfl
  · omega
  · rw [List.length_dropLast]
    omega

/-- The address that `l` has for a name. -/
def addrOf (l : List ElfbootSymbol) (name : List UInt8) : ℕ :=
  ((l.find? fun e => e.name = name).map ElfbootSymbol.addr).getD 0

lemma firstNamed_eq {b : Bytes} {name : List UInt8} (h : CStr b a name) :
    firstNamed l b a = l.find? fun e => e.name = name := by
  unfold firstNamed
  refine congrArg (List.find? · l) (funext fun e => ?_)
  have hiff : CStr b a e.name ↔ e.name = name := ⟨fun h' => h'.unique h, fun he => he ▸ h⟩
  exact decide_eq_decide.mpr hiff

/-- **The map is imported** as it was printed, less the internal symbols, and names are looked
up in it. -/
theorem parse_map_imports (m : Bmalloc) (hm : ∀ i size, m.ok i size = true) (n : ℕ)
    (ts : List Triple) (s : State) (syms : ℕ) (text : List UInt8) (hmap : IsMap ts text)
    (htext : CStr s.text syms text) (hempty : Imported s []) (hn : text.length < n) :
    ∃ s', symbolParseMap m n s syms = some (0, s') ∧ Imported s' (imports ts) ∧
      ∀ b a name, CStr b a name →
        symbolLookupName n s' b a = some (addrOf (imports ts) name) := by
  have hahead : Ahead (tokenize n s (some syms)).2 n ts (tokenize n s (some syms)).1 :=
    tokenize_ahead hmap (Or.inr ⟨syms, rfl, htext⟩) hn.le
  have hlen := hmap.length_le
  obtain ⟨s', heq, himp⟩ := parseMapLoop_spec hm hahead (hempty.setText _ _) (k := n) (by omega)
  rw [List.nil_append] at himp
  refine ⟨s', heq, himp, fun b a name hname => ?_⟩
  have hle : (imports ts).length ≤ ts.length := by
    rw [imports, List.length_map]
    exact List.length_filter_le _ _
  rw [symbolLookupName_eq himp b a (by omega), firstNamed_eq hname, addrOf]

/-- A function and a variable that is internal. -/
def smallMap : List Triple :=
  [⟨0x101f0c, 84, chars ['m', 'a', 'i', 'n'], by decide, by decide, by decide,
      List.all_iff_forall_prop.mp (by decide)⟩,
    ⟨0x10a000, 98, chars ['_', 'e', 'n', 'd'], by decide, by decide, by decide,
      List.all_iff_forall_prop.mp (by decide)⟩]

/-- No symbols yet, and the small map at 0. -/
def smallState : State := { noSymbols with text := fun i => (nmOutput smallMap).getD i 0 }

theorem parse_map_imports_small :
    ∃ s', symbolParseMap ⟨fun _ _ => true, fun _ _ => 0⟩ 100 smallState 0 = some (0, s') ∧
      Imported s' (imports smallMap) ∧
      ∀ b a name, CStr b a name →
        symbolLookupName 100 s' b a = some (addrOf (imports smallMap) name) :=
  parse_map_imports _ (fun _ _ => rfl) 100 smallMap smallState 0 (nmOutput smallMap)
    (Or.inl rfl) (by decide) (imported_noSymbols.setText none _) (by decide)

end Elfboot.Symbol
