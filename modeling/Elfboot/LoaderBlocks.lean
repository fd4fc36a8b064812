import Elfboot.LoaderOption
import Elfboot.Tokenizers

/-!
The blocks of a boot configuration, and what the parser makes of them.

A block is a value here: it is opened, options are added to it, and it is put behind those that are
closed, or it is dropped. The parser has a pointer for it, and keeps to the blocks as long as no
block is dropped: dropping one unlinks a node that no list has, and if the line that drops it opens
no other, the pointer stays.
-/

namespace Elfboot.LoaderBlocks

open Elfboot.Circular Elfboot.Buffer Elfboot.Str Elfboot.StrTwin Elfboot.Spans
open Elfboot.Tokenizers Elfboot.Loader Elfboot.LoaderParse Elfboot.LoaderRuns Elfboot.LoaderEnds
open Elfboot.LoaderOption

/-! ### Blocks -/

/-- The lines of a text. -/
def linesOf (t : List UInt8) : List (List UInt8) :=
  (spans (inToken lineDelimiter) 0 t).map Prod.snd

/-- What stands between the first two quotes of a line. -/
def quoted (l : List UInt8) : Option (List UInt8) :=
  match l.dropWhile fun c => c ≠ 34 with
  | [] => none
  | _ :: r => if 34 ∈ r then some (r.takeWhile fun c => c ≠ 34) else none

/-- The buffer with the string `q` at its start. -/
def withName (buf : Bytes) (q : List UInt8) : Bytes := fun j =>
  if j < q.length then q.getD j 0 else if j = q.length then 0 else buf j

/-- The entry that a line opens, where there is memory for its name and for itself. -/
def openedBy (m : Bmalloc) (l : List UInt8) (calls : ℕ) : Option BootEntry × ℕ :=
  match quoted l with
  | none => (none, calls)
  | some q =>
    match m.call calls (q.length + 1) with
    | none => (none, calls + 1)
    | some buf =>
      ((m.call (calls + 1) sizeofBootEntry).map fun _ =>
        ⟨some (withName buf q), none, none, none, 0⟩, calls + 2)

/-- What an option line makes of an entry, as a text of its own. -/
def optionOf (m : Bmalloc) (n : ℕ) (l : List UInt8) (b : BootEntry) (calls : ℕ) : BootEntry × ℕ :=
  match loaderParseEntry m n { initial l with entries := fun _ => b, calls } 0 0 with
  | none => (b, calls)
  | some (_, s) => (s.entries 0, s.calls)

/-- The block that is open, those that are closed, and the calls of `bmalloc` so far. -/
structure Blocks where
  opened : Option BootEntry
  closed : List BootEntry
  calls : ℕ

/-- What a line is. -/
inductive Kind
  | bootentry
  | option
  | brace
  | other
  deriving DecidableEq

def kind (l : List UInt8) : Kind :=
  if bootentryWord <+: l then .bootentry
  else if l.head? = some 9 then .option
  else if l.head? = some 125 then .brace
  else .other

def Blocks.line (m : Bmalloc) (n : ℕ) (a : Blocks) (l : List UInt8) : Blocks :=
  match kind l, a.opened with
  | .bootentry, _ =>
    { a with opened := (openedBy m l a.calls).1, calls := (openedBy m l a.calls).2 }
  | .option, some b =>
    { a with opened := some (optionOf m n l b a.calls).1, calls := (optionOf m n l b a.calls).2 }
  | .brace, some b => { a with opened := none, closed := a.closed ++ [b] }
  | _, _ => a

/-- The blocks that are closed by the lines of a text. -/
def blocksOf (m : Bmalloc) (n calls : ℕ) (ls : List (List UInt8)) : List BootEntry :=
  (ls.foldl (Blocks.line m n) ⟨none, [], calls⟩).closed

/-- What can be wrong with a line where a block is open. -/
inductive Trouble
  | reopened
  | bare
  deriving DecidableEq

/-- The first trouble: a line that opens a block where one is open, or a bare option in a block. -/
def trouble (m : Bmalloc) (n : ℕ) : Blocks → List (List UInt8) → Option Trouble
  | _, [] => none
  | a, l :: ls =>
    if a.opened.isSome ∧ kind l = .bootentry then some .reopened
    else if a.opened.isSome ∧ kind l = .option ∧ Bare l then some .bare
    else trouble m n (a.line m n l) ls

/-- The parser ends with the blocks of the text on the list, in order; where a line drops an entry,
that is on the list, and the loop does not go on with it. -/
structure Handles (m : Bmalloc) (n : ℕ) (s0 : State) (config : ℕ) (t : List UInt8) : Prop where
  stores : ∃ (s' : State) (ids : List ℕ), loaderParseEntries m n s0 config = some s' ∧
    IsList s'.links .bootList (ids.map .entry) ∧
    ids.map s'.entries = blocksOf m n s0.calls (linesOf t)
  drops : ∀ line lend be s, Visits m n s0 config line lend be s → ∀ i ∈ be,
    strncmp s.text line bootentryWord 9 = 0 →
      (∃ xs, IsList s.links .bootList xs ∧ .entry i ∈ xs) ∧
      ∀ line' lend' be' s', turn m n line lend be s = some (line', lend', be', s') → i ∉ be'

variable {m : Bmalloc} {n i p k lend config : ℕ} {s s' s0 : State} {line be : Option ℕ}
variable {l t : List UInt8} {ls : List (List UInt8)} {ids : List ℕ} {a : Blocks}

/-! ### The lines of a text -/

lemma mem_lineDelimiter {c : UInt8} : c ∈ lineDelimiter ↔ c = 10 := by
  simp [lineDelimiter, chars]

lemma newlines_eq (h : ∀ c ∈ l, inToken lineDelimiter c = false) :
    l = List.replicate l.length 10 := by
  refine List.eq_replicate_of_mem fun c hc => ?_
  exact mem_lineDelimiter.mp (inToken_false_iff.mp (h c hc))

lemma layout_spans (t : List UInt8) (i : ℕ) :
    Layout ((spans (inToken lineDelimiter) i t).map Prod.snd) t := by
  induction hn : t.length using Nat.strong_induction_on generalizing t i with
  | _ n ih =>
    rcases cases_span (inToken lineDelimiter) t with hall | ⟨u, w, v, rfl, hu, hw, hne, hv⟩
    · have hspans : spans (inToken lineDelimiter) i t = [] := by
        have hskip := spans_skip (i := i) (v := []) hall
        rwa [List.append_nil] at hskip
      rw [hspans, newlines_eq hall]
      exact .blank _
    · rw [spans_skip hu, spans_span hw hne hv, List.map_cons, newlines_eq hu]
      cases v with
      | nil =>
        rw [List.append_nil]
        exact .last _ w
      | cons c v =>
        obtain rfl : c = 10 := mem_lineDelimiter.mp (inToken_false_iff.mp (hv c rfl))
        refine .line _ w (ih v.length ?_ v _ rfl)
        rw [← hn]
        simp only [List.length_append, List.length_cons]
        omega

lemma layout_linesOf (t : List UInt8) : Layout (linesOf t) t := layout_spans t 0

lemma linesOf_ok (t : List UInt8) : ∀ l ∈ linesOf t, IsLine l := by
  intro l hl
  obtain ⟨⟨j, w⟩, hw, rfl⟩ := List.mem_map.mp hl
  have hspan := mem_spans_iff.mp hw
  exact ⟨hspan.ne, fun c hc => inToken_iff.mp (hspan.all c hc)⟩

/-! ### Names -/

lemma ne_quote (h : 34 ∉ l) : ∀ c ∈ l, decide (c ≠ 34) = true := by
  intro c hc
  exact decide_eq_true fun he => h (he ▸ hc)

lemma quoted_of {u q v : List UInt8} (hu : 34 ∉ u) (hq : 34 ∉ q) :
    quoted (u ++ 34 :: (q ++ 34 :: v)) = some q := by
  have hdrop : (u ++ 34 :: (q ++ 34 :: v)).dropWhile (fun c => c ≠ 34) = 34 :: (q ++ 34 :: v) := by
    rw [List.dropWhile_append_of_pos (ne_quote hu)]
    simp
  have htake : (q ++ 34 :: v).takeWhile (fun c => c ≠ 34) = q := by
    rw [List.takeWhile_append_of_pos (ne_quote hq)]
    simp
  unfold quoted
  rw [hdrop]
  dsimp only
  rw [if_pos (by simp), htake]

lemma quoted_none {u v : List UInt8} (hu : 34 ∉ u) (hv : 34 ∉ v) :
    quoted u = none ∧ quoted (u ++ 34 :: v) = none := by
  constructor
  · unfold quoted
    rw [List.dropWhile_eq_nil_iff.mpr (ne_quote hu)]
  · unfold quoted
    rw [List.dropWhile_append_of_pos (ne_quote hu)]
    simp [hv]

/-- What is copied is the name. -/
lemma withName_eq {q v : List UInt8} (buf : Bytes) (h : CStr s.text p (q ++ v)) :
    Function.update (memcpy buf 0 s.text p q.length) q.length 0 = withName buf q := by
  funext j
  unfold withName
  by_cases hj : j = q.length
  · subst hj
    rw [Function.update_self, if_neg (lt_irrefl _), if_pos rfl]
  · rw [Function.update_of_ne hj, memcpy]
    by_cases hlt : j < q.length
    · have hget := h.get (i := j) (by rw [List.length_append]; omega)
      rw [if_pos (by omega), if_pos hlt, Nat.sub_zero, hget, List.getElem_append_left hlt,
        List.getD_eq_getElem _ _ hlt]
    · rw [if_neg (by omega), if_neg hlt, if_neg hj]

/-- The name is found where the line has one, and copied if there is memory. -/
lemma parseName_eq (h : CStr s.text p l) (hn : l.length ≤ n) : loaderParseName m n s p =
    match quoted l with
    | none => (none, s)
    | some q => ((m.call s.calls (q.length + 1)).map fun buf => withName buf q,
        { s with calls := s.calls + 1 }) := by
  by_cases hl : 34 ∈ l
  · obtain ⟨u, r, rfl, hu⟩ := List.eq_append_cons_of_mem hl
    have hr : CStr s.text (p + u.length + 1) r := h.drop.2.2
    by_cases hq : 34 ∈ r
    · obtain ⟨q, v, rfl, hq'⟩ := List.eq_append_cons_of_mem hq
      rw [parseName_quotes h hu hq' hn, quoted_of hu hq']
      simp only [withName_eq _ hr]
    · have hrn : r.length ≤ n := by
        rw [List.length_append, List.length_cons] at hn
        omega
      have hbeg := strstr_char h hu hn
      have hend := strstr_char_none hr hq hrn
      change strstr s.text n p nameDelimiter = _ at hbeg
      change strstr s.text n _ nameDelimiter = _ at hend
      unfold loaderParseName
      rw [hbeg]
      dsimp only
      rw [hend, (quoted_none hu hq).2]
  · have hbeg := strstr_char_none h hl hn
    change strstr s.text n p nameDelimiter = _ at hbeg
    unfold loaderParseName
    rw [hbeg, (quoted_none hl (List.not_mem_nil)).1]

/-! ### One line -/

/-- The state has the blocks: those that are closed on the list, and the open one beside it. -/
structure Keeps (s : State) (be : Option ℕ) (ids : List ℕ) (a : Blocks) : Prop where
  list : IsList s.links .bootList (ids.map .entry)
  closed : ids.map s.entries = a.closed
  opened : be.map s.entries = a.opened
  calls : s.calls = a.calls
  below : ∀ i ∈ ids, i < s.calls
  fresh : ∀ i ∈ be, i < s.calls ∧ i ∉ ids

lemma head_iff (h : CStr s.text p l) {c : UInt8} (hc : c ≠ 0) :
    s.text p = c ↔ l.head? = some c := by
  cases l with
  | nil =>
    have h0 : s.text p = 0 := h
    rw [h0]
    exact iff_of_false hc.symm (by simp)
  | cons d l =>
    rw [h.1]
    simp

lemma bootentry_iff (h : CStr s.text p l) :
    strncmp s.text p bootentryWord 9 = 0 ↔ kind l = .bootentry := by
  have hlit : strncmp s.text p bootentryWord 9 = 0 ↔ bootentryWord <+: l :=
    strncmp_lit h (by decide)
  rw [hlit, kind]
  split_ifs <;> simp_all

/-- The body of the loop, by what the line is. -/
lemma parseLine_eq (h : CStr s.text p l) : parseLine m n s be p =
    match kind l, be with
    | .bootentry, be =>
      match loaderParseName m n (be.elim s (loaderFreeEntry s)) p with
      | (none, s) => some (be, s)
      | (some name, s) => some (loaderCreateEntry m s name)
    | .option, some i => (loaderParseEntry m n s i p).map fun r => (some i, r.2)
    | .brace, some i => some (none, loaderStoreEntry s i)
    | _, be => some (be, s) := by
  have hlit : strncmp s.text p bootentryWord 9 = 0 ↔ bootentryWord <+: l :=
    strncmp_lit h (by decide)
  have htab : s.text p = firstChar infoDelimiter ↔ l.head? = some 9 := head_iff h (by decide)
  have hbrace : s.text p = firstChar bootDelimiter ↔ l.head? = some 125 := head_iff h (by decide)
  unfold parseLine kind
  simp only [hlit, htab, hbrace]
  split_ifs
  · cases be <;> rfl
  · cases be with
    | none => rfl
    | some i =>
      dsimp only
      cases loaderParseEntry m n s i p <;> rfl
  · cases be <;> rfl
  · cases be <;> rfl

lemma Keeps.with_text (h : Keeps s be ids a) (text : Bytes) : Keeps { s with text } be ids a :=
  ⟨h.list, h.closed, h.opened, h.calls, h.below, h.fresh⟩

lemma Keeps.opened_none (h : Keeps s none ids a) : a.opened = none := h.opened.symm

lemma Keeps.opened_some (h : Keeps s (some i) ids a) : a.opened = some (s.entries i) :=
  h.opened.symm

/-- A new entry has the number of a call that no other entry has, and is on no list. -/
lemma Keeps.create (h : Keeps s none ids a) (b : BootEntry) :
    Keeps { s with
      entries := Function.update s.entries (s.calls + 1) b
      links := (s.links.setPrev (.entry (s.calls + 1)) .null).setNext (.entry (s.calls + 1)) .null
      calls := s.calls + 2 } (some (s.calls + 1)) ids
      { a with opened := some b, calls := a.calls + 2 } := by
  have hne : ∀ j ∈ ids, j ≠ s.calls + 1 := fun j hj => by
    have := h.below j hj
    omega
  refine ⟨isList_new h.list fun hj => hne _ hj rfl, ?_, ?_, ?_, ?_, ?_⟩
  · rw [← h.closed]
    exact List.map_congr_left fun j hj => Function.update_of_ne (hne j hj) _ _
  · exact congrArg some (Function.update_self ..)
  · exact congrArg (· + 2) h.calls
  · intro j hj
    have := h.below j hj
    dsimp only
    omega
  · rintro j ⟨⟩
    exact ⟨Nat.lt_succ_self _, fun hj => hne _ hj rfl⟩

/-- Calls of `bmalloc` that come to nothing. -/
lemma Keeps.more_calls (h : Keeps s none ids a) (c : ℕ) :
    Keeps { s with calls := s.calls + c } none ids
      { a with opened := none, calls := a.calls + c } :=
  ⟨h.list, h.closed, rfl, congrArg (· + c) h.calls,
    fun i hi => (h.below i hi).trans_le (Nat.le_add_right _ _), by simp⟩

lemma keeps_bootentry (h : Keeps s none ids a) (hp : CStr s.text p l) (hn : l.length ≤ n)
    (hk : kind l = .bootentry) : ∃ be' s', parseLine m n s none p = some (be', s') ∧
      s'.text = s.text ∧ Keeps s' be' ids (a.line m n l) := by
  rw [parseLine_eq hp, hk]
  unfold Blocks.line openedBy
  simp only [hk, ← h.calls, Option.elim]
  rw [parseName_eq hp hn]
  cases quoted l with
  | none =>
    have := h.more_calls 0
    exact ⟨none, s, rfl, rfl, h.list, h.closed, rfl, rfl, h.below, by simp⟩
  | some q =>
    dsimp only
    cases m.call s.calls (q.length + 1) with
    | none =>
      have hmore := h.more_calls 1
      rw [← h.calls] at hmore
      exact ⟨none, _, rfl, rfl, hmore⟩
    | some buf =>
      dsimp only [Option.map_some]
      unfold loaderCreateEntry bmalloc
      dsimp only
      cases m.call (s.calls + 1) sizeofBootEntry with
      | none =>
        have hmore := h.more_calls 2
        rw [← h.calls] at hmore
        exact ⟨none, _, rfl, rfl, hmore⟩
      | some _ =>
        have hcreate := h.create ⟨some (withName buf q), none, none, none, 0⟩
        rw [← h.calls] at hcreate
        exact ⟨_, _, rfl, rfl, hcreate⟩

lemma keeps_option (h : Keeps s (some i) ids a) (hp : CStr s.text p l) (hn : l.length < n)
    (hk : kind l = .option) (hbare : ¬ Bare l) :
    ∃ s', parseLine m n s (some i) p = some (some i, s') ∧
      (∀ j, p + l.length ≤ j → s'.text j = s.text j) ∧ Keeps s' (some i) ids (a.line m n l) := by
  have h0 : (0 : UInt8) ∉ l := fun h0 => hp.ne_zero h0 rfl
  have halone := cstr_bufferOf h0
  have htwins : Twins p 0 l.length i 0 s
      { initial l with entries := fun _ => s.entries i, calls := s.calls } :=
    ⟨twin_cstr hp halone, rfl, rfl⟩
  have hends : EndsAt (initial l).text l.length := by
    intro j hj
    simp [initial, bufferOf, hj]
  obtain ⟨r, t', heq, -⟩ := parseEntry_ends (m := m) (i := 0) (p := 0) (s := { initial l with
    entries := fun _ => s.entries i, calls := s.calls }) hends hn
  have halike := parseEntry_twins hp htwins hbare m n
  rw [heq] at halike
  rw [parseLine_eq hp, hk]
  unfold Blocks.line optionOf
  simp only [hk, h.opened_some, ← h.calls, heq]
  obtain ⟨s', hs', htwins', hsame⟩ : ∃ s', loaderParseEntry m n s i p = some (r, s') ∧
      Twins p 0 l.length i 0 s' t' ∧ Same i (p + l.length) s s' := by
    cases hs' : loaderParseEntry m n s i p with
    | none =>
      rw [hs'] at halike
      cases halike
    | some x =>
      rw [hs'] at halike
      cases halike with
      | done h1 h2 => exact ⟨_, rfl, h1, h2⟩
  have hfresh := h.fresh i rfl
  rw [hs']
  refine ⟨s', rfl, hsame.text, ?_, ?_, ?_, htwins'.calls, ?_, ?_⟩
  · rw [hsame.links]
    exact h.list
  · rw [← h.closed]
    refine List.map_congr_left fun j hj => hsame.entries j ?_
    rintro rfl
    exact hfresh.2 hj
  · exact congrArg some htwins'.entry
  · exact fun j hj => (h.below j hj).trans_le hsame.calls
  · rintro j ⟨⟩
    exact ⟨hfresh.1.trans_le hsame.calls, hfresh.2⟩

/-- The closing line puts the open block behind the others. -/
lemma keeps_brace (h : Keeps s (some i) ids a) (hk : kind l = .brace) :
    Keeps (loaderStoreEntry s i) none (ids ++ [i]) (a.line m n l) := by
  have hfresh := h.fresh i rfl
  unfold Blocks.line
  simp only [hk, h.opened_some]
  refine ⟨isList_store h.list hfresh.2, ?_, rfl, h.calls, ?_, by simp⟩
  · rw [List.map_append, ← h.closed]
    rfl
  · intro j hj
    rcases List.mem_append.mp hj with hj | hj
    · exact h.below j hj
    · rw [List.mem_singleton.mp hj]
      exact hfresh.1

/-- **A line without trouble** does to the state what it does to the blocks. -/
lemma keeps_line (h : Keeps s be ids a) (hp : CStr s.text p l) (hn : l.length < n)
    (hopen : ¬ (a.opened.isSome ∧ kind l = .bootentry))
    (hbare : ¬ (a.opened.isSome ∧ kind l = .option ∧ Bare l)) :
    ∃ be' s' ids', parseLine m n s be p = some (be', s') ∧
      (∀ j, p + l.length ≤ j → s'.text j = s.text j) ∧ Keeps s' be' ids' (a.line m n l) := by
  cases hk : kind l with
  | bootentry =>
    cases be with
    | none =>
      obtain ⟨be', s', heq, htext, hkeeps⟩ := keeps_bootentry h hp hn.le hk
      exact ⟨be', s', ids, heq, fun j _ => by rw [htext], hkeeps⟩
    | some i => exact absurd ⟨by rw [h.opened_some]; rfl, hk⟩ hopen
  | option =>
    cases be with
    | none =>
      refine ⟨none, s, ids, by rw [parseLine_eq hp, hk], fun _ _ => rfl, ?_⟩
      unfold Blocks.line
      simpa only [hk, h.opened_none] using h
    | some i =>
      have hne : ¬ Bare l := fun hb => hbare ⟨by rw [h.opened_some]; rfl, hk, hb⟩
      obtain ⟨s', heq, htext, hkeeps⟩ := keeps_option h hp hn hk hne
      exact ⟨some i, s', ids, heq, htext, hkeeps⟩
  | brace =>
    cases be with
    | none =>
      refine ⟨none, s, ids, by rw [parseLine_eq hp, hk], fun _ _ => rfl, ?_⟩
      unfold Blocks.line
      simpa only [hk, h.opened_none] using h
    | some i =>
      exact ⟨none, loaderStoreEntry s i, ids ++ [i], by rw [parseLine_eq hp, hk],
        fun _ _ => rfl, keeps_brace h hk⟩
  | other =>
    refine ⟨be, s, ids, by rw [parseLine_eq hp, hk], fun _ _ => rfl, ?_⟩
    unfold Blocks.line
    simpa only [hk] using h

/-- A line that drops the open entry and opens no other: the pointer to it stays. -/
theorem dropped_stays (hp : CStr s.text p l) (hn : l.length ≤ n) (hk : kind l = .bootentry)
    (hq : quoted l = none) :
    parseLine m n s (some i) p = some (some i, loaderFreeEntry s i) := by
  rw [parseLine_eq hp, hk]
  dsimp only [Option.elim]
  have hname := parseName_eq (m := m) (s := loaderFreeEntry s i) hp hn
  rw [hname, hq]

/-! ### The loop -/

/-- Before a turn: the lines that are left, and the blocks so far. -/
structure Follows (c : ℕ) (line : Option ℕ) (lend : ℕ) (be : Option ℕ) (s : State)
    (ls : List (List UInt8)) (a : Blocks) : Prop where
  atLine : AtLine c line lend s ls
  lines : ∀ l ∈ ls, IsLine l ∧ l.head? ≠ some 35
  keeps : ∃ ids, Keeps s be ids a

/-- One turn of the loop at a line without trouble. -/
lemma follows_turn {c : ℕ} (h : Follows c (some p) lend be s (l :: ls) a) (hc : c < n)
    (hopen : ¬ (a.opened.isSome ∧ kind l = .bootentry))
    (hbare : ¬ (a.opened.isSome ∧ kind l = .option ∧ Bare l)) :
    ∃ line' lend' be' s', turn m n p lend be s = some (line', lend', be', s') ∧
      Follows c line' lend' be' s' ls (a.line m n l) := by
  obtain ⟨⟨q, t, hq, hp, hn, hle, ht, htn, hlay⟩, hlines, ids, hkeeps⟩ := h
  obtain rfl := Option.some.inj hq
  obtain ⟨be', s', ids', heq, htext, hkeeps'⟩ := keeps_line (m := m) hkeeps hp (hn.trans_lt hc)
    hopen hbare
  have hlines' := (List.forall_mem_cons.mp hlines).2
  have ht' : CStr s'.text lend t := ht.congr fun j hj _ => htext j (by omega)
  obtain ⟨line', lend', text, htok, hat⟩ := atLine_next none lend hlay
    (fun l hl => (hlines' l hl).1) rfl ht' htn hc.le
  have hne : s.text p ≠ firstChar charComment := by
    rw [Ne, head_iff hp (by decide)]
    exact (hlines l List.mem_cons_self).2
  refine ⟨line', lend', be', { s' with text }, ?_, hat, hlines', ids', hkeeps'.with_text text⟩
  unfold turn
  rw [if_neg hne, heq]
  dsimp only
  rw [htok]

lemma trouble_none : trouble m n a (l :: ls) = none ↔
    ¬ (a.opened.isSome ∧ kind l = .bootentry) ∧
      ¬ (a.opened.isSome ∧ kind l = .option ∧ Bare l) ∧ trouble m n (a.line m n l) ls = none := by
  rw [trouble]
  split_ifs <;> simp_all

/-- **Without trouble** the loop ends with the blocks of the lines. -/
lemma follows_run {c : ℕ} (hc : c < n) (h : Follows c line lend be s ls a)
    (hno : trouble m n a ls = none) (hk : ls.length < k) : ∃ be' s' ids,
      parseLoop m n k line lend be s = some s' ∧
      Keeps s' be' ids (ls.foldl (Blocks.line m n) a) := by
  induction ls generalizing line lend be s a k with
  | nil =>
    obtain ⟨k, rfl⟩ : ∃ j, k = j + 1 := ⟨k - 1, by omega⟩
    obtain rfl : line = none := h.atLine
    obtain ⟨ids, hkeeps⟩ := h.keeps
    exact ⟨be, s, ids, rfl, hkeeps⟩
  | cons l ls ih =>
    rw [List.length_cons] at hk
    obtain ⟨k, rfl⟩ : ∃ j, k = j + 1 := ⟨k - 1, by omega⟩
    obtain ⟨hopen, hbare, hrest⟩ := trouble_none.mp hno
    obtain ⟨p, -, rfl, -⟩ := id h.atLine
    obtain ⟨line', lend', be', s', heq, hnext⟩ := follows_turn (m := m) h hc hopen hbare
    rw [parseLoop_turn heq]
    exact ih hnext hrest (by omega)

/-- Every turn of a text without trouble is one at a line that keeps to the blocks. -/
lemma visits_follows {c : ℕ} (hc : c < n)
    (hfirst : ∀ p lend s, tokenize n s0 (some config) lineDelimiter 0 = (some p, lend, s) →
      ∃ ls a, Follows c (some p) lend none s ls a ∧ trouble m n a ls = none)
    (h : Visits m n s0 config p lend be s) :
    ∃ ls a, Follows c (some p) lend be s ls a ∧ trouble m n a ls = none := by
  induction h with
  | first htok => exact hfirst _ _ _ htok
  | next _ hturn ih =>
    obtain ⟨ls, a, hfollows, hno⟩ := ih
    cases ls with
    | nil => cases hfollows.atLine
    | cons l ls =>
      obtain ⟨hopen, hbare, hrest⟩ := trouble_none.mp hno
      obtain ⟨line', lend', be', s', heq, hnext⟩ := follows_turn (m := m) hfollows hc hopen
        hbare
      rw [heq] at hturn
      cases hturn
      exact ⟨ls, _, hnext, hrest⟩

/-- A block that is opened in another is dropped with its entry on no list. -/
lemma visits_reopened {c : ℕ} (hc : c < n) (h : Visits m n s0 config p lend be s)
    (hfollows : Follows c (some p) lend be s ls a) (hre : trouble m n a ls = some .reopened) :
    ∃ line lend be s i, Visits m n s0 config line lend be s ∧ i ∈ be ∧
      strncmp s.text line bootentryWord 9 = 0 ∧
      ∀ xs, IsList s.links .bootList xs → .entry i ∉ xs := by
  induction ls generalizing p lend be s a with
  | nil => cases hre
  | cons l ls ih =>
    rw [trouble] at hre
    split_ifs at hre with hopen hbare
    · obtain ⟨⟨q, t, hq, hp, -⟩, -, ids, hkeeps⟩ := hfollows
      obtain rfl := Option.some.inj hq
      cases be with
      | none =>
        rw [hkeeps.opened_none] at hopen
        cases hopen.1
      | some i =>
        refine ⟨_, _, _, _, i, h, rfl, (bootentry_iff hp).mpr hopen.2, fun xs hxs hi => ?_⟩
        rw [hxs.unique hkeeps.list] at hi
        obtain ⟨j, hj, he⟩ := List.mem_map.mp hi
        exact (hkeeps.fresh i rfl).2 (Node.entry.inj he ▸ hj)
    · cases hre
    · obtain ⟨line', lend', be', s', heq, hnext⟩ := follows_turn (m := m) hfollows hc hopen
        hbare
      cases ls with
      | nil => cases hre
      | cons l' ls =>
        obtain ⟨p', -, rfl, -⟩ := id hnext.atLine
        exact ih (h.next heq) hnext hre

/-! ### Texts -/

/-- A text of lines that are no comments, before it is parsed, with an empty list. -/
structure Start (n : ℕ) (s0 : State) (config : ℕ) (t : List UInt8) : Prop where
  text : CStr s0.text config t
  bound : t.length < n
  list : IsList s0.links .bootList []
  comments : ∀ l ∈ linesOf t, l.head? ≠ some 35

/-- The blocks before the first line. -/
abbrev noBlocks (calls : ℕ) : Blocks := ⟨none, [], calls⟩

lemma follows_first (h : Start n s0 config t) :
    ∃ line lend s, tokenize n s0 (some config) lineDelimiter 0 = (line, lend, s) ∧
      Follows t.length line lend none s (linesOf t) (noBlocks s0.calls) := by
  obtain ⟨line, lend, text, heq, hat⟩ := atLine_next (some config) 0 (layout_linesOf t)
    (linesOf_ok t) rfl h.text le_rfl h.bound.le
  refine ⟨line, lend, _, heq, hat, fun l hl => ⟨linesOf_ok t l hl, h.comments l hl⟩, [], ?_⟩
  exact ⟨h.list, rfl, rfl, rfl, by simp, by simp⟩

lemma handles_of_trouble (m : Bmalloc) (h : Start n s0 config t)
    (hno : trouble m n (noBlocks s0.calls) (linesOf t) = none) : Handles m n s0 config t := by
  obtain ⟨line, lend, s, heq, hfollows⟩ := follows_first h
  have hlen := (layout_linesOf t).length_le (linesOf_ok t)
  constructor
  · obtain ⟨be', s', ids, hrun, hkeeps⟩ := follows_run (m := m) h.bound hfollows hno
      (hlen.trans_lt h.bound)
    refine ⟨s', ids, ?_, hkeeps.list, hkeeps.closed⟩
    unfold loaderParseEntries
    rw [heq]
    exact hrun
  · intro p lend be s hvisits i hi hboot
    obtain ⟨ls, a, hfollows', hno'⟩ := visits_follows h.bound (fun p lend s htok => by
      rw [heq] at htok
      cases htok
      exact ⟨_, _, hfollows, hno⟩) hvisits
    cases ls with
    | nil => cases hfollows'.atLine
    | cons l ls =>
      obtain ⟨⟨q, t, hq, hp, -⟩, -, ids, hkeeps⟩ := hfollows'
      obtain rfl := Option.some.inj hq
      obtain rfl := Option.mem_def.mp hi
      refine absurd ⟨?_, (bootentry_iff hp).mp hboot⟩ (trouble_none.mp hno').1
      rw [hkeeps.opened_some]
      rfl

lemma not_handles_of_reopened (h : Start n s0 config t)
    (hre : trouble m n (noBlocks s0.calls) (linesOf t) = some .reopened) :
    ¬ Handles m n s0 config t := by
  intro hhandles
  obtain ⟨line, lend, s, heq, hfollows⟩ := follows_first h
  cases hlines : linesOf t with
  | nil =>
    rw [hlines] at hre
    cases hre
  | cons l ls =>
    obtain ⟨p, -, rfl, -⟩ := id (hlines ▸ hfollows.atLine)
    obtain ⟨line', lend', be', s', i, hvisits, hi, hboot, hlist⟩ := visits_reopened h.bound
      (.first heq) hfollows hre
    obtain ⟨⟨xs, hxs, hmem⟩, -⟩ := hhandles.drops _ _ _ _ hvisits i hi hboot
    exact hlist xs hxs hmem

/-- **The blocks of a text** are what the parser makes of it, and it drops no entry that it may
not, if no block is opened where one is open and no block has a bare option. Where the first of
these to come is a block that is opened in another, that is not so. -/
theorem handles_by_trouble (m : Bmalloc) (h : Start n s0 config t) :
    (trouble m n (noBlocks s0.calls) (linesOf t) = none → Handles m n s0 config t) ∧
      (trouble m n (noBlocks s0.calls) (linesOf t) = some .reopened →
        ¬ Handles m n s0 config t) :=
  ⟨handles_of_trouble m h, not_handles_of_reopened h⟩

lemma start_initial (h0 : 0 ∉ t) (hn : t.length < n)
    (hcomments : ∀ l ∈ linesOf t, l.head? ≠ some 35) : Start n (initial t) 0 t :=
  ⟨cstr_bufferOf h0, hn, ⟨List.nodup_singleton _, rfl, rfl⟩, hcomments⟩

/-- A block that is not closed before a line without a name, and a brace. -/
def reopenedText : List UInt8 :=
  chars ['b', 'o', 'o', 't', 'e', 'n', 't', 'r', 'y', ' ', '"', 'a', '"', ' ', '{'] ++
    10 :: (chars ['b', 'o', 'o', 't', 'e', 'n', 't', 'r', 'y'] ++ 10 :: chars ['}'])

lemma start_oneText : Start 100 (initial oneText) 0 oneText :=
  start_initial (by decide) (by decide) (List.all_iff_forall_prop.mp (by decide +kernel))

lemma start_reopenedText : Start 100 (initial reopenedText) 0 reopenedText :=
  start_initial (by decide) (by decide) (List.all_iff_forall_prop.mp (by decide +kernel))

theorem handles_by_trouble_texts : Handles allMemory 100 (initial oneText) 0 oneText ∧
    ¬ Handles allMemory 100 (initial reopenedText) 0 reopenedText :=
  ⟨(handles_by_trouble allMemory start_oneText).1 (by decide +kernel),
    (handles_by_trouble allMemory start_reopenedText).2 (by decide +kernel)⟩

theorem not_handles_reopened : ¬ Handles allMemory 100 (initial reopenedText) 0 reopenedText :=
  not_handles_of_reopened start_reopenedText (by decide +kernel)

end Elfboot.LoaderBlocks
