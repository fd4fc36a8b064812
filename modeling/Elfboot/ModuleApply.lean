import Elfboot.ModuleImage
import Elfboot.WordWrites

/-!
What `module_apply_relocate` makes of the memory.

A table is read as it is before the first entry is applied. Where no target word overlaps
another one, or a word that the loop reads later on, the entries write one word each, and their
order does not matter.
-/

namespace Elfboot.ModuleApply

open Elfboot.Buffer Elfboot.Word Elfboot.Loop Elfboot.ModuleImage Elfboot.WordWrites

/-- `Elf32_Rel`. -/
structure Rel where
  offset : ℕ
  info : ℕ
  deriving DecidableEq

variable (mod : Module) (mem : Bytes) (shdr : ℕ)

/-- The number of entries of a section. -/
def count : ℕ := shSize mem shdr / sizeofRel

def relAt (rel : ℕ) : Rel := ⟨rOffset mem rel, rInfo mem rel⟩

/-- The entries of a section. -/
def table : List Rel :=
  (List.range (count mem shdr)).map fun ndx => relAt mem (shAddr mem shdr + sizeofRel * ndx)

/-- The target word of an entry. -/
def target (r : Rel) : ℕ :=
  u32 (shAddr mem (mod.shdr + sizeofShdr * shInfo mem shdr) + r.offset)

def symbolOf (r : Rel) : ℕ := mod.symtab + sizeofSym * elf32RSym r.info

/-- What the target word of an entry is to hold. -/
def word (r : Rel) : ℕ :=
  let pos := target mod mem shdr r
  if elf32RType r.info = r38632 then u32 (le32 mem pos + stValue mem (symbolOf mod r))
  else u32 (le32 mem pos + sub32 (stValue mem (symbolOf mod r)) pos)

/-! ### What the loop reads -/

/-- The words of the section headers that are read in each turn. -/
def headWords : List ℕ :=
  [u32 (shdr + 20), u32 (shdr + 28), u32 (mod.shdr + sizeofShdr * shInfo mem shdr + 12)]

def entryWords : List ℕ :=
  (List.range (count mem shdr)).flatMap fun ndx =>
    [u32 (shAddr mem shdr + sizeofRel * ndx), u32 (shAddr mem shdr + sizeofRel * ndx + 4)]

/-- The values of the symbols that the entries name. -/
def symbolWords : List ℕ := (table mem shdr).map fun r => u32 (symbolOf mod r + 4)

/-- All entries are of a type that is supported; their target words overlap neither each other
nor what the loop reads. -/
structure Relocatable : Prop where
  types : ∀ r ∈ table mem shdr, elf32RType r.info = r38632 ∨ elf32RType r.info = r386Pc32
  apart : ((table mem shdr).map (target mod mem shdr)).Pairwise Apart
  head : ∀ r ∈ table mem shdr, ∀ w ∈ headWords mod mem shdr, Apart (target mod mem shdr r) w
  entry : ∀ r ∈ table mem shdr, ∀ w ∈ entryWords mem shdr, Apart (target mod mem shdr r) w
  symbol : ∀ r ∈ table mem shdr, ∀ w ∈ symbolWords mod mem shdr,
    Apart (target mod mem shdr r) w

/-- The words that the entries write. -/
def targets : List (ℕ × ℕ) :=
  (table mem shdr).map fun r => (target mod mem shdr r, word mod mem shdr r)

variable {mod mem shdr} {s : State} {shndx ndx : ℕ} {r : Rel}

lemma targets_fst : (targets mod mem shdr).map Prod.fst =
    (table mem shdr).map (target mod mem shdr) := List.map_map

lemma length_table : (table mem shdr).length = count mem shdr := by simp [table]

lemma count_lt (mem : Bytes) (shdr : ℕ) : count mem shdr < 2 ^ 29 := by
  have hlt := le32_lt mem (u32 (shdr + 20))
  unfold count shSize sizeofRel
  omega

lemma take_map_succ {α β : Type*} (f : α → β) (l : List α) (i : ℕ) (h : i < l.length) :
    (l.map f).take (i + 1) = (l.map f).take i ++ [f l[i]] := by
  rw [List.take_succ_eq_append_getElem (by simpa using h), List.getElem_map]

/-! ### One entry -/

/-- The memory when some of the words have been written. -/
abbrev after (mod : Module) (mem : Bytes) (shdr ndx : ℕ) : Bytes :=
  writes mem ((targets mod mem shdr).take ndx)

section Turn

variable (h : Relocatable mod mem shdr)
include h

lemma read_head {w : ℕ} (hw : w ∈ headWords mod mem shdr) (ndx : ℕ) :
    le32 (after mod mem shdr ndx) w = le32 mem w := by
  refine le32_writes_apart (fun t ht => ?_) mem
  obtain ⟨r, hr, rfl⟩ := List.mem_map.1 (List.mem_of_mem_take ht)
  exact h.head r hr w hw

lemma read_entry {w : ℕ} (hw : w ∈ entryWords mem shdr) (ndx : ℕ) :
    le32 (after mod mem shdr ndx) w = le32 mem w := by
  refine le32_writes_apart (fun t ht => ?_) mem
  obtain ⟨r, hr, rfl⟩ := List.mem_map.1 (List.mem_of_mem_take ht)
  exact h.entry r hr w hw

lemma read_symbol {w : ℕ} (hw : w ∈ symbolWords mod mem shdr) (ndx : ℕ) :
    le32 (after mod mem shdr ndx) w = le32 mem w := by
  refine le32_writes_apart (fun t ht => ?_) mem
  obtain ⟨r, hr, rfl⟩ := List.mem_map.1 (List.mem_of_mem_take ht)
  exact h.symbol r hr w hw

/-- The target word of an entry is as it was when its turn comes. -/
lemma read_target (hndx : ndx < (table mem shdr).length) :
    le32 (after mod mem shdr ndx) (target mod mem shdr (table mem shdr)[ndx]) =
      le32 mem (target mod mem shdr (table mem shdr)[ndx]) := by
  refine le32_writes_apart (fun t ht => ?_) mem
  have hpair := List.pairwise_map.1 h.apart
  rw [← List.take_append_drop ndx (table mem shdr), List.drop_eq_getElem_cons hndx,
    List.pairwise_append] at hpair
  unfold targets at ht
  rw [← List.map_take] at ht
  obtain ⟨r, hr, rfl⟩ := List.mem_map.1 ht
  exact hpair.2.2 r hr _ List.mem_cons_self

lemma shSize_same (ndx : ℕ) : shSize (after mod mem shdr ndx) shdr = shSize mem shdr :=
  read_head h List.mem_cons_self ndx

lemma shInfo_same (ndx : ℕ) : shInfo (after mod mem shdr ndx) shdr = shInfo mem shdr :=
  read_head h (List.mem_cons_of_mem _ List.mem_cons_self) ndx

lemma shAddr_same (ndx : ℕ) :
    shAddr (after mod mem shdr ndx) (mod.shdr + sizeofShdr * shInfo mem shdr) =
      shAddr mem (mod.shdr + sizeofShdr * shInfo mem shdr) :=
  read_head h (List.mem_cons_of_mem _ (List.mem_cons_of_mem _ List.mem_cons_self)) ndx

lemma relAt_same {i : ℕ} (hi : i < count mem shdr) (ndx : ℕ) :
    relAt (after mod mem shdr ndx) (shAddr mem shdr + sizeofRel * i) =
      relAt mem (shAddr mem shdr + sizeofRel * i) := by
  have hmem := List.mem_range.2 hi
  unfold relAt rOffset rInfo
  rw [read_entry h (List.mem_flatMap.2 ⟨i, hmem, List.mem_cons_self⟩),
    read_entry h (List.mem_flatMap.2 ⟨i, hmem, List.mem_cons_of_mem _ List.mem_cons_self⟩)]

/-- **A turn** writes the word of its entry. -/
lemma relocate_entry (hndx : ndx < count mem shdr) :
    relocate mod (after mod mem shdr ndx) shdr (shAddr mem shdr + sizeofRel * ndx) =
      some (after mod mem shdr (ndx + 1)) := by
  have hlt : ndx < (table mem shdr).length := by rwa [length_table]
  have hget : (table mem shdr)[ndx] = relAt mem (shAddr mem shdr + sizeofRel * ndx) := by
    simp [table]
  have hmem : (table mem shdr)[ndx] ∈ table mem shdr := List.getElem_mem hlt
  have hword := read_target h hlt
  have hval : stValue (after mod mem shdr ndx) (symbolOf mod (table mem shdr)[ndx]) =
      stValue mem (symbolOf mod (table mem shdr)[ndx]) :=
    read_symbol h (List.mem_map_of_mem hmem) ndx
  have hrel := relAt_same h hndx ndx
  rw [← hget] at hrel
  have htake : after mod mem shdr (ndx + 1) = put32 (after mod mem shdr ndx)
      (target mod mem shdr (table mem shdr)[ndx]) (word mod mem shdr (table mem shdr)[ndx]) := by
    unfold after targets
    rw [take_map_succ _ _ _ hlt, writes_concat]
  generalize (table mem shdr)[ndx] = r at *
  have htypes := h.types r hmem
  have hoff : rOffset (after mod mem shdr ndx) (shAddr mem shdr + sizeofRel * ndx) = r.offset :=
    congrArg Rel.offset hrel
  have hinfo : rInfo (after mod mem shdr ndx) (shAddr mem shdr + sizeofRel * ndx) = r.info :=
    congrArg Rel.info hrel
  have hpos : u32 (shAddr mem (mod.shdr + sizeofShdr * shInfo mem shdr) + r.offset) =
      target mod mem shdr r := rfl
  have hsym : mod.symtab + sizeofSym * elf32RSym r.info = symbolOf mod r := rfl
  unfold relocate
  dsimp only
  rw [shInfo_same h, shAddr_same h, hoff, hinfo, hpos, hsym, hval, hword, htake]
  unfold word
  dsimp only
  rcases htypes with ht | ht
  · rw [if_pos ht, if_pos ht]
  · have hne : ¬ elf32RType r.info = r38632 := by
      rw [ht]
      decide
    rw [if_neg hne, if_pos ht, if_neg hne]

end Turn

/-! ### The loop -/

lemma after_all (mod : Module) (mem : Bytes) (shdr : ℕ) :
    after mod mem shdr (count mem shdr) = writes mem (targets mod mem shdr) := by
  have hlen : (targets mod mem shdr).length = count mem shdr :=
    (List.length_map _).trans length_table
  unfold after
  rw [← hlen, List.take_length]

/-- The loop writes the words of the entries from `ndx` on. -/
lemma applyLoop_eq (h : Relocatable mod mem shdr) {k : ℕ} (hle : ndx ≤ count mem shdr)
    (hk : count mem shdr < ndx + k) (hs : s.mem = after mod mem shdr ndx) :
    ∃ s', loop (applyTurn mod shndx shdr (shAddr mem shdr)) k (ndx, s) = some (0, s') ∧
      s'.mem = writes mem (targets mod mem shdr) := by
  induction k generalizing ndx s with
  | zero => omega
  | succ k ih =>
    have hcount : shSize s.mem shdr / sizeofRel = count mem shdr := by
      rw [hs, shSize_same h]
      rfl
    rcases Nat.eq_or_lt_of_le hle with rfl | hlt
    · refine ⟨s, loop_leave ?_, hs.trans (after_all mod mem shdr)⟩
      rw [applyTurn, hcount, if_neg (lt_irrefl _)]
    · have hturn : applyTurn mod shndx shdr (shAddr mem shdr) (ndx, s) = some (.next (ndx + 1,
          { s with
            mem := after mod mem shdr (ndx + 1), applied := s.applied ++ [(shndx, ndx)] })) := by
        rw [applyTurn, hcount, if_pos hlt, hs, relocate_entry h hlt]
      obtain ⟨s', hloop, hmem⟩ := @ih { s with
        mem := after mod mem shdr (ndx + 1), applied := s.applied ++ [(shndx, ndx)] } (ndx + 1)
        hlt (by omega) rfl
      exact ⟨s', (loop_next hturn).trans hloop, hmem⟩

/-- **The memory afterwards** is the words of the entries, written to the memory before. -/
lemma apply_eq (mod : Module) (shndx shdr : ℕ) (s : State) (h : Relocatable mod s.mem shdr) :
    ∃ s', moduleApplyRelocate mod shndx shdr s = some (0, s') ∧
      s'.mem = writes s.mem (targets mod s.mem shdr) :=
  applyLoop_eq h (Nat.zero_le _) (by have := count_lt s.mem shdr; omega) rfl

lemma word_lt (mod : Module) (mem : Bytes) (shdr : ℕ) (r : Rel) : word mod mem shdr r < 2 ^ 32 := by
  unfold word
  dsimp only
  split_ifs
  · exact u32_lt _
  · exact u32_lt _

/-! ### Another order -/

/-- Two memories are the same but for the bytes of a table, at most: where the loop reads other
words, they are the same too. -/
def SameBut (mod : Module) (mem : Bytes) (shdr : ℕ) (mem' : Bytes) : Prop :=
  ∀ i, (∀ w ∈ entryWords mem shdr, ¬ InWord w i) ∨
    (∃ w ∈ u32 (shdr + 12) :: (headWords mod mem shdr ++ symbolWords mod mem shdr), InWord w i) →
      mem' i = mem i

section Order

variable {mem' : Bytes} (hsame : SameBut mod mem shdr mem')
include hsame

lemma word_same {w : ℕ}
    (hw : w ∈ u32 (shdr + 12) :: (headWords mod mem shdr ++ symbolWords mod mem shdr)) :
    le32 mem' w = le32 mem w :=
  le32_congr fun k hk => hsame _ (Or.inr ⟨w, hw, Nat.le_add_right w k, by omega⟩)

lemma head_same {w : ℕ} (hw : w ∈ headWords mod mem shdr) : le32 mem' w = le32 mem w :=
  word_same hsame (List.mem_cons_of_mem _ (List.mem_append_left _ hw))

lemma info_same : shInfo mem' shdr = shInfo mem shdr :=
  head_same hsame (List.mem_cons_of_mem _ List.mem_cons_self)

lemma count_same : count mem' shdr = count mem shdr := by
  unfold count
  rw [show shSize mem' shdr = shSize mem shdr from head_same hsame List.mem_cons_self]

lemma addr_same : shAddr mem' shdr = shAddr mem shdr := word_same hsame List.mem_cons_self

lemma headWords_same : headWords mod mem' shdr = headWords mod mem shdr := by
  unfold headWords
  rw [info_same hsame]

lemma entryWords_same : entryWords mem' shdr = entryWords mem shdr := by
  unfold entryWords
  rw [count_same hsame, addr_same hsame]

lemma target_same (r : Rel) : target mod mem' shdr r = target mod mem shdr r := by
  have hbase : shAddr mem' (mod.shdr + sizeofShdr * shInfo mem shdr) =
      shAddr mem (mod.shdr + sizeofShdr * shInfo mem shdr) :=
    head_same hsame (List.mem_cons_of_mem _ (List.mem_cons_of_mem _ List.mem_cons_self))
  unfold target
  rw [info_same hsame, hbase]

lemma value_same (h : Relocatable mod mem shdr) (hr : r ∈ table mem shdr) :
    word mod mem' shdr r = word mod mem shdr r := by
  have hval : stValue mem' (symbolOf mod r) = stValue mem (symbolOf mod r) :=
    word_same hsame (List.mem_cons_of_mem _ (List.mem_append_right _ (List.mem_map_of_mem hr)))
  have hold : le32 mem' (target mod mem shdr r) = le32 mem (target mod mem shdr r) :=
    le32_congr fun k hk => hsame _ (Or.inl fun w hw => (h.entry r hr w hw).symm.notMem hk)
  unfold word
  rw [target_same hsame]
  dsimp only
  rw [hval, hold]

variable (h : Relocatable mod mem shdr) (hperm : (table mem' shdr).Perm (table mem shdr))
include h hperm

lemma relocatable_same : Relocatable mod mem' shdr := by
  have htarget : target mod mem' shdr = target mod mem shdr := funext (target_same hsame)
  have hsym : symbolWords mod mem' shdr ⊆ symbolWords mod mem shdr := (hperm.map _).subset
  refine ⟨fun r hr => h.types r (hperm.mem_iff.1 hr), ?_, fun r hr w hw => ?_,
    fun r hr w hw => ?_, fun r hr w hw => ?_⟩
  · rw [htarget]
    exact ((hperm.map _).pairwise_iff fun happ => happ.symm).2 h.apart
  · rw [htarget]
    exact h.head r (hperm.mem_iff.1 hr) w (headWords_same hsame ▸ hw)
  · rw [htarget]
    exact h.entry r (hperm.mem_iff.1 hr) w (entryWords_same hsame ▸ hw)
  · rw [htarget]
    exact h.symbol r (hperm.mem_iff.1 hr) w (hsym hw)

lemma targets_same : (targets mod mem' shdr).Perm (targets mod mem shdr) := by
  have hmap : targets mod mem' shdr =
      (table mem' shdr).map fun r => (target mod mem shdr r, word mod mem shdr r) :=
    List.map_congr_left fun r hr => by
      rw [target_same hsame, value_same hsame h (hperm.mem_iff.1 hr)]
  rw [hmap]
  exact hperm.map _

end Order

lemma u32_add (a s : ℕ) : ((u32 (a + s) : ℕ) : ℤ) = (a + s) % 2 ^ 32 := by
  unfold u32
  omega

lemma u32_add_sub (a s : ℕ) {p : ℕ} (hp : p < 2 ^ 32) :
    ((u32 (a + sub32 s p) : ℕ) : ℤ) = (a + s - p) % 2 ^ 32 := by
  unfold u32 sub32
  omega

/-- **Relocating a section**: the result is zero, each target word at `P` with `A` before and
`S` for its symbol is `A + S` or `A + S - P`, no other byte changes, and with the entries in
another order the memory is the same outside the table. -/
theorem apply_relocates (mod : Module) (shndx shdr : ℕ) (s : State)
    (h : Relocatable mod s.mem shdr) :
    ∃ s', moduleApplyRelocate mod shndx shdr s = some (0, s') ∧
      (∀ r ∈ table s.mem shdr,
        (elf32RType r.info = r38632 → (le32 s'.mem (target mod s.mem shdr r) : ℤ) =
          (le32 s.mem (target mod s.mem shdr r) + stValue s.mem (symbolOf mod r)) % 2 ^ 32) ∧
        (elf32RType r.info = r386Pc32 → (le32 s'.mem (target mod s.mem shdr r) : ℤ) =
          (le32 s.mem (target mod s.mem shdr r) + stValue s.mem (symbolOf mod r) -
            target mod s.mem shdr r) % 2 ^ 32)) ∧
      (∀ i, (∀ r ∈ table s.mem shdr, ¬ InWord (target mod s.mem shdr r) i) →
        s'.mem i = s.mem i) ∧
      ∀ mem', SameBut mod s.mem shdr mem' → (table mem' shdr).Perm (table s.mem shdr) →
        ∃ s'', moduleApplyRelocate mod shndx shdr { s with mem := mem' } = some (0, s'') ∧
          ∀ i, (∀ w ∈ entryWords s.mem shdr, ¬ InWord w i) → s''.mem i = s'.mem i := by
  have hapart : ((targets mod s.mem shdr).map Prod.fst).Pairwise Apart := targets_fst ▸ h.apart
  obtain ⟨s', heq, hmem⟩ := apply_eq mod shndx shdr s h
  refine ⟨s', heq, fun r hr => ?_, fun i hi => ?_, fun mem' hsame hperm => ?_⟩
  · have hword : le32 s'.mem (target mod s.mem shdr r) = word mod s.mem shdr r := by
      rw [hmem]
      exact le32_writes hapart (List.mem_map_of_mem hr) (word_lt mod s.mem shdr r) s.mem
    rw [hword]
    unfold word
    constructor
    · intro ht
      dsimp only
      rw [if_pos ht]
      exact u32_add _ _
    · intro ht
      have hne : ¬ elf32RType r.info = r38632 := by
        rw [ht]
        decide
      have hpos : target mod s.mem shdr r < 2 ^ 32 := u32_lt _
      dsimp only
      rw [if_neg hne]
      exact u32_add_sub _ _ hpos
  · rw [hmem]
    refine writes_off (fun t ht => ?_) s.mem
    obtain ⟨r, hr, rfl⟩ := List.mem_map.1 ht
    exact hi r hr
  · obtain ⟨s'', heq', hmem'⟩ := apply_eq mod shndx shdr { s with mem := mem' }
      (relocatable_same hsame h hperm)
    refine ⟨s'', heq', fun i hi => ?_⟩
    have hwords := writes_perm (targets_same hsame h hperm).symm hapart mem'
    rw [hmem', hmem, ← hwords]
    exact writes_congr (hsame i (Or.inl hi)) _

/-- An image with a table of two entries, the first of which is for the word at `offset`, the
second for the one at 144. -/
def twoEntries (offset : UInt8) : Bytes := fun a =>
  if a = 52 then 100 else if a = 60 then 16 else if a = 100 then offset
  else if a = 104 then 1 else if a = 108 then 144 else if a = 112 then 2
  else if a = 124 then 4 else 0

def oneSymbol : Module := ⟨0, 0, 120, 1, 0, 0, 0⟩

lemma twoEntries_relocatable : Relocatable oneSymbol (twoEntries 140) 40 :=
  ⟨by decide +kernel, by decide +kernel, by decide +kernel, by decide +kernel, by decide +kernel⟩

/-- The two entries change places. -/
def swapped (offset : UInt8) : Bytes := fun a =>
  if 100 ≤ a ∧ a < 108 then twoEntries offset (a + 8)
  else if 108 ≤ a ∧ a < 116 then twoEntries offset (a - 8)
  else twoEntries offset a

lemma swapped_same : SameBut oneSymbol (twoEntries 140) 40 (swapped 140) := by
  rintro i (hi | ⟨w, hw, hi⟩)
  · have hout : ¬ (100 ≤ i ∧ i < 116) := by
      rintro ⟨h1, h2⟩
      have hwords : entryWords (twoEntries 140) 40 = [100, 104, 108, 112] := by decide +kernel
      rw [hwords] at hi
      have h100 := hi 100 (by simp)
      have h104 := hi 104 (by simp)
      have h108 := hi 108 (by simp)
      have h112 := hi 112 (by simp)
      unfold InWord at h100 h104 h108 h112
      omega
    unfold swapped
    rw [if_neg (by omega), if_neg (by omega)]
  · have hwords : u32 (40 + 12) :: (headWords oneSymbol (twoEntries 140) 40 ++
        symbolWords oneSymbol (twoEntries 140) 40) = [52, 60, 68, 12, 124, 124] := by
      decide +kernel
    rw [hwords] at hw
    unfold InWord at hi
    simp only [List.mem_cons, List.not_mem_nil, or_false] at hw
    unfold swapped
    rw [if_neg (by omega), if_neg (by omega)]

/-- The words at 140 and 144 are relocated, and no other byte changes; so they are with the entries
in the other order. -/
theorem apply_relocates_two :
    ∃ s', moduleApplyRelocate oneSymbol 1 40 ⟨twoEntries 140, [], []⟩ = some (0, s') ∧
      (le32 s'.mem 140 : ℤ) = 4 ∧ (le32 s'.mem 144 : ℤ) = (4 - 144) % 2 ^ 32 ∧
      (∀ i, ¬ InWord 140 i → ¬ InWord 144 i → s'.mem i = twoEntries 140 i) ∧
      ∃ s'', moduleApplyRelocate oneSymbol 1 40 ⟨swapped 140, [], []⟩ = some (0, s'') ∧
        ∀ i, (∀ w ∈ entryWords (twoEntries 140) 40, ¬ InWord w i) → s''.mem i = s'.mem i := by
  obtain ⟨s', heq, hwords, hrest, hswap⟩ := apply_relocates oneSymbol 1 40
    ⟨twoEntries 140, [], []⟩ twoEntries_relocatable
  obtain ⟨s'', heq', hsame⟩ := hswap (swapped 140) swapped_same (by decide +kernel)
  have hfirst := (hwords ⟨140, 1⟩ (by decide +kernel)).1 (by decide)
  have hsecond := (hwords ⟨144, 2⟩ (by decide +kernel)).2 (by decide)
  refine ⟨s', heq, hfirst, hsecond, fun i h1 h2 => hrest i fun r hr => ?_, s'', heq', hsame⟩
  have htable : table (twoEntries 140) 40 = [⟨140, 1⟩, ⟨144, 2⟩] := by decide +kernel
  rw [htable] at hr
  simp only [List.mem_cons, List.not_mem_nil, or_false] at hr
  rcases hr with rfl | rfl
  · exact h1
  · exact h2

/-- An entry for a word of the table changes where the entry there goes: the target words do not
overlap, and the word at 144 is not relocated. -/
theorem not_apply_relocates :
    (∀ r ∈ table (twoEntries 108) 40,
      (elf32RType r.info = r38632 ∨ elf32RType r.info = r386Pc32) ∧
        elf32RSym r.info < oneSymbol.numsyms) ∧
    ((table (twoEntries 108) 40).map (target oneSymbol (twoEntries 108) 40)) = [108, 144] ∧
    ((moduleApplyRelocate oneSymbol 1 40 ⟨twoEntries 108, [], []⟩).map
      fun r => le32 r.2.mem 144) = some 0 ∧
    (le32 (twoEntries 108) 144 + stValue (twoEntries 108) 120 - 144 : ℤ) % 2 ^ 32 ≠ 0 :=
  ⟨by decide +kernel, by decide +kernel, by decide +kernel, by decide +kernel⟩

end Elfboot.ModuleApply
