import Elfboot.Symbol

/-!
The symbol that an address belongs to: `symbol_lookup_caller`, and who calls it.
-/

namespace Elfboot.SymbolCaller

open Elfboot.Circular Elfboot.Str Elfboot.Symbol

/-- The loop of `symbol_lookup_caller` from a position of the list on, with the caller so far. -/
def lookupCallerLoop (s : State) (addr : ℕ) : ℕ → Node → Option ℕ → Option (Option ℕ)
  | 0, _, _ => none
  | _ + 1, .symbols, caller => some caller
  | k + 1, .symbol i, caller =>
    if addr < (s.symbol i).addr then some caller
    else lookupCallerLoop s addr k (s.links.next (.symbol i)) (some i)

/-- `symbol_lookup_caller`: the name that is returned, or `NULL`. There is no result where
`caller->name` is read through the null pointer. -/
def symbolLookupCaller (n : ℕ) (s : State) (addr : ℕ) : Option (Option (List UInt8)) :=
  (lookupCallerLoop s addr n (s.links.next .symbols) none).bind fun caller =>
    caller.map fun i => some (s.symbol i).name

def lookupStackSymbol (n : ℕ) (s : State) (addr : ℕ) : Option (List UInt8) :=
  (symbolLookupCaller n s addr).map fun symbol => symbol.getD (chars ['<', '?', '>'])

/-- The last symbol that is not behind the address. -/
def lastAtMost (l : List ElfbootSymbol) (addr : ℕ) : Option ElfbootSymbol :=
  (l.filter fun e => e.addr ≤ addr).getLast?

/-- In the order of `nm -n`. -/
def Ascending (l : List ElfbootSymbol) : Prop := l.Pairwise fun e f => e.addr ≤ f.addr

variable {s : State} {l : List ElfbootSymbol} {addr k n : ℕ}

/-- Behind an address that is too large there are only such addresses. -/
lemma filter_above {e : ElfbootSymbol} (h : Ascending (e :: l)) (he : addr < e.addr) :
    (e :: l).filter (fun f => f.addr ≤ addr) = [] := by
  refine List.filter_eq_nil_iff.2 fun f hf => ?_
  rw [decide_eq_true_eq]
  rcases List.mem_cons.1 hf with rfl | hf
  · exact not_le.2 he
  · exact not_le.2 (he.trans_le (List.rel_of_pairwise_cons h hf))

lemma lastAtMost_cons {e : ElfbootSymbol} (he : e.addr ≤ addr) :
    lastAtMost (e :: l) addr = (lastAtMost l addr).or (some e) := by
  unfold lastAtMost
  rw [List.filter_cons, if_pos (decide_eq_true he), List.getLast?_cons]
  cases (l.filter fun f => f.addr ≤ addr).getLast? <;> rfl

/-- The loop comes to the last symbol in front of the first that is too large, or stays with the
caller that it has. -/
lemma lookupCallerLoop_eq {is : List ℕ} {node : Node} (addr : ℕ) (caller : Option ℕ)
    (h : Seg s.links node (is.map .symbol) .symbols) (hs : Ascending (is.map s.symbol))
    (hk : is.length < k) :
    (lookupCallerLoop s addr k (s.links.next node) caller).map (Option.map s.symbol) =
      some ((lastAtMost (is.map s.symbol) addr).or (caller.map s.symbol)) := by
  induction is generalizing k node caller with
  | nil =>
    obtain ⟨k, rfl⟩ : ∃ j, k = j + 1 := ⟨k - 1, by omega⟩
    rw [h.1]
    rfl
  | cons i is ih =>
    obtain ⟨k, rfl⟩ : ∃ j, k = j + 1 := ⟨k - 1, by omega⟩
    obtain ⟨hnext, -, hrest⟩ := h
    rw [hnext, lookupCallerLoop, List.map_cons]
    by_cases habove : addr < (s.symbol i).addr
    · rw [if_pos habove, lastAtMost, filter_above hs habove]
      rfl
    · rw [if_neg habove, ih (some i) hrest (List.Pairwise.of_cons hs) (Nat.lt_of_succ_lt_succ hk),
        lastAtMost_cons (not_lt.1 habove), Option.or_assoc]
      rfl

/-- **What the lookup gives**: the name of the last symbol that is not behind the address, and a
read through the null pointer where there is none. -/
lemma symbolLookupCaller_eq (h : Imported s l) (hs : Ascending l) (addr : ℕ)
    (hn : l.length < n) :
    symbolLookupCaller n s addr = (lastAtMost l addr).map fun e => some e.name := by
  obtain ⟨is, hlist, rfl, -⟩ := h
  rw [List.length_map] at hn
  have hloop := lookupCallerLoop_eq addr none hlist.2 hs hn
  obtain ⟨caller, hcaller, hlast⟩ := Option.map_eq_some_iff.1 hloop
  rw [Option.map_none, Option.or_none] at hlast
  rw [symbolLookupCaller, hcaller, ← hlast, Option.bind_some, Option.map_map]
  rfl

lemma lastAtMost_isSome : (lastAtMost l addr).isSome = true ↔ ∃ e ∈ l, e.addr ≤ addr := by
  unfold lastAtMost
  rw [List.getLast?_isSome, ne_eq, List.filter_eq_nil_iff]
  simp

/-- What a lookup is to give: the name, or `NULL`, for which there is a placeholder. -/
structure LooksUp (l : List ElfbootSymbol) (n : ℕ) (s : State) (addr : ℕ) : Prop where
  caller : symbolLookupCaller n s addr = some ((lastAtMost l addr).map ElfbootSymbol.name)
  stack : lookupStackSymbol n s addr =
    some (((lastAtMost l addr).map ElfbootSymbol.name).getD (chars ['<', '?', '>']))

/-- **An address is looked up** right if and only if there is a symbol that is not behind it. -/
theorem looksUp_iff (h : Imported s l) (hs : Ascending l) (hn : l.length < n) (addr : ℕ) :
    LooksUp l n s addr ↔ ∃ e ∈ l, e.addr ≤ addr := by
  have heq := symbolLookupCaller_eq h hs addr hn
  rw [← lastAtMost_isSome]
  cases hlast : lastAtMost l addr with
  | none =>
    rw [hlast, Option.map_none] at heq
    refine iff_of_false (fun hright => ?_) Bool.false_ne_true
    have hcaller := hright.caller
    rw [heq] at hcaller
    cases hcaller
  | some e =>
    rw [hlast, Option.map_some] at heq
    refine iff_of_true ⟨?_, ?_⟩ rfl
    · rw [heq, hlast]
      rfl
    · rw [lookupStackSymbol, heq, hlast]
      rfl

/-- Four symbols, of which two have the same address. -/
def bootSymbols : List ElfbootSymbol :=
  [⟨chars ['s', 't', 'a', 'r', 't'], 0x100000, by decide⟩,
    ⟨chars ['m', 'a', 'i', 'n'], 0x101f0c, by decide⟩,
    ⟨chars ['b', 'o', 'o', 't'], 0x101f0c, by decide⟩,
    ⟨chars ['e', 'n', 'd'], 0x10a000, by decide⟩]

/-- Behind the two, it is the later one that is found. -/
theorem looksUp_iff_boot :
    (LooksUp bootSymbols 5 (importing bootSymbols) 0x102000 ↔
        ∃ e ∈ bootSymbols, e.addr ≤ 0x102000) ∧
      (lastAtMost bootSymbols 0x102000).map ElfbootSymbol.name =
        some (chars ['b', 'o', 'o', 't']) := by
  have hs : Ascending bootSymbols := by
    unfold Ascending
    decide
  exact ⟨looksUp_iff (imported_importing _) hs (by decide) 0x102000, by decide⟩

/-- Before the first symbol, and with no symbols, the null pointer is read. -/
theorem not_looksUp_first :
    symbolLookupCaller 5 (importing bootSymbols) 0x1000 = none ∧
      symbolLookupCaller 1 noSymbols 0x1000 = none ∧ ¬ LooksUp [] 1 noSymbols 0x1000 := by
  refine ⟨rfl, rfl, fun h => ?_⟩
  have hcaller := h.caller
  cases hcaller

end Elfboot.SymbolCaller
