import Elfboot.Loop
import Elfboot.Symbol

/-!
Resolving the symbols of a module: `module_resolve_symbols` of `module.c`.

The tables of the module are apart from each other, so the symbol table is an array of its own.
-/

namespace Elfboot.ModuleSymbols

open Elfboot.Errno Elfboot.Loop Elfboot.Word Elfboot.Buffer Elfboot.Str Elfboot.Symbol

abbrev shnUndef : ℕ := 0
abbrev shnLivepatch : ℕ := 0xff20
abbrev shnAbs : ℕ := 0xfff1
abbrev shnCommon : ℕ := 0xfff2

abbrev stbWeak : ℕ := 2

/-- `Elf32_Sym`. -/
structure Elf32Sym where
  stName : ℕ
  stValue : ℕ
  stSize : ℕ
  stInfo : UInt8
  stOther : UInt8
  stShndx : ℕ

/-- The macro `ELF_ST_BIND`. -/
def elfStBind (info : UInt8) : ℕ := info.toNat >>> 4

/-- What the loop reads of `struct module`: `sh_addr` of the section headers, and the names. -/
structure Module where
  shAddr : ℕ → ℕ
  numsyms : ℕ
  strtab : Bytes

variable (mod : Module) (n : ℕ) (s : State)

/-- A turn of the loop of `module_resolve_symbols`. -/
def resolveTurn (t : ℕ × (ℕ → Elf32Sym)) :
    Option (Turn (ℕ × (ℕ → Elf32Sym)) (ℤ × (ℕ → Elf32Sym))) :=
  let (symndx, symtab) := t
  if symndx < mod.numsyms then
    let sym := symtab symndx
    let put := fun value => Function.update symtab symndx { sym with stValue := value }
    if sym.stShndx = shnCommon ∨ sym.stShndx = shnAbs ∨ sym.stShndx = shnLivepatch then
      some (.next ((symndx + 1) % 2 ^ 16, symtab))
    else if sym.stShndx = shnUndef then
      match symbolLookupName n s mod.strtab sym.stName with
      | none => none
      | some bsymval =>
        if bsymval ≠ 0 then some (.next ((symndx + 1) % 2 ^ 16, put bsymval))
        -- the branch for weak symbols stands behind both jumps
        else some (.leave (-enoent, symtab))
    else
      let bsymval := mod.shAddr sym.stShndx
      some (.next ((symndx + 1) % 2 ^ 16, put (u32 (sym.stValue + bsymval))))
  else some (.leave (0, symtab))

/-- `module_resolve_symbols`, and the symbol table it leaves. -/
def moduleResolveSymbols (symtab : ℕ → Elf32Sym) : Option (ℤ × (ℕ → Elf32Sym)) :=
  loop (resolveTurn mod n s) (2 ^ 16) (1, symtab)

/-! ### What resolving means -/

variable (l : List ElfbootSymbol)

def Elf32Sym.Undefined (sym : Elf32Sym) : Prop := sym.stShndx = shnUndef

def Elf32Sym.Weak (sym : Elf32Sym) : Prop := elfStBind sym.stInfo = stbWeak

instance (sym : Elf32Sym) : Decidable sym.Undefined := inferInstanceAs (Decidable (_ = _))

instance (sym : Elf32Sym) : Decidable sym.Weak := inferInstanceAs (Decidable (_ = _))

/-- Some symbol of the list has the name of the symbol. -/
def Exported (sym : Elf32Sym) : Prop := ∃ e ∈ l, CStr mod.strtab sym.stName e.name

/-- The address that is exported under the name of the symbol, 0 for none. -/
def exportAddr (sym : Elf32Sym) : ℕ :=
  ((firstNamed l mod.strtab sym.stName).map ElfbootSymbol.addr).getD 0

def resolved (sym : Elf32Sym) : Elf32Sym :=
  if sym.stShndx = shnCommon ∨ sym.stShndx = shnAbs ∨ sym.stShndx = shnLivepatch then sym
  else if sym.stShndx = shnUndef then { sym with stValue := exportAddr mod l sym }
  else { sym with stValue := u32 (sym.stValue + mod.shAddr sym.stShndx) }

/-- The symbols of a module are resolved: what is returned, and the symbol table. -/
structure Resolves (symtab : ℕ → Elf32Sym) (r : ℤ × (ℕ → Elf32Sym)) : Prop where
  succeeds : r.1 = 0 ↔ ∀ i, 1 ≤ i → i < mod.numsyms → (symtab i).Undefined → ¬(symtab i).Weak →
    Exported mod l (symtab i)
  first : r.1 = 0 → r.2 0 = symtab 0
  values : r.1 = 0 → ∀ i, 1 ≤ i → i < mod.numsyms → r.2 i = resolved mod l (symtab i)

/-! ### The loop -/

variable {mod n s l} {symtab : ℕ → Elf32Sym} {k i d : ℕ}

/-- An undefined symbol that is found. -/
def Found (mod : Module) (l : List ElfbootSymbol) (sym : Elf32Sym) : Prop :=
  sym.Undefined → exportAddr mod l sym ≠ 0

/-- The symbols before `k` are resolved. -/
def resolvedBelow (mod : Module) (l : List ElfbootSymbol) (symtab : ℕ → Elf32Sym) (k : ℕ) :
    ℕ → Elf32Sym :=
  fun i => if 1 ≤ i ∧ i < k then resolved mod l (symtab i) else symtab i

variable (mod l symtab k) in
lemma resolvedBelow_self : resolvedBelow mod l symtab k k = symtab k := if_neg (by omega)

lemma resolvedBelow_succ (hk : 1 ≤ k) :
    resolvedBelow mod l symtab (k + 1) =
      Function.update (resolvedBelow mod l symtab k) k (resolved mod l (symtab k)) := by
  funext i
  unfold resolvedBelow
  by_cases hi : i = k
  · rw [hi, Function.update_self, if_pos ⟨hk, Nat.lt_succ_self k⟩]
  · rw [Function.update_of_ne hi]
    refine if_congr ?_ rfl rfl
    omega

variable (symtab) in
/-- A turn resolves a symbol, or ends with an undefined one that is not found. -/
lemma resolveTurn_spec (h : Imported s l) (hn : l.length < n) (hk : 1 ≤ k) (hlt : k < mod.numsyms)
    (hnum : mod.numsyms ≤ 65535) :
    resolveTurn mod n s (k, resolvedBelow mod l symtab k) =
      if (symtab k).Undefined ∧ exportAddr mod l (symtab k) = 0 then
        some (.leave (-enoent, resolvedBelow mod l symtab k))
      else some (.next (k + 1, resolvedBelow mod l symtab (k + 1))) := by
  have hwrap : (k + 1) % 2 ^ 16 = k + 1 := Nat.mod_eq_of_lt (by omega)
  have hlook := symbolLookupName_eq h mod.strtab (symtab k).stName hn
  unfold resolveTurn
  dsimp only
  rw [if_pos hlt, resolvedBelow_self, hwrap, hlook, resolvedBelow_succ hk]
  unfold resolved Elf32Sym.Undefined
  by_cases hres : (symtab k).stShndx = shnCommon ∨ (symtab k).stShndx = shnAbs ∨
      (symtab k).stShndx = shnLivepatch
  · have hdef : ¬((symtab k).stShndx = shnUndef ∧ exportAddr mod l (symtab k) = 0) := by
      rintro ⟨hundef, -⟩
      rw [hundef] at hres
      exact absurd hres (by decide)
    have hsame : Function.update (resolvedBelow mod l symtab k) k (symtab k) =
        resolvedBelow mod l symtab k := by
      conv_lhs => rw [← resolvedBelow_self mod l symtab k]
      exact Function.update_eq_self k _
    rw [if_pos hres, if_pos hres, if_neg hdef, hsame]
  rw [if_neg hres, if_neg hres]
  by_cases hundef : (symtab k).stShndx = shnUndef
  · rw [if_pos hundef, if_pos hundef]
    by_cases h0 : exportAddr mod l (symtab k) = 0
    · rw [if_pos ⟨hundef, h0⟩]
      exact if_neg (not_not.mpr h0)
    · rw [if_neg fun hand => h0 hand.2]
      exact if_pos h0
  · rw [if_neg hundef, if_neg hundef, if_neg fun hand => hundef hand.1]

variable (symtab) in
/-- **The loop** resolves the symbols as long as they are found. -/
lemma loop_spec (h : Imported s l) (hn : l.length < n) (hnum : mod.numsyms ≤ 65535) (hk : 1 ≤ k)
    (hd : mod.numsyms < k + d) (hd1 : 1 < k + d) (hle : k ≤ mod.numsyms ∨ k = 1) :
    ∃ r, loop (resolveTurn mod n s) d (k, resolvedBelow mod l symtab k) = some r ∧
      (r = (0, resolvedBelow mod l symtab mod.numsyms) ∧
          (∀ i, k ≤ i → i < mod.numsyms → Found mod l (symtab i)) ∨
        r.1 = -enoent ∧ ∃ i, k ≤ i ∧ i < mod.numsyms ∧ ¬Found mod l (symtab i)) := by
  induction d generalizing k with
  | zero => omega
  | succ d ih =>
    rcases Nat.lt_or_ge k mod.numsyms with hlt | hge
    · have hturn := resolveTurn_spec symtab h hn hk hlt hnum
      by_cases hf : (symtab k).Undefined ∧ exportAddr mod l (symtab k) = 0
      · rw [if_pos hf] at hturn
        exact ⟨_, loop_leave hturn, Or.inr ⟨rfl, k, le_rfl, hlt, fun hfound => hfound hf.1 hf.2⟩⟩
      · rw [if_neg hf] at hturn
        have hfound : Found mod l (symtab k) := fun hundef h0 => hf ⟨hundef, h0⟩
        obtain ⟨r, heq, hr⟩ := ih (k := k + 1) (by omega) (by omega) (by omega) (Or.inl hlt)
        refine ⟨r, (loop_next hturn).trans heq, ?_⟩
        rcases hr with ⟨hr, hall⟩ | ⟨hr, i, hi, hin, hnot⟩
        · refine Or.inl ⟨hr, fun i hi hin => ?_⟩
          rcases Nat.lt_or_eq_of_le hi with hi | rfl
          · exact hall i hi hin
          · exact hfound
        · exact Or.inr ⟨hr, i, by omega, hin, hnot⟩
    · have hturn : resolveTurn mod n s (k, resolvedBelow mod l symtab k) =
          some (.leave (0, resolvedBelow mod l symtab k)) := if_neg (not_lt.mpr hge)
      have hsame : resolvedBelow mod l symtab k = resolvedBelow mod l symtab mod.numsyms := by
        funext i
        refine if_congr ?_ rfl rfl
        omega
      rw [hsame] at hturn
      rw [hsame]
      exact ⟨_, loop_leave hturn, Or.inl ⟨rfl, fun i hi hin => absurd hin (by omega)⟩⟩

/-! ### When the symbols are resolved -/

/-- An undefined symbol that is not weak is not exported, or every undefined symbol is exported,
first at an address that is not null. -/
def Decided (mod : Module) (l : List ElfbootSymbol) (symtab : ℕ → Elf32Sym) : Prop :=
  (∃ i, 1 ≤ i ∧ i < mod.numsyms ∧ (symtab i).Undefined ∧ ¬(symtab i).Weak ∧
      ¬Exported mod l (symtab i)) ∨
    ∀ i, 1 ≤ i → i < mod.numsyms → (symtab i).Undefined →
      ∃ e, firstNamed l mod.strtab (symtab i).stName = some e ∧ e.addr ≠ 0

variable {sym : Elf32Sym}

lemma found_iff : Found mod l sym ↔
    (sym.Undefined → ∃ e, firstNamed l mod.strtab sym.stName = some e ∧ e.addr ≠ 0) := by
  unfold Found exportAddr
  cases firstNamed l mod.strtab sym.stName with
  | none => simp
  | some e => simp

lemma Found.exported (h : Found mod l sym) (hundef : sym.Undefined) : Exported mod l sym := by
  obtain ⟨e, he, -⟩ := found_iff.mp h hundef
  unfold firstNamed at he
  have hnamed := List.find?_some he
  exact ⟨e, List.mem_of_find?_eq_some he, of_decide_eq_true hnamed⟩

/-- **The symbols are resolved** exactly where no weak symbol decides: the code takes an
undefined symbol that is not exported for an error, weak or not. -/
theorem resolve_iff (mod : Module) (hnum : mod.numsyms ≤ 65535) (symtab : ℕ → Elf32Sym)
    (s : State) (l : List ElfbootSymbol) (h : Imported s l) (n : ℕ) (hn : l.length < n) :
    ∃ r, moduleResolveSymbols mod n s symtab = some r ∧
      (Resolves mod l symtab r ↔ Decided mod l symtab) := by
  have hbelow : resolvedBelow mod l symtab 1 = symtab := by
    funext i
    exact if_neg (by omega)
  obtain ⟨r, heq, hr⟩ := loop_spec symtab h hn hnum le_rfl (d := 2 ^ 16) (by omega)
    (by omega) (Or.inr rfl)
  rw [hbelow] at heq
  refine ⟨r, heq, ?_⟩
  rcases hr with ⟨rfl, hall⟩ | ⟨hneg, i, hi, hin, hnot⟩
  · have hfirst : resolvedBelow mod l symtab mod.numsyms 0 = symtab 0 := if_neg (by omega)
    refine iff_of_true ⟨?_, fun _ => hfirst, fun _ i hi hin => if_pos ⟨hi, hin⟩⟩
      (Or.inr fun i hi hin => found_iff.mp (hall i hi hin))
    exact iff_of_true rfl fun i hi hin hundef _ => (hall i hi hin).exported hundef
  · have hne : r.1 ≠ 0 := by
      rw [hneg]
      decide
    constructor
    · intro hres
      have hfail := hres.succeeds.not.mp hne
      simp only [not_forall] at hfail
      obtain ⟨j, hj, hjn, hundef, hweak, hexp⟩ := hfail
      exact Or.inl ⟨j, hj, hjn, hundef, hweak, hexp⟩
    · rintro (⟨j, hj, hjn, hundef, hweak, hexp⟩ | hdec)
      · refine ⟨iff_of_false hne fun hok => hexp (hok j hj hjn hundef hweak),
          fun h0 => absurd h0 hne, fun h0 => absurd h0 hne⟩
      · exact absurd (found_iff.mpr (hdec i hi hin)) hnot

/-- One symbol behind the first, which is weak and undefined. -/
def weakModule : Module := ⟨fun _ => 0, 2, fun _ => 0⟩

def weakSymtab : ℕ → Elf32Sym := fun _ => ⟨0, 0, 0, 0x20, 0, shnUndef⟩

/-- The weak symbol is an error. -/
theorem not_resolve_weak :
    ¬∃ r, moduleResolveSymbols weakModule 1 noSymbols weakSymtab = some r ∧
      Resolves weakModule [] weakSymtab r := by
  rintro ⟨r, heq, hres⟩
  have hrun : (moduleResolveSymbols weakModule 1 noSymbols weakSymtab).map Prod.fst =
      some (-enoent) := rfl
  rw [heq, Option.map_some, Option.some_inj] at hrun
  have hweak : ∀ i, (weakSymtab i).Weak := fun _ =>
    (by decide : elfStBind 0x20 = stbWeak)
  have hok : r.1 = 0 := hres.succeeds.mpr fun i _ _ _ hnot => absurd (hweak i) hnot
  exact absurd (hok.symm.trans hrun) (by decide)

/-- Two symbols are exported. -/
def exports : List ElfbootSymbol :=
  [⟨chars ['p', 'u', 't', 's'], 0x101f0c, by decide⟩,
    ⟨chars ['b', 'm', 'a', 'l', 'l', 'o', 'c'], 0x102b40, by decide⟩]

/-- A module with its code at 0x200000, which uses `bmalloc`. -/
def usingModule : Module :=
  ⟨fun i => if i = 1 then 0x200000 else 0, 4,
    fun i => ([0] ++ chars ['b', 'm', 'a', 'l', 'l', 'o', 'c'] ++ [0]).getD i 0⟩

/-- Behind the first, a function at 0x40 of the code, the undefined `bmalloc`, and an absolute
symbol. -/
def usingSymtab : ℕ → Elf32Sym
  | 1 => ⟨0, 0x40, 16, 0x12, 0, 1⟩
  | 2 => ⟨1, 0, 0, 0x10, 0, shnUndef⟩
  | 3 => ⟨0, 0x1000, 0, 0x10, 0, shnAbs⟩
  | _ => ⟨0, 0, 0, 0, 0, shnUndef⟩

theorem resolve_iff_using :
    (∃ r, moduleResolveSymbols usingModule 3 (importing exports) usingSymtab = some r ∧
        (Resolves usingModule exports usingSymtab r ↔
          Decided usingModule exports usingSymtab)) ∧
      [1, 2, 3].map (fun i => (resolved usingModule exports (usingSymtab i)).stValue) =
        [0x200040, 0x102b40, 0x1000] :=
  ⟨resolve_iff usingModule (by decide) usingSymtab (importing exports) exports
    (imported_importing _) 3 (by decide), by decide⟩

end Elfboot.ModuleSymbols
