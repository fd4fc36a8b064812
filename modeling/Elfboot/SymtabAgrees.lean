import Elfboot.ModuleAgrees
import Elfboot.WordWrites

/-!
Resolving the symbols where they lie in memory is resolving them in an array of their own.

The tables of an image are read off its memory. The symbol table is apart from the names and the
section headers, so what is written to it changes nothing else that the loop reads.
-/

namespace Elfboot.SymtabAgrees

open Elfboot.Loop Elfboot.Checked Elfboot.Word Elfboot.Buffer Elfboot.Str Elfboot.WordWrites
open Elfboot.ModuleLoad (Env Res stName stValue stShndx resolveSymbol)
open Elfboot.ModuleImage (Module sizeofSym sizeofShdr)
open Elfboot.ModuleSymbols (Elf32Sym exportAddr shnUndef shnAbs shnCommon shnLivepatch)
open Elfboot.Symbol (ElfbootSymbol Imported firstNamed firstNamed_eq symbolLookupName_eq)
open Elfboot.ModuleAgrees

variable (mem : Bytes) (mod : Module)

/-- A symbol of the table. -/
def symAt (i : ℕ) : Elf32Sym :=
  let sym := u32 (mod.symtab + sizeofSym * i)
  { stName := ModuleImage.stName mem sym
    stValue := ModuleImage.stValue mem sym
    stSize := le32 mem (u32 (sym + 8))
    stInfo := mem (u32 (sym + 12))
    stOther := mem (u32 (sym + 13))
    stShndx := le16 mem (u32 (sym + 14)) }

/-- The other tables. -/
def tables : ModuleSymbols.Module where
  shAddr i := ModuleImage.shAddr mem (mod.shdr + sizeofShdr * i)
  numsyms := mod.numsyms
  strtab i := mem (u32 (mod.strtab + i))

def InSymtab (a : ℕ) : Prop := mod.symtab ≤ a ∧ a < mod.symtab + sizeofSym * mod.numsyms

/-- The place of a symbol's name. -/
def nameAt (i : ℕ) : ℕ := u32 (mod.strtab + (symAt mem mod i).stName)

/-- The place of `sh_addr` of a symbol's section. -/
def addrAt (i : ℕ) : ℕ := u32 (mod.shdr + sizeofShdr * (symAt mem mod i).stShndx + 12)

/-- The symbol table is apart from the names and the section headers, and neither it nor a name
wraps around. -/
structure Layout : Prop where
  fits : mod.symtab + sizeofSym * mod.numsyms ≤ 2 ^ 32
  headers : ∀ i < mod.numsyms, ∀ k < 4, ¬ InSymtab mod (addrAt mem mod i + k)
  names : ∀ i < mod.numsyms, ∃ name, CStr mem (nameAt mem mod i) name ∧
    nameAt mem mod i + name.length < 2 ^ 32 ∧
    ∀ j ≤ name.length, ¬ InSymtab mod (nameAt mem mod i + j)

/-- Only values of symbols have been written since. -/
structure Written (mem' : Bytes) : Prop where
  kept : ∀ a, ¬ InSymtab mod a → mem' a = mem a
  stName : ∀ i < mod.numsyms, (symAt mem' mod i).stName = (symAt mem mod i).stName
  stShndx : ∀ i < mod.numsyms, (symAt mem' mod i).stShndx = (symAt mem mod i).stShndx

/-- The array holds what the symbol table does. -/
def Shows (mem : Bytes) (mod : Module) (symtab : ℕ → Elf32Sym) : Prop :=
  ∀ i < mod.numsyms, symtab i = symAt mem mod i

variable {mem mod} {env : Env} {mem' : Bytes} {symtab : ℕ → Elf32Sym} {i j v n : ℕ}
  {s : Symbol.State}

lemma written_refl : Written mem mod mem := ⟨fun _ _ => rfl, fun _ _ => rfl, fun _ _ => rfl⟩

/-! ### A value is written -/

/-- The symbol at `p`, where nothing wraps around. -/
def entry (mem : Bytes) (p : ℕ) : Elf32Sym :=
  ⟨le32 mem p, le32 mem (p + 4), le32 mem (p + 8), mem (p + 12), mem (p + 13), le16 mem (p + 14)⟩

lemma field_eq (h : Layout mem mod) (hi : i < mod.numsyms) {c : ℕ} (hc : c < sizeofSym) :
    u32 (u32 (mod.symtab + sizeofSym * i) + c) = mod.symtab + sizeofSym * i + c := by
  have hfits := h.fits
  unfold sizeofSym at *
  rw [u32_add, u32_of_lt (by omega)]

lemma symAt_eq (h : Layout mem mod) (hi : i < mod.numsyms) (mem' : Bytes) :
    symAt mem' mod i = entry mem' (mod.symtab + sizeofSym * i) := by
  have hname : u32 (u32 (mod.symtab + sizeofSym * i)) = mod.symtab + sizeofSym * i :=
    field_eq h hi (c := 0) (by decide)
  unfold symAt entry ModuleImage.stName ModuleImage.stValue
  dsimp only
  rw [hname, field_eq h hi (c := 4) (by decide), field_eq h hi (c := 8) (by decide),
    field_eq h hi (c := 12) (by decide), field_eq h hi (c := 13) (by decide),
    field_eq h hi (c := 14) (by decide)]

lemma le16_congr {b c : Bytes} {p : ℕ} (h : ∀ k < 2, b (p + k) = c (p + k)) :
    le16 b p = le16 c p := by
  unfold le16
  rw [h 1 (by decide), show b p = c p from h 0 (by decide)]

/-- The value is the only field that changes. -/
lemma entry_put (mem : Bytes) (p : ℕ) (hv : v < 2 ^ 32) :
    entry (put32 mem (p + 4) v) p = { entry mem p with stValue := v } := by
  have hoff : ∀ a, a < p + 4 ∨ p + 8 ≤ a → put32 mem (p + 4) v a = mem a := by
    intro a ha
    refine put32_off ?_ mem v
    unfold InWord
    omega
  have hname : le32 (put32 mem (p + 4) v) p = le32 mem p :=
    le32_congr fun k hk => hoff (p + k) (by omega)
  have hsize : le32 (put32 mem (p + 4) v) (p + 8) = le32 mem (p + 8) :=
    le32_congr fun k hk => hoff (p + 8 + k) (by omega)
  have hshndx : le16 (put32 mem (p + 4) v) (p + 14) = le16 mem (p + 14) :=
    le16_congr fun k hk => hoff (p + 14 + k) (by omega)
  unfold entry
  rw [le32_put32 hv, hname, hsize, hshndx, hoff (p + 12) (by omega), hoff (p + 13) (by omega)]

lemma entry_congr {b c : Bytes} {p : ℕ} (h : ∀ a, p ≤ a → a < p + sizeofSym → b a = c a) :
    entry b p = entry c p := by
  unfold sizeofSym at h
  have hword : ∀ o ≤ 12, le32 b (p + o) = le32 c (p + o) := fun o ho =>
    le32_congr fun k hk => h (p + o + k) (by omega) (by omega)
  have hshndx : le16 b (p + 14) = le16 c (p + 14) :=
    le16_congr fun k hk => h (p + 14 + k) (by omega) (by omega)
  have hname : le32 b p = le32 c p := hword 0 (by decide)
  unfold entry
  rw [hname, hword 4 (by decide), hword 8 (by decide), hshndx,
    h (p + 12) (by omega) (by omega), h (p + 13) (by omega) (by omega)]

lemma symAt_put (h : Layout mem mod) (hi : i < mod.numsyms) (hj : j < mod.numsyms)
    (hv : v < 2 ^ 32) (mem' : Bytes) :
    symAt (put32 mem' (mod.symtab + sizeofSym * i + 4) v) mod j =
      if j = i then { symAt mem' mod i with stValue := v } else symAt mem' mod j := by
  rw [symAt_eq h hj, symAt_eq h hj, symAt_eq h hi]
  split_ifs with hji
  · rw [hji]
    exact entry_put mem' _ hv
  · refine entry_congr fun a ha ha' => put32_off ?_ mem' v
    unfold InWord sizeofSym at *
    omega

/-- Writing a value is writing it to the array. -/
lemma Shows.put (h : Layout mem mod) (hi : i < mod.numsyms) (hv : v < 2 ^ 32)
    (hshows : Shows mem' mod symtab) :
    Shows (put32 mem' (mod.symtab + sizeofSym * i + 4) v) mod
      (Function.update symtab i { symtab i with stValue := v }) := by
  intro j hj
  rw [symAt_put h hi hj hv]
  split_ifs with hji
  · rw [hji, Function.update_self, hshows i hi]
  · rw [Function.update_of_ne hji, hshows j hj]

lemma Written.put (h : Layout mem mod) (hi : i < mod.numsyms) (hv : v < 2 ^ 32)
    (hw : Written mem mod mem') :
    Written mem mod (put32 mem' (mod.symtab + sizeofSym * i + 4) v) := by
  refine ⟨fun a ha => ?_, fun j hj => ?_, fun j hj => ?_⟩
  · rw [← hw.kept a ha]
    refine put32_off (fun hin => ha ?_) mem' v
    unfold InWord InSymtab sizeofSym at *
    omega
  · rw [← hw.stName j hj, symAt_put h hi hj hv]
    split_ifs with hji
    · rw [hji]
    · rfl
  · rw [← hw.stShndx j hj, symAt_put h hi hj hv]
    split_ifs with hji
    · rw [hji]
    · rfl

/-! ### What the loop reads beside the symbol table -/

/-- The name is where it was, and is a string of the table. -/
lemma Written.name (h : Layout mem mod) (hi : i < mod.numsyms) (hw : Written mem mod mem') :
    ∃ name, CStr mem' (nameAt mem mod i) name ∧
      CStr (tables mem mod).strtab (symAt mem mod i).stName name := by
  obtain ⟨name, hname, hlt, hout⟩ := h.names i hi
  have htable : ∀ k ≤ name.length, (tables mem mod).strtab ((symAt mem mod i).stName + k) =
      mem (nameAt mem mod i + k) := by
    intro k hk
    have heq : u32 (mod.strtab + ((symAt mem mod i).stName + k)) = nameAt mem mod i + k := by
      rw [← Nat.add_assoc, ← u32_add]
      exact u32_of_lt (lt_of_le_of_lt (Nat.add_le_add_left hk _) hlt)
    exact congrArg mem heq
  refine ⟨name, hname.congr fun a ha ha' => ?_, CStr.of_get (fun k hk => ?_)
    (fun c hc => hname.ne_zero hc) ?_⟩
  · have hkept := hout (a - nameAt mem mod i) (by omega)
    rw [Nat.add_sub_cancel' ha] at hkept
    exact hw.kept a hkept
  · rw [htable k hk.le, hname.get hk]
  · rw [htable _ le_rfl, hname.end]

lemma Written.firstNamed (h : Layout mem mod) (hi : i < mod.numsyms) (hw : Written mem mod mem')
    (l : List ElfbootSymbol) : firstNamed l mem' (nameAt mem mod i) =
      firstNamed l (tables mem mod).strtab (symAt mem mod i).stName := by
  obtain ⟨name, hname, htable⟩ := hw.name h hi
  rw [firstNamed_eq hname, firstNamed_eq htable]

/-- The section is where it was. -/
lemma Written.shAddr (h : Layout mem mod) (hi : i < mod.numsyms) (hw : Written mem mod mem') :
    ModuleImage.shAddr mem' (mod.shdr + sizeofShdr * (symAt mem mod i).stShndx) =
      (tables mem mod).shAddr (symAt mem mod i).stShndx :=
  le32_congr fun k hk => hw.kept _ (h.headers i hi k hk)

/-- The first symbol of the list that has the name is looked up. -/
lemma symbolLookupName_agrees (env : Env) (mem : Bytes) (name : ℕ) (l : List ElfbootSymbol) :
    Agrees (ModuleLoad.symbolLookupName env mem name l)
      (((firstNamed l mem name).map ElfbootSymbol.addr).getD 0) := by
  induction l with
  | nil => exact agrees_pure 0
  | cons symbol l ih =>
    refine (strcmp_agrees env mem name symbol.name).bind ?_
    unfold Symbol.firstNamed
    rw [List.find?_cons]
    by_cases hname : CStr mem name symbol.name
    · rw [if_neg (not_not.2 ((strcmp_cstr symbol.isString).2 hname)), decide_eq_true hname]
      exact agrees_pure _
    · rw [if_pos fun h0 => hname ((strcmp_cstr symbol.isString).1 h0), decide_eq_false hname]
      exact ih

lemma Written.exportAddr_agrees (h : Layout mem mod) (hi : i < mod.numsyms)
    (hw : Written mem mod mem') :
    Agrees (ModuleLoad.symbolLookupName env mem' (u32 (mod.strtab + (symAt mem' mod i).stName))
      env.symbols) (exportAddr (tables mem mod) env.symbols (symAt mem' mod i)) := by
  unfold exportAddr
  rw [hw.stName i hi, ← hw.firstNamed h hi]
  exact symbolLookupName_agrees env mem' _ env.symbols

lemma exportAddr_lt {l : List ElfbootSymbol} (mod : ModuleSymbols.Module) (sym : Elf32Sym)
    (haddr : ∀ e ∈ l, e.addr < 2 ^ 32) : exportAddr mod l sym < 2 ^ 32 := by
  unfold exportAddr
  cases hnamed : firstNamed l mod.strtab sym.stName with
  | none => exact Nat.two_pow_pos 32
  | some e => exact haddr e (List.mem_of_find?_eq_some hnamed)

/-! ### The loop -/

/-- The same turn of both loops. -/
def At (mem : Bytes) (mod : Module) (t : ℕ × Bytes) (u : ℕ × (ℕ → Elf32Sym)) : Prop :=
  u.1 = t.1 ∧ Written mem mod t.2 ∧ Shows t.2 mod u.2

/-- The same result, and the same symbol table. -/
def Over (mem : Bytes) (mod : Module) (r : ℤ × Bytes) (q : ℤ × (ℕ → Elf32Sym)) : Prop :=
  q.1 = r.1 ∧ Written mem mod r.2 ∧ Shows r.2 mod q.2

/-- The memory after the turn for a symbol, or nothing where it is not found. -/
def resolvedMem (mem : Bytes) (mod : Module) (l : List ElfbootSymbol) (mem' : Bytes) (i : ℕ) :
    Option Bytes :=
  let sym := symAt mem' mod i
  let put := fun value => some (put32 mem' (mod.symtab + sizeofSym * i + 4) value)
  if sym.stShndx = shnCommon ∨ sym.stShndx = shnAbs ∨ sym.stShndx = shnLivepatch then some mem'
  else if sym.stShndx = shnUndef then
    if exportAddr (tables mem mod) l sym ≠ 0 then put (exportAddr (tables mem mod) l sym) else none
  else put (u32 (sym.stValue + (tables mem mod).shAddr sym.stShndx))

lemma resolveSymbol_agrees (h : Layout mem mod) (hi : i < mod.numsyms)
    (hw : Written mem mod mem') : Agrees (resolveSymbol env mem' mod i)
      (resolvedMem mem mod env.symbols mem' i) := by
  have hplace : u32 (u32 (mod.symtab + sizeofSym * i) + 4) =
      mod.symtab + sizeofSym * i + 4 := field_eq h hi (by decide)
  have hname : Agrees (stName env mem' (u32 (mod.symtab + sizeofSym * i)))
      (symAt mem' mod i).stName := stName_agrees env mem' _
  have hvalue : Agrees (stValue env mem' (u32 (mod.symtab + sizeofSym * i)))
      (symAt mem' mod i).stValue := stValue_agrees env mem' _
  have hshndx : Agrees (stShndx env mem' (u32 (mod.symtab + sizeofSym * i)))
      (symAt mem' mod i).stShndx := stShndx_agrees env mem' _
  refine hname.bind <| hshndx.bind ?_
  unfold resolvedMem
  rw [hplace]
  dsimp only
  split_ifs with hres hundef hfound
  · exact agrees_pure _
  · refine (hw.exportAddr_agrees h hi).bind ?_
    rw [if_pos hfound]
    exact agrees_pure _
  · refine (hw.exportAddr_agrees h hi).bind ?_
    rw [if_neg hfound]
    exact agrees_pure _
  · refine (shAddr_agrees env mem' _).bind <| hvalue.bind (yields_pure ?_)
    rw [shAddr_u32, hw.stShndx i hi, hw.shAddr h hi]

lemma resolveTurn_agrees (h : Layout mem mod) (hs : Imported s env.symbols)
    (hn : env.symbols.length < n) (haddr : ∀ e ∈ env.symbols, e.addr < 2 ^ 32) (t : ℕ × Bytes)
    (u : ℕ × (ℕ → Elf32Sym)) (hat : At mem mod t u) :
    Yields (ModuleLoad.resolveTurn env mod t) fun turn =>
      ∃ turn', ModuleSymbols.resolveTurn (tables mem mod) n s u = some turn' ∧
        Meets (At mem mod) (Over mem mod) turn turn' := by
  obtain ⟨symndx, mem'⟩ := t
  obtain ⟨symndx', symtab⟩ := u
  obtain ⟨rfl, hw, hshows⟩ : symndx' = symndx ∧ Written mem mod mem' ∧ Shows mem' mod symtab := hat
  unfold ModuleLoad.resolveTurn ModuleSymbols.resolveTurn
  dsimp only
  by_cases hlt : symndx' < mod.numsyms
  · rw [if_pos hlt, if_pos (show symndx' < (tables mem mod).numsyms from hlt)]
    refine (resolveSymbol_agrees h hlt hw).bind ?_
    have haddr' := exportAddr_lt (tables mem mod) (symtab symndx') haddr
    have hlook : Symbol.symbolLookupName n s (tables mem mod).strtab (symtab symndx').stName =
        some (exportAddr (tables mem mod) env.symbols (symtab symndx')) :=
      symbolLookupName_eq hs _ _ hn
    unfold resolvedMem
    rw [← hshows symndx' hlt, hlook]
    dsimp only
    split_ifs
    · exact yields_pure ⟨_, rfl, rfl, hw, hshows⟩
    · exact yields_pure ⟨_, rfl, rfl, hw.put h hlt haddr', hshows.put h hlt haddr'⟩
    · exact yields_pure ⟨_, rfl, rfl, hw, hshows⟩
    · exact yields_pure ⟨_, rfl, rfl, hw.put h hlt (u32_lt _), hshows.put h hlt (u32_lt _)⟩
  · rw [if_neg hlt, if_neg (show ¬ symndx' < (tables mem mod).numsyms from hlt)]
    exact yields_pure ⟨_, rfl, rfl, hw, hshows⟩

/-- **Resolving the symbols** of a module that is loaded is resolving them in the tables of its
image. -/
theorem moduleResolveSymbols_agrees (h : Layout mem mod) (hs : Imported s env.symbols)
    (hn : env.symbols.length < n) (haddr : ∀ e ∈ env.symbols, e.addr < 2 ^ 32) :
    Yields (ModuleLoad.moduleResolveSymbols env mem mod (2 ^ 16)) fun r =>
      ∃ q, ModuleSymbols.moduleResolveSymbols (tables mem mod) n s (symAt mem mod) = some q ∧
        q.1 = r.1 ∧ Shows r.2 mod q.2 := by
  intro r hr
  obtain ⟨q, hq, hret, -, hshows⟩ := yields_beside (resolveTurn_agrees h hs hn haddr)
    (show At mem mod (1, mem) (1, symAt mem mod) from ⟨rfl, written_refl, fun _ _ => rfl⟩) r hr
  exact ⟨q, hq, hret, hshows⟩

end Elfboot.SymtabAgrees
