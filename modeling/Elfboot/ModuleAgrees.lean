import Elfboot.ModuleLoad
import Elfboot.ModuleReloc
import Elfboot.StringCopy

/-!
The two embeddings of `module.c` agree.

Loading a module checks every read, and ends with a fault where one is out of range. The
functions that work on an image alone do not. Where a checked run gives a value, so do they.
-/

namespace Elfboot.ModuleAgrees

open Elfboot.Errno Elfboot.Loop Elfboot.Checked Elfboot.Word Elfboot.Buffer Elfboot.ModuleLoad
open Elfboot.ModuleReloc (Considered applied resolveTurn_end resolveTurn_skip
  resolveTurn_considered)
open Elfboot.ModuleImage (Module sizeofShdr sizeofSym sizeofRel shtRel shfRelaLivepatch r38632
  r386Pc32 elf32RSym elf32RType initModuleWord exitModuleWord)

/-- The run gives the value, if it gives one. -/
def Agrees {α : Type} (x : Res α) (a : α) : Prop := Yields x fun b => b = a

variable {env : Env} {mem : Bytes} {mod : Module}
variable {α β : Type} {x : Res α} {f : α → Res β} {a : α} {Q : β → Prop}

lemma agrees_pure (a : α) : Agrees (pure a) a := yields_pure rfl

lemma Agrees.bind (h : Agrees x a) (hf : Yields (f a) Q) : Yields (x >>= f) Q :=
  Yields.bind h fun _ hb => hb ▸ hf

lemma u32_add (a b : ℕ) : u32 (u32 a + b) = u32 (a + b) := Nat.mod_add_mod a _ b

/-! ### Reads -/

variable (env mem)

lemma read8_agrees (a : ℕ) : Agrees (read8 env mem a) (mem a) := by
  unfold read8
  split_ifs
  · exact agrees_pure _
  · exact yields_throw

lemma read16_agrees (a : ℕ) : Agrees (read16 env mem a) (le16 mem a) := by
  unfold read16
  split_ifs
  · exact agrees_pure _
  · exact yields_throw

lemma read32_agrees (a : ℕ) : Agrees (read32 env mem a) (le32 mem a) := by
  unfold read32
  split_ifs
  · exact agrees_pure _
  · exact yields_throw

lemma eShoff_agrees (ehdr : ℕ) : Agrees (eShoff env mem ehdr) (ModuleImage.eShoff mem ehdr) :=
  read32_agrees env mem _

lemma eShnum_agrees (ehdr : ℕ) : Agrees (eShnum env mem ehdr) (ModuleImage.eShnum mem ehdr) :=
  read16_agrees env mem _

lemma shType_agrees (shdr : ℕ) : Agrees (shType env mem shdr) (ModuleImage.shType mem shdr) :=
  read32_agrees env mem _

lemma shFlags_agrees (shdr : ℕ) : Agrees (shFlags env mem shdr) (ModuleImage.shFlags mem shdr) :=
  read32_agrees env mem _

lemma shAddr_agrees (shdr : ℕ) : Agrees (shAddr env mem shdr) (ModuleImage.shAddr mem shdr) :=
  read32_agrees env mem _

lemma shSize_agrees (shdr : ℕ) : Agrees (shSize env mem shdr) (ModuleImage.shSize mem shdr) :=
  read32_agrees env mem _

lemma shInfo_agrees (shdr : ℕ) : Agrees (shInfo env mem shdr) (ModuleImage.shInfo mem shdr) :=
  read32_agrees env mem _

lemma rOffset_agrees (rel : ℕ) : Agrees (rOffset env mem rel) (ModuleImage.rOffset mem rel) :=
  read32_agrees env mem _

lemma rInfo_agrees (rel : ℕ) : Agrees (rInfo env mem rel) (ModuleImage.rInfo mem rel) :=
  read32_agrees env mem _

lemma stName_agrees (sym : ℕ) : Agrees (stName env mem sym) (ModuleImage.stName mem sym) :=
  read32_agrees env mem _

lemma stValue_agrees (sym : ℕ) : Agrees (stValue env mem sym) (ModuleImage.stValue mem sym) :=
  read32_agrees env mem _

lemma stShndx_agrees (sym : ℕ) : Agrees (stShndx env mem sym) (le16 mem (u32 (sym + 14))) :=
  read16_agrees env mem _

lemma libelf32Shdr_agrees (ehdr shndx : ℕ) :
    Agrees (libelf32Shdr env mem ehdr shndx) (ModuleImage.libelf32Shdr mem ehdr shndx) :=
  (eShoff_agrees env mem ehdr).bind (agrees_pure _)

lemma strcmp_agrees (s : ℕ) (lit : List UInt8) :
    Agrees (strcmp env mem s lit) (Str.strcmp mem s lit) := by
  induction lit generalizing s with
  | nil =>
    refine (read8_agrees env mem s).bind (yields_pure ?_)
    unfold Str.strcmp
    split_ifs with h0
    · rw [h0]
      rfl
    · rfl
  | cons c lit ih =>
    refine (read8_agrees env mem s).bind ?_
    unfold Str.strcmp
    dsimp only
    split_ifs
    · exact agrees_pure _
    · exact ih _

/-- `strncpy` of a string is `strncpy` of its characters. -/
lemma strncpy_agrees {b dst : Bytes} {s n : ℕ} {l : List UInt8} (h : Str.CStr b s l)
    (hn : l.length ≤ n) (len : ℕ) : StringCopy.strncpy n dst 0 b s len = strncpy dst l len := by
  rw [StringCopy.strncpy_eq h hn]
  funext i
  have hcut : (if l.length ≤ len then l else l.take len) = l.take len := by
    split_ifs with hle
    · exact (List.take_of_length_le hle).symm
    · rfl
  unfold memcpy strncpy
  rw [hcut, List.length_take, Nat.zero_add]
  by_cases hi : i < min len l.length
  · have hil : i < l.length := lt_min_iff.1 hi |>.2
    rw [if_pos ⟨Nat.zero_le i, hi⟩, if_pos hi, Nat.sub_zero, h.get hil,
      List.getD_eq_getElem _ _ (by rwa [List.length_take]), List.getElem_take]
  · rw [if_neg fun h => hi h.2, if_neg hi]

/-! ### Relocating -/

variable (mod)

lemma shAddr_u32 (shdr : ℕ) : ModuleImage.shAddr mem (u32 shdr) = ModuleImage.shAddr mem shdr := by
  unfold ModuleImage.shAddr
  rw [u32_add]

lemma stValue_u32 (sym : ℕ) : ModuleImage.stValue mem (u32 sym) = ModuleImage.stValue mem sym := by
  unfold ModuleImage.stValue
  rw [u32_add]

lemma rOffset_u32 (rel : ℕ) : ModuleImage.rOffset mem (u32 rel) = ModuleImage.rOffset mem rel := by
  unfold ModuleImage.rOffset
  rw [u32_of_lt (u32_lt rel)]

lemma rInfo_u32 (rel : ℕ) : ModuleImage.rInfo mem (u32 rel) = ModuleImage.rInfo mem rel := by
  unfold ModuleImage.rInfo
  rw [u32_add]

lemma relocate_agrees (shdr rel : ℕ) : Agrees (relocate env mem mod shdr (u32 rel))
    (ModuleImage.relocate mod mem shdr rel) := by
  refine (shInfo_agrees env mem shdr).bind <| (shAddr_agrees env mem _).bind <|
    (rOffset_agrees env mem _).bind <| (rInfo_agrees env mem _).bind ?_
  unfold ModuleImage.relocate
  rw [shAddr_u32, rOffset_u32, rInfo_u32]
  dsimp only
  split_ifs
  · refine (stValue_agrees env mem _).bind <| (read32_agrees env mem _).bind (yields_pure ?_)
    rw [stValue_u32]
  · refine (stValue_agrees env mem _).bind <| (read32_agrees env mem _).bind (yields_pure ?_)
    rw [stValue_u32]
  · exact agrees_pure _

/-- The same memory beside what the image's run keeps. -/
def Over (r : ℤ × Bytes) (q : ℤ × ModuleImage.State) : Prop := q.1 = r.1 ∧ q.2.mem = r.2

/-- A loop's state of both, at the same index. -/
def At (t : ℕ × Bytes) (u : ℕ × ModuleImage.State) : Prop := u.1 = t.1 ∧ u.2.mem = t.2

lemma applyTurn_agrees (shndx shdr rel : ℕ) (t : ℕ × Bytes) (u : ℕ × ModuleImage.State)
    (h : At t u) : Yields (applyTurn env mod shdr rel t) fun turn =>
      ∃ turn', ModuleImage.applyTurn mod shndx shdr rel u = some turn' ∧
        Meets At Over turn turn' := by
  obtain ⟨ndx, mem⟩ := t
  obtain ⟨ndx', s⟩ := u
  obtain ⟨rfl, rfl⟩ : ndx' = ndx ∧ s.mem = mem := h
  refine (shSize_agrees env s.mem shdr).bind ?_
  unfold ModuleImage.applyTurn
  dsimp only
  by_cases hlt : ndx' < ModuleImage.shSize s.mem shdr / sizeofRel
  · rw [if_pos hlt, if_pos hlt]
    refine (relocate_agrees env s.mem mod shdr _).bind ?_
    have hnext : u32 (ndx' + 1) = ndx' + 1 := by
      have hsize := le32_lt s.mem (u32 (shdr + 20))
      unfold ModuleImage.shSize sizeofRel at hlt
      exact u32_of_lt (by omega)
    cases ModuleImage.relocate mod s.mem shdr (rel + sizeofRel * ndx') with
    | none => exact yields_pure ⟨_, rfl, rfl, rfl⟩
    | some mem => exact yields_pure ⟨_, rfl, hnext.symm, rfl⟩
  · rw [if_neg hlt, if_neg hlt]
    exact yields_pure ⟨_, rfl, rfl, rfl⟩

lemma moduleApplyRelocate_agrees (shndx shdr : ℕ) (s : ModuleImage.State) :
    Yields (moduleApplyRelocate env s.mem mod shdr) fun r =>
      ∃ q, ModuleImage.moduleApplyRelocate mod shndx shdr s = some q ∧ Over r q :=
  (shAddr_agrees env s.mem shdr).bind <|
    yields_beside (applyTurn_agrees env mod shndx shdr _) ⟨rfl, rfl⟩

/-- A state of the loop over the sections of both, with the same in `ret`. -/
def AtSection (t : ℕ × ℤ × Bytes) (u : ℕ × ℤ × ModuleImage.State) : Prop :=
  u.1 = t.1 ∧ Over t.2 u.2

/-- What a section does: nothing where it is skipped. -/
lemma relocateSection_agrees (shndx : ℕ) (ret : ℤ) (s : ModuleImage.State) :
    Yields (relocateSection env s.mem mod shndx ret) fun r =>
      (¬ Considered s.mem mod.ehdr shndx ∧ r = none) ∨
        (Considered s.mem mod.ehdr shndx ∧
          ∃ p q, r = some p ∧ applied mod shndx ret s = some q ∧ Over p q) := by
  refine (libelf32Shdr_agrees env s.mem mod.ehdr shndx).bind ?_
  set shdr := ModuleImage.libelf32Shdr s.mem mod.ehdr shndx with hshdr
  refine (shInfo_agrees env s.mem shdr).bind <| (eShnum_agrees env s.mem mod.ehdr).bind ?_
  by_cases hinfo : ModuleImage.eShnum s.mem mod.ehdr ≤ ModuleImage.shInfo s.mem shdr
  · rw [if_pos hinfo]
    exact yields_pure (Or.inl ⟨fun h => absurd h.1 (not_lt.2 hinfo), rfl⟩)
  rw [if_neg hinfo]
  refine (shFlags_agrees env s.mem shdr).bind ?_
  by_cases hflags : ModuleImage.shFlags s.mem shdr &&& shfRelaLivepatch = 0
  · rw [if_neg (not_not.2 hflags)]
    have hc : Considered s.mem mod.ehdr shndx := ⟨not_le.1 hinfo, hflags⟩
    refine (shType_agrees env s.mem shdr).bind ?_
    unfold applied
    rw [← hshdr]
    split_ifs
    · refine (moduleApplyRelocate_agrees env mod shndx shdr s).bind fun p ⟨q, hq, hover⟩ => ?_
      exact yields_pure (Or.inr ⟨hc, p, q, rfl, hq, hover⟩)
    · exact yields_pure (Or.inr ⟨hc, _, _, rfl, rfl, rfl, rfl⟩)
  · rw [if_pos hflags]
    exact yields_pure (Or.inl ⟨fun h => absurd h.2 hflags, rfl⟩)

lemma relocateTurn_agrees (t : ℕ × ℤ × Bytes) (u : ℕ × ℤ × ModuleImage.State)
    (h : AtSection t u) : Yields (relocateTurn env mod t) fun turn =>
      ∃ turn', ModuleImage.resolveTurn mod u = some turn' ∧ Meets AtSection Over turn turn' := by
  obtain ⟨shndx, ret, mem⟩ := t
  obtain ⟨shndx', ret', s⟩ := u
  obtain ⟨rfl, rfl, rfl⟩ : shndx' = shndx ∧ ret' = ret ∧ s.mem = mem := h
  refine (eShnum_agrees env s.mem mod.ehdr).bind ?_
  by_cases hlt : shndx' < ModuleImage.eShnum s.mem mod.ehdr
  · have hnext : (shndx' + 1) % 2 ^ 16 = shndx' + 1 := by
      have hnum := le16_lt s.mem (u32 (mod.ehdr + 48))
      unfold ModuleImage.eShnum at hlt
      exact Nat.mod_eq_of_lt (by omega)
    rw [if_pos hlt, hnext]
    refine (relocateSection_agrees env mod shndx' ret' s).bind fun r hr => ?_
    rcases hr with ⟨hno, rfl⟩ | ⟨hc, ⟨ret, mem⟩, ⟨_, s'⟩, rfl, happ, rfl, rfl⟩
    · exact yields_pure ⟨_, resolveTurn_skip hlt hno, rfl, rfl, rfl⟩
    · rw [resolveTurn_considered hlt hc happ]
      dsimp only
      split_ifs
      · exact yields_pure ⟨_, rfl, rfl, rfl⟩
      · exact yields_pure ⟨_, rfl, rfl, rfl, rfl⟩
  · rw [if_neg hlt]
    exact yields_pure ⟨_, resolveTurn_end hlt, rfl, rfl⟩

/-- **Relocating** a module that is loaded is relocating its image. -/
theorem moduleResolveRelocations_agrees (s : ModuleImage.State) :
    Yields (moduleResolveRelocations env s.mem mod) fun r =>
      ∃ q, ModuleImage.moduleResolveRelocations mod env.ret s = some q ∧ Over r q :=
  yields_beside (relocateTurn_agrees env mod) ⟨rfl, rfl, rfl⟩

/-! ### Starting -/

variable {mod} in
/-- The loop over the symbols, of which `k` are left. -/
lemma findLoop_agrees (hnum : mod.numsyms < 2 ^ 32) (name : List UInt8) {k symndx : ℕ}
    (hk : symndx + k = mod.numsyms) : Agrees (run (findTurn env mem mod name) (k + 1) symndx)
      (ModuleImage.findSymbolLoop mod mem name k symndx) := by
  induction k generalizing symndx with
  | zero =>
    refine yields_run_succ ?_
    unfold findTurn
    rw [if_neg (by omega)]
    exact yields_pure rfl
  | succ k ih =>
    refine yields_run_succ ?_
    unfold findTurn ModuleImage.findSymbolLoop
    rw [if_pos (by omega)]
    refine (stName_agrees env mem _).bind <| (strcmp_agrees env mem _ _).bind ?_
    dsimp only
    split_ifs
    · refine yields_pure ?_
      rw [u32_of_lt (show symndx + 1 < 2 ^ 32 by omega)]
      exact ih (by omega)
    · exact yields_pure rfl

variable {mod} in
lemma moduleFindSymbol_agrees (hnum : mod.numsyms < 2 ^ 32) (name : List UInt8) :
    Agrees (moduleFindSymbol env mem mod name) (ModuleImage.moduleFindSymbol mod mem name) :=
  findLoop_agrees env mem hnum name (Nat.zero_add _)

lemma pointer_agrees (sym old : ℕ) :
    Agrees (pointer env mem sym old) (ModuleImage.pointer mem sym old) := by
  unfold pointer ModuleImage.pointer
  split_ifs
  · exact stValue_agrees env mem sym
  · exact agrees_pure old

/-- The same memory, and the same functions have been called. -/
def Same (s : State) (t : ModuleImage.State) : Prop := t.mem = s.mem ∧ t.called = s.called

variable {mod} in
/-- **Starting** a module that is loaded is starting its image. -/
theorem moduleInitialize_agrees (hnum : mod.numsyms < 2 ^ 32) (object : ℕ) {s : State}
    {t : ModuleImage.State} (h : Same s t) : Yields (moduleInitialize env mod object s) fun r =>
      (ModuleImage.moduleInitialize mod env.init t).1 = r.1 ∧
        Same r.2 (ModuleImage.moduleInitialize mod env.init t).2 := by
  obtain ⟨mem, applied, called⟩ := t
  obtain ⟨rfl, rfl⟩ : mem = s.mem ∧ called = s.called := h
  unfold moduleInitialize ModuleImage.moduleInitialize
  refine (moduleFindSymbol_agrees env s.mem hnum _).bind <|
    (moduleFindSymbol_agrees env s.mem hnum _).bind <| (pointer_agrees env s.mem _ _).bind <|
    (pointer_agrees env s.mem _ _).bind ?_
  dsimp only
  split_ifs
  · exact yields_pure ⟨rfl, rfl, rfl⟩
  · exact yields_pure ⟨rfl, rfl, rfl⟩
  · exact yields_pure ⟨rfl, rfl, rfl⟩

end Elfboot.ModuleAgrees
