import Elfboot.ModuleLoad

/-!
When the loops over the symbols and the sections of an image end.
-/

namespace Elfboot.ModuleEnds

open Elfboot.Errno Elfboot.Loop Elfboot.Checked Elfboot.Word Elfboot.Buffer Elfboot.ModuleLoad
open Elfboot.ModuleImage (Module sizeofShdr sizeofSym sizeofRel initModuleWord exitModuleWord)
open Elfboot.Symbol (ElfbootSymbol)

/-- `e_shnum` as the loop of `module_resolve_relocations` meets it. -/
def shnumOf (mod : Module) (t : ℕ × ℤ × Bytes) : ℕ := le16 t.2.2 (u32 (mod.ehdr + 48))

/-- The symbols of an image are processed: nothing is divided by zero, and the loops that look
for a symbol, resolve the symbols and relocate the sections end, after at most as many turns as
there are symbols, or sections. A relocation may change the number of sections; the loop goes
by the one it finds at its turn. -/
structure SymbolsEnd (env : Env) (mod : Module) (s : State) : Prop where
  divides : moduleFindSections env s.mem mod ≠ throw .divide
  finds : ∀ mod', moduleFindSections env s.mem mod = pure (0, mod') → ∀ mem name,
    EndsBy (checked (findTurn env mem mod' name)) (· < mod'.numsyms) (fun _ => mod'.numsyms) 0 0
  resolves : ∀ mod' s', moduleFindSections env s.mem mod = pure (0, mod') →
    moduleLoadSections env mod' s = pure (0, s') →
    EndsBy (checked (resolveTurn env mod')) (·.1 < mod'.numsyms) (fun _ => mod'.numsyms) 0
      (1, s'.mem)
  relocates : ∀ mod' mem ret,
    EndsBy (checked (relocateTurn env mod')) (fun t => t.1 < shnumOf mod' t) (shnumOf mod') 0
      (1, ret, mem)

variable {env : Env} {mem : Bytes} {mod : Module} {s : State} {name : List UInt8}

/-! ### Reading ends -/

lemma read8_gives (a : ℕ) : Gives (read8 env mem a) fun _ => True := by
  unfold read8
  split_ifs
  · exact gives_pure trivial
  · exact gives_throw

lemma read16_gives (a : ℕ) : Gives (read16 env mem a) (· = le16 mem a) := by
  unfold read16
  split_ifs
  · exact gives_pure rfl
  · exact gives_throw

lemma read32_gives (a : ℕ) : Gives (read32 env mem a) (· < 2 ^ 32) := by
  unfold read32
  split_ifs
  · exact gives_pure (le32_lt mem a)
  · exact gives_throw

lemma strcmp_gives (s : ℕ) (l : List UInt8) : Gives (strcmp env mem s l) fun _ => True := by
  induction l generalizing s with
  | nil => exact (read8_gives s).bind fun _ _ => gives_pure trivial
  | cons c l ih =>
    refine (read8_gives s).bind fun d _ => ?_
    dsimp only
    split_ifs
    · exact gives_pure trivial
    · exact ih (s + 1)

lemma symbolLookupName_gives (a : ℕ) (l : List ElfbootSymbol) :
    Gives (symbolLookupName env mem a l) fun _ => True := by
  induction l with
  | nil => exact gives_pure trivial
  | cons e l ih =>
    refine (strcmp_gives a e.name).bind fun delta _ => ?_
    split_ifs
    · exact ih
    · exact gives_pure trivial

lemma libelf32Shdr_gives (ehdr shndx : ℕ) : Gives (libelf32Shdr env mem ehdr shndx) fun _ => True :=
  (read32_gives _).bind fun _ _ => gives_pure trivial

lemma resolveSymbol_gives (symndx : ℕ) :
    Gives (resolveSymbol env mem mod symndx) fun _ => True := by
  refine (read32_gives _).bind fun name _ => (read16_gives _).bind fun shndx _ => ?_
  split_ifs
  · exact gives_pure trivial
  · refine (symbolLookupName_gives _ _).bind fun bsymval _ => ?_
    split_ifs
    · exact gives_pure trivial
    · exact gives_pure trivial
  · exact (read32_gives _).bind fun bsymval _ => (read32_gives _).bind fun value _ =>
      gives_pure trivial

lemma relocate_gives (shdr rel : ℕ) : Gives (relocate env mem mod shdr rel) fun _ => True := by
  refine (read32_gives _).bind fun info _ => (read32_gives _).bind fun addr _ =>
    (read32_gives _).bind fun offset _ => (read32_gives _).bind fun info _ => ?_
  dsimp only
  split_ifs
  · exact (read32_gives _).bind fun value _ => (read32_gives _).bind fun old _ =>
      gives_pure trivial
  · exact (read32_gives _).bind fun value _ => (read32_gives _).bind fun old _ =>
      gives_pure trivial
  · exact gives_pure trivial

/-! ### The loops -/

/-- There are less than `2 ^ 29` entries. -/
lemma applyTurn_gives (shdr rel : ℕ) (t : ℕ × Bytes) :
    Gives (applyTurn env mod shdr rel t)
      (Keeps (fun t' => t'.1 = t.1 + 1 ∧ t.1 + 1 < 2 ^ 29) fun _ => True) := by
  obtain ⟨ndx, mem⟩ := t
  refine (read32_gives _).bind fun size hsize => ?_
  dsimp only
  split_ifs with hlt
  · refine (relocate_gives _ _).bind fun relocated _ => ?_
    cases relocated with
    | none => exact gives_pure trivial
    | some mem =>
      have hsizeof : sizeofRel = 8 := rfl
      rw [hsizeof] at hlt
      exact gives_pure ⟨u32_of_lt (by omega), by omega⟩
  · exact gives_pure trivial

lemma moduleApplyRelocate_gives (shdr : ℕ) :
    Gives (moduleApplyRelocate env mem mod shdr) fun _ => True := by
  refine (read32_gives _).bind fun rel _ => ?_
  refine run_ends (I := fun _ => True) (fun t => 2 ^ 29 - 1 - t.1) (fun t _ => ?_) trivial
    (by dsimp only; omega)
  refine (applyTurn_gives shdr rel t).mono fun turn hturn => ?_
  cases turn with
  | next t' => exact ⟨trivial, by rw [hturn.1]; have := hturn.2; omega⟩
  | leave r => trivial

lemma relocateSection_gives (shndx : ℕ) (ret : ℤ) :
    Gives (relocateSection env mem mod shndx ret) fun _ => True := by
  refine (libelf32Shdr_gives _ _).bind fun shdr _ => (read32_gives _).bind fun info _ =>
    (read16_gives _).bind fun shnum _ => ?_
  split_ifs
  · exact gives_pure trivial
  · refine (read32_gives _).bind fun flags _ => ?_
    split_ifs
    · exact gives_pure trivial
    · refine (read32_gives _).bind fun type _ => ?_
      split_ifs
      · exact (moduleApplyRelocate_gives shdr).bind fun r _ => gives_pure trivial
      · exact gives_pure trivial

lemma relocateTurn_gives (t : ℕ × ℤ × Bytes) :
    Gives (relocateTurn env mod t)
      (Keeps (fun t' => t'.1 = t.1 + 1 ∧ t.1 < shnumOf mod t) fun _ => True) := by
  obtain ⟨shndx, ret, mem⟩ := t
  refine (read16_gives _).bind fun shnum hshnum => ?_
  split_ifs with hlt
  · have hlt' : shndx < shnumOf mod (shndx, ret, mem) := lt_of_lt_of_eq hlt hshnum
    have hwrap : (shndx + 1) % 2 ^ 16 = shndx + 1 := by
      have := le16_lt mem (u32 (mod.ehdr + 48))
      exact Nat.mod_eq_of_lt (by omega)
    refine (relocateSection_gives _ _).bind fun relocated _ => ?_
    rcases relocated with _ | ⟨ret, mem⟩
    · exact gives_pure ⟨hwrap, hlt'⟩
    · dsimp only
      split_ifs
      · exact gives_pure trivial
      · exact gives_pure ⟨hwrap, hlt'⟩
  · exact gives_pure trivial

/-- **Relocating ends** on every image: the index is of 16 bits, like the number of sections. -/
lemma relocate_ends (mod : Module) (mem : Bytes) (ret : ℤ) :
    EndsBy (checked (relocateTurn env mod)) (fun t => t.1 < shnumOf mod t) (shnumOf mod) 0
      (1, ret, mem) := by
  refine endsBy_of_step (I := fun n t => t.1 = n + 1 ∧ n < 2 ^ 16) (2 ^ 16) (fun n t h => h.2.le)
    (fun n t h hlt => ?_) (fun n t h => ?_) ⟨rfl, by decide⟩
  · rw [h.1] at hlt
    omega
  · rcases (relocateTurn_gives t).turn with hleave | ⟨t', heq, h', hlt⟩
    · exact Or.inl hleave
    · have := le16_lt t.2.2 (u32 (mod.ehdr + 48))
      unfold shnumOf at hlt
      exact Or.inr ⟨t', heq, by omega, by omega⟩

lemma findTurn_gives (env : Env) (mem : Bytes) (name : List UInt8) (h : mod.numsyms < 2 ^ 32)
    (i : ℕ) :
    Gives (findTurn env mem mod name i)
      (Keeps (fun j => j = i + 1 ∧ i < mod.numsyms) fun _ => True) := by
  unfold findTurn
  split_ifs with hlt
  · refine (read32_gives _).bind fun off _ => (strcmp_gives _ _).bind fun delta _ => ?_
    split_ifs
    · exact gives_pure ⟨u32_of_lt (by omega), hlt⟩
    · exact gives_pure trivial
  · exact gives_pure trivial

/-- **Looking for a symbol ends** on every image: the index is of 32 bits, like the number of
symbols. -/
lemma find_ends (h : mod.numsyms < 2 ^ 32) (mem : Bytes) (name : List UInt8) :
    EndsBy (checked (findTurn env mem mod name)) (· < mod.numsyms) (fun _ => mod.numsyms) 0 0 := by
  refine endsBy_of_step (I := fun n i => i = n ∧ n ≤ mod.numsyms) mod.numsyms (fun n i h => h.2)
    (fun n i h hlt => h.1 ▸ hlt) (fun n i h => ?_) ⟨rfl, Nat.zero_le _⟩
  rcases (findTurn_gives env mem name ‹_› i).turn with
    hleave | ⟨j, heq, hj, hlt⟩
  · exact Or.inl hleave
  · exact Or.inr ⟨j, heq, by omega, by omega⟩

/-! ### Resolving the symbols -/

/-- One of the next `k` symbols from an index on stops the loop: it is not found, or it is read
out of range. Each is met in the memory that the ones before it leave. -/
def StopsIn (env : Env) (mod : Module) : ℕ → ℕ → Bytes → Prop
  | 0, _, _ => False
  | k + 1, symndx, mem => ∀ mem', resolveSymbol env mem mod symndx = pure (some mem') →
      StopsIn env mod k ((symndx + 1) % 2 ^ 16) mem'

/-- A turn of the loop, by what resolving its symbol gives. -/
lemma resolveTurn_cases (env : Env) (mem : Bytes) {i : ℕ} (hlt : i < mod.numsyms) :
    ((∃ r, checked (resolveTurn env mod) (i, mem) = some (.leave r)) ∧
        ∀ mem', resolveSymbol env mem mod i ≠ pure (some mem')) ∨
      ∃ mem', resolveSymbol env mem mod i = pure (some mem') ∧
        checked (resolveTurn env mod) (i, mem) = some (.next ((i + 1) % 2 ^ 16, mem')) := by
  rcases res_cases (resolveSymbol env mem mod i) with heq | ⟨e, heq⟩ | ⟨_ | mem', heq⟩
  · exact absurd heq (resolveSymbol_gives i).1
  · refine Or.inl ⟨⟨_, checked_throw (e := e) ?_⟩, fun mem' h => ?_⟩
    · unfold resolveTurn
      dsimp only
      rw [if_pos hlt, heq, throw_bind]
    · exact throw_ne_pure (heq.symm.trans h)
  · refine Or.inl ⟨⟨_, checked_leave (r := (-enoent, mem)) ?_⟩, fun mem' h => ?_⟩
    · unfold resolveTurn
      dsimp only
      rw [if_pos hlt, heq, pure_bind]
    · exact absurd (pure_inj.1 (heq.symm.trans h)) (Option.some_ne_none _).symm
  · refine Or.inr ⟨mem', heq, checked_next ?_⟩
    unfold resolveTurn
    dsimp only
    rw [if_pos hlt, heq, pure_bind]

/-- With an index of 16 bits that is always below the number of symbols, only a symbol ends the
loop. -/
lemma resolve_ends_big (hbig : 65535 < mod.numsyms) {n d i : ℕ} {mem : Bytes}
    (hi : i < 2 ^ 16) (hd : mod.numsyms = n + d) :
    EndsBy (checked (resolveTurn env mod)) (·.1 < mod.numsyms) (fun _ => mod.numsyms) n (i, mem) ↔
      StopsIn env mod d i mem := by
  have hlt : i < mod.numsyms := by omega
  induction d generalizing n i mem with
  | zero =>
    refine iff_of_false (fun h => ?_) id
    cases h with
    | leave _ hn => exact absurd (hn hlt) (by omega)
    | next _ hn _ => exact absurd (hn hlt) (by omega)
  | succ d ih =>
    rcases resolveTurn_cases env mem hlt with
      ⟨⟨r, hleave⟩, hnot⟩ | ⟨mem', heq, hnext⟩
    · exact iff_of_true (.leave hleave fun _ => by omega) fun mem' h => absurd h (hnot mem')
    · have hwrap : (i + 1) % 2 ^ 16 < 2 ^ 16 := Nat.mod_lt _ (by decide)
      have hstep : EndsBy (checked (resolveTurn env mod)) (·.1 < mod.numsyms)
          (fun _ => mod.numsyms) (n + 1) ((i + 1) % 2 ^ 16, mem') ↔ _ :=
        ih hwrap (by omega) (by omega)
      constructor
      · intro h mem'' h'
        obtain rfl : mem' = mem'' := Option.some_inj.1 (pure_inj.1 (heq.symm.trans h'))
        refine hstep.1 ?_
        cases h with
        | leave h' _ => rw [hnext] at h'; cases h'
        | next h' _ hs =>
          rw [hnext] at h'
          cases h'
          exact hs
      · exact fun h => .next hnext (fun _ => by omega) (hstep.2 (h mem' heq))

lemma resolve_ends_small (hsmall : mod.numsyms ≤ 65535) :
    EndsBy (checked (resolveTurn env mod)) (·.1 < mod.numsyms) (fun _ => mod.numsyms) 0
      (1, mem) := by
  refine endsBy_of_step (I := fun n t => t.1 = n + 1 ∧ n ≤ 65535) 65535 (fun n t h => h.2)
    (fun n t h hlt => ?_) (fun n t h => ?_) ⟨rfl, by decide⟩
  · rw [h.1] at hlt
    omega
  · obtain ⟨i, mem⟩ := t
    obtain ⟨rfl, -⟩ := h
    by_cases hlt : n + 1 < mod.numsyms
    · rcases resolveTurn_cases env mem hlt with
        ⟨hleave, -⟩ | ⟨mem', -, hnext⟩
      · exact Or.inl hleave
      · rw [Nat.mod_eq_of_lt (by omega)] at hnext
        exact Or.inr ⟨_, hnext, rfl, by omega⟩
    · exact Or.inl ⟨_, checked_leave (r := (0, mem)) (if_neg hlt)⟩

/-! ### When the symbols are processed -/

/-- The image has a section `.symtab` and a section `.strtab`, and what is looked up of them is
in range. -/
structure Finds (env : Env) (mem : Bytes) (ehdr header shdr symtab strtab size entsize : ℕ) :
    Prop where
  header_eq : libelf32Shdr env mem ehdr 0 = pure header
  shstrtab_eq : ∃ shstrndx p, eShstrndx env mem ehdr = pure shstrndx ∧
    libelf32Section env mem ehdr shstrndx = pure p
  shdr_eq : libelf32FindShdr env mem ehdr symtabWord = pure shdr
  shdr_ne : shdr ≠ 0
  symtab_eq : libelf32FindSection env mem ehdr symtabWord = pure symtab
  strtab_eq : libelf32FindSection env mem ehdr strtabWord = pure strtab
  strtab_ne : strtab ≠ 0
  size_eq : shSize env mem shdr = pure size
  entsize_eq : shEntsize env mem shdr = pure entsize

variable {header shdr symtab strtab size entsize : ℕ}

lemma Finds.eq (h : Finds env mem mod.ehdr header shdr symtab strtab size entsize) :
    moduleFindSections env mem mod =
      if entsize = 0 then throw .divide
      else pure (0, { mod with shdr := header, symtab, strtab, numsyms := size / entsize }) := by
  obtain ⟨shstrndx, p, h1, h2⟩ := h.shstrtab_eq
  unfold moduleFindSections div32
  simp only [h.header_eq, h1, h2, h.shdr_eq, h.symtab_eq, h.strtab_eq, h.size_eq, h.entsize_eq,
    pure_bind, if_neg h.shdr_ne, if_neg h.strtab_ne]
  split_ifs
  · rfl
  · rfl

lemma read16_avoids (a : ℕ) : Avoids .divide (read16 env mem a) := by
  unfold read16
  split_ifs
  · exact avoids_pure
  · exact avoids_throw (by decide)

lemma read32_avoids (a : ℕ) : Avoids .divide (read32 env mem a) := by
  unfold read32
  split_ifs
  · exact avoids_pure
  · exact avoids_throw (by decide)

lemma read8_avoids (a : ℕ) : Avoids .divide (read8 env mem a) := by
  unfold read8
  split_ifs
  · exact avoids_pure
  · exact avoids_throw (by decide)

lemma strcmp_avoids (s : ℕ) (l : List UInt8) : Avoids .divide (strcmp env mem s l) := by
  induction l generalizing s with
  | nil => exact (read8_avoids s).bind fun _ => avoids_pure
  | cons c l ih =>
    refine (read8_avoids s).bind fun d => ?_
    dsimp only
    split_ifs
    · exact avoids_pure
    · exact ih (s + 1)

lemma libelf32Shdr_avoids (ehdr shndx : ℕ) : Avoids .divide (libelf32Shdr env mem ehdr shndx) :=
  (read32_avoids _).bind fun _ => avoids_pure

lemma libelf32Section_avoids (ehdr shndx : ℕ) :
    Avoids .divide (libelf32Section env mem ehdr shndx) :=
  (libelf32Shdr_avoids ehdr shndx).bind fun _ => (read32_avoids _).bind fun _ => avoids_pure

lemma findLoop_avoids (ehdr k shndx : ℕ) : Avoids .divide (findLoop env mem ehdr name k shndx) := by
  induction k generalizing shndx with
  | zero => exact avoids_pure
  | succ k ih =>
    have hname : Avoids .divide (libelf32SectionName env mem ehdr shndx) := by
      refine (read16_avoids _).bind fun shstrndx => (libelf32Section_avoids _ _).bind fun p => ?_
      split_ifs
      · exact avoids_pure
      · exact (libelf32Shdr_avoids _ _).bind fun shdr => (read32_avoids _).bind fun _ =>
          avoids_pure
    refine hname.bind fun sectionName => (strcmp_avoids _ _).bind fun delta => ?_
    split_ifs
    · exact ih (shndx + 1)
    · exact avoids_pure

lemma libelf32FindShdr_avoids (ehdr : ℕ) : Avoids .divide (libelf32FindShdr env mem ehdr name) := by
  refine (read16_avoids _).bind fun shnum => (findLoop_avoids _ _ _).bind fun shndx => ?_
  cases shndx with
  | none => exact avoids_pure
  | some shndx => exact libelf32Shdr_avoids ehdr shndx

lemma libelf32FindSection_avoids (ehdr : ℕ) :
    Avoids .divide (libelf32FindSection env mem ehdr name) := by
  refine (read16_avoids _).bind fun shnum => (findLoop_avoids _ _ _).bind fun shndx => ?_
  cases shndx with
  | none => exact avoids_pure
  | some shndx => exact libelf32Section_avoids ehdr shndx

/-- A section that is not found is no success. -/
lemma not_found_leads :
    ¬((pure (-enoent, mod) : Res (ℤ × Module)) = throw .divide ∨
    ∃ r : ℤ × Module, r.1 = 0 ∧ (pure (-enoent, mod) : Res (ℤ × Module)) = pure r) := by
  rintro (h | ⟨r, hr, h⟩)
  · exact throw_ne_pure h.symm
  · rw [← pure_inj.1 h] at hr
    exact absurd hr (by decide : -enoent ≠ 0)

/-- Only where the sections are found is there a division or a success. -/
lemma finds_of_result (h : moduleFindSections env mem mod = throw .divide ∨
    ∃ r, r.1 = 0 ∧ moduleFindSections env mem mod = pure r) :
    ∃ header shdr symtab strtab size entsize,
      Finds env mem mod.ehdr header shdr symtab strtab size entsize := by
  obtain ⟨header, h1, h⟩ := (libelf32Shdr_avoids _ _).leads h
  obtain ⟨shstrndx, h2, h⟩ := (read16_avoids _).leads h
  obtain ⟨p, h3, h⟩ := (libelf32Section_avoids _ _).leads h
  obtain ⟨shdr, h4, h⟩ := (libelf32FindShdr_avoids _).leads h
  by_cases h0 : shdr = 0
  · rw [if_pos h0] at h
    exact absurd h not_found_leads
  rw [if_neg h0] at h
  obtain ⟨symtab, h5, h⟩ := (libelf32FindSection_avoids _).leads h
  obtain ⟨strtab, h6, h⟩ := (libelf32FindSection_avoids _).leads h
  by_cases h0' : strtab = 0
  · rw [if_pos h0'] at h
    exact absurd h not_found_leads
  rw [if_neg h0'] at h
  obtain ⟨size, h7, h⟩ := (read32_avoids _).leads h
  obtain ⟨entsize, h8, h⟩ := (read32_avoids _).leads h
  exact ⟨header, shdr, symtab, strtab, size, entsize, h1, ⟨shstrndx, p, h2, h3⟩, h4, h0, h5, h6,
    h0', h7, h8⟩

/-- The module with what has been found. -/
def found (mod : Module) (header symtab strtab numsyms : ℕ) : Module :=
  { mod with shdr := header, symtab, strtab, numsyms }

/-- **The symbols are processed** exactly where the entries of `.symtab` have a size, if the
sections are found, and, if the sections can be loaded, there are no more symbols than an index of
16 bits counts, or one of them stops the loop. -/
theorem symbolsEnd_iff (env : Env) (mod : Module) (s : State) : SymbolsEnd env mod s ↔
    ∀ header shdr symtab strtab size entsize,
      Finds env s.mem mod.ehdr header shdr symtab strtab size entsize →
        entsize ≠ 0 ∧ ∀ s', moduleLoadSections env
            (found mod header symtab strtab (size / entsize)) s = pure (0, s') →
          size / entsize ≤ 65535 ∨ StopsIn env (found mod header symtab strtab (size / entsize))
            (size / entsize) 1 s'.mem := by
  constructor
  · intro h header shdr symtab strtab size entsize hfinds
    have heq := hfinds.eq
    by_cases h0 : entsize = 0
    · rw [if_pos h0] at heq
      exact absurd heq h.divides
    · rw [if_neg h0] at heq
      refine ⟨h0, fun s' hload => ?_⟩
      have hends := h.resolves _ s' heq hload
      rcases Nat.lt_or_ge 65535 (size / entsize) with hbig | hsmall
      · exact Or.inr ((resolve_ends_big hbig (by decide) (Nat.zero_add _).symm).1 hends)
      · exact Or.inl hsmall
  · intro h
    -- whatever is found has been found by `Finds`
    have hfound : ∀ mod', moduleFindSections env s.mem mod = pure (0, mod') →
        mod'.numsyms < 2 ^ 32 ∧ ∀ s', moduleLoadSections env mod' s = pure (0, s') →
          mod'.numsyms ≤ 65535 ∨ StopsIn env mod' mod'.numsyms 1 s'.mem := by
      intro mod' heq
      obtain ⟨header, shdr, symtab, strtab, size, entsize, hfinds⟩ :=
        finds_of_result (Or.inr ⟨_, rfl, heq⟩)
      obtain ⟨h0, hload⟩ := h _ _ _ _ _ _ hfinds
      rw [hfinds.eq, if_neg h0] at heq
      have hsize : size < 2 ^ 32 := (read32_gives _).2 size hfinds.size_eq
      obtain rfl : found mod header symtab strtab (size / entsize) = mod' :=
        (Prod.mk.inj (pure_inj.1 heq)).2
      exact ⟨(Nat.div_le_self _ _).trans_lt hsize, hload⟩
    refine ⟨fun hdiv => ?_, fun mod' heq mem name => find_ends (hfound mod' heq).1 mem name,
      fun mod' s' heq hload => ?_, fun mod' mem ret => relocate_ends mod' mem ret⟩
    · obtain ⟨header, shdr, symtab, strtab, size, entsize, hfinds⟩ := finds_of_result (Or.inl hdiv)
      rw [hfinds.eq, if_neg (h _ _ _ _ _ _ hfinds).1] at hdiv
      exact throw_ne_pure hdiv.symm
    · rcases (hfound mod' heq).2 s' hload with hsmall | hstops
      · exact resolve_ends_small hsmall
      · rcases Nat.lt_or_ge 65535 mod'.numsyms with hbig | hsmall
        · exact (resolve_ends_big hbig (by decide) (Nat.zero_add _).symm).2 hstops
        · exact resolve_ends_small hsmall

def zeros (n : ℕ) : List UInt8 := List.replicate n 0

/-- An image with the sections `.symtab`, of 16 bytes, and `.strtab`, for the size of an entry of
`.symtab`. -/
def image (entsize : UInt8) : List UInt8 :=
  [0x7f, 0x45, 0x4c, 0x46, 1, 1, 1] ++ zeros 9 ++ [1, 0, 3, 0, 1, 0, 0, 0] ++ zeros 8 ++
    [52, 0, 0, 0] ++ zeros 4 ++ [52, 0, 0, 0, 0, 0, 40, 0, 3, 0, 2, 0] ++ zeros 40 ++
    [1, 0, 0, 0, 2, 0, 0, 0] ++ zeros 8 ++ [189, 0, 0, 0, 16, 0, 0, 0] ++ zeros 12 ++
    [entsize, 0, 0, 0] ++ [9, 0, 0, 0, 3, 0, 0, 0] ++ zeros 8 ++ [172, 0, 0, 0, 17, 0, 0, 0] ++
    zeros 16 ++ 0 :: symtabWord ++ 0 :: strtabWord ++ zeros 17

/-- The image at address 1024, and nothing else that may be read. -/
def imageEnv (l : List UInt8) : Env where
  inRange a := 1024 ≤ a ∧ a < 1024 + l.length
  symbols := []
  bmalloc _ _ := 0
  vfsOpen _ := none
  vfsRead _ _ _ _ mem := (0, mem)
  init _ := 0
  ret := 0

def imageMem (l : List UInt8) : Bytes := fun a => l.getD (a - 1024) 0

def imageState (l : List UInt8) : State :=
  ⟨imageMem l, 0, [], [], [], fun _ _ => 0, [], none_numbered⟩

def imageModule : Module := ⟨1024, 0, 0, 0, 0, 0, 0⟩

/-- Entries of no size: the number of symbols is a division by zero. -/
theorem not_symbolsEnd : ¬ SymbolsEnd (imageEnv (image 0)) imageModule (imageState (image 0)) :=
  fun h => h.divides (fault_eq_some.1 (by decide +kernel))

end Elfboot.ModuleEnds
