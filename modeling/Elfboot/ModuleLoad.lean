import Elfboot.Checked
import Elfboot.ModuleImage
import Elfboot.ModuleSymbols

/-!
Loading a module: `module_open` and all that it calls, from the file to the module's function.

The image is in memory, like all it refers to, and every read of it is checked: where it is out
of range the run ends with a fault. The structures of the bootloader are apart from this memory.
An object is the number of the call of `bmalloc` that gave it.
-/

namespace Elfboot.ModuleLoad

open Elfboot.Errno Elfboot.Loop Elfboot.Checked Elfboot.Word Elfboot.Buffer Elfboot.Str
open Elfboot.ModuleImage (Module sizeofShdr sizeofSym sizeofRel shtRel shfRelaLivepatch r38632
  r386Pc32 elf32RSym elf32RType initModuleWord exitModuleWord)
open Elfboot.ModuleSymbols (shnUndef shnAbs shnCommon shnLivepatch)
open Elfboot.Symbol (ElfbootSymbol)

inductive Fault
  | outOfRange
  | divide
  deriving DecidableEq

abbrev Res := Checked.Res Fault

abbrev shtNobits : ℕ := 8

def sizeofModule : ℕ := 72
def sizeofFile : ℕ := 20

def symtabWord : List UInt8 := chars ['.', 's', 'y', 'm', 't', 'a', 'b']

def strtabWord : List UInt8 := chars ['.', 's', 't', 'r', 't', 'a', 'b']

def modulesPath : List UInt8 :=
  chars ['/', 'r', 'o', 'o', 't', '/', 'm', 'o', 'd', 'u', 'l', 'e', 's', '/']

def ebm : List UInt8 := chars ['.', 'e', 'b', 'm']

/-- `struct fs_node`, as far as opening a file goes. -/
structure FsNode where
  name : List UInt8
  length : ℕ
  isString : 0 ∉ name

/-- `struct file`. -/
structure File where
  name : List UInt8
  node : FsNode
  flags : ℕ
  offset : ℕ
  length : ℕ
  isString : 0 ∉ name

/-- What the memory for a `struct module` holds: the bytes from the start on, where its name is,
and the other fields. -/
structure Old where
  name : Bytes
  fields : Module

/-- What a module meets. -/
structure Env where
  /-- the bytes that may be read -/
  inRange : ℕ → Bool
  /-- the list of symbols -/
  symbols : List ElfbootSymbol
  /-- the address that a call of `bmalloc` gives for a size, 0 for none -/
  bmalloc : ℕ → ℕ → ℕ
  vfsOpen : List UInt8 → Option FsNode
  /-- `vfs_read` from an offset, so many bytes, to an address: the result and the memory -/
  vfsRead : FsNode → ℕ → ℕ → ℕ → Bytes → ℤ × Bytes
  /-- what a function of a module returns, by its address -/
  init : ℕ → ℤ
  /-- what `ret` holds in `module_resolve_relocations` to begin with -/
  ret : ℤ

structure State where
  mem : Bytes
  /-- the calls of `bmalloc` so far -/
  calls : ℕ
  /-- the objects that `bmalloc` has given -/
  obtained : List ℕ
  /-- the objects that `bfree` has been called for -/
  freed : List ℕ
  modules : List ℕ
  /-- `name` of the modules, by their objects -/
  name : ℕ → Bytes
  /-- the functions of modules that have been called -/
  called : List ℕ
  numbered : ∀ i ∈ obtained, i < calls

variable (env : Env)

/-! ### Memory -/

lemma none_numbered : ∀ i ∈ ([] : List ℕ), i < 0 := fun _ h => absurd h List.not_mem_nil

lemma numbered_bmalloc (s : State) (p : ℕ) :
    ∀ i ∈ (if p = 0 then s.obtained else s.obtained ++ [s.calls]), i < s.calls + 1 := by
  intro i hi
  split_ifs at hi
  · exact (s.numbered i hi).trans (Nat.lt_succ_self _)
  · rcases List.mem_append.1 hi with hi | hi
    · exact (s.numbered i hi).trans (Nat.lt_succ_self _)
    · exact (List.mem_singleton.1 hi).trans_lt (Nat.lt_succ_self _)

def bmalloc (s : State) (size : ℕ) : ℕ × State :=
  let p := env.bmalloc s.calls size
  (p, { s with
    calls := s.calls + 1
    obtained := if p = 0 then s.obtained else s.obtained ++ [s.calls]
    numbered := numbered_bmalloc s p })

def bfree (s : State) (object : ℕ) : State := { s with freed := s.freed ++ [object] }

def memset (mem : Bytes) (dst : ℕ) (c : UInt8) (len : ℕ) : Bytes :=
  fun i => if dst ≤ i ∧ i < dst + len then c else mem i

/-- `strncpy` from a string. Neither it nor `strcpy` copies a terminator. -/
def strncpy (dst : Bytes) (str : List UInt8) (len : ℕ) : Bytes :=
  let str := if str.length ≤ len then str else str.take len
  fun i => if i < str.length then str.getD i 0 else dst i

variable (mem : Bytes)

def read8 (a : ℕ) : Res UInt8 :=
  if env.inRange a then pure (mem a) else throw .outOfRange

def read16 (a : ℕ) : Res ℕ :=
  if env.inRange a ∧ env.inRange (a + 1) then pure (le16 mem a) else throw .outOfRange

def read32 (a : ℕ) : Res ℕ :=
  if env.inRange a ∧ env.inRange (a + 1) ∧ env.inRange (a + 2) ∧ env.inRange (a + 3) then
    pure (le32 mem a)
  else throw .outOfRange

def div32 (a b : ℕ) : Res ℕ := if b = 0 then throw .divide else pure (a / b)

/-- `strcmp` against a literal. -/
def strcmp : ℕ → List UInt8 → Res ℤ
  | s, [] => do
    let c ← read8 env mem s
    pure c.toInt8.toInt
  | s, c :: lit => do
    let d ← read8 env mem s
    let delta := d.toInt8.toInt - c.toInt8.toInt
    if delta ≠ 0 then pure delta else strcmp (s + 1) lit

/-- `symbol_lookup_name`, for the name at `name`. -/
def symbolLookupName (name : ℕ) : List ElfbootSymbol → Res ℕ
  | [] => pure 0
  | symbol :: l => do
    let delta ← strcmp env mem name symbol.name
    if delta ≠ 0 then symbolLookupName name l else pure symbol.addr

/-! ### ELF objects -/

def eShoff (ehdr : ℕ) : Res ℕ := read32 env mem (u32 (ehdr + 32))
def eShnum (ehdr : ℕ) : Res ℕ := read16 env mem (u32 (ehdr + 48))
def eShstrndx (ehdr : ℕ) : Res ℕ := read16 env mem (u32 (ehdr + 50))

def shName (shdr : ℕ) : Res ℕ := read32 env mem (u32 shdr)
def shType (shdr : ℕ) : Res ℕ := read32 env mem (u32 (shdr + 4))
def shFlags (shdr : ℕ) : Res ℕ := read32 env mem (u32 (shdr + 8))
def shAddr (shdr : ℕ) : Res ℕ := read32 env mem (u32 (shdr + 12))
def shOffset (shdr : ℕ) : Res ℕ := read32 env mem (u32 (shdr + 16))
def shSize (shdr : ℕ) : Res ℕ := read32 env mem (u32 (shdr + 20))
def shInfo (shdr : ℕ) : Res ℕ := read32 env mem (u32 (shdr + 28))
def shEntsize (shdr : ℕ) : Res ℕ := read32 env mem (u32 (shdr + 36))

def rOffset (rel : ℕ) : Res ℕ := read32 env mem (u32 rel)
def rInfo (rel : ℕ) : Res ℕ := read32 env mem (u32 (rel + 4))

def stName (sym : ℕ) : Res ℕ := read32 env mem (u32 sym)
def stValue (sym : ℕ) : Res ℕ := read32 env mem (u32 (sym + 4))
def stShndx (sym : ℕ) : Res ℕ := read16 env mem (u32 (sym + 14))

def libelf32Shdr (ehdr shndx : ℕ) : Res ℕ := do
  let shoff ← eShoff env mem ehdr
  pure (u32 (ehdr + shoff + sizeofShdr * shndx))

def libelf32Section (ehdr shndx : ℕ) : Res ℕ := do
  let shdr ← libelf32Shdr env mem ehdr shndx
  let offset ← shOffset env mem shdr
  pure (u32 (ehdr + offset))

def libelf32SectionName (ehdr shndx : ℕ) : Res ℕ := do
  let shstrndx ← eShstrndx env mem ehdr
  let strtable ← libelf32Section env mem ehdr shstrndx
  if shstrndx = shnUndef then pure 0
  else
    let shdr ← libelf32Shdr env mem ehdr shndx
    let name ← shName env mem shdr
    pure (u32 (strtable + name))

/-- The loop of `libelf32_find_shdr` and `libelf32_find_section`, for `k` sections from `shndx`
on. -/
def findLoop (ehdr : ℕ) (name : List UInt8) : ℕ → ℕ → Res (Option ℕ)
  | 0, _ => pure none
  | k + 1, shndx => do
    let sectionName ← libelf32SectionName env mem ehdr shndx
    let delta ← strcmp env mem sectionName name
    if delta ≠ 0 then findLoop ehdr name k (shndx + 1) else pure (some shndx)

def libelf32FindShdr (ehdr : ℕ) (name : List UInt8) : Res ℕ := do
  let shnum ← eShnum env mem ehdr
  let shndx ← findLoop env mem ehdr name (shnum - 1) 1
  match shndx with
  | none => pure 0
  | some shndx => libelf32Shdr env mem ehdr shndx

def libelf32FindSection (ehdr : ℕ) (name : List UInt8) : Res ℕ := do
  let shnum ← eShnum env mem ehdr
  let shndx ← findLoop env mem ehdr name (shnum - 1) 1
  match shndx with
  | none => pure 0
  | some shndx => libelf32Section env mem ehdr shndx

/-! ### The sections and the symbols of a module -/

/-- `module_find_sections`, less `shstrtab`, which is not used. -/
def moduleFindSections (mod : Module) : Res (ℤ × Module) := do
  let header ← libelf32Shdr env mem mod.ehdr 0
  let shstrndx ← eShstrndx env mem mod.ehdr
  let _ ← libelf32Section env mem mod.ehdr shstrndx
  let shdr ← libelf32FindShdr env mem mod.ehdr symtabWord
  if shdr = 0 then pure (-enoent, { mod with shdr := header })
  else
    let symtab ← libelf32FindSection env mem mod.ehdr symtabWord
    let strtab ← libelf32FindSection env mem mod.ehdr strtabWord
    if strtab = 0 then pure (-enoent, { mod with shdr := header, symtab, strtab })
    else
      let size ← shSize env mem shdr
      let entsize ← shEntsize env mem shdr
      let numsyms ← div32 size entsize
      pure (0, { mod with shdr := header, symtab, strtab, numsyms })

variable (mod : Module)

/-- A turn of the loop of `module_load_sections`. -/
def loadTurn (t : ℕ × State) : Res (Turn (ℕ × State) (ℤ × State)) := do
  let (shndx, s) := t
  let shnum ← eShnum env s.mem mod.ehdr
  if shndx < shnum then
    let shdr ← libelf32Shdr env s.mem mod.ehdr shndx
    let type ← shType env s.mem shdr
    if type = shtNobits then
      let size ← shSize env s.mem shdr
      let (addr, s) := bmalloc env s size
      let mem := put32 s.mem (u32 (shdr + 12)) addr
      if addr = 0 then pure (.leave (-enomem, { s with mem }))
      else pure (.next ((shndx + 1) % 2 ^ 16, { s with mem := memset mem addr 0 size }))
    else
      let offset ← shOffset env s.mem shdr
      let mem := put32 s.mem (u32 (shdr + 12)) (u32 (mod.ehdr + offset))
      pure (.next ((shndx + 1) % 2 ^ 16, { s with mem }))
  else pure (.leave (0, s))

def moduleLoadSections (s : State) : Res (ℤ × State) := run (loadTurn env mod) (2 ^ 16) (0, s)

/-- The body of the loop of `module_resolve_symbols`: the memory, or nothing for a symbol that is
not found. -/
def resolveSymbol (symndx : ℕ) : Res (Option Bytes) := do
  let sym := u32 (mod.symtab + sizeofSym * symndx)
  let name ← stName env mem sym
  let shndx ← stShndx env mem sym
  if shndx = shnCommon ∨ shndx = shnAbs ∨ shndx = shnLivepatch then pure (some mem)
  else if shndx = shnUndef then
    let bsymval ← symbolLookupName env mem (u32 (mod.strtab + name)) env.symbols
    if bsymval ≠ 0 then pure (some (put32 mem (u32 (sym + 4)) bsymval)) else pure none
  else
    let bsymval ← shAddr env mem (u32 (mod.shdr + sizeofShdr * shndx))
    let value ← stValue env mem sym
    pure (some (put32 mem (u32 (sym + 4)) (u32 (value + bsymval))))

/-- A turn of the loop of `module_resolve_symbols`, whose index is of 16 bits. -/
def resolveTurn (t : ℕ × Bytes) : Res (Turn (ℕ × Bytes) (ℤ × Bytes)) := do
  let (symndx, mem) := t
  if symndx < mod.numsyms then
    let resolved ← resolveSymbol env mem mod symndx
    match resolved with
    | none => pure (.leave (-enoent, mem))
    | some mem => pure (.next ((symndx + 1) % 2 ^ 16, mem))
  else pure (.leave (0, mem))

/-- `module_resolve_symbols`, for `k` turns at most. -/
def moduleResolveSymbols (k : ℕ) : Res (ℤ × Bytes) := run (resolveTurn env mod) k (1, mem)

/-! ### Relocating -/

/-- The body of the loop of `module_apply_relocate`, for the entry at `rel`: the memory, or
nothing for a type that is not supported. -/
def relocate (shdr rel : ℕ) : Res (Option Bytes) := do
  let info ← shInfo env mem shdr
  let addr ← shAddr env mem (u32 (mod.shdr + sizeofShdr * info))
  let offset ← rOffset env mem rel
  let pos := u32 (addr + offset)
  let info ← rInfo env mem rel
  let sym := u32 (mod.symtab + sizeofSym * elf32RSym info)
  if elf32RType info = r38632 then
    let value ← stValue env mem sym
    let old ← read32 env mem pos
    pure (some (put32 mem pos (u32 (old + value))))
  else if elf32RType info = r386Pc32 then
    let value ← stValue env mem sym
    let old ← read32 env mem pos
    pure (some (put32 mem pos (u32 (old + sub32 value pos))))
  else pure none

/-- A turn of the loop of `module_apply_relocate`. -/
def applyTurn (shdr rel : ℕ) (t : ℕ × Bytes) : Res (Turn (ℕ × Bytes) (ℤ × Bytes)) := do
  let (ndx, mem) := t
  let size ← shSize env mem shdr
  if ndx < size / sizeofRel then
    let relocated ← relocate env mem mod shdr (u32 (rel + sizeofRel * ndx))
    match relocated with
    | none => pure (.leave (-enoexec, mem))
    | some mem => pure (.next (u32 (ndx + 1), mem))
  else pure (.leave (0, mem))

/-- `module_apply_relocate`. A section has less than `2 ^ 29` entries. -/
def moduleApplyRelocate (shdr : ℕ) : Res (ℤ × Bytes) := do
  let rel ← shAddr env mem shdr
  run (applyTurn env mod shdr rel) (2 ^ 29) (0, mem)

/-- The body of the loop of `module_resolve_relocations`, with what `ret` holds. There is nothing
for a section that is skipped. -/
def relocateSection (shndx : ℕ) (ret : ℤ) : Res (Option (ℤ × Bytes)) := do
  let shdr ← libelf32Shdr env mem mod.ehdr shndx
  let info ← shInfo env mem shdr
  let shnum ← eShnum env mem mod.ehdr
  if shnum ≤ info then pure none
  else
    let flags ← shFlags env mem shdr
    if flags &&& shfRelaLivepatch ≠ 0 then pure none
    else
      let type ← shType env mem shdr
      if type = shtRel then
        let r ← moduleApplyRelocate env mem mod shdr
        pure (some r)
      else pure (some (ret, mem))

/-- A turn of the loop of `module_resolve_relocations`. -/
def relocateTurn (t : ℕ × ℤ × Bytes) : Res (Turn (ℕ × ℤ × Bytes) (ℤ × Bytes)) := do
  let (shndx, ret, mem) := t
  let shnum ← eShnum env mem mod.ehdr
  if shndx < shnum then
    let relocated ← relocateSection env mem mod shndx ret
    match relocated with
    | none => pure (.next ((shndx + 1) % 2 ^ 16, ret, mem))
    | some (ret, mem) =>
      if ret ≠ 0 then pure (.leave (0, mem))
      else pure (.next ((shndx + 1) % 2 ^ 16, ret, mem))
  else pure (.leave (0, mem))

def moduleResolveRelocations : Res (ℤ × Bytes) :=
  run (relocateTurn env mod) (2 ^ 16) (1, env.ret, mem)

/-! ### Starting -/

/-- A turn of the loop of `module_find_symbol`. -/
def findTurn (name : List UInt8) (symndx : ℕ) : Res (Turn ℕ ℕ) := do
  if symndx < mod.numsyms then
    let sym := u32 (mod.symtab + sizeofSym * symndx)
    let off ← stName env mem sym
    let delta ← strcmp env mem (u32 (mod.strtab + off)) name
    if delta ≠ 0 then pure (.next (u32 (symndx + 1))) else pure (.leave sym)
  else pure (.leave 0)

/-- `module_find_symbol`. The arguments of `strcmp` are the other way round. -/
def moduleFindSymbol (name : List UInt8) : Res ℕ :=
  run (findTurn env mem mod name) (mod.numsyms + 1) 0

/-- What a function pointer of `struct module` holds after the look at its symbol. -/
def pointer (sym old : ℕ) : Res ℕ := if sym ≠ 0 then stValue env mem sym else pure old

/-- `module_initialize`, for the module with the object. -/
def moduleInitialize (object : ℕ) (s : State) : Res (ℤ × State) := do
  let initSym ← moduleFindSymbol env s.mem mod initModuleWord
  let exitSym ← moduleFindSymbol env s.mem mod exitModuleWord
  let init ← pointer env s.mem initSym mod.init
  let exit ← pointer env s.mem exitSym mod.exit
  if init = 0 ∨ exit = 0 then pure (-enoexec, s)
  else
    let s := { s with called := s.called ++ [init] }
    if env.init init ≠ 0 then pure (-efault, s)
    else pure (0, { s with modules := object :: s.modules })

/-! ### Files -/

/-- `module_read_file` from the call of `module_find_sections` up to the one of
`module_initialize`. -/
def modulePrepare (k : ℕ) (mod : Module) (s : State) : Res (ℤ × Module × State) := do
  let (ret, mod) ← moduleFindSections env s.mem mod
  if ret ≠ 0 then pure (ret, mod, s)
  else
    let (ret, s) ← moduleLoadSections env mod s
    if ret ≠ 0 then pure (ret, mod, s)
    else
      let (ret, mem) ← moduleResolveSymbols env s.mem mod k
      if ret ≠ 0 then pure (ret, mod, { s with mem })
      else
        let (ret, mem) ← moduleResolveRelocations env mem mod
        pure (ret, mod, { s with mem })

/-- `file_read`. -/
def fileRead (file : File) (nbytes buffer : ℕ) : ℤ × Bytes :=
  env.vfsRead file.node file.offset (min nbytes (sub32 file.length file.offset)) buffer mem

/-- `module_read_file`, for `k` turns of a loop at most, where the memory for the module holds
`old`. -/
def moduleReadFile (k : ℕ) (old : Old) (file : File) (s : State) : Res (ℤ × State) := do
  let object := s.calls
  let (p, s) := bmalloc env s sizeofModule
  if p = 0 then pure (-enomem, s)
  else
    let buffer := s.calls
    let (ehdr, s) := bmalloc env s file.length
    if ehdr = 0 then pure (-efault, bfree s object)
    else
      let (ret, mem) := fileRead env s.mem file file.length ehdr
      let s := { s with mem }
      if ret = 0 then pure (-efault, bfree (bfree s buffer) object)
      else
        let (ret, mod, s) ← modulePrepare env k { old.fields with ehdr } s
        if ret ≠ 0 then pure (-efault, bfree (bfree s buffer) object)
        else
          let (ret, s) ← moduleInitialize env mod object s
          if ret ≠ 0 then pure (-efault, bfree (bfree s buffer) object)
          else
            let name := strncpy old.name file.name (sub32 file.name.length 4)
            pure (0, { s with name := Function.update s.name object name })

/-- `file_open`. -/
def fileOpen (path : List UInt8) (flags : ℕ) (s : State) : Option File × State :=
  let object := s.calls
  let (p, s) := bmalloc env s sizeofFile
  if p = 0 then (none, s)
  else
    match env.vfsOpen path with
    | none => (none, bfree s object)
    | some node =>
      let (p, s) := bmalloc env s (node.name.length + 1)
      if p = 0 then (none, bfree s object)
      else (some ⟨node.name, node, flags, 0, node.length, node.isString⟩, s)

/-- `module_open`. The name fits the 64 bytes of the path; what a longer one overruns on the
stack is left out. -/
def moduleOpen (k : ℕ) (old : Old) (name : List UInt8) (s : State) : Res (ℤ × State) := do
  let object := s.calls
  let (file, s) := fileOpen env (modulesPath ++ name ++ ebm) 0 s
  match file with
  | none => pure (-enoent, s)
  | some file =>
    let (ret, s) ← moduleReadFile env k old file s
    if ret ≠ 0 then pure (-efault, bfree s object) else pure (0, s)

end Elfboot.ModuleLoad
