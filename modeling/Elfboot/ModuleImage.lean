import Elfboot.Errno
import Elfboot.Loop
import Elfboot.Str
import Elfboot.Word

/-!
Loadable modules: the functions of `module.c` that relocate an image and start it, with the
accessors of `libelf32.c` they use.

The image is in memory, and a relocation may change any part of it, also the headers and the
tables that are read afterwards.
-/

namespace Elfboot.ModuleImage

open Elfboot.Errno Elfboot.Buffer Elfboot.Word Elfboot.Str Elfboot.Loop

abbrev shtRel : ℕ := 9
abbrev shfRelaLivepatch : ℕ := 0x00100000

abbrev r38632 : ℕ := 1
abbrev r386Pc32 : ℕ := 2

/-- `struct module`, as far as relocating and starting it go. -/
structure Module where
  ehdr : ℕ
  shdr : ℕ
  symtab : ℕ
  numsyms : ℕ
  strtab : ℕ
  init : ℕ
  exit : ℕ

/-- The memory, with the entries that have been applied, by section and index, and the
functions of modules that have been called. -/
structure State where
  mem : Bytes
  applied : List (ℕ × ℕ)
  called : List ℕ

/-! ### ELF objects -/

def eShoff (mem : Bytes) (ehdr : ℕ) : ℕ := le32 mem (u32 (ehdr + 32))
def eShnum (mem : Bytes) (ehdr : ℕ) : ℕ := le16 mem (u32 (ehdr + 48))

def shType (mem : Bytes) (shdr : ℕ) : ℕ := le32 mem (u32 (shdr + 4))
def shFlags (mem : Bytes) (shdr : ℕ) : ℕ := le32 mem (u32 (shdr + 8))
def shAddr (mem : Bytes) (shdr : ℕ) : ℕ := le32 mem (u32 (shdr + 12))
def shSize (mem : Bytes) (shdr : ℕ) : ℕ := le32 mem (u32 (shdr + 20))
def shInfo (mem : Bytes) (shdr : ℕ) : ℕ := le32 mem (u32 (shdr + 28))

def rOffset (mem : Bytes) (rel : ℕ) : ℕ := le32 mem (u32 rel)
def rInfo (mem : Bytes) (rel : ℕ) : ℕ := le32 mem (u32 (rel + 4))

def stName (mem : Bytes) (sym : ℕ) : ℕ := le32 mem (u32 sym)
def stValue (mem : Bytes) (sym : ℕ) : ℕ := le32 mem (u32 (sym + 4))

def sizeofShdr : ℕ := 40
def sizeofRel : ℕ := 8
def sizeofSym : ℕ := 16

/-- The macro `ELF32_R_SYM`. -/
def elf32RSym (info : ℕ) : ℕ := info / 2 ^ 8

/-- The macro `ELF32_R_TYPE`. -/
def elf32RType (info : ℕ) : ℕ := info % 2 ^ 8

def libelf32Shdr (mem : Bytes) (ehdr shndx : ℕ) : ℕ :=
  u32 (ehdr + eShoff mem ehdr + sizeofShdr * shndx)

/-! ### Relocating -/

variable (mod : Module)

/-- The body of the loop of `module_apply_relocate`, for the entry at `rel`. There is no result
for a type that is not supported. -/
def relocate (mem : Bytes) (shdr rel : ℕ) : Option Bytes :=
  let pos := u32 (shAddr mem (mod.shdr + sizeofShdr * shInfo mem shdr) + rOffset mem rel)
  let sym := mod.symtab + sizeofSym * elf32RSym (rInfo mem rel)
  if elf32RType (rInfo mem rel) = r38632 then
    some (put32 mem pos (u32 (le32 mem pos + stValue mem sym)))
  else if elf32RType (rInfo mem rel) = r386Pc32 then
    some (put32 mem pos (u32 (le32 mem pos + sub32 (stValue mem sym) pos)))
  else none

/-- A turn of the loop of `module_apply_relocate`. -/
def applyTurn (shndx shdr rel : ℕ) (t : ℕ × State) : Option (Turn (ℕ × State) (ℤ × State)) :=
  let (ndx, s) := t
  if ndx < shSize s.mem shdr / sizeofRel then
    match relocate mod s.mem shdr (rel + sizeofRel * ndx) with
    | none => some (.leave (-enoexec, s))
    | some mem => some (.next (ndx + 1, { s with mem, applied := s.applied ++ [(shndx, ndx)] }))
  else some (.leave (0, s))

/-- `module_apply_relocate` for the section with the index. A section has less than `2 ^ 29`
entries. -/
def moduleApplyRelocate (shndx shdr : ℕ) (s : State) : Option (ℤ × State) :=
  loop (applyTurn mod shndx shdr (shAddr s.mem shdr)) (2 ^ 29) (0, s)

/-- A turn of the loop of `module_resolve_relocations`, with what `ret` holds. -/
def resolveTurn (t : ℕ × ℤ × State) : Option (Turn (ℕ × ℤ × State) (ℤ × State)) :=
  let (shndx, ret, s) := t
  if shndx < eShnum s.mem mod.ehdr then
    let shdr := libelf32Shdr s.mem mod.ehdr shndx
    if eShnum s.mem mod.ehdr ≤ shInfo s.mem shdr then some (.next (shndx + 1, ret, s))
    else if shFlags s.mem shdr &&& shfRelaLivepatch ≠ 0 then some (.next (shndx + 1, ret, s))
    else
      let applied :=
        if shType s.mem shdr = shtRel then moduleApplyRelocate mod shndx shdr s
        else some (ret, s)
      match applied with
      | none => none
      | some (ret, s) =>
        if ret ≠ 0 then some (.leave (0, s)) else some (.next (shndx + 1, ret, s))
  else some (.leave (0, s))

/-- `module_resolve_relocations`, where the local `ret` holds `ret` to begin with. -/
def moduleResolveRelocations (ret : ℤ) (s : State) : Option (ℤ × State) :=
  loop (resolveTurn mod) (2 ^ 16) (1, ret, s)

/-! ### Starting -/

def findSymbolLoop (mem : Bytes) (name : List UInt8) : ℕ → ℕ → ℕ
  | 0, _ => 0
  | k + 1, symndx =>
    let sym := u32 (mod.symtab + sizeofSym * symndx)
    if strcmp mem (u32 (mod.strtab + stName mem sym)) name ≠ 0 then
      findSymbolLoop mem name k (symndx + 1)
    else sym

/-- `module_find_symbol`. The arguments of `strcmp` are the other way round. -/
def moduleFindSymbol (mem : Bytes) (name : List UInt8) : ℕ :=
  findSymbolLoop mod mem name mod.numsyms 0

def initModuleWord : List UInt8 :=
  chars ['i', 'n', 'i', 't', '_', 'm', 'o', 'd', 'u', 'l', 'e']

def exitModuleWord : List UInt8 :=
  chars ['e', 'x', 'i', 't', '_', 'm', 'o', 'd', 'u', 'l', 'e']

/-- What a function pointer of `struct module` holds after the look at its symbol. -/
def pointer (mem : Bytes) (sym old : ℕ) : ℕ := if sym ≠ 0 then stValue mem sym else old

/-- `module_initialize`, less the list of modules. What the module's function returns is
given by its address. -/
def moduleInitialize (init : ℕ → ℤ) (s : State) : ℤ × State :=
  let initSym := moduleFindSymbol mod s.mem initModuleWord
  let exitSym := moduleFindSymbol mod s.mem exitModuleWord
  let start := pointer s.mem initSym mod.init
  let exit := pointer s.mem exitSym mod.exit
  if start = 0 ∨ exit = 0 then (-enoexec, s)
  else
    let s := { s with called := s.called ++ [start] }
    if init start ≠ 0 then (-efault, s) else (0, s)

/-- `module_read_file` from the call of `module_resolve_relocations` on. -/
def moduleReadFileResolved (init : ℕ → ℤ) (ret : ℤ) (s : State) : Option (ℤ × State) :=
  match moduleResolveRelocations mod ret s with
  | none => none
  | some (ret, s) =>
    if ret ≠ 0 then some (-efault, s)
    else
      let (ret, s) := moduleInitialize mod init s
      if ret ≠ 0 then some (-efault, s) else some (0, s)

end Elfboot.ModuleImage
