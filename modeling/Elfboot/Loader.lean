import Elfboot.Errno
import Elfboot.Circular
import Elfboot.Str

/-!
The boot configuration: the functions of `loader.c` that parse it and that fill the array of
boot options.

The text is one buffer, and both tokenizers write to it. Strings and entries are allocated;
an entry is the number of the call of `bmalloc` that gave it. A loop of the parser that does
not end within the number of turns it is given has no result.
-/

namespace Elfboot.Loader

open Elfboot.Errno Elfboot.Circular Elfboot.Buffer Elfboot.Str

def lineDelimiter : List UInt8 := chars ['\n']
def nameDelimiter : List UInt8 := chars ['"']
def infoDelimiter : List UInt8 := chars ['\t']
def wordDelimiter : List UInt8 := chars [' ']
def bootDelimiter : List UInt8 := chars ['}']
def charComment : List UInt8 := chars ['#']

/-- The macro `C`. -/
def firstChar (x : List UInt8) : UInt8 := x.headD 0

abbrev loaderProtocolMultiboot1 : ℕ := 1
abbrev loaderProtocolMultiboot2 : ℕ := 2
abbrev loaderProtocolLinux : ℕ := 3

def sizeofBootEntry : ℕ := 28

inductive Node
  | null
  | bootList
  | entry (i : ℕ)
  deriving DecidableEq

/-- `struct boot_entry`, less its list node. A pointer that is not null is to a buffer. -/
structure BootEntry where
  name : Option Bytes
  kernelPath : Option Bytes
  initrdPath : Option Bytes
  cmdline : Option Bytes
  prot : ℕ

structure State where
  text : Bytes
  links : Links Node
  entries : ℕ → BootEntry
  bootNumber : ℤ
  bootChoice : ℤ
  bootOptions : Option (ℤ → BootEntry)
  /-- the calls of `bmalloc` so far -/
  calls : ℕ

def State.setEntry (s : State) (i : ℕ) (f : BootEntry → BootEntry) : State :=
  { s with entries := Function.update s.entries i (f (s.entries i)) }

variable (m : Bmalloc) (n : ℕ)

def bmalloc (s : State) (size : ℕ) : Option Bytes × State :=
  (m.call s.calls size, { s with calls := s.calls + 1 })

def bstrdup (s : State) (str : ℕ) : Option Bytes × State :=
  let len := strlen s.text n str + 1
  match bmalloc m s len with
  | (none, s) => (none, s)
  | (some buf, s) => (some (memcpy buf 0 s.text str len), s)

/-- `strtok_r` on the text. -/
def tokenize (s : State) (str : Option ℕ) (delim : List UInt8) (store : ℕ) :
    Option ℕ × ℕ × State :=
  let (tok, store, text) := strtokR s.text n str delim store
  (tok, store, { s with text })

/-! ### The lines of an entry -/

def loaderParseName (s : State) (line : ℕ) : Option Bytes × State :=
  match strstr s.text n line nameDelimiter with
  | none => (none, s)
  | some nbeg =>
    let nbeg := nbeg + 1
    match strstr s.text n nbeg nameDelimiter with
    | none => (none, s)
    | some nend =>
      match bmalloc m s (nend - nbeg + 1) with
      | (none, s) => (none, s)
      | (some name, s) =>
        let name := memcpy name 0 s.text nbeg (nend - nbeg)
        (some (Function.update name (nend - nbeg) 0), s)

/-- The loop of `loader_strip_entry_line`, and where it ends. -/
def loaderStripEntryLine (b : Bytes) : ℕ → ℕ → Option ℕ
  | 0, _ => none
  | k + 1, line =>
    if strncmp b line wordDelimiter 1 = 0 ∨ strncmp b line infoDelimiter 1 = 0 then
      loaderStripEntryLine b k (line + 1)
    else some line

/-- `loader_create_entry`: `bzalloc` clears the list node, too. -/
def loaderCreateEntry (s : State) (name : Bytes) : Option ℕ × State :=
  let i := s.calls
  match bmalloc m s sizeofBootEntry with
  | (none, s) => (none, s)
  | (some _, s) =>
    let entries := Function.update s.entries i ⟨some name, none, none, none, 0⟩
    let links := (s.links.setPrev (.entry i) .null).setNext (.entry i) .null
    (some i, { s with entries, links })

/-- `loader_free_entry`, less the calls of `bfree`. -/
def loaderFreeEntry (s : State) (i : ℕ) : State :=
  { s with links := listDel .null s.links (.entry i) }

def parseKernelLoop (i : ℕ) : ℕ → Option ℕ → ℕ → State → Option (ℤ × State)
  | 0, _, _, _ => none
  | _ + 1, none, _, s => some (0, s)
  | k + 1, some topt, lopt, s =>
    let next := fun prot =>
      let s := s.setEntry i fun e => { e with prot }
      let (topt, lopt, s) := tokenize n s none wordDelimiter lopt
      parseKernelLoop i k topt lopt s
    if strcmp s.text topt (chars ['m', 'u', 'l', 't', 'i', 'b', 'o', 'o', 't', '1']) = 0 then
      next loaderProtocolMultiboot1
    else if strcmp s.text topt (chars ['m', 'u', 'l', 't', 'i', 'b', 'o', 'o', 't', '2']) = 0 then
      next loaderProtocolMultiboot2
    else if strcmp s.text topt (chars ['l', 'i', 'n', 'u', 'x']) = 0 then
      next loaderProtocolLinux
    else if (s.entries i).prot = 0 then some (-efault, s)
    else
      let (kernelPath, s) := bstrdup m n s topt
      let s := s.setEntry i fun e => { e with kernelPath }
      if kernelPath.isNone then some (-enomem, s) else some (0, s)

def loaderParseKernel (s : State) (i option : ℕ) : Option (ℤ × State) :=
  let (topt, lopt, s) := tokenize n s (some option) wordDelimiter 0
  parseKernelLoop m n i n topt lopt s

def parseInitrdLoop (i : ℕ) : ℕ → Option ℕ → ℕ → State → Option (ℤ × State)
  | 0, _, _, _ => none
  | _ + 1, none, _, s => some (0, s)
  | k + 1, some topt, lopt, s =>
    let (initrdPath, s) := bstrdup m n s topt
    let s := s.setEntry i fun e => { e with initrdPath }
    if initrdPath.isNone then some (-enomem, s)
    else
      let (topt, lopt, s) := tokenize n s none wordDelimiter lopt
      parseInitrdLoop i k topt lopt s

def loaderParseInitrd (s : State) (i option : ℕ) : Option (ℤ × State) :=
  let (topt, lopt, s) := tokenize n s (some option) wordDelimiter 0
  parseInitrdLoop m n i n topt lopt s

def loaderParseCmdline (s : State) (i option : ℕ) : ℤ × State :=
  let (cmdline, s) := bstrdup m n s option
  let s := s.setEntry i fun e => { e with cmdline }
  if cmdline.isNone then (-enomem, s) else (0, s)

def kernelWord : List UInt8 := chars ['k', 'e', 'r', 'n', 'e', 'l']
def initrdWord : List UInt8 := chars ['i', 'n', 'i', 't', 'r', 'd']
def cmdlineWord : List UInt8 := chars ['c', 'm', 'd', 'l', 'i', 'n', 'e']
def bootentryWord : List UInt8 := chars ['b', 'o', 'o', 't', 'e', 'n', 't', 'r', 'y']

/-- `loader_parse_entry`, less the message for an option it does not know. -/
def loaderParseEntry (s : State) (i line : ℕ) : Option (ℤ × State) :=
  match loaderStripEntryLine s.text n line with
  | none => none
  | some option =>
    if strncmp s.text option kernelWord 6 = 0 then loaderParseKernel m n s i (option + 7)
    else if strncmp s.text option initrdWord 6 = 0 then loaderParseInitrd m n s i (option + 7)
    else if strncmp s.text option cmdlineWord 7 = 0 then
      some (loaderParseCmdline m n s i (option + 8))
    else some (0, s)

def loaderStoreEntry (s : State) (i : ℕ) : State :=
  { s with
    links := listAddTail s.links (.entry i) .bootList
    bootNumber := s.bootNumber + 1
    bootChoice := s.bootChoice + 1 }

/-! ### The configuration -/

/-- The body of the loop of `loader_parse_entries`, from the comment check on: the entry
that is open afterwards, and the state. -/
def parseLine (s : State) (bootEntry : Option ℕ) (line : ℕ) : Option (Option ℕ × State) :=
  if strncmp s.text line bootentryWord 9 = 0 then
    let s := match bootEntry with
      | none => s
      | some i => loaderFreeEntry s i
    match loaderParseName m n s line with
    | (none, s) => some (bootEntry, s)
    | (some name, s) => some (loaderCreateEntry m s name)
  else if s.text line = firstChar infoDelimiter then
    match bootEntry with
    | none => some (none, s)
    | some i =>
      match loaderParseEntry m n s i line with
      | none => none
      | some (_, s) => some (some i, s)
  else if s.text line = firstChar bootDelimiter then
    match bootEntry with
    | none => some (none, s)
    | some i => some (none, loaderStoreEntry s i)
  else some (bootEntry, s)

def parseLoop : ℕ → Option ℕ → ℕ → Option ℕ → State → Option State
  | 0, _, _, _, _ => none
  | _ + 1, none, _, _, s => some s
  | k + 1, some line, lend, bootEntry, s =>
    if s.text line = firstChar charComment then
      -- `continue` skips the tokenizer
      parseLoop k (some line) lend bootEntry s
    else
      match parseLine m n s bootEntry line with
      | none => none
      | some (bootEntry, s) =>
        let (line, lend, s) := tokenize n s none lineDelimiter lend
        parseLoop k line lend bootEntry s

/-- `loader_parse_entries`, which returns zero. -/
def loaderParseEntries (s : State) (config : ℕ) : Option State :=
  let (line, lend, s) := tokenize n s (some config) lineDelimiter 0
  parseLoop m n n line lend none s

/-! ### The boot options -/

/-- The loop of `loader_init_boot_options`, from a position of the list on. -/
def bootOptionsLoop : ℕ → Node → (ℤ → BootEntry) → State → Option State
  | 0, _, _, _ => none
  | _ + 1, .bootList, opts, s => some { s with bootOptions := some opts }
  | _ + 1, .null, _, _ => none
  | k + 1, .entry i, opts, s =>
    let enptr := s.bootNumber - s.bootChoice
    let s := { s with bootChoice := s.bootChoice - 1 }
    bootOptionsLoop k (s.links.next (.entry i)) (Function.update opts enptr (s.entries i)) s

/-- `loader_init_boot_options`. The array holds `old` when it is allocated. -/
def loaderInitBootOptions (old : ℤ → BootEntry) (s : State) : Option (ℤ × State) :=
  if s.bootNumber = 0 then some (-enoent, s)
  else
    match bmalloc m s (sizeofBootEntry * s.bootNumber.toNat) with
    | (none, s) => some (-enomem, { s with bootOptions := none })
    | (some _, s) =>
      match bootOptionsLoop n (s.links.next .bootList) old s with
      | none => none
      | some s => some (0, s)

end Elfboot.Loader
