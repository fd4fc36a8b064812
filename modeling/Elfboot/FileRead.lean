import Elfboot.Ext2

/-!
Reading files: `file.c`, the read functions of the two file systems behind it, and the
callers that test its result: `loader_init_boot_entries`, `module_read_file` and
`lxboot_prepare_kernel`.

A caller keeps a list of its calls of `file_read`, newest first, with whether it went on
after the call; what it does with a buffer then is an argument of the model.
-/

namespace Elfboot.FileRead

open Elfboot.Errno Elfboot.Word Elfboot.Buffer Elfboot.Super Elfboot.Ext2

def isofsRead (sb : Superblock) (inode : ℕ) (bmalloc : ℕ → Option Bytes) (offset length : ℕ)
    (buffer : Bytes) : ℕ × Bytes :=
  let blkoff := u64 (u32 (sb.blockSize * inode) + offset)
  let (ret, buffer) := superblockReadOffset sb bmalloc blkoff length buffer
  if ret ≠ 0 then (sub32 0 14, buffer) else (length, buffer)

/-- What the read function of a node's file system gets at through the node: the first block
of the file, or its inode. -/
inductive FsRead
  | isofs (inode : ℕ)
  | ext2fs (inode : Inode)

/-- `struct fs_node`, for a file that is no device. -/
structure FsNode where
  sb : Superblock
  read : FsRead

/-- `struct file`. -/
structure File where
  node : FsNode
  offset : ℕ
  length : ℕ
  length_lt : length < 2 ^ 32

/-- `vfs_read`: a `uint32_t`, and the buffer. -/
def vfsRead (node : FsNode) (m : Bmalloc) (offset length : ℕ) (buffer : Bytes) : ℕ × Bytes :=
  match node.read with
  | .isofs inode => isofsRead node.sb inode (m.call 0) offset length buffer
  | .ext2fs inode => ext2fsInodeRead node.sb inode m offset length buffer

/-- A `uint32_t` as an `int`. -/
def int32 (n : ℕ) : ℤ := if n < 2 ^ 31 then n else n - 2 ^ 32

/-- `file_read`, for a file that is there. -/
def fileRead (file : File) (m : Bmalloc) (nbytes : ℕ) (buffer : Bytes) : ℤ × Bytes :=
  let length := min nbytes (sub32 file.length file.offset)
  let (ret, buffer) := vfsRead file.node m file.offset length buffer
  (int32 ret, buffer)

/-- `file_seek` with `FILE_SET`. -/
def fileSeek (file : File) (offset : ℕ) : File := { file with offset := offset }

/-! ### The callers -/

/-- A call of `file_read`: its arguments, but for the buffer, what `bmalloc` gives in it, and
whether the caller went on. -/
structure ReadCall where
  file : File
  m : Bmalloc
  nbytes : ℕ
  on : Bool

/-- `loader_init_boot_entries`, with what `bmalloc` gives and what `loader_parse_entries`
makes of the buffer. -/
def loaderInitBootEntries (config : Option Bytes) (m : Bmalloc) (parse : Bytes → ℤ) (file : File) :
    ℤ × List ReadCall :=
  match config with
  | none => (-enomem, [])
  | some config =>
    let (ret, config) := fileRead file m file.length config
    if ret = 0 then (-enomem, [⟨file, m, file.length, false⟩])
    else (if parse config ≠ 0 then -enomem else 0, [⟨file, m, file.length, true⟩])

/-- `module_read_file`, with whether there is memory for the module, what `bmalloc` gives for
the buffer, and what the functions from `module_find_sections` to `module_initialize` make of
it. -/
def moduleReadFile (mod : Bool) (buffer : Option Bytes) (m : Bmalloc) (load : Bytes → ℤ)
    (file : File) : ℤ × List ReadCall :=
  if !mod then (-enomem, [])
  else
    match buffer with
    | none => (-efault, [])
    | some buffer =>
      let (ret, buffer) := fileRead file m file.length buffer
      if ret = 0 then (-efault, [⟨file, m, file.length, false⟩])
      else (if load buffer ≠ 0 then -efault else 0, [⟨file, m, file.length, true⟩])

abbrev lxbootBzimageSignature : ℕ := 0x53726448

/-- `sizeof(struct lxboot_rm_header)`, and where its fields are. -/
abbrev rmHeaderSize : ℕ := 119
def setupSects (hdr : Bytes) : ℕ := (hdr 0).toNat
def header (hdr : Bytes) : ℕ := le32 hdr 17
def version (hdr : Bytes) : ℕ := le16 hdr 21

/-- The length of the real-mode code: `rmcodesec` sectors, of which 0 means 4, and one more. -/
def rmcodeLen (hdr : Bytes) : ℕ :=
  let rmcodesec := if setupSects hdr = 0 then 4 else setupSects hdr
  u32 (rmcodesec <<< 9 + 512)

/-- The result of `lxboot_prepare_fields`: protocols before 2.02 are not supported. -/
def lxbootPrepareFields (bprotvers : ℕ) : ℤ := if 0x0202 ≤ bprotvers then 0 else -enotsup

/-- `lxboot_prepare_kernel`, with what `bmalloc` gives for the header and for the real-mode
code, and what the memory at the kernel's address holds. -/
def lxbootPrepareKernel (rmcodehdr rmcodebuf : Option Bytes) (m : ℕ → Bmalloc) (mem : Bytes)
    (kernel : File) : ℤ × List ReadCall :=
  match rmcodehdr with
  | none => (-efault, [])
  | some rmcodehdr =>
    let kernel := fileSeek kernel 0x1f1
    let (ret, rmcodehdr) := fileRead kernel (m 0) rmHeaderSize rmcodehdr
    if ret = 0 then (-efault, [⟨kernel, m 0, rmHeaderSize, false⟩])
    else
      let calls := [⟨kernel, m 0, rmHeaderSize, true⟩]
      if header rmcodehdr ≠ lxbootBzimageSignature then (-efault, calls)
      else
        let rmcodelen := rmcodeLen rmcodehdr
        match rmcodebuf with
        | none => (-enomem, calls)
        | some rmcodebuf =>
          let kernel := fileSeek kernel 0
          let (ret, _) := fileRead kernel (m 1) rmcodelen rmcodebuf
          if ret = 0 then (-efault, ⟨kernel, m 1, rmcodelen, false⟩ :: calls)
          else
            let calls := ⟨kernel, m 1, rmcodelen, true⟩ :: calls
            if lxbootPrepareFields (version rmcodehdr) ≠ 0 then (-efault, calls)
            else
              let pmcodelen := sub32 kernel.length rmcodelen
              let kernel := fileSeek kernel rmcodelen
              let (ret, _) := fileRead kernel (m 2) pmcodelen mem
              if ret = 0 then (-efault, ⟨kernel, m 2, pmcodelen, false⟩ :: calls)
              else (0, ⟨kernel, m 2, pmcodelen, true⟩ :: calls)

/-- The callers, with what they find in the course of a call. -/
inductive Caller
  | loader (config : Option Bytes) (m : Bmalloc) (parse : Bytes → ℤ)
  | module (mod : Bool) (buffer : Option Bytes) (m : Bmalloc) (load : Bytes → ℤ)
  | lxboot (rmcodehdr rmcodebuf : Option Bytes) (m : ℕ → Bmalloc) (mem : Bytes)

def Caller.run (file : File) : Caller → ℤ × List ReadCall
  | .loader config m parse => loaderInitBootEntries config m parse file
  | .module mod buffer m load => moduleReadFile mod buffer m load file
  | .lxboot rmcodehdr rmcodebuf m mem => lxbootPrepareKernel rmcodehdr rmcodebuf m mem file

end Elfboot.FileRead
