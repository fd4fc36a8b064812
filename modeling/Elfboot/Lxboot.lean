import Elfboot.FileRead
import Elfboot.Ext2Read
import Elfboot.SlubOps

/-!
Where a Linux boot puts things: `lxboot_prepare_kernel` and `lxboot_prepare_initrd`.

The real-mode code gets an object of `bmalloc` with room for it, and the command line is copied
to a fixed distance behind the start of that object, which is more than the largest object has.
The kernel and the initial ramdisk are read to fixed addresses.
-/

namespace Elfboot.Lxboot

open Elfboot.Errno Elfboot.Word Elfboot.Buffer Elfboot.Super Elfboot.Slub Elfboot.SlubOps
open Elfboot.Ext2Read
open Elfboot.FileRead hiding lxbootPrepareFields lxbootPrepareKernel

def lxbootKernelAddr : ℕ := 0x100000
def lxbootInitrdAddr : ℕ := 0x1000000

/-- An object of `bmalloc`. -/
structure Block where
  addr : ℕ
  size : ℕ

/-- `bmalloc`, when an object of the cache is at `place`, with what it holds. -/
def bmalloc (place : Option (ℕ × Bytes)) (size : ℕ) : Option (Block × Bytes) :=
  match bmallocCache size, place with
  | some index, some (addr, holds) => some (⟨addr, bmallocInfo.getD index 0⟩, holds)
  | _, _ => none

/-- The fields of `struct lxboot_rm_header` that are read or written. -/
structure LxbootRmHeader where
  setupSects : ℕ
  vidMode : ℕ
  header : ℕ
  version : ℕ
  typeOfLoader : ℕ
  loadflags : ℕ
  ramdiskImage : ℕ
  ramdiskSize : ℕ
  heapEndPtr : ℕ
  cmdLinePtr : ℕ

/-- The header at `s`. -/
def rmHeader (b : Bytes) (s : ℕ) : LxbootRmHeader where
  setupSects := (b s).toNat
  vidMode := le16 b (s + 9)
  header := le32 b (s + 17)
  version := le16 b (s + 21)
  typeOfLoader := (b (s + 31)).toNat
  loadflags := (b (s + 32)).toNat
  ramdiskImage := le32 b (s + 39)
  ramdiskSize := le32 b (s + 43)
  heapEndPtr := le16 b (s + 51)
  cmdLinePtr := le32 b (s + 55)

/-- `struct lxboot_info`; the header is in the buffer. -/
structure LxbootInfo where
  signature : ℕ
  bprotvers : ℕ
  rmcodesec : ℕ
  rmcodelen : ℕ
  pmcodelen : ℕ
  rmcodehdr : LxbootRmHeader
  rmcodebuf : Block

/-- `lxboot_prepare_fields`: the status, and the header afterwards. The command line is copied
to its `cmd_line_ptr`. -/
def lxbootPrepareFields (info : LxbootInfo) : ℤ × LxbootRmHeader :=
  let rmcodehdr := info.rmcodehdr
  if 0x0200 ≤ info.bprotvers then
    let rmcodehdr := { rmcodehdr with typeOfLoader := 0xff }
    let heapEnd :=
      if 0x0202 ≤ info.bprotvers ∧ rmcodehdr.loadflags &&& 1 ≠ 0 then 0xe000 else 0x9800
    let rmcodehdr :=
      if 0x0201 ≤ info.bprotvers then
        { rmcodehdr with
          heapEndPtr := heapEnd - 0x200
          loadflags := rmcodehdr.loadflags ||| 0x80 }
      else rmcodehdr
    if 0x0202 ≤ info.bprotvers then
      (0, { rmcodehdr with cmdLinePtr := u32 (info.rmcodebuf.addr + heapEnd) })
    else (-enotsup, rmcodehdr)
  else (-enotsup, rmcodehdr)

/-- The sectors of the real-mode code, of which 0 means 4. -/
def sectors (setupSects : ℕ) : ℕ := if setupSects = 0 then 4 else setupSects

/-- `lxboot_prepare_kernel`, with where `bmalloc` finds objects for the header and for the
real-mode code, what it gives in the reads, and what the memory at the kernel's address holds.
The header's object is given back on the way. -/
def lxbootPrepareKernel (hdr buf : Option (ℕ × Bytes)) (m : ℕ → Bmalloc) (mem : Bytes)
    (kernel : File) : Except ℤ LxbootInfo :=
  match bmalloc hdr rmHeaderSize with
  | none => .error (-efault)
  | some (_, rmcodehdr) =>
    let kernel := fileSeek kernel 0x1f1
    let (ret, rmcodehdr) := fileRead kernel (m 0) rmHeaderSize rmcodehdr
    if ret = 0 then .error (-efault)
    else
      let rmcodehdr := rmHeader rmcodehdr 0
      if rmcodehdr.header ≠ lxbootBzimageSignature then .error (-efault)
      else
        let rmcodesec := sectors rmcodehdr.setupSects
        let rmcodelen := u32 (rmcodesec <<< 9 + 512)
        match bmalloc buf rmcodelen with
        | none => .error (-enomem)
        | some (rmcodebuf, code) =>
          let kernel := fileSeek kernel 0
          let (ret, code) := fileRead kernel (m 1) rmcodelen code
          if ret = 0 then .error (-efault)
          else
            let info :=
              { signature := rmcodehdr.header, bprotvers := rmcodehdr.version
                rmcodesec := rmcodesec, rmcodelen := rmcodelen, pmcodelen := 0
                rmcodehdr := rmHeader code 0x1f1, rmcodebuf := rmcodebuf }
            let (ret, rmcodehdr) := lxbootPrepareFields info
            if ret ≠ 0 then .error (-efault)
            else
              let pmcodelen := sub32 kernel.length rmcodelen
              let kernel := fileSeek kernel rmcodelen
              let (ret, _) := fileRead kernel (m 2) pmcodelen mem
              if ret = 0 then .error (-efault)
              else
                .ok { info with
                  rmcodehdr := { rmcodehdr with vidMode := 0xffff }
                  pmcodelen := pmcodelen }

/-- `lxboot_prepare_initrd`. -/
def lxbootPrepareInitrd (m : Bmalloc) (mem : Bytes) (initrd : File) (info : LxbootInfo) :
    Except ℤ LxbootInfo :=
  let (ret, _) := fileRead initrd m initrd.length mem
  if ret = 0 then .error (-efault)
  else
    .ok { info with
      rmcodehdr := { info.rmcodehdr with
        ramdiskImage := lxbootInitrdAddr
        ramdiskSize := initrd.length } }

/-- The part of `lxboot_boot` between opening the files and the jump. -/
def lxbootPrepare (hdr buf : Option (ℕ × Bytes)) (m : ℕ → Bmalloc) (mem mem' : Bytes)
    (kernel initrd : File) : Except ℤ LxbootInfo :=
  match lxbootPrepareKernel hdr buf m mem kernel with
  | .error _ => .error (-efault)
  | .ok info =>
    match lxbootPrepareInitrd (m 3) mem' initrd info with
    | .error _ => .error (-efault)
    | .ok info => .ok info

/-! ### Ranges of addresses -/

def Block.range (b : Block) : Set ℕ := Set.Ico b.addr (b.addr + b.size)

def rmcode (info : LxbootInfo) : Set ℕ :=
  Set.Ico info.rmcodebuf.addr (info.rmcodebuf.addr + info.rmcodelen)

/-- The command line, with its terminator. -/
def cmdLine (info : LxbootInfo) (cmdline : List UInt8) : Set ℕ :=
  Set.Ico info.rmcodehdr.cmdLinePtr (info.rmcodehdr.cmdLinePtr + (cmdline.length + 1))

def pmcode (info : LxbootInfo) : Set ℕ :=
  Set.Ico lxbootKernelAddr (lxbootKernelAddr + info.pmcodelen)

def ramdisk (initrd : File) : Set ℕ :=
  Set.Ico lxbootInitrdAddr (lxbootInitrdAddr + initrd.length)

/-- The ranges are apart, and the first two lie in the object that is kept. -/
structure Apart (initrd : File) (cmdline : List UInt8) (info : LxbootInfo) : Prop where
  disjoint : [rmcode info, cmdLine info cmdline, pmcode info, ramdisk initrd].Pairwise Disjoint
  code : rmcode info ⊆ info.rmcodebuf.range
  cmdline : cmdLine info cmdline ⊆ info.rmcodebuf.range

variable {hdr buf : Option (ℕ × Bytes)} {m : ℕ → Bmalloc} {mem mem' holds : Bytes}
  {kernel initrd : File} {info info' : LxbootInfo} {place : Option (ℕ × Bytes)} {b : Block}
  {size : ℕ}

/-! ### What a preparation leaves -/

/-- An object has room for what is asked for, and 32 KiB at most. -/
lemma bmalloc_room (h : bmalloc place size = some (b, holds)) (hsize : size ≤ 2 ^ 31) :
    size ≤ b.size ∧ b.size ≤ 2 ^ 15 := by
  unfold bmalloc at h
  split at h
  · next index addr holds' hindex =>
    obtain ⟨rfl, -⟩ := Prod.mk.inj (Option.some_inj.mp h)
    refine ⟨?_, bmallocInfo_le index⟩
    have hle : size ≤ 2 ^ 15 := by
      by_contra hlt
      rw [bmallocCache_none (not_le.mp hlt) hsize] at hindex
      cases hindex
    obtain ⟨i, hi, hidx, hroom⟩ := bmallocIndex_room hle
    unfold bmallocCache at hindex
    rw [hidx, if_neg (not_lt.mpr (Int.natCast_nonneg i)), Int.toNat_natCast] at hindex
    rw [← Option.some_inj.mp hindex, bmallocInfo_eq i hi]
    exact hroom
  · cases h

/-- The command line goes behind the first `0x9800` bytes. -/
lemma prepareFields_ptr (h : (lxbootPrepareFields info).1 = 0) :
    ∃ off, 0x9800 ≤ off ∧ off < 2 ^ 16 ∧
      (lxbootPrepareFields info).2.cmdLinePtr = u32 (info.rmcodebuf.addr + off) := by
  have hne : ¬ (-enotsup : ℤ) = 0 := by decide
  unfold lxbootPrepareFields at h ⊢
  dsimp only at h ⊢
  by_cases h2 : 0x0202 ≤ info.bprotvers
  · rw [if_pos (show 0x0200 ≤ info.bprotvers by omega), if_pos h2] at h ⊢
    refine ⟨_, ?_, ?_, rfl⟩ <;> split_ifs <;> decide
  · rw [if_neg h2] at h
    split_ifs at h <;> exact absurd h hne

/-- What is prepared: an object that the code fits in, the place of the command line, and the
length of the kernel. -/
structure Prepared (kernel : File) (info : LxbootInfo) : Prop where
  room : info.rmcodelen ≤ info.rmcodebuf.size ∧ info.rmcodebuf.size ≤ 2 ^ 15
  ptr : ∃ off, 0x9800 ≤ off ∧ off < 2 ^ 16 ∧
    info.rmcodehdr.cmdLinePtr = u32 (info.rmcodebuf.addr + off)
  pmcodelen : info.pmcodelen = sub32 kernel.length info.rmcodelen

/-- The sectors are counted in a byte. -/
lemma rmcodelen_le {n : ℕ} (h : n < 256) :
    u32 (sectors n <<< 9 + 512) ≤ 2 ^ 31 := by
  rw [Nat.shiftLeft_eq]
  unfold u32 sectors
  split_ifs <;> omega

lemma prepareKernel_ok (h : lxbootPrepareKernel hdr buf m mem kernel = .ok info) :
    Prepared kernel info := by
  unfold lxbootPrepareKernel at h
  dsimp only at h
  split at h
  · cases h
  split at h
  · cases h
  split at h
  · cases h
  split at h
  · cases h
  next rmcodebuf code hbuf =>
    split at h
    · cases h
    split at h
    · cases h
    next hfields =>
      split at h
      · cases h
      · cases h
        refine ⟨bmalloc_room hbuf (rmcodelen_le ?_), prepareFields_ptr (not_not.mp hfields), rfl⟩
        exact UInt8.toNat_lt _

/-- The initial ramdisk changes only its own fields. -/
lemma prepareInitrd_ok {m : Bmalloc} (h : lxbootPrepareInitrd m mem initrd info = .ok info')
    (hp : Prepared kernel info) : Prepared kernel info' := by
  unfold lxbootPrepareInitrd at h
  dsimp only at h
  split at h
  · cases h
  · cases h
    exact ⟨hp.room, hp.ptr, hp.pmcodelen⟩

lemma prepare_ok (h : lxbootPrepare hdr buf m mem mem' kernel initrd = .ok info) :
    Prepared kernel info := by
  unfold lxbootPrepare at h
  split at h
  · cases h
  next info' hkernel =>
    split at h
    · cases h
    next info'' hinitrd =>
      cases h
      exact prepareInitrd_ok hinitrd (prepareKernel_ok hkernel)

/-! ### The calls of `file_read` -/

lemma prepareFields_status (info : LxbootInfo) :
    (lxbootPrepareFields info).1 = FileRead.lxbootPrepareFields info.bprotvers := by
  unfold lxbootPrepareFields FileRead.lxbootPrepareFields
  dsimp only
  by_cases h2 : 0x0202 ≤ info.bprotvers
  · rw [if_pos (show 0x0200 ≤ info.bprotvers by omega), if_pos h2, if_pos h2]
  · rw [if_neg h2, if_neg h2]
    split <;> rfl

/-- What `lxboot_prepare_kernel` returns. -/
def status : Except ℤ LxbootInfo → ℤ
  | .ok _ => 0
  | .error e => e

/-- The status is that of the calls of `file_read`. -/
theorem prepareKernel_status (hdr buf : Option (ℕ × Bytes)) (m : ℕ → Bmalloc) (mem : Bytes)
    (kernel : File) : ∃ code, status (lxbootPrepareKernel hdr buf m mem kernel) =
      (FileRead.lxbootPrepareKernel ((bmalloc hdr rmHeaderSize).map Prod.snd) code m mem
        kernel).1 := by
  unfold lxbootPrepareKernel FileRead.lxbootPrepareKernel
  cases bmalloc hdr rmHeaderSize with
  | none => exact ⟨none, rfl⟩
  | some res =>
    obtain ⟨-, rmcodehdr⟩ := res
    dsimp only [Option.map_some]
    set read := fileRead (fileSeek kernel 0x1f1) (m 0) rmHeaderSize rmcodehdr
    have hlen : u32 (sectors (rmHeader read.2 0).setupSects <<< 9 + 512) = rmcodeLen read.2 := rfl
    have hsig : (rmHeader read.2 0).header = header read.2 := rfl
    have hver : (rmHeader read.2 0).version = version read.2 := rfl
    refine ⟨(bmalloc buf (rmcodeLen read.2)).map Prod.snd, ?_⟩
    rw [hlen, hsig, hver]
    by_cases hread : read.1 = 0
    · rw [if_pos hread, if_pos hread]
      rfl
    rw [if_neg hread, if_neg hread]
    by_cases hheader : header read.2 ≠ lxbootBzimageSignature
    · rw [if_pos hheader, if_pos hheader]
      rfl
    rw [if_neg hheader, if_neg hheader]
    cases bmalloc buf (rmcodeLen read.2) with
    | none => rfl
    | some res =>
      dsimp only [Option.map_some]
      rw [prepareFields_status]
      dsimp only
      split_ifs <;> rfl

/-! ### Collisions -/

/-- The code lies in its object. -/
lemma Prepared.code (h : Prepared kernel info) : rmcode info ⊆ info.rmcodebuf.range :=
  Set.Ico_subset_Ico_right (Nat.add_le_add_left h.room.1 _)

/-- The command line begins outside the object, even where its address wraps around. -/
lemma Prepared.cmdLine_outside (h : Prepared kernel info) :
    info.rmcodehdr.cmdLinePtr ∉ info.rmcodebuf.range := by
  obtain ⟨off, hoff, hlt, heq⟩ := h.ptr
  have hsize := h.room.2
  rw [heq]
  rintro ⟨h1, h2⟩
  unfold u32 at h1 h2
  omega

/-- The kernel is apart from the initial ramdisk exactly if there are 15 MiB for it. -/
lemma pmcode_ramdisk_iff (h0 : 0 < initrd.length) :
    Disjoint (pmcode info) (ramdisk initrd) ↔ info.pmcodelen ≤ 0xf00000 := by
  unfold pmcode ramdisk lxbootKernelAddr lxbootInitrdAddr
  rw [Set.Ico_disjoint_Ico]
  omega

/-- **The ranges of a Linux boot are never as they should be**: however the kernel, the initial
ramdisk and the command line are, the command line is not in memory from `bmalloc`. -/
theorem not_apart (hdr buf : Option (ℕ × Bytes)) (m : ℕ → Bmalloc) (mem mem' : Bytes)
    (kernel initrd : File) (cmdline : List UInt8) (info : LxbootInfo)
    (h : lxbootPrepare hdr buf m mem mem' kernel initrd = .ok info) :
    ¬ Apart initrd cmdline info := by
  intro hapart
  have hptr : info.rmcodehdr.cmdLinePtr ∈ cmdLine info cmdline := ⟨le_rfl, by omega⟩
  exact (prepare_ok h).cmdLine_outside (hapart.cmdline hptr)

/-- A kernel of protocol 2.02, with one sector of setup code. -/
def bzImageByte (i : ℕ) : UInt8 :=
  if i = 0x1f1 then 1
  else if i < 0x202 then 0
  else [0x48, 0x64, 0x72, 0x53, 2, 2].getD (i - 0x202) 0

lemma bzImage_lt : 2048 < 2 ^ 32 := by decide

/-- A file with the kernel, at the start of an image. -/
def bzImage : File where
  node := ⟨{ smallSuper with bdev := { smallSuper.bdev with byte := bzImageByte } }, .isofs 0⟩
  offset := 0
  length := 2048
  length_lt := bzImage_lt

def heap : Option (ℕ × Bytes) := some (0x200000, fun _ => 0)

lemma bzImage_prepared : ∃ info,
    lxbootPrepare heap heap (fun _ => plenty) (fun _ => 0) (fun _ => 0) bzImage bzImage =
      .ok info := by
  have hok : (lxbootPrepare heap heap (fun _ => plenty) (fun _ => 0) (fun _ => 0) bzImage
      bzImage).isOk = true := by decide +kernel
  cases h : lxbootPrepare heap heap (fun _ => plenty) (fun _ => 0) (fun _ => 0) bzImage bzImage with
  | error e =>
    rw [h] at hok
    cases hok
  | ok info => exact ⟨info, rfl⟩

theorem not_apart_bzImage : ∃ info,
    lxbootPrepare heap heap (fun _ => plenty) (fun _ => 0) (fun _ => 0) bzImage bzImage =
        .ok info ∧ ¬Apart bzImage [] info := by
  obtain ⟨info, h⟩ := bzImage_prepared
  exact ⟨info, h, not_apart _ _ _ _ _ _ _ [] info h⟩

/-- Not even an empty command line is in memory from `bmalloc`. -/
theorem not_always_apart : ¬ ∀ info,
    lxbootPrepare heap heap (fun _ => plenty) (fun _ => 0) (fun _ => 0) bzImage bzImage =
      .ok info → Apart bzImage [] info := by
  intro hapart
  obtain ⟨info, h⟩ := bzImage_prepared
  exact (prepare_ok h).cmdLine_outside ((hapart info h).cmdline ⟨le_rfl, by simp⟩)

end Elfboot.Lxboot
