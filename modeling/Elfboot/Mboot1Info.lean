import Elfboot.Errno
import Elfboot.MemblockBounds
import Elfboot.WordWrites
import Elfboot.Str

/-!
The information that is handed to a multiboot kernel: `mboot1_prepare_info`.

It stands in a page as the allocator gives it. The flags are or-ed into the word that is there, and
the command line is copied behind the structure, however long it is.
-/

namespace Elfboot.Mboot1Info

open Elfboot.Errno Elfboot.Buffer Elfboot.Word Elfboot.Str Elfboot.WordWrites Elfboot.Memblock
open Elfboot.MemblockBounds Elfboot.Mm

abbrev mboot1InfoMemory : ℕ := 0x1
abbrev mboot1InfoBootdev : ℕ := 0x2
abbrev mboot1InfoCmdline : ℕ := 0x4

/-- The size of `struct multiboot_info`. -/
abbrev mbinfoSize : ℕ := 120

/-- The fields of `boot_params` that the kernel is told. -/
structure BootParams where
  memoryLower : UInt32
  memoryUpper : UInt32
  diskDrive : UInt32

/-- The members of `struct mboot1_info` that are set here. -/
structure Info where
  align : ℕ
  mbinfo : ℕ

/-- The memory the pages are in, the table of the free ones, and the pointer `multiboot_data`. -/
structure State where
  mem : Bytes
  kernmem : MemblockType
  multibootData : ℕ
  info : Info

def orFlags (mem : Bytes) (mbi flag : ℕ) : Bytes := put32 mem mbi (le32 mem mbi ||| flag)

def mboot1PrepareMem (bp : BootParams) (mem : Bytes) (mbi : ℕ) : Bytes :=
  let mem := put32 mem (mbi + 4) bp.memoryLower.toNat
  let mem := put32 mem (mbi + 8) bp.memoryUpper.toNat
  orFlags mem mbi mboot1InfoMemory

def mboot1PrepareDev (bp : BootParams) (mem : Bytes) (mbi : ℕ) : Bytes :=
  orFlags (put32 mem (mbi + 12) bp.diskDrive.toNat) mbi mboot1InfoBootdev

/-- `mboot1_prepare_cmd`, for the command line at `c`. -/
def mboot1PrepareCmd (cmdline : Bytes) (c n : ℕ) (mem : Bytes) (mbi multibootData : ℕ) :
    Bytes × ℕ :=
  let cmdsize := u32 (strlen cmdline n c + 1)
  let mem := put32 mem (mbi + 16) (u32 multibootData)
  let mem := memcpy mem multibootData cmdline c cmdsize
  (orFlags mem mbi mboot1InfoCmdline, u32 (multibootData + roundUp cmdsize 4))

/-- `mboot1_prepare_info`. The steps behind these three do nothing, and none of them fails. -/
def mboot1PrepareInfo (bp : BootParams) (cmdline : Bytes) (c n : ℕ) (s : State) : ℤ × State :=
  let (kernmem, mbinfo) := memblockAllocKernel s.kernmem pageSize pageSize
  let s := { s with kernmem := kernmem, info := { s.info with mbinfo := mbinfo } }
  if mbinfo = 0 then (-enomem, s)
  else
    let multibootData := u32 (mbinfo + mbinfoSize)
    let mem := mboot1PrepareMem bp s.mem mbinfo
    let mem := mboot1PrepareDev bp mem mbinfo
    let (mem, multibootData) := mboot1PrepareCmd cmdline c n mem mbinfo multibootData
    (0, { s with
      mem := mem
      multibootData := multibootData
      info := { s.info with align := roundUp (u32 (mbinfo + mbinfoSize)) 4 } })

/-! ### The page -/

variable {t : MemblockType} {p q d : ℕ} {b mem : Bytes}

lemma find_end {size align start stop : ℕ} (hstop : stop < 2 ^ 32) (n i : ℕ)
    (h : findLoop t size align start stop n i ≠ 0) :
    findLoop t size align start stop n i + size ≤ stop := by
  induction n generalizing i with
  | zero => exact absurd rfl h
  | succ n ih =>
    unfold findLoop at h ⊢
    dsimp only at h ⊢
    split_ifs at h ⊢ with hc
    · obtain ⟨hlt, hsize⟩ := hc
      have hend : clamp (t.regions i).stop start stop ≤ stop := Nat.min_le_right _ _
      rw [sub32, Nat.mod_eq_sub_mod (by omega), Nat.mod_eq_of_lt (by omega)] at hsize
      omega
    · exact ih (i + 1) h

/-- A page that is allocated ends below the end of the address space. -/
lemma page_end (h : (memblockAllocKernel t pageSize pageSize).2 ≠ 0) :
    (memblockAllocKernel t pageSize pageSize).2 + pageSize < 2 ^ 32 := by
  obtain ⟨base, hbase⟩ : ∃ base, base =
      memblockFindInRange t pageSize pageSize memoryLimit memblockInvld := ⟨_, rfl⟩
  have hfind : base ≠ 0 → base + pageSize ≤ memblockInvld := by
    rw [hbase]
    exact find_end (by decide) t.cnt 0
  have hval : (memblockAllocKernel t pageSize pageSize).2 = 0 ∨
      (memblockAllocKernel t pageSize pageSize).2 = base ∧ base ≠ 0 := by
    unfold memblockAllocKernel memblockAllocRange
    rw [← hbase]
    dsimp only
    by_cases h0 : base = 0
    · rw [if_pos h0]
      exact .inl rfl
    · rw [if_neg h0]
      dsimp only
      split_ifs
      · exact .inr ⟨rfl, h0⟩
      · exact .inl rfl
  obtain ⟨heq, h0⟩ := hval.resolve_left h
  rw [heq]
  exact Nat.lt_of_le_of_lt (hfind h0) (by decide)

lemma le32_memcpy (h : q + 4 ≤ d) (src : Bytes) (s n : ℕ) :
    le32 (memcpy b d src s n) q = le32 b q :=
  le32_congr fun k hk => if_neg fun hin => by omega

lemma flags_orFlags {flag : ℕ} (hf : flag < 2 ^ 32) :
    le32 (orFlags b p flag) p = le32 b p ||| flag :=
  le32_put32 (Nat.or_lt_two_pow (le32_lt b p) hf) b p

lemma orFlags_apart (h : p + 4 ≤ q) (flag : ℕ) : le32 (orFlags b p flag) q = le32 b q :=
  le32_put32_apart (.inl h) b _

lemma orFlags_off {i : ℕ} (h : p + 4 ≤ i) (flag : ℕ) : orFlags b p flag i = b i :=
  put32_off (fun hin => by unfold InWord at hin; omega) b _

/-- The flags beside those that were there. -/
lemma prepare_flags (mem : Bytes) (bp : BootParams) (cmdline : Bytes) (c n : ℕ) (h : p + 120 ≤ d) :
    le32 (mboot1PrepareCmd cmdline c n
        (mboot1PrepareDev bp (mboot1PrepareMem bp mem p) p) p d).1 p =
      le32 mem p ||| mboot1InfoMemory ||| mboot1InfoBootdev ||| mboot1InfoCmdline := by
  have hapart : ∀ {b : Bytes} {k v : ℕ}, 4 ≤ k → le32 (put32 b (p + k) v) p = le32 b p :=
    fun hk => le32_put32_apart (.inr (by omega)) _ _
  rw [mboot1PrepareCmd, flags_orFlags (by decide), le32_memcpy (by omega), hapart (by decide),
    mboot1PrepareDev, flags_orFlags (by decide), hapart (by decide), mboot1PrepareMem,
    flags_orFlags (by decide), hapart (by decide), hapart (by decide)]

/-- The pointer to the command line. -/
lemma prepare_pointer (mem cmdline : Bytes) (c n : ℕ) (h : p + 120 ≤ d) (hd : d < 2 ^ 32) :
    le32 (mboot1PrepareCmd cmdline c n mem p d).1 (p + 16) = d := by
  rw [mboot1PrepareCmd, orFlags_apart (by omega), le32_memcpy (by omega), u32_of_lt hd,
    le32_put32 hd]

/-- A command line that is not too long is copied whole. -/
lemma prepare_text {cmdline : Bytes} {c n : ℕ} {l : List UInt8} (hcmd : CStr cmdline c l)
    (hn : l.length ≤ n) (hl : l.length + 1 < 2 ^ 32) (h : p + 120 ≤ d) :
    CStr (mboot1PrepareCmd cmdline c n mem p d).1 d l := by
  have hcopy : ∀ i ≤ l.length,
      (mboot1PrepareCmd cmdline c n mem p d).1 (d + i) = cmdline (c + i) := by
    intro i hi
    rw [mboot1PrepareCmd, strlen_eq hcmd hn, u32_of_lt hl]
    dsimp only
    rw [orFlags_off (by omega), memcpy, if_pos (by omega), Nat.add_sub_cancel_left]
  refine CStr.of_get (fun i hi => ?_) (fun x hx => hcmd.ne_zero hx) ?_
  · rw [hcopy i hi.le, hcmd.get hi]
  · rw [hcopy _ le_rfl, hcmd.end]

/-! ### Two runs -/

/-- The flags are those that the structure has, and it ends in its page with the command line. -/
structure Prepared (s : State) (l : List UInt8) : Prop where
  flags : le32 s.mem s.info.mbinfo = mboot1InfoMemory ||| mboot1InfoBootdev ||| mboot1InfoCmdline
  text : CStr s.mem (le32 s.mem (s.info.mbinfo + 16)) l
  fits : s.info.mbinfo + mbinfoSize ≤ le32 s.mem (s.info.mbinfo + 16) ∧
    le32 s.mem (s.info.mbinfo + 16) + l.length + 1 ≤ s.info.mbinfo + pageSize

/-- The page that is to be allocated has none but the three lowest bits in its first word. -/
def CleanPage (s : State) : Prop :=
  le32 s.mem (memblockAllocKernel s.kernmem pageSize pageSize).2 < 8

lemma or_flags_iff (v : ℕ) : v ||| mboot1InfoMemory ||| mboot1InfoBootdev ||| mboot1InfoCmdline =
    mboot1InfoMemory ||| mboot1InfoBootdev ||| mboot1InfoCmdline ↔ v < 8 := by
  have hseven : v ||| mboot1InfoMemory ||| mboot1InfoBootdev ||| mboot1InfoCmdline = v ||| 7 := by
    rw [Nat.or_assoc, Nat.or_assoc]
    rfl
  rw [hseven]
  constructor
  · intro heq
    have hle : v ≤ v ||| 7 := Nat.left_le_or
    rw [heq] at hle
    exact Nat.lt_succ_of_le hle
  · intro hlt
    have hall : ∀ v < 8, v ||| 7 = 7 := by decide
    exact hall v hlt

variable {bp : BootParams} {cmdline : Bytes} {c n : ℕ} {l : List UInt8} {s s' s₁ s₂ s₁' s₂' : State}

/-- **One run** that succeeds. -/
lemma prepared_iff (hcmd : CStr cmdline c l) (hn : l.length ≤ n)
    (h : mboot1PrepareInfo bp cmdline c n s = (0, s')) :
    Prepared s' l ↔ CleanPage s ∧ mbinfoSize + l.length + 1 ≤ pageSize := by
  have hinfo : mbinfoSize = 120 := rfl
  have hpageSize : pageSize = 4096 := rfl
  unfold CleanPage
  rw [mboot1PrepareInfo] at h
  obtain ⟨page, hpage⟩ : ∃ page, page = memblockAllocKernel s.kernmem pageSize pageSize := ⟨_, rfl⟩
  have hend := page_end (t := s.kernmem)
  rw [← hpage] at h hend ⊢
  obtain ⟨t, p⟩ := page
  dsimp only at h hend ⊢
  by_cases h0 : p = 0
  · rw [if_pos h0] at h
    have hfail : -enomem = 0 := congrArg Prod.fst h
    exact absurd hfail (by decide)
  rw [if_neg h0] at h
  have hsize : p + 4096 < 2 ^ 32 := hend h0
  have hdata : u32 (p + mbinfoSize) = p + 120 := u32_of_lt (by omega)
  rw [hdata] at h
  obtain rfl := (Prod.mk.inj h).2
  have hflags := prepare_flags s.mem bp cmdline c n (le_refl (p + 120))
  have hpointer := prepare_pointer (p := p) (mboot1PrepareDev bp
    (mboot1PrepareMem bp s.mem p) p) cmdline c n le_rfl (by omega : p + 120 < 2 ^ 32)
  constructor
  · rintro ⟨hright, -, -, hfits⟩
    dsimp only at hright hfits
    rw [hflags, or_flags_iff] at hright
    rw [hpointer] at hfits
    exact ⟨hright, by omega⟩
  · rintro ⟨hclean, hfits⟩
    have hlen : l.length + 1 < 2 ^ 32 := by omega
    refine ⟨hflags.trans ((or_flags_iff _).2 hclean), ?_, ?_⟩
    · dsimp only
      rw [hpointer]
      exact prepare_text hcmd hn hlen le_rfl
    · dsimp only
      rw [hpointer]
      omega

/-- **Two runs** leave the same flags, and what fits in the page, if and only if no other flag was
set in either page, and the command line is not too long. -/
theorem prepared_both_iff (hcmd : CStr cmdline c l) (hn : l.length ≤ n)
    (h₁ : mboot1PrepareInfo bp cmdline c n s₁ = (0, s₁'))
    (h₂ : mboot1PrepareInfo bp cmdline c n s₂ = (0, s₂')) :
    Prepared s₁' l ∧ Prepared s₂' l ↔
      CleanPage s₁ ∧ CleanPage s₂ ∧ mbinfoSize + l.length + 1 ≤ pageSize := by
  rw [prepared_iff hcmd hn h₁, prepared_iff hcmd hn h₂]
  exact ⟨fun h => ⟨h.1.1, h.2.1, h.1.2⟩, fun h => ⟨⟨h.1, h.2.2⟩, h.2.1, h.2.2⟩⟩

/-- One range above the first megabyte. -/
def oneRange : MemblockType := memblockAdd (emptyTable fun _ => ⟨0, 0⟩) 0x200000 0x100000

/-- The memory is filled with a byte. -/
def filled (v : UInt8) : State where
  mem _ := v
  kernmem := oneRange
  multibootData := 0
  info := ⟨0, 0⟩

def bootParams : BootParams := ⟨639, 129920, 0x80⟩

/-- The command line `quiet`. -/
def quiet : Bytes := fun i => (chars ['q', 'u', 'i', 'e', 't']).getD i 0

/-- Where a page is allocated, nothing fails. -/
lemma prepareInfo_succeeds (h : (memblockAllocKernel s.kernmem pageSize pageSize).2 ≠ 0) :
    ∃ s', mboot1PrepareInfo bp cmdline c n s = (0, s') := by
  rw [mboot1PrepareInfo]
  dsimp only
  rw [if_neg h]
  exact ⟨_, rfl⟩

lemma page_oneRange : (memblockAllocKernel oneRange pageSize pageSize).2 = 0x200000 := by
  decide +kernel

lemma prepareInfo_filled (v : UInt8) :
    ∃ s', mboot1PrepareInfo bootParams quiet 0 5 (filled v) = (0, s') := by
  have hkernmem : (filled v).kernmem = oneRange := rfl
  have hpage : (memblockAllocKernel (filled v).kernmem pageSize pageSize).2 ≠ 0 := by
    rw [hkernmem, page_oneRange]
    decide
  exact prepareInfo_succeeds hpage

lemma prepared_both_iff_filled : ∃ s₁ s₂ : State,
    mboot1PrepareInfo bootParams quiet 0 5 (filled 0) = (0, s₁) ∧
      mboot1PrepareInfo bootParams quiet 0 5 (filled 0xff) = (0, s₂) ∧
      (Prepared s₁ (chars ['q', 'u', 'i', 'e', 't']) ∧
          Prepared s₂ (chars ['q', 'u', 'i', 'e', 't']) ↔
        CleanPage (filled 0) ∧ CleanPage (filled 0xff) ∧ mbinfoSize + 5 + 1 ≤ pageSize) := by
  obtain ⟨s₁, h₁⟩ := prepareInfo_filled 0
  obtain ⟨s₂, h₂⟩ := prepareInfo_filled 0xff
  exact ⟨s₁, s₂, h₁, h₂, prepared_both_iff (l := chars ['q', 'u', 'i', 'e', 't']) (by decide)
    (by decide) h₁ h₂⟩

/-- In a page that is not clear flags are set that nothing stands for. -/
lemma not_prepared_filled : ∃ s' : State,
    mboot1PrepareInfo bootParams quiet 0 5 (filled 0xff) = (0, s') ∧
      ¬ Prepared s' (chars ['q', 'u', 'i', 'e', 't']) := by
  obtain ⟨s', hrun⟩ := prepareInfo_filled 0xff
  have hcmd : CStr quiet 0 (chars ['q', 'u', 'i', 'e', 't']) := by decide
  refine ⟨s', hrun, fun h => ?_⟩
  have hclean : le32 (filled 0xff).mem (memblockAllocKernel oneRange pageSize pageSize).2 < 8 :=
    ((prepared_iff hcmd (by decide) hrun).1 h).1
  rw [page_oneRange] at hclean
  revert hclean
  decide +kernel

end Elfboot.Mboot1Info
