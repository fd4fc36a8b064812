import Elfboot.ShortRead

/-!
What the callers of `file_read` take for success.

They go on if the result is not zero. A read from an ISO 9660 file that fails returns a
negative code, and one from an ext2 file that is short returns how short it is, so both are
taken for success; only an ext2 read that gets nothing at all is not.
-/

namespace Elfboot.FileCaught

open Elfboot.Word Elfboot.Buffer Elfboot.Super Elfboot.Ext2 Elfboot.Ext2Read Elfboot.FileRead
open Elfboot.ShortRead

/-- The bytes of a file from an offset on, where its file system looks for them. -/
def bytesFrom (node : FsNode) (m : Bmalloc) (offset : ℕ) : Bytes :=
  match node.read with
  | .isofs ino => fun i => node.sb.bdev.byte (blkoff node.sb ino offset + i)
  | .ext2fs inode => fun i =>
    fileBytes node.sb (turnBlock node.sb inode m (offset / node.sb.blockSize))
      (offset % node.sb.blockSize + i)

/-- The bytes that are asked for, as far as the file has them. -/
def len (c : ReadCall) : ℕ := min c.nbytes (c.file.length - c.file.offset)

/-- The bytes that are asked for are in the buffer afterwards, whatever the buffers held
before. -/
def Delivers (c : ReadCall) : Prop :=
  Fills (fun junk => fileRead c.file (withFirst c.m junk) c.nbytes) (len c)
    (bytesFrom c.file.node c.m c.file.offset)

/-- The range can be read as a whole, or (on ext2) nothing of it. -/
def AllOrNothing (node : FsNode) (m : Bmalloc) (offset n : ℕ) : Prop :=
  match node.read with
  | .isofs ino => IsofsWhole node.sb m (blkoff node.sb ino offset) n
  | .ext2fs inode => Ext2Whole node.sb inode m offset n ∨
      m.ok 0 node.sb.blockSize = true ∧
        ¬ There node.sb (turnBlock node.sb inode m (offset / node.sb.blockSize) 0)

/-- Nothing is asked for, or the read is not partial. -/
def Clear (c : ReadCall) : Prop :=
  len c = 0 ∨ AllOrNothing c.file.node c.m c.file.offset (len c)

lemma int32_eq_zero {n : ℕ} (h : n < 2 ^ 32) : int32 n = 0 ↔ n = 0 := by
  unfold int32
  split_ifs
  · exact Int.natCast_eq_zero
  · omega

lemma vfsRead_lt {node : FsNode} {m : Bmalloc} {offset n : ℕ} (hlt : n < 2 ^ 32)
    (buffer : Bytes) : (vfsRead node m offset n buffer).1 < 2 ^ 32 := by
  obtain ⟨sb, rd⟩ := node
  cases rd with
  | isofs ino =>
    simp only [vfsRead, isofsRead]
    split_ifs
    · exact Nat.mod_lt _ (by decide)
    · exact hlt
  | ext2fs inode =>
    simp only [vfsRead, ext2fsInodeRead]
    split
    · exact Nat.mod_lt _ (by decide)
    · exact Nat.mod_lt _ (by decide)

lemma vfsRead_iff {node : FsNode} {m : Bmalloc} {offset n : ℕ} (ho : offset < 2 ^ 32) (hn : 1 ≤ n)
    (hlt : n < 2 ^ 32) (buffer : Bytes) :
    Fills (fun junk => vfsRead node (withFirst m junk) offset n) n (bytesFrom node m offset) ∨
        (vfsRead node m offset n buffer).1 = 0 ↔ AllOrNothing node m offset n := by
  obtain ⟨sb, rd⟩ := node
  cases rd with
  | isofs ino =>
    have hne : (vfsRead ⟨sb, .isofs ino⟩ m offset n buffer).1 ≠ 0 := isofsRead_ne_zero hn ino _ _
    rw [or_iff_left hne]
    exact isofsRead_fills_iff ino ho hn hlt
  | ext2fs inode => exact or_congr (inodeRead_fills_iff hn hlt) (inodeRead_zero_iff hn hlt buffer)

/-- Inside the file, `file_read` asks the file system for `len` bytes. -/
lemma fileRead_eq {c : ReadCall} (hn : len c ≠ 0) (m : Bmalloc) (buffer : Bytes) :
    fileRead c.file m c.nbytes buffer =
      (int32 (vfsRead c.file.node m c.file.offset (len c) buffer).1,
        (vfsRead c.file.node m c.file.offset (len c) buffer).2) := by
  have hlt := c.file.length_lt
  unfold len at hn ⊢
  unfold fileRead
  rw [sub32_of_le (by omega) hlt]

/-- **A call of `file_read`** delivers what is asked for or returns zero exactly if the read is
not partial. -/
lemma caught_iff (c : ReadCall) (buffer : Bytes) :
    Delivers c ∨ (fileRead c.file c.m c.nbytes buffer).1 = 0 ↔ Clear c := by
  unfold Clear
  by_cases hz : len c = 0
  · refine iff_of_true (.inl fun junk buffer i hi => ?_) (.inl hz)
    omega
  have hlen : len c ≤ c.file.length - c.file.offset := min_le_right _ _
  have hlt := c.file.length_lt
  have hfills : Delivers c ↔ _ := fills_congr fun junk b => congrArg Prod.snd (fileRead_eq hz _ b)
  have hzero : (fileRead c.file c.m c.nbytes buffer).1 = 0 ↔
      (vfsRead c.file.node c.m c.file.offset (len c) buffer).1 = 0 := by
    rw [fileRead_eq hz]
    exact int32_eq_zero (vfsRead_lt (by omega) buffer)
  rw [or_iff_right hz, hfills, hzero]
  exact vfsRead_iff (by omega) (by omega) (by omega) buffer

/-! ### The callers -/

/-- What a caller notes about a call of `file_read`, and what its result is then. -/
structure Noted (ret : ℤ) (c : ReadCall) : Prop where
  on : ∃ buffer, c.on = false ↔ (fileRead c.file c.m c.nbytes buffer).1 = 0
  error : c.on = false → ret ≠ 0

lemma noted_off {ret : ℤ} {file : File} {m : Bmalloc} {nbytes : ℕ} {buffer : Bytes}
    (h : (fileRead file m nbytes buffer).1 = 0) (hret : ret ≠ 0) :
    Noted ret ⟨file, m, nbytes, false⟩ :=
  ⟨⟨buffer, iff_of_true rfl h⟩, fun _ => hret⟩

lemma noted_on {ret : ℤ} {file : File} {m : Bmalloc} {nbytes : ℕ} {buffer : Bytes}
    (h : (fileRead file m nbytes buffer).1 ≠ 0) : Noted ret ⟨file, m, nbytes, true⟩ :=
  ⟨⟨buffer, iff_of_false Bool.true_eq_false_eq_False h⟩, fun h => absurd h (by simp)⟩

lemma loader_noted (config : Option Bytes) (m : Bmalloc) (parse : Bytes → ℤ) (file : File) :
    ∀ c ∈ (loaderInitBootEntries config m parse file).2,
      Noted (loaderInitBootEntries config m parse file).1 c := by
  unfold loaderInitBootEntries
  cases config with
  | none => simp
  | some config =>
    simp only
    split_ifs with h
    · simpa using noted_off h (by decide)
    · simpa using noted_on h
    · simpa using noted_on h

lemma module_noted (mod : Bool) (buffer : Option Bytes) (m : Bmalloc) (load : Bytes → ℤ)
    (file : File) : ∀ c ∈ (moduleReadFile mod buffer m load file).2,
      Noted (moduleReadFile mod buffer m load file).1 c := by
  unfold moduleReadFile
  split_ifs
  · simp
  cases buffer with
  | none => simp
  | some buffer =>
    simp only
    split_ifs with h
    · simpa using noted_off h (by decide)
    · simpa using noted_on h
    · simpa using noted_on h

lemma lxboot_noted (rmcodehdr rmcodebuf : Option Bytes) (m : ℕ → Bmalloc) (mem : Bytes)
    (kernel : File) : ∀ c ∈ (lxbootPrepareKernel rmcodehdr rmcodebuf m mem kernel).2,
      Noted (lxbootPrepareKernel rmcodehdr rmcodebuf m mem kernel).1 c := by
  unfold lxbootPrepareKernel
  cases rmcodehdr with
  | none => simp
  | some rmcodehdr =>
    cases rmcodebuf with
    | none =>
      simp only
      split_ifs with h0
      · simpa using noted_off h0 (by decide)
      · simpa using noted_on h0
      · simpa using noted_on h0
    | some rmcodebuf =>
      simp only
      split_ifs with h0 _ h1 _ h2
      · simpa using noted_off h0 (by decide)
      · simpa using noted_on h0
      · simpa using ⟨noted_off h1 (by decide), noted_on h0⟩
      · simpa using ⟨noted_on h1, noted_on h0⟩
      · simpa using ⟨noted_off h2 (by decide), noted_on h1, noted_on h0⟩
      · simpa using ⟨noted_on h2, noted_on h1, noted_on h0⟩

lemma run_noted (file : File) (caller : Caller) :
    ∀ c ∈ (caller.run file).2, Noted (caller.run file).1 c := by
  cases caller with
  | loader config m parse => exact loader_noted config m parse file
  | module mod buffer m load => exact module_noted mod buffer m load file
  | lxboot rmcodehdr rmcodebuf m mem => exact lxboot_noted rmcodehdr rmcodebuf m mem file

/-- **Failed and short reads are caught** by a caller exactly if each of its reads is not
partial: whatever is asked for can be read as a whole, or (on ext2) nothing of it. -/
theorem reads_caught_iff (file : File) (caller : Caller) :
    (∀ c ∈ (caller.run file).2, ¬ Delivers c → c.on = false ∧ (caller.run file).1 ≠ 0) ↔
      ∀ c ∈ (caller.run file).2, Clear c := by
  refine forall₂_congr fun c hc => ?_
  obtain ⟨⟨buffer, hon⟩, herr⟩ := run_noted file caller c hc
  rw [← caught_iff c buffer, or_iff_not_imp_left, ← hon]
  constructor
  · exact fun h hd => (h hd).1
  · exact fun h hd => ⟨h hd, herr (h hd)⟩

/-- A file of 100 bytes on a device that reads nothing. -/
def unreadable : File where
  node := ⟨{ kib with bdev := { kib.bdev with fails := fun _ _ => true } }, .isofs 1⟩
  offset := 0
  length := 100
  length_lt := by decide

/-- The configuration file cannot be read, and what is in the buffer is parsed. -/
theorem not_reads_caught : ¬ ∀ (file : File) (caller : Caller),
    ∀ c ∈ (caller.run file).2, ¬ Delivers c → c.on = false ∧ (caller.run file).1 ≠ 0 := by
  intro h
  have hret : (fileRead unreadable plenty unreadable.length fun _ => 0).1 ≠ 0 := by decide +kernel
  have hrun : (⟨unreadable, plenty, unreadable.length, true⟩ : ReadCall) ∈
      (Caller.run unreadable (.loader (some fun _ => 0) plenty fun _ => 0)).2 := by
    simp only [Caller.run, loaderInitBootEntries, if_neg hret]
    exact List.mem_singleton_self _
  have hclear : ¬ Clear ⟨unreadable, plenty, unreadable.length, true⟩ := by
    intro hc
    rcases hc with hz | hwhole
    · exact absurd hz (by decide)
    · exact hwhole.reads 1 (by decide) (by decide) rfl
  have hd : ¬ Delivers ⟨unreadable, plenty, unreadable.length, true⟩ := fun hd =>
    hclear ((caught_iff _ fun _ => 0).mp (.inl hd))
  exact absurd (h _ _ _ hrun hd).1 (by decide)

end Elfboot.FileCaught
