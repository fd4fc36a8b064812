import Elfboot.Ext2Read
import Elfboot.Loop
import Elfboot.Str

/-!
Looking a name up in an ext2 directory: `ext2fs_finddir` and what it makes a node from.

The walk over the records is not told where they end: the size it counts with never changes.
It goes on in the memory behind the directory until a record there has no size, or has a name
that is taken for the one looked up.
-/

namespace Elfboot.Ext2Dir

open Elfboot.Word Elfboot.Buffer Elfboot.Str Elfboot.Loop Elfboot.Super Elfboot.Ext2
  Elfboot.Ext2Read

/-- The part of `struct ext2_superblock` that is read. -/
structure Ext2Superblock where
  inodesPerGroup : ℕ
  inodeSize : ℕ

/-- The part of `struct fs_node` that is set here; `name` is what is copied to the name. -/
structure FsNode where
  name : List UInt8
  inode : ℕ
  length : ℕ
  priv : Bytes

def ext2BlkgrpDescSize : ℕ := 32

def sizeofFsNode : ℕ := 156

variable (sb : Superblock) (esb : Ext2Superblock)

/-- `ext2fs_inode_find`. The descriptor is on the stack, and holds `bdesc` at first. -/
def ext2fsInodeFind (m : Bmalloc) (bdesc : Bytes) (ino : ℕ) : Option Bytes :=
  match m.call 1 esb.inodeSize with
  | none => none
  | some inode =>
    let blkgrp := sub32 ino 1 / esb.inodesPerGroup
    let offset := if sb.blockSize < 2048 then sb.blockSize * 2 else sb.blockSize
    let offset := u64 (offset + u32 (ext2BlkgrpDescSize * blkgrp))
    let desc := superblockReadOffset sb (m.call 2) offset ext2BlkgrpDescSize bdesc
    if desc.1 ≠ 0 then none
    else
      let inoidx := sub32 ino 1 % esb.inodesPerGroup
      let offset := u32 (le32 desc.2 8 * sb.blockSize)
      let offset := u64 (offset + u32 (inoidx * esb.inodeSize))
      let found := superblockReadOffset sb (m.call 3) offset esb.inodeSize inode
      if found.1 ≠ 0 then none else some found.2

/-- `ext2fs_alloc_dent`. -/
def ext2fsAllocDent (m : Bmalloc) (bdesc : Bytes) (ino : ℕ) (name : List UInt8) :
    Option FsNode :=
  match m.call 0 sizeofFsNode with
  | none => none
  | some _ =>
    (ext2fsInodeFind sb esb m bdesc ino).map fun inode => ⟨name, ino, le32 inode 4, inode⟩

/-- A turn of the loop of `ext2fs_finddir`, for the record at `dpos`. The arguments of `strncmp`
are the other way round. -/
def finddirTurn (m : Bmalloc) (bdesc mem : Bytes) (name : List UInt8) (dpos : ℕ) :
    Option (Turn ℕ (Option FsNode)) :=
  let size := le16 mem (dpos + 4)
  if size = 0 then some (.leave none)
  else if strncmp mem (dpos + 8) name (mem (dpos + 6)).toNat ≠ 0 then
    some (.next (u32 (dpos + size)))
  else some (.leave (ext2fsAllocDent sb esb m bdesc (le32 mem dpos) name))

/-- `ext2fs_finddir`, for `k` turns at most. `dbeg` is what `bmalloc` gives for the directory,
with the memory behind it; `m` is what it gives to the read, and `m'` for the node. -/
def ext2fsFinddir (inode : Inode) (dbeg : Option Bytes) (m m' : Bmalloc) (bdesc : Bytes)
    (name : List UInt8) (k : ℕ) : Option (Option FsNode) :=
  match dbeg with
  | none => some none
  | some dbeg =>
    let size := inode.sizeLower
    let read := ext2fsInodeRead sb inode m 0 size dbeg
    if read.1 ≠ size then some none
    else if size = 0 then some none
    else loop (finddirTurn sb esb m' bdesc read.2 name) k 0

/-! ### Directories -/

/-- A record of a directory. -/
structure Dirent where
  inode : ℕ
  size : ℕ
  name : List UInt8
  room : 8 + name.length ≤ size

/-- The records lie in `b` from `pos` on, and end at `fin`. -/
def Lays (b : Bytes) : ℕ → List Dirent → ℕ → Prop
  | pos, [], fin => pos = fin
  | pos, r :: rs, fin =>
    le32 b pos = r.inode ∧ le16 b (pos + 4) = r.size ∧ (b (pos + 6)).toNat = r.name.length ∧
      Has b (pos + 8) r.name ∧ Lays b (pos + r.size) rs fin

/-- The record that a name stands for. -/
def right (rs : List Dirent) (name : List UInt8) : Option Dirent :=
  rs.find? fun r => r.inode ≠ 0 ∧ r.name = name

/-- The first record whose name the code takes for the one looked up. -/
def taken (rs : List Dirent) (name : List UInt8) : Option Dirent :=
  rs.find? fun r => agrees r.name name

/-- What is found is a node for the right record, or nothing when there is none. -/
def IsRight (rs : List Dirent) (name : List UInt8) (found : Option FsNode) : Prop :=
  match right rs name with
  | some r => ∃ node, found = some node ∧ node.inode = r.inode
  | none => found = none

/-- The walk from `pos` on comes to a record without a size, and takes none before. -/
inductive RunsOut (mem : Bytes) (name : List UInt8) : ℕ → Prop
  | stop {pos : ℕ} (h : le16 mem (pos + 4) = 0) : RunsOut mem name pos
  | step {pos : ℕ} (h : le16 mem (pos + 4) ≠ 0)
      (hname : strncmp mem (pos + 8) name (mem (pos + 6)).toNat ≠ 0)
      (hnext : RunsOut mem name (u32 (pos + le16 mem (pos + 4)))) : RunsOut mem name pos

/-- The memory from the directory on, when it has been read. -/
def loaded (sb : Superblock) (blocks : ℕ → ℕ) (size : ℕ) (dbeg : Bytes) : Bytes := fun i =>
  if i < size then fileBytes sb blocks i else dbeg i

/-- The disk can be read, and there is memory for a block. -/
structure Readable (inode : Inode) (m : Bmalloc) (blocks : ℕ → ℕ) : Prop where
  mapped : Mapped sb inode m blocks
  blocks : ∀ blk, ¬ BlockFails sb blk
  logs : sb.bdev.blockLogs ≤ sb.blockLogs
  memory : m.ok 0 sb.blockSize = true

variable {sb esb} {inode : Inode} {m : Bmalloc} {blocks : ℕ → ℕ} {mem bdesc : Bytes}
  {name : List UInt8} {rs : List Dirent} {pos fin k : ℕ} {found : Option FsNode}

/-! ### Reading -/

lemma readOffsetLoop_zero (hf : ∀ blk, ¬ BlockFails sb blk) (blkidx : ℕ) {n blkoff blkmod bufoff
    length : ℕ} {blkbuf buffer : Bytes} :
    (readOffsetLoop sb blkidx n blkoff blkmod bufoff length blkbuf buffer).1 = 0 := by
  induction n generalizing blkoff blkmod bufoff length blkbuf buffer with
  | zero => rfl
  | succ n ih =>
    obtain ⟨blkbuf', h⟩ := readBlock_some (hf (u64 (blkidx + blkoff))) blkbuf
    unfold readOffsetLoop
    rw [h]
    exact ih

lemma readOffset_zero (hf : ∀ blk, ¬ BlockFails sb blk) {bmalloc : ℕ → Option Bytes}
    {blkbuf : Bytes} (hm : bmalloc sb.blockSize = some blkbuf) (offset length : ℕ)
    (buffer : Bytes) : (superblockReadOffset sb bmalloc offset length buffer).1 = 0 := by
  unfold superblockReadOffset
  rw [hm]
  exact readOffsetLoop_zero hf _

/-- There is a node for any number, even one that no inode has. -/
lemma allocDent_some (sb : Superblock) (esb : Ext2Superblock) (hf : ∀ blk, ¬ BlockFails sb blk)
    (hm : ∀ i size, m.ok i size = true) (bdesc : Bytes) (ino : ℕ) (name : List UInt8) :
    ∃ node, ext2fsAllocDent sb esb m bdesc ino name = some node ∧ node.inode = ino := by
  have hcall : ∀ i size, m.call i size = some (m.holds i) := fun i size => if_pos (hm i size)
  unfold ext2fsAllocDent ext2fsInodeFind
  rw [hcall, hcall]
  dsimp only
  rw [if_neg (not_not.mpr (readOffset_zero hf (hcall 2 _) _ _ _)),
    if_neg (not_not.mpr (readOffset_zero hf (hcall 3 _) _ _ _))]
  exact ⟨_, rfl, rfl⟩

/-- The directory is read, and the memory behind it stays as it was. -/
lemma Readable.read (h : Readable sb inode m blocks) (dbeg : Bytes) :
    ext2fsInodeRead sb inode m 0 inode.sizeLower dbeg =
      (inode.sizeLower, loaded sb blocks inode.sizeLower dbeg) := by
  have hlt := inode.size_lt
  have hB := sb.blockSize_pos
  have hcall : m.call 0 sb.blockSize = some (m.holds 0) := if_pos h.memory
  unfold ext2fsInodeRead
  rw [hcall]
  dsimp only
  have hdiv : div 0 sb.blockSize = (0, 0) := by
    rw [div, archDiv_eq hB, Nat.zero_div, Nat.zero_mod]
  rw [hdiv]
  dsimp only
  rcases Nat.eq_zero_or_pos inode.sizeLower with h0 | hpos
  · rw [h0, readLoop_done, sub32_of_le le_rfl (by decide)]
    refine Prod.ext rfl (funext fun i => ?_)
    show dbeg i = loaded sb blocks 0 dbeg i
    rw [loaded, if_neg (Nat.not_lt_zero i)]
  · have hturns : u64 ((div (sub32 inode.sizeLower 1) sb.blockSize).1 + 1) =
        (inode.sizeLower - 1) / sb.blockSize + 1 := by
      have hle : (inode.sizeLower - 1) / sb.blockSize ≤ inode.sizeLower - 1 :=
        Nat.div_le_self _ _
      rw [sub32_of_le (b := 1) hpos hlt, div, archDiv_eq hB]
      exact u64_of_lt (by omega)
    obtain ⟨buffer', heq, hcopied⟩ := readLoop_ok 0 h.logs h.blocks h.mapped
      ((inode.sizeLower - 1) / sb.blockSize + 1) 0 0 0 0 inode.sizeLower (m.holds 0) dbeg rfl hB
      (by omega) (by omega)
    have hmin : min inode.sizeLower
        (((inode.sizeLower - 1) / sb.blockSize + 1) * sb.blockSize - 0) = inode.sizeLower :=
      (turns_enough 0 hB hpos).mpr (by
        rw [Nat.zero_add]
        exact Nat.mod_lt _ hB)
    rw [hmin] at heq hcopied
    rw [hturns, heq, Nat.sub_self, sub32_of_le (Nat.zero_le _) hlt, Nat.sub_zero]
    refine Prod.ext rfl (funext fun i => ?_)
    refine (hcopied i).trans ?_
    unfold loaded
    refine if_ctx_congr (by omega) (fun _ => ?_) fun _ => rfl
    exact congrArg _ (by omega)

/-! ### Walking -/

lemma Lays.le (h : Lays mem pos rs fin) : pos ≤ fin := by
  induction rs generalizing pos with
  | nil => exact le_of_eq h
  | cons r rs ih => exact (Nat.le_add_right _ _).trans (ih h.2.2.2.2)

variable (sb esb m bdesc name) in
/-- A turn takes the record it is at, or passes it. -/
lemma turn_record {r : Dirent} (hlay : Lays mem pos (r :: rs) fin) (hfin : fin < 2 ^ 32) :
    finddirTurn sb esb m bdesc mem name pos =
      if agrees r.name name then some (.leave (ext2fsAllocDent sb esb m bdesc r.inode name))
      else some (.next (pos + r.size)) := by
  obtain ⟨hino, hsize, hlen, hname, hrest⟩ := hlay
  have hroom := r.room
  have hle := hrest.le
  have hcmp := strncmp_has hname name
  unfold finddirTurn
  dsimp only
  rw [hino, hsize, hlen, if_neg (by omega), u32_of_lt (by omega)]
  by_cases h : agrees r.name name = true
  · rw [if_neg (not_not.mpr (hcmp.mpr h)), if_pos h]
  · rw [if_pos (hcmp.not.mpr h), if_neg h]

variable (sb esb m bdesc name found) in
/-- **The walk** ends at the first record it takes, or it comes to the end of the records. -/
lemma ends_records (hlay : Lays mem pos rs fin) (hfin : fin < 2 ^ 32) :
    Ends (finddirTurn sb esb m bdesc mem name) pos found ↔
      match taken rs name with
      | some q => found = ext2fsAllocDent sb esb m bdesc q.inode name
      | none => Ends (finddirTurn sb esb m bdesc mem name) fin found := by
  induction rs generalizing pos with
  | nil =>
    obtain rfl : pos = fin := hlay
    exact Iff.rfl
  | cons r rs ih =>
    have hturn := turn_record sb esb m bdesc name hlay hfin
    unfold taken at ih ⊢
    rw [List.find?_cons]
    cases h : agrees r.name name with
    | true =>
      rw [if_pos h] at hturn
      exact ends_leave hturn
    | false =>
      rw [if_neg (by rw [h]; exact Bool.false_ne_true)] at hturn
      rw [ends_next hturn]
      exact ih hlay.2.2.2.2

lemma turn_stop (h : le16 mem (pos + 4) = 0) :
    finddirTurn sb esb m bdesc mem name pos = some (.leave none) := if_pos h

lemma turn_pass (h : le16 mem (pos + 4) ≠ 0)
    (hname : strncmp mem (pos + 8) name (mem (pos + 6)).toNat ≠ 0) :
    finddirTurn sb esb m bdesc mem name pos = some (.next (u32 (pos + le16 mem (pos + 4)))) :=
  (if_neg h).trans (if_pos hname)

/-- Behind the records nothing is found exactly if the walk runs out. -/
lemma ends_none_iff (hnode : ∀ ino, ext2fsAllocDent sb esb m bdesc ino name ≠ none) :
    Ends (finddirTurn sb esb m bdesc mem name) pos none ↔ RunsOut mem name pos := by
  constructor
  · rintro ⟨k, hk⟩
    induction k generalizing pos with
    | zero => cases hk
    | succ k ih =>
      by_cases hsize : le16 mem (pos + 4) = 0
      · exact .stop hsize
      · by_cases hcmp : strncmp mem (pos + 8) name (mem (pos + 6)).toNat = 0
        · have hturn : finddirTurn sb esb m bdesc mem name pos = some (.leave _) :=
            (if_neg hsize).trans (if_neg (not_not.mpr hcmp))
          rw [loop_leave hturn] at hk
          exact absurd (Option.some_inj.mp hk) (hnode _)
        · rw [loop_next (turn_pass hsize hcmp)] at hk
          exact .step hsize hcmp (ih hk)
  · intro h
    induction h with
    | stop h => exact (ends_leave (turn_stop h)).mpr rfl
    | step h hname hnext ih => exact (ends_next (turn_pass h hname)).mpr ih

/-! ### When the right record is found -/

/-- A node for the right record is found, or that there is none. -/
def FindsRight (sb : Superblock) (esb : Ext2Superblock) (inode : Inode) (dbeg : Option Bytes)
    (m m' : Bmalloc) (bdesc : Bytes) (rs : List Dirent) (name : List UInt8) : Prop :=
  ∃ k found, ext2fsFinddir sb esb inode dbeg m m' bdesc name k = some found ∧
    IsRight rs name found

/-- No record is right that would have to be read without memory for the directory; the first
record that is taken has the number of the right one; and where no record is right none is taken
either, and behind the directory the walk runs out. -/
def Decides (sb : Superblock) (inode : Inode) (blocks : ℕ → ℕ) (dbeg : Option Bytes)
    (rs : List Dirent) (name : List UInt8) : Prop :=
  match right rs name, dbeg with
  | some r, some _ => ∃ q, taken rs name = some q ∧ q.inode = r.inode
  | some _, none => False
  | none, some dbeg =>
    inode.sizeLower = 0 ∨ taken rs name = none ∧
      RunsOut (loaded sb blocks inode.sizeLower dbeg) name inode.sizeLower
  | none, none => True

/-- The records are in the buffer when the directory has been read. -/
lemma Lays.loaded (hlay : Lays (fileBytes sb blocks) pos rs fin) (dbeg : Bytes) :
    Lays (loaded sb blocks fin dbeg) pos rs fin := by
  have hsame : ∀ i < fin, Ext2Dir.loaded sb blocks fin dbeg i = fileBytes sb blocks i :=
    fun i hi => if_pos hi
  induction rs generalizing pos with
  | nil => exact hlay
  | cons r rs ih =>
    obtain ⟨hino, hsize, hlen, hname, hrest⟩ := hlay
    have hle := hrest.le
    have hroom := r.room
    refine ⟨?_, ?_, ?_, hname.congr fun i hi => hsame _ (by omega), ih hrest⟩
    · rw [← hino]
      exact le32_congr fun k hk => hsame _ (by omega)
    · rw [← hsize, le16, le16, hsame _ (by omega), hsame _ (by omega)]
    · rw [← hlen, hsame _ (by omega)]

lemma finddir_loop (esb : Ext2Superblock) (h : Readable sb inode m blocks)
    (hpos : 0 < inode.sizeLower) (dbeg : Bytes) (m' : Bmalloc) (bdesc : Bytes)
    (name : List UInt8) (k : ℕ) :
    ext2fsFinddir sb esb inode (some dbeg) m m' bdesc name k =
      loop (finddirTurn sb esb m' bdesc (loaded sb blocks inode.sizeLower dbeg) name) k 0 := by
  unfold ext2fsFinddir
  dsimp only
  rw [h.read, if_neg (not_not.mpr rfl), if_neg hpos.ne']

/-- A right record is taken, if no other one is taken before. -/
lemma taken_of_right {r : Dirent} (h : right rs name = some r) : ∃ q, taken rs name = some q := by
  have hmem := List.mem_of_find?_eq_some h
  have hright := List.find?_some h
  rw [decide_eq_true_eq] at hright
  refine Option.isSome_iff_exists.mp (List.find?_isSome.mpr ⟨r, hmem, ?_⟩)
  rw [hright.2]
  exact agrees_self name

/-- Without memory for the directory there is no node, whatever the directory holds. -/
lemma findsRight_none (sb : Superblock) (esb : Ext2Superblock) (inode : Inode) (m m' : Bmalloc)
    (bdesc : Bytes) (rs : List Dirent) (name : List UInt8) :
    FindsRight sb esb inode none m m' bdesc rs name ↔ right rs name = none := by
  have hright : IsRight rs name none ↔ right rs name = none := by
    unfold IsRight
    cases right rs name with
    | none => exact iff_of_true rfl rfl
    | some r =>
      refine iff_of_false ?_ (Option.some_ne_none r)
      rintro ⟨node, h, -⟩
      cases h
  rw [← hright]
  constructor
  · rintro ⟨k, found, heq, hr⟩
    rwa [← Option.some_inj.mp heq] at hr
  · exact fun h => ⟨0, none, rfl, h⟩

/-- An empty directory has no records, and is not walked. -/
lemma findsRight_empty (esb : Ext2Superblock) (h : Readable sb inode m blocks)
    (h0 : inode.sizeLower = 0) (hlay : Lays mem 0 rs inode.sizeLower) (dbeg : Bytes)
    (m' : Bmalloc) (bdesc : Bytes) (name : List UInt8) :
    rs = [] ∧ FindsRight sb esb inode (some dbeg) m m' bdesc rs name := by
  have hnil : rs = [] := by
    cases rs with
    | nil => rfl
    | cons r rs =>
      have hle := hlay.2.2.2.2.le
      have hroom := r.room
      omega
  refine ⟨hnil, 0, none, ?_, hnil ▸ rfl⟩
  unfold ext2fsFinddir
  dsimp only
  rw [h.read, if_neg (not_not.mpr rfl), if_pos h0]

/-- In a directory with records the walk decides. -/
lemma findsRight_iff_ends (esb : Ext2Superblock) (h : Readable sb inode m blocks)
    (hpos : 0 < inode.sizeLower) (dbeg : Bytes) (m' : Bmalloc) (bdesc : Bytes)
    (rs : List Dirent) (name : List UInt8) :
    FindsRight sb esb inode (some dbeg) m m' bdesc rs name ↔
      ∃ found, Ends (finddirTurn sb esb m' bdesc (loaded sb blocks inode.sizeLower dbeg) name)
        0 found ∧ IsRight rs name found := by
  unfold FindsRight Ends
  simp only [finddir_loop esb h hpos]
  exact ⟨fun ⟨k, found, heq, hr⟩ => ⟨found, ⟨k, heq⟩, hr⟩,
    fun ⟨found, ⟨k, heq⟩, hr⟩ => ⟨k, found, heq, hr⟩⟩

section Walk

variable (hnode : ∀ ino name, ∃ node, ext2fsAllocDent sb esb m bdesc ino name = some node ∧
  node.inode = ino)
include hnode

lemma allocDent_ne (ino : ℕ) : ext2fsAllocDent sb esb m bdesc ino name ≠ none := by
  intro h
  obtain ⟨node, hdent, -⟩ := hnode ino name
  rw [h] at hdent
  cases hdent

/-- The walk finds the right record if the first one that is taken has its number. -/
lemma walk_some {r : Dirent} (hlay : Lays mem pos rs fin) (hfin : fin < 2 ^ 32)
    (hr : right rs name = some r) :
    (∃ found, Ends (finddirTurn sb esb m bdesc mem name) pos found ∧ IsRight rs name found) ↔
      ∃ q, taken rs name = some q ∧ q.inode = r.inode := by
  obtain ⟨q, hq⟩ := taken_of_right hr
  obtain ⟨node, hdent, hino⟩ := hnode q.inode name
  simp only [fun found => ends_records sb esb m bdesc name found hlay hfin, IsRight, hr, hq,
    hdent]
  constructor
  · rintro ⟨found, rfl, node', h, hino'⟩
    obtain rfl := Option.some_inj.mp h
    exact ⟨q, rfl, hino.symm.trans hino'⟩
  · rintro ⟨q', h, hq'⟩
    obtain rfl := Option.some_inj.mp h
    exact ⟨_, rfl, node, rfl, hino.trans hq'⟩

/-- Where no record is right the walk takes none and runs out. -/
lemma walk_none (hlay : Lays mem pos rs fin) (hfin : fin < 2 ^ 32) (hr : right rs name = none) :
    (∃ found, Ends (finddirTurn sb esb m bdesc mem name) pos found ∧ IsRight rs name found) ↔
      taken rs name = none ∧ RunsOut mem name fin := by
  simp only [fun found => ends_records sb esb m bdesc name found hlay hfin, IsRight, hr]
  cases taken rs name with
  | some q =>
    refine iff_of_false ?_ fun h => by cases h.1
    rintro ⟨found, h, rfl⟩
    exact allocDent_ne hnode _ h.symm
  | none =>
    rw [and_iff_right rfl, ← ends_none_iff (allocDent_ne hnode)]
    exact ⟨fun ⟨found, h, h0⟩ => h0 ▸ h, fun h => ⟨none, h, rfl⟩⟩

end Walk

/-- **A name is looked up right** exactly if there is memory for the directory, the records
before the right one that are taken for it have its number, and, where no record is right, none
is taken and the walk runs out behind the directory. -/
theorem finddir_iff (sb : Superblock) (esb : Ext2Superblock) (inode : Inode)
    (dbeg : Option Bytes) (m m' : Bmalloc) (bdesc : Bytes) (blocks : ℕ → ℕ)
    (hread : Readable sb inode m blocks) (hm' : ∀ i size, m'.ok i size = true)
    (rs : List Dirent) (hlay : Lays (fileBytes sb blocks) 0 rs inode.sizeLower)
    (name : List UInt8) :
    FindsRight sb esb inode dbeg m m' bdesc rs name ↔ Decides sb inode blocks dbeg rs name := by
  cases dbeg with
  | none =>
    rw [findsRight_none]
    unfold Decides
    cases right rs name with
    | none => exact iff_of_true rfl trivial
    | some r => exact iff_of_false (Option.some_ne_none r) id
  | some dbeg =>
    rcases Nat.eq_zero_or_pos inode.sizeLower with h0 | hpos
    · obtain ⟨rfl, hfinds⟩ := findsRight_empty esb hread h0 hlay dbeg m' bdesc name
      exact iff_of_true hfinds (Or.inl h0)
    · have hnode := allocDent_some sb esb hread.blocks hm' bdesc
      have hload := hlay.loaded dbeg
      rw [findsRight_iff_ends esb hread hpos]
      unfold Decides
      cases hr : right rs name with
      | some r => exact walk_some hnode hload inode.size_lt hr
      | none =>
        rw [walk_none hnode hload inode.size_lt hr]
        exact (or_iff_right hpos.ne').symm

/-- A disk with a directory of one record in its second block, for the name of the directory
itself. -/
def dotSuper : Superblock :=
  { smallSuper with
    bdev := { smallSuper.bdev with
      byte := fun i =>
        if i < 1024 then 0 else [2, 0, 0, 0, 12, 0, 1, 2, 46, 0, 0, 0].getD (i - 1024) 0 } }

def dotInode : Inode := { twoBlocks with sizeLower := 12, size_lt := by decide }

def dotRecords : List Dirent := [⟨2, 12, [46], by decide⟩]

lemma dot_readable : Readable dotSuper dotInode plenty (· + 1) := by
  refine ⟨fun k hk => ?_, fun _ => Bool.false_ne_true, by decide, rfl⟩
  obtain rfl : k = 0 := by
    have h12 : k * 1024 < 12 := hk
    omega
  exact ⟨by decide, fun _ => rfl⟩

lemma dot_lays : Lays (fileBytes dotSuper (· + 1)) 0 dotRecords dotInode.sizeLower := by
  refine ⟨by decide, by decide, by decide, fun i hi => ?_, rfl⟩
  obtain rfl : i = 0 := by simpa using hi
  exact (by decide : fileBytes dotSuper (· + 1) 8 = 46)

theorem finddir_iff_dot :
    FindsRight dotSuper ⟨8, 128⟩ dotInode (some fun _ => 0) plenty plenty (fun _ => 0) dotRecords
        [46] ↔
      Decides dotSuper dotInode (· + 1) (some fun _ => 0) dotRecords [46] :=
  finddir_iff dotSuper ⟨8, 128⟩ dotInode _ plenty plenty _ (· + 1) dot_readable
    (fun _ _ => rfl) dotRecords dot_lays [46]

/-- A name that begins with a dot is taken for the directory. -/
theorem not_finddir_prefix :
    ¬FindsRight dotSuper ⟨8, 128⟩ dotInode (some fun _ => 0) plenty plenty (fun _ => 0) dotRecords
      [46, 97] := by
  rintro ⟨k, found, heq, hright⟩
  obtain rfl : found = none := hright
  rw [finddir_loop _ dot_readable (by decide)] at heq
  obtain ⟨node, hnode, -⟩ := allocDent_some dotSuper ⟨8, 128⟩ dot_readable.blocks
    (m := plenty) (fun _ _ => rfl) (fun _ => 0) 2 [46, 97]
  have htaken : taken dotRecords [46, 97] = some ⟨2, 12, [46], by decide⟩ := rfl
  have hends := (ends_records _ _ _ _ _ _ (dot_lays.loaded fun _ => 0) (by decide)).mp ⟨k, heq⟩
  rw [htaken] at hends
  dsimp only at hends
  rw [hnode] at hends
  cases hends

end Elfboot.Ext2Dir
