import Elfboot.Loop
import Elfboot.Str
import Elfboot.Super

/-!
Looking a name up in an ISO 9660 directory: `isofs_finddir`.

The directory is read into memory sector by sector, and the walk over its records counts the
sectors only where one is padded. There it goes on behind the directory, and so it does where
there is no padding; only a directory of one padded sector is walked over to its end.
-/

namespace Elfboot.IsoDir

open Elfboot.Errno Elfboot.Word Elfboot.Buffer Elfboot.Str Elfboot.Loop Elfboot.Super

/-- The part of `struct fs_node` that is set here; `name` is what is copied to the name. -/
structure FsNode where
  name : List UInt8
  inode : ℕ
  length : ℕ
  flags : ℕ

def fsDirectory : ℕ := 2

/-- The size of `struct iso_directory_record`. -/
def sizeofRecord : ℕ := 33

variable (sb : Superblock)

/-- The loop of `superblock_read_blocks`, with the number of blocks left to read. -/
def readBlocksLoop (blkidx : ℕ) : ℕ → (blk : ℕ) → (buffer : Bytes) → ℤ × Bytes
  | 0, _, buffer => (0, buffer)
  | n + 1, blk, buffer =>
    let off := u32 (blk * sb.blockSize)
    match superblockReadBlock sb (u64 (blkidx + blk)) fun i => buffer (off + i) with
    | none => (-efault, buffer)
    | some part =>
      readBlocksLoop blkidx n (blk + 1) fun i => if i < off then buffer i else part (i - off)

def superblockReadBlocks (blkidx blknum : ℕ) (buffer : Bytes) : ℤ × Bytes :=
  readBlocksLoop sb blkidx blknum 0 buffer

/-- `isofs_alloc_dent`, when `fs_node_alloc` has memory. -/
def isofsAllocDent (alloc : Bool) (mem : Bytes) (dent : ℕ) (name : List UInt8) : Option FsNode :=
  if alloc then
    let flags := if mem (dent + 25) &&& 2 ≠ 0 then fsDirectory else 0
    some ⟨name, le32 mem (dent + 2), le32 mem (dent + 10), flags⟩
  else none

variable (mem : Bytes) (name : List UInt8)

/-- The `name_len` that names are compared with. -/
def nameLen (dpos : ℕ) : ℕ :=
  let nameLen := (mem (dpos + 32)).toNat
  if mem (dpos + 25) &&& 2 = 0 then
    let nameLen := sub32 nameLen 2
    if strchr name 46 = false ∧ mem (u32 (dpos + 33 + sub32 nameLen 1)) = 46 then
      sub32 nameLen 1
    else nameLen
  else nameLen

/-- Whether the comparison takes the record at `dpos`. The arguments of `strncmp` are the other
way round. -/
def takes (dpos : ℕ) : Bool := strncmp mem (dpos + 33) name (nameLen mem name dpos) = 0

/-- The variables of the loop of `isofs_finddir`. -/
structure Walk where
  size : ℕ
  dent : ℕ
  dpos : ℕ

/-- A turn of the loop of `isofs_finddir`. The sectors are counted in records. -/
def finddirTurn (alloc : Bool) (s : Walk) : Option (Turn Walk (Option FsNode)) :=
  if s.size = 0 then some (.leave none)
  else if mem s.dpos = 0 then
    let dent := u32 (s.dent + sizeofRecord * sb.blockSize)
    some (.next { size := sub32 s.size sb.blockSize, dent := dent, dpos := dent })
  else if takes mem name s.dpos then some (.leave (isofsAllocDent alloc mem s.dpos name))
  else some (.next { s with dpos := u32 (s.dpos + (mem s.dpos).toNat) })

/-- `isofs_finddir` on the inode and length of a node, for `k` turns at most. `room` is how much
`bmalloc` has memory for, and `dbeg` what is there and behind it. What does not fit is not read. -/
def isofsFinddir (inode length : ℕ) (room : Option ℕ) (dbeg : Bytes) (alloc : Bool) (k : ℕ) :
    Option (Option FsNode) :=
  let size := u32 length
  match room with
  | none => some none
  | some room =>
    if room < size then none
    else
      let numblk := size >>> sb.blockLogs
      let read := superblockReadBlocks sb inode numblk dbeg
      if read.1 ≠ 0 then some none
      else loop (finddirTurn sb read.2 name alloc) k ⟨size, 0, 0⟩

/-! ### Directories -/

/-- A record of a directory. -/
structure Record where
  length : ℕ
  extent : ℕ
  size : ℕ
  flags : UInt8
  name : List UInt8
  room : 33 + name.length ≤ length

def span (rs : List Record) : ℕ := (rs.map Record.length).sum

/-- The records lie in `b` from `pos` on. -/
def Lays (b : Bytes) : ℕ → List Record → Prop
  | _, [] => True
  | pos, r :: rs =>
    (b pos).toNat = r.length ∧ le32 b (pos + 2) = r.extent ∧ le32 b (pos + 10) = r.size ∧
      b (pos + 25) = r.flags ∧ (b (pos + 32)).toNat = r.name.length ∧ Has b (pos + 33) r.name ∧
      Lays b (pos + r.length) rs

/-- The sectors, of `n` bytes each, lie in `b` from `start` on: no record crosses the end of
one, and they are padded with zeros. -/
def LaysSectors (b : Bytes) (n : ℕ) : ℕ → List (List Record) → Prop
  | _, [] => True
  | start, rs :: rest =>
    Lays b start rs ∧ span rs ≤ n ∧ (∀ i, span rs ≤ i → i < n → b (start + i) = 0) ∧
      LaysSectors b n (start + n) rest

/-- A directory of the image, whose sectors are the blocks of the file system. -/
structure Directory where
  extent : ℕ
  sectors : List (List Record)
  extent_lt : extent < 2 ^ 32
  length_lt : sectors.length * sb.blockSize < 2 ^ 32
  sector : 2 ^ 11 ≤ sb.blockSize
  lays : LaysSectors (fun i => sb.bdev.byte (extent * sb.blockSize + i)) sb.blockSize 0 sectors

variable {sb} (d : Directory sb)

def Directory.length : ℕ := d.sectors.length * sb.blockSize

def Directory.records : List Record := d.sectors.flatten

/-- The list without an ending. -/
def strip (fin l : List UInt8) : List UInt8 :=
  if fin <:+ l then l.take (l.length - fin.length) else l

/-- The identifier of a record, to be compared with a name: of a file it is without `;1`, and
without the dot behind it where the name has none. -/
def Record.ident (r : Record) (name : List UInt8) : List UInt8 :=
  if r.flags &&& 2 = 0 then
    let base := strip (chars [';', '1']) r.name
    if 46 ∈ name then base else strip (chars ['.']) base
  else r.name

/-- The record that a name stands for. -/
def right (name : List UInt8) : Option Record := d.records.find? fun r => r.ident name = name

/-- What is found is a node for the right record, or nothing when there is none. -/
def IsRight (name : List UInt8) (found : Option FsNode) : Prop :=
  match right d name with
  | some r => ∃ node, found = some node ∧ node.inode = r.extent ∧ node.length = r.size
  | none => found = none

/-- The records up to the first padding. -/
def lead (n : ℕ) : List (List Record) → List Record
  | [] => []
  | rs :: rest => if span rs = n then rs ++ lead n rest else rs

/-- The first of the records from `pos` on that the comparison takes. -/
def taken (mem : Bytes) (name : List UInt8) : ℕ → List Record → Option Record
  | _, [] => none
  | pos, r :: rs => if takes mem name pos then some r else taken mem name (pos + r.length) rs

/-- The memory from the directory on, when it has been read. -/
def loaded (dbeg : Bytes) : Bytes := fun i =>
  if i < d.length then sb.bdev.byte (d.extent * sb.blockSize + i) else dbeg i

/-- The disk can be read. -/
structure Readable (sb : Superblock) : Prop where
  blocks : ∀ blk, ¬ BlockFails sb blk
  logs : sb.bdev.blockLogs ≤ sb.blockLogs

variable {d} {mem mem' dbeg : Bytes} {name : List UInt8} {r : Record} {rs rs' : List Record}
  {secs : List (List Record)} {n pos size dent blk k : ℕ} {found : Option FsNode} {alloc : Bool}

/-! ### Reading -/

/-- A block that is read to an offset. -/
lemma blockBytes_off (sb : Superblock) (blk off : ℕ) (buffer : Bytes) :
    (fun i => if i < off then buffer i
      else blockBytes sb blk (fun i => buffer (off + i)) (i - off)) =
      memcpy buffer off sb.bdev.byte (blk * sb.blockSize) sb.blockSize := by
  funext i
  unfold blockBytes memcpy
  by_cases h : i < off
  · rw [if_pos h, if_neg (by omega)]
  · rw [if_neg h]
    refine if_ctx_congr (by omega) (fun _ => rfl) fun _ => ?_
    exact congrArg buffer (by omega)

lemma readBlocksLoop_eq (h : Readable sb) {extent : ℕ} (hextent : extent < 2 ^ 32)
    (hn : (blk + n) * sb.blockSize < 2 ^ 32) (buffer : Bytes) :
    ∃ buffer', readBlocksLoop sb extent n blk buffer = (0, buffer') ∧
      Copied buffer buffer' (blk * sb.blockSize) sb.bdev.byte ((extent + blk) * sb.blockSize)
        (n * sb.blockSize) := by
  have hB := sb.blockSize_pos
  have hB' := sb.blockSize_lt
  induction n generalizing blk buffer with
  | zero =>
    refine ⟨buffer, rfl, ?_⟩
    rw [Nat.zero_mul]
    exact copied_zero _ _ _ _
  | succ n ih =>
    have hsucc : (blk + (n + 1)) * sb.blockSize =
        blk * sb.blockSize + n * sb.blockSize + sb.blockSize := by ring
    have hblk : blk ≤ blk * sb.blockSize := Nat.le_mul_of_pos_right _ hB
    have hdev : (extent + blk) * sb.blockSize < 2 ^ 64 := by
      have hmul : (extent + blk) * sb.blockSize ≤ 2 ^ 33 * 2 ^ 16 :=
        Nat.mul_le_mul (by omega) hB'.le
      omega
    unfold readBlocksLoop
    dsimp only
    rw [u64_of_lt (by omega), u32_of_lt (by omega), readBlock_eq h.logs hdev (h.blocks _)]
    dsimp only
    rw [blockBytes_off]
    have hnext : (blk + 1 + n) * sb.blockSize < 2 ^ 32 := by
      rw [show blk + 1 + n = blk + (n + 1) by omega]
      exact hn
    obtain ⟨buffer', heq, hcopied⟩ := ih hnext
      (memcpy buffer (blk * sb.blockSize) sb.bdev.byte ((extent + blk) * sb.blockSize)
        sb.blockSize)
    refine ⟨buffer', heq, ?_⟩
    rw [← Nat.add_assoc, Nat.succ_mul, Nat.succ_mul] at hcopied
    rw [Nat.succ_mul, Nat.add_comm (n * sb.blockSize)]
    exact Copied.piece (fun _ _ => rfl) hcopied

/-- The directory is read, and the memory behind it stays as it was. -/
lemma readBlocks_eq (h : Readable sb) (d : Directory sb) (dbeg : Bytes) :
    superblockReadBlocks sb d.extent (d.length >>> sb.blockLogs) dbeg = (0, loaded d dbeg) := by
  have hlen : d.length >>> sb.blockLogs = d.sectors.length := by
    rw [Nat.shiftRight_eq_div_pow]
    exact Nat.mul_div_cancel _ (Nat.two_pow_pos _)
  have hblocks : (0 + d.sectors.length) * sb.blockSize < 2 ^ 32 := by
    rw [Nat.zero_add]
    exact d.length_lt
  obtain ⟨buffer', heq, hcopied⟩ := readBlocksLoop_eq h d.extent_lt hblocks dbeg
  unfold superblockReadBlocks
  rw [hlen, heq]
  refine Prod.ext rfl (funext fun i => (hcopied i).trans ?_)
  rw [Nat.zero_mul, Nat.zero_add]
  exact if_congr (and_iff_right (Nat.zero_le i)) rfl rfl

/-! ### The records that are walked over -/

lemma span_cons (r : Record) (rs : List Record) : span (r :: rs) = r.length + span rs :=
  List.sum_cons

lemma span_append (rs rs' : List Record) : span (rs ++ rs') = span rs + span rs' := by
  unfold span
  rw [List.map_append, List.sum_append]

lemma Lays.congr (h : Lays mem pos rs) (hb : ∀ i, pos ≤ i → i < pos + span rs → mem' i = mem i) :
    Lays mem' pos rs := by
  induction rs generalizing pos with
  | nil => trivial
  | cons r rs ih =>
    obtain ⟨hlen, hextent, hsize, hflags, hname, hhas, hrest⟩ := h
    have hroom := r.room
    rw [span_cons] at hb
    refine ⟨?_, ?_, ?_, ?_, ?_, hhas.congr fun i hi => hb _ (by omega) (by omega),
      ih hrest fun i h1 h2 => hb i (by omega) (by omega)⟩
    · rw [← hlen, hb _ (by omega) (by omega)]
    · rw [← hextent]
      exact le32_congr fun k hk => hb _ (by omega) (by omega)
    · rw [← hsize]
      exact le32_congr fun k hk => hb _ (by omega) (by omega)
    · rw [← hflags, hb _ (by omega) (by omega)]
    · rw [← hname, hb _ (by omega) (by omega)]

lemma Lays.append (h : Lays mem pos rs) (h' : Lays mem (pos + span rs) rs') :
    Lays mem pos (rs ++ rs') := by
  induction rs generalizing pos with
  | nil => exact h'
  | cons r rs ih =>
    obtain ⟨hlen, hextent, hsize, hflags, hname, hhas, hrest⟩ := h
    rw [span_cons, ← Nat.add_assoc] at h'
    exact ⟨hlen, hextent, hsize, hflags, hname, hhas, ih hrest h'⟩

/-- The records up to the first padding lie behind each other, up to the end of the directory or
to the padding. -/
lemma LaysSectors.lead (h : LaysSectors mem n pos secs) :
    Lays mem pos (lead n secs) ∧ (span (lead n secs) = secs.length * n ∨
      span (lead n secs) < secs.length * n ∧ mem (pos + span (lead n secs)) = 0) := by
  induction secs generalizing pos with
  | nil => exact ⟨trivial, Or.inl (Nat.zero_mul n).symm⟩
  | cons rs rest ih =>
    obtain ⟨hlay, hle, hpad, hrest⟩ := h
    have hmul : (rs :: rest).length * n = rest.length * n + n := by
      rw [List.length_cons, Nat.succ_mul]
    rw [hmul]
    by_cases hfull : span rs = n
    · obtain ⟨hlays, hend⟩ := ih hrest
      rw [IsoDir.lead, if_pos hfull, span_append, ← Nat.add_assoc, hfull]
      refine ⟨hlay.append (hfull ▸ hlays), hend.imp (by omega) ?_⟩
      exact fun hend => ⟨by omega, hend.2⟩
    · rw [IsoDir.lead, if_neg hfull]
      exact ⟨hlay, Or.inr ⟨by omega, hpad _ le_rfl (by omega)⟩⟩

/-! ### Walking -/

/-- The node for a record. -/
def Record.node (r : Record) (name : List UInt8) : FsNode :=
  ⟨name, r.extent, r.size, if r.flags &&& 2 ≠ 0 then fsDirectory else 0⟩

/-- A record has a length. -/
lemma Lays.ne (hlay : Lays mem pos (r :: rs)) : mem pos ≠ 0 := by
  intro h0
  have hlen := hlay.1
  have hroom := r.room
  rw [h0] at hlen
  exact absurd hlen (by simp; omega)

/-- A turn takes the record it is at, or passes it. -/
lemma turn_record (sb : Superblock) (name : List UInt8) (dent : ℕ) (hlay : Lays mem pos (r :: rs))
    (hpos : pos + r.length < 2 ^ 32) (hsize : size ≠ 0) :
    finddirTurn sb mem name true ⟨size, dent, pos⟩ =
      if takes mem name pos then some (.leave (some (r.node name)))
      else some (.next ⟨size, dent, pos + r.length⟩) := by
  have hne := hlay.ne
  obtain ⟨hlen, hextent, hsz, hflags, -, -, -⟩ := hlay
  unfold finddirTurn isofsAllocDent Record.node
  dsimp only
  rw [if_neg hsize, if_neg hne, hlen, u32_of_lt hpos, hextent, hsz, hflags, if_pos rfl]

/-- **The walk** ends at the first record it takes, or it comes to the end of the records. -/
lemma ends_records (sb : Superblock) (name : List UInt8) (dent : ℕ) (found : Option FsNode)
    (hlay : Lays mem pos rs)
    (hpos : pos + span rs < 2 ^ 32) (hsize : size ≠ 0) :
    Ends (finddirTurn sb mem name true) ⟨size, dent, pos⟩ found ↔
      match taken mem name pos rs with
      | some q => found = some (q.node name)
      | none => Ends (finddirTurn sb mem name true) ⟨size, dent, pos + span rs⟩ found := by
  induction rs generalizing pos with
  | nil => exact Iff.rfl
  | cons r rs ih =>
    rw [span_cons, ← Nat.add_assoc] at hpos
    have hturn := turn_record sb name dent hlay (by omega) hsize
    unfold taken
    rw [span_cons, ← Nat.add_assoc]
    by_cases h : takes mem name pos = true
    · rw [if_pos h] at hturn ⊢
      exact ends_leave hturn
    · rw [if_neg h] at hturn ⊢
      rw [ends_next hturn]
      exact ih hlay.2.2.2.2.2.2 hpos

lemma turn_done (sb : Superblock) (mem : Bytes) (name : List UInt8) (alloc : Bool) :
    finddirTurn sb mem name alloc ⟨0, dent, pos⟩ = some (.leave none) := if_pos rfl

lemma turn_padding (sb : Superblock) (name : List UInt8) (alloc : Bool) (hsize : size ≠ 0)
    (h0 : mem pos = 0) : finddirTurn sb mem name alloc ⟨size, dent, pos⟩ =
      some (.next ⟨sub32 size sb.blockSize, u32 (dent + sizeofRecord * sb.blockSize),
        u32 (dent + sizeofRecord * sb.blockSize)⟩) := by
  unfold finddirTurn
  rw [if_neg hsize, if_pos h0]

/-! ### Behind the directory -/

/-- Memory that looks like a record at `pos` that every name is compared with in no byte, and
where no string ends. -/
def astray (pos : ℕ) (e : UInt8) : Bytes := fun i => if i = pos + 32 then 2 else e

lemma astray_off {i : ℕ} {e : UInt8} (hi : i < 32) : astray pos e (pos + i) = e :=
  if_neg (by omega)

lemma loaded_behind (h : d.length ≤ n) : loaded d dbeg n = dbeg n := if_neg (by omega)

lemma le32_astray (h : d.length ≤ pos) {i : ℕ} (hi : i + 3 < 32) (e : UInt8) :
    le32 (loaded d (astray pos e)) (pos + i) = e.toNat * 16843009 := by
  have hbyte : ∀ j < 4, loaded d (astray pos e) (pos + i + j) = e := by
    intro j hj
    rw [loaded_behind (by omega), Nat.add_assoc, astray_off (by omega)]
  unfold le32
  rw [hbyte 1 (by decide), hbyte 2 (by decide), hbyte 3 (by decide)]
  have h0 := hbyte 0 (by decide)
  rw [Nat.add_zero] at h0
  rw [h0]
  omega

/-- The walk takes what looks like a record. -/
lemma ends_astray (h : d.length ≤ pos) (hpos : pos + 33 < 2 ^ 32) (hsize : size ≠ 0) {e : UInt8}
    (he : e ≠ 0) (hflags : e &&& 2 = 0) :
    Ends (finddirTurn sb (loaded d (astray pos e)) name true) ⟨size, dent, pos⟩ found ↔
      found = some ⟨name, e.toNat * 16843009, e.toNat * 16843009, 0⟩ := by
  have hfirst : loaded d (astray pos e) pos = e := by
    rw [loaded_behind h]
    exact astray_off (by decide : 0 < 32)
  have hflag : loaded d (astray pos e) (pos + 25) = e := by
    rw [loaded_behind (by omega), astray_off (by decide)]
  have hlen : loaded d (astray pos e) (pos + 32) = 2 := by
    rw [loaded_behind (by omega)]
    exact if_pos rfl
  have hcount : nameLen (loaded d (astray pos e)) name pos = 0 := by
    have hback : u32 (pos + 33 + sub32 (sub32 2 2) 1) = pos + 32 := by
      unfold u32 sub32
      omega
    unfold nameLen
    rw [hlen, hflag, if_pos hflags]
    dsimp only
    rw [show (2 : UInt8).toNat = 2 from rfl, hback, hlen, if_neg (by simp)]
    decide
  have htakes : takes (loaded d (astray pos e)) name pos = true := by
    unfold takes
    rw [hcount]
    rfl
  refine ends_leave ?_
  unfold finddirTurn isofsAllocDent
  dsimp only
  rw [if_neg hsize, hfirst, if_neg he, if_pos htakes, le32_astray h (by decide),
    le32_astray h (by decide), hflag, if_neg (not_not.mpr hflags), if_pos rfl]

/-! ### What is taken whatever lies behind the directory -/

/-- The byte before the end of a name without `;1`, also where the name is too short. -/
lemma name_back {len : ℕ} (h : pos + 33 + len < 2 ^ 32) :
    u32 (pos + 33 + sub32 (sub32 len 2) 1) = pos + 30 + len := by
  unfold u32 sub32
  omega

lemma nameLen_congr (hlay : Lays mem pos (r :: rs)) (hpos : pos + r.length < 2 ^ 32)
    (hb : ∀ i, pos ≤ i → i < pos + r.length → mem' i = mem i) (name : List UInt8) :
    nameLen mem' name pos = nameLen mem name pos := by
  obtain ⟨-, -, -, -, hname, -, -⟩ := hlay
  have hroom := r.room
  unfold nameLen
  rw [hb (pos + 32) (by omega) (by omega), hb (pos + 25) (by omega) (by omega)]
  dsimp only
  rw [hname, name_back (by omega), hb (pos + 30 + r.name.length) (by omega) (by omega)]

/-- The comparison is limited by the name of the record, or not at all. -/
lemma nameLen_or (hlay : Lays mem pos (r :: rs)) (hpos : pos + r.length < 2 ^ 32)
    (name : List UInt8) :
    nameLen mem name pos ≤ r.name.length ∨ 2 ^ 32 - 3 ≤ nameLen mem name pos := by
  obtain ⟨-, -, -, -, hname, -, -⟩ := hlay
  have hroom := r.room
  unfold nameLen
  dsimp only
  rw [hname, name_back (by omega)]
  split_ifs with hdir hdot
  · have htwo : r.name.length ≠ 2 := by
      intro h2
      have hbyte := hdot.2
      rw [h2, Nat.add_assoc] at hbyte
      rw [h2, hbyte] at hname
      exact absurd hname (by decide)
    unfold sub32
    omega
  · unfold sub32
    omega
  · exact Or.inl le_rfl

lemma takes_congr (hlay : Lays mem pos (r :: rs)) (hpos : pos + r.length < 2 ^ 32)
    (hb : ∀ i, pos ≤ i → i < pos + r.length → mem' i = mem i)
    (hle : nameLen mem name pos ≤ r.name.length) : takes mem' name pos = takes mem name pos := by
  have hroom := r.room
  unfold takes
  rw [nameLen_congr hlay hpos hb, strncmp_congr fun i hi => hb _ (by omega) (by omega)]

/-- A record that is taken where no string ends behind the directory is taken in any case. -/
lemma takes_of_astray {p : ℕ} {e : UInt8} (he : e ≠ 0) (hlay : Lays (loaded d dbeg) pos (r :: rs))
    (hpos : pos + r.length ≤ d.length) (hname : 0 ∉ name) (hlen : name.length + 4 ≤ 2 ^ 32)
    (h : takes (loaded d (astray p e)) name pos = true) :
    takes (loaded d dbeg) name pos = true := by
  have hsame : ∀ i < d.length, loaded d (astray p e) i = loaded d dbeg i := by
    intro i hi
    unfold loaded
    rw [if_pos hi, if_pos hi]
  have hlt : d.length < 2 ^ 32 := d.length_lt
  have hroom := r.room
  have hb : ∀ i, pos ≤ i → i < pos + r.length → loaded d (astray p e) i = loaded d dbeg i :=
    fun i _ hi => hsame i (by omega)
  rcases nameLen_or hlay (by omega) name with hle | hle
  · rwa [takes_congr hlay (by omega) hb hle] at h
  · unfold takes at h ⊢
    rw [nameLen_congr hlay (by omega) hb] at h
    rw [decide_eq_true_eq, strncmp_cstr hname (by omega)] at h ⊢
    have hend : pos + 33 + name.length < d.length := by
      by_contra hge
      have h0 := h.end
      rw [loaded_behind (not_lt.mp hge), astray] at h0
      split at h0
      · cases h0
      · exact he h0
    exact h.congr fun i _ hi => (hsame i (by omega)).symm

/-- Where no record is taken none is taken astray either. -/
lemma taken_astray {p : ℕ} {e : UInt8} (he : e ≠ 0) (hlay : Lays (loaded d dbeg) pos rs)
    (hpos : pos + span rs ≤ d.length) (hname : 0 ∉ name) (hlen : name.length + 4 ≤ 2 ^ 32)
    (h : taken (loaded d dbeg) name pos rs = none) :
    taken (loaded d (astray p e)) name pos rs = none := by
  induction rs generalizing pos with
  | nil => rfl
  | cons r rs ih =>
    rw [span_cons] at hpos
    unfold taken at h ⊢
    by_cases htakes : takes (loaded d dbeg) name pos = true
    · rw [if_pos htakes] at h
      cases h
    · rw [if_neg htakes] at h
      rw [if_neg fun h' => htakes (takes_of_astray he hlay (by omega) hname hlen h')]
      exact ih hlay.2.2.2.2.2.2 (by omega) h

/-! ### When the right record is found -/

variable (d) in
/-- A node for the right record is found, or that there is none, whatever lies behind the
directory. -/
def FindsRight (room : Option ℕ) (name : List UInt8) : Prop :=
  ∀ dbeg, ∃ k found, isofsFinddir sb name d.extent d.length room dbeg true k = some found ∧
    IsRight d name found

variable (d) in
/-- The records that are walked over before the first padding. -/
def walked : List Record := lead sb.blockSize d.sectors

variable (d) in
/-- There is room for the directory unless no record is right. The first record that is taken
before the first padding is as the right one; where none is right none is taken there either,
and the directory is one padded sector, or empty. -/
def Decides (room : Option ℕ) (name : List UInt8) : Prop :=
  match right d name, room with
  | some r, some room => d.length ≤ room ∧ ∀ dbeg, ∃ q,
      taken (loaded d dbeg) name 0 (walked d) = some q ∧ q.extent = r.extent ∧ q.size = r.size
  | some _, none => False
  | none, some room => d.length ≤ room ∧ (d.sectors = [] ∨ d.sectors.length = 1 ∧
      span (walked d) < sb.blockSize ∧
        ∀ dbeg, taken (loaded d dbeg) name 0 (walked d) = none)
  | none, none => True

lemma walked_lays (d : Directory sb) (dbeg : Bytes) : Lays (loaded d dbeg) 0 (walked d) ∧
    (span (walked d) = d.length ∨
      span (walked d) < d.length ∧ loaded d dbeg (span (walked d)) = 0) := by
  obtain ⟨hlay, hend⟩ := d.lays.lead
  have hle : span (walked d) ≤ d.length := hend.elim (fun h => h.le) fun h => h.1.le
  refine ⟨hlay.congr fun i _ hi => if_pos ?_, hend.imp id fun h => ⟨h.1, ?_⟩⟩
  · rw [Nat.zero_add] at hi
    exact hi.trans_le hle
  · rw [Nat.zero_add] at h
    exact (if_pos h.1).trans h.2

lemma finddir_loop (h : Readable sb) (d : Directory sb) {room : ℕ} (hroom : d.length ≤ room)
    (name : List UInt8) (dbeg : Bytes) (k : ℕ) :
    isofsFinddir sb name d.extent d.length (some room) dbeg true k =
      loop (finddirTurn sb (loaded d dbeg) name true) k ⟨d.length, 0, 0⟩ := by
  have hlen : u32 d.length = d.length := u32_of_lt d.length_lt
  unfold isofsFinddir
  dsimp only
  rw [hlen, if_neg (not_lt.mpr hroom), readBlocks_eq h, if_neg (not_not.mpr rfl)]

lemma findsRight_iff (h : Readable sb) (d : Directory sb) {room : ℕ} (hroom : d.length ≤ room)
    (name : List UInt8) : FindsRight d (some room) name ↔ ∀ dbeg, ∃ found,
      Ends (finddirTurn sb (loaded d dbeg) name true) ⟨d.length, 0, 0⟩ found ∧
        IsRight d name found := by
  unfold FindsRight Ends
  simp only [finddir_loop h d hroom]
  exact forall_congr' fun dbeg => ⟨fun ⟨k, found, heq, hr⟩ => ⟨found, ⟨k, heq⟩, hr⟩,
    fun ⟨found, ⟨k, heq⟩, hr⟩ => ⟨k, found, heq, hr⟩⟩

/-- A directory of one padded sector is walked over to its end. -/
lemma ends_padded (hone : d.sectors.length = 1) (hpad : span (walked d) < sb.blockSize) :
    Ends (finddirTurn sb (loaded d dbeg) name true) ⟨d.length, 0, span (walked d)⟩ found ↔
      found = none := by
  have hB := sb.blockSize_pos
  have hB' := sb.blockSize_lt
  have hlen : d.length = sb.blockSize := by
    rw [Directory.length, hone, Nat.one_mul]
  rw [hlen]
  rcases (walked_lays d dbeg).2 with hend | hend
  · omega
  · rw [ends_next (turn_padding sb name true hB.ne' hend.2), sub32_of_le le_rfl (by omega),
      Nat.sub_self]
    exact ends_leave (turn_done ..)

/-- From the other directories the walk comes to what lies behind. -/
lemma reaches_behind (d : Directory sb) (name : List UInt8) (hpos : d.sectors ≠ [])
    (hsmall : d.length ≤ 2 ^ 15)
    (h : ¬ (d.sectors.length = 1 ∧ span (walked d) < sb.blockSize)) :
    ∃ size dent pos, size ≠ 0 ∧ d.length ≤ pos ∧ pos + 33 < 2 ^ 32 ∧ ∀ dbeg alloc,
      Reaches (finddirTurn sb (loaded d dbeg) name alloc) ⟨d.length, 0, span (walked d)⟩
        ⟨size, dent, pos⟩ := by
  have hB := sb.blockSize_lt
  have hsector := d.sector
  have hlen : d.length = d.sectors.length * sb.blockSize := rfl
  have hn : d.sectors.length ≠ 0 := by simpa using hpos
  have hne : d.length ≠ 0 := Nat.mul_ne_zero hn sb.blockSize_pos.ne'
  by_cases hfull : span (walked d) = d.length
  · refine ⟨d.length, 0, d.length, hne, le_rfl, by omega, fun dbeg alloc => ?_⟩
    rw [hfull]
    exact reaches_self _ _
  · have hmore : sb.blockSize < d.length := by
      have htwo : 1 < d.sectors.length := by
        by_contra hone
        have h1 : d.sectors.length = 1 := by omega
        rw [h1, Nat.one_mul] at hlen
        rcases (walked_lays d fun _ => 0).2 with hend | hend
        · exact hfull hend
        · exact h ⟨h1, hlen ▸ hend.1⟩
      rw [hlen]
      exact lt_mul_left sb.blockSize_pos htwo
    have hsub : sub32 d.length sb.blockSize = d.length - sb.blockSize :=
      sub32_of_le hmore.le (by omega)
    have hfar : u32 (0 + sizeofRecord * sb.blockSize) = 33 * sb.blockSize := by
      rw [Nat.zero_add]
      exact u32_of_lt (by unfold sizeofRecord; omega)
    refine ⟨d.length - sb.blockSize, 33 * sb.blockSize, 33 * sb.blockSize, by omega, by omega,
      by omega, fun dbeg alloc => ?_⟩
    rcases (walked_lays d dbeg).2 with hend | hend
    · exact absurd hend hfull
    · rw [reaches_next (turn_padding sb name alloc hne hend.2), hsub, hfar]
      exact Or.inr (reaches_self _ _)

/-- The walk, from its start. -/
lemma ends_walked (d : Directory sb) (name : List UInt8) (hpos : d.sectors ≠ []) (dbeg : Bytes)
    (found : Option FsNode) :
    Ends (finddirTurn sb (loaded d dbeg) name true) ⟨d.length, 0, 0⟩ found ↔
      match taken (loaded d dbeg) name 0 (walked d) with
      | some q => found = some (q.node name)
      | none => Ends (finddirTurn sb (loaded d dbeg) name true)
          ⟨d.length, 0, span (walked d)⟩ found := by
  have hlt : d.length < 2 ^ 32 := d.length_lt
  have hn : d.sectors.length ≠ 0 := by simpa using hpos
  have hne : d.length ≠ 0 := Nat.mul_ne_zero hn sb.blockSize_pos.ne'
  obtain ⟨hlay, hend⟩ := walked_lays d dbeg
  have hle : span (walked d) ≤ d.length := hend.elim (fun h => h.le) fun h => h.1.le
  have hwalk := ends_records sb name 0 found hlay
    (by rw [Nat.zero_add]; exact hle.trans_lt hlt) hne
  rwa [Nat.zero_add] at hwalk

/-- A walk that takes nothing in the directory, and goes on behind it, can go wrong there. -/
lemma lost (hpos : d.sectors ≠ []) (hsmall : d.length ≤ 2 ^ 15)
    (h : ¬ (d.sectors.length = 1 ∧ span (walked d) < sb.blockSize)) (hname : 0 ∉ name)
    (hlen : name.length + 4 ≤ 2 ^ 32) (hnone : taken (loaded d dbeg) name 0 (walked d) = none) :
    ∃ dbeg, ∀ found, Ends (finddirTurn sb (loaded d dbeg) name true) ⟨d.length, 0, 0⟩ found →
      ¬ IsRight d name found := by
  obtain ⟨size, dent, pos, hsize, hle, hlt, hbehind⟩ := reaches_behind d name hpos hsmall h
  obtain ⟨hlay, hend⟩ := walked_lays d dbeg
  have hspan : 0 + span (walked d) ≤ d.length := by
    rw [Nat.zero_add]
    exact hend.elim (fun h => h.le) fun h => h.1.le
  have hends : ∀ e : UInt8, e ≠ 0 → e &&& 2 = 0 → ∀ found,
      Ends (finddirTurn sb (loaded d (astray pos e)) name true) ⟨d.length, 0, 0⟩ found →
        found = some ⟨name, e.toNat * 16843009, e.toNat * 16843009, 0⟩ := by
    intro e he hflags found hf
    have hwalk := (ends_walked d name hpos _ found).mp hf
    rw [taken_astray he hlay hspan hname hlen hnone] at hwalk
    exact (ends_astray hle hlt hsize he hflags).mp ((hbehind _ _).ends.mp hwalk)
  have hwrong : ∀ e : UInt8, (∀ r, right d name = some r → r.extent ≠ e.toNat * 16843009) →
      ¬ IsRight d name (some ⟨name, e.toNat * 16843009, e.toNat * 16843009, 0⟩) := by
    intro e he hright
    unfold IsRight at hright
    cases hr : right d name with
    | none =>
      rw [hr] at hright
      cases hright
    | some r =>
      rw [hr] at hright
      obtain ⟨node, heq, hino, -⟩ := hright
      obtain rfl := Option.some_inj.mp heq
      exact he r hr hino.symm
  by_cases h1 : ∃ r, right d name = some r ∧ r.extent = 16843009
  · obtain ⟨r, hr, hextent⟩ := h1
    refine ⟨astray pos 4, fun found hf => ?_⟩
    rw [hends 4 (by decide) (by decide) found hf]
    refine hwrong 4 fun r' hr' => ?_
    rw [hr] at hr'
    obtain rfl := Option.some_inj.mp hr'
    rw [hextent]
    decide
  · refine ⟨astray pos 1, fun found hf => ?_⟩
    rw [hends 1 (by decide) (by decide) found hf]
    exact hwrong 1 fun r hr hextent => h1 ⟨r, hr, hextent⟩

/-- A right record is found exactly if the first that is taken is as it is. -/
lemma finds_some {room : ℕ} (hread : Readable sb) (hfit : d.length ≤ room) (hsmall : room ≤ 2 ^ 15)
    (hpos : d.sectors ≠ []) (hname : 0 ∉ name) (hlen : name.length + 4 ≤ 2 ^ 32)
    (hr : right d name = some r) : FindsRight d (some room) name ↔ ∀ dbeg, ∃ q,
      taken (loaded d dbeg) name 0 (walked d) = some q ∧ q.extent = r.extent ∧ q.size = r.size := by
  have hwalk := ends_walked d name hpos
  have hright : ∀ found, IsRight d name found ↔
      ∃ node, found = some node ∧ node.inode = r.extent ∧ node.length = r.size := by
    intro found
    unfold IsRight
    rw [hr]
  rw [findsRight_iff hread d hfit]
  constructor
  · intro h dbeg
    cases ht : taken (loaded d dbeg) name 0 (walked d) with
    | some q =>
      obtain ⟨found, hends, hfound⟩ := h dbeg
      rw [hwalk, ht] at hends
      obtain ⟨node, heq, hextent, hsize⟩ := (hright found).mp hfound
      obtain rfl := Option.some_inj.mp (hends.symm.trans heq)
      exact ⟨q, rfl, hextent, hsize⟩
    | none =>
      exfalso
      by_cases hone : d.sectors.length = 1 ∧ span (walked d) < sb.blockSize
      · obtain ⟨found, hends, hfound⟩ := h dbeg
        rw [hwalk, ht] at hends
        obtain ⟨node, heq, -⟩ := (hright found).mp hfound
        rw [(ends_padded hone.1 hone.2).mp hends] at heq
        cases heq
      · obtain ⟨dbeg', hlost⟩ := lost hpos (hfit.trans hsmall) hone hname hlen ht
        obtain ⟨found, hends, hfound⟩ := h dbeg'
        exact hlost found hends hfound
  · intro h dbeg
    obtain ⟨q, ht, hextent, hsize⟩ := h dbeg
    refine ⟨some (q.node name), ?_, (hright _).mpr ⟨_, rfl, hextent, hsize⟩⟩
    rw [hwalk, ht]

/-- Where no record is right, nothing is found exactly if none is taken and the only sector is
padded. -/
lemma finds_none {room : ℕ} (hread : Readable sb) (hfit : d.length ≤ room) (hsmall : room ≤ 2 ^ 15)
    (hpos : d.sectors ≠ []) (hname : 0 ∉ name) (hlen : name.length + 4 ≤ 2 ^ 32)
    (hr : right d name = none) : FindsRight d (some room) name ↔ d.sectors.length = 1 ∧
      span (walked d) < sb.blockSize ∧
        ∀ dbeg, taken (loaded d dbeg) name 0 (walked d) = none := by
  have hwalk := ends_walked d name hpos
  have hright : ∀ found, IsRight d name found ↔ found = none := by
    intro found
    unfold IsRight
    rw [hr]
  rw [findsRight_iff hread d hfit]
  constructor
  · intro h
    have hnone : ∀ dbeg, taken (loaded d dbeg) name 0 (walked d) = none := by
      intro dbeg
      obtain ⟨found, hends, hfound⟩ := h dbeg
      obtain rfl := (hright found).mp hfound
      rw [hwalk] at hends
      cases ht : taken (loaded d dbeg) name 0 (walked d) with
      | none => rfl
      | some q =>
        rw [ht] at hends
        cases hends
    by_contra hnot
    have hone : ¬ (d.sectors.length = 1 ∧ span (walked d) < sb.blockSize) :=
      fun hone => hnot ⟨hone.1, hone.2, hnone⟩
    obtain ⟨dbeg', hlost⟩ := lost hpos (hfit.trans hsmall) hone hname hlen (hnone fun _ => 0)
    obtain ⟨found, hends, hfound⟩ := h dbeg'
    exact hlost found hends hfound
  · rintro ⟨hone, hpad, hnone⟩ dbeg
    refine ⟨none, ?_, (hright none).mpr rfl⟩
    rw [hwalk, hnone]
    exact (ends_padded hone hpad).mpr rfl

/-- Without room the name stands for nothing. -/
lemma finds_roomless (name : List UInt8) : FindsRight d none name ↔ IsRight d name none := by
  constructor
  · intro h
    obtain ⟨k, found, heq, hright⟩ := h fun _ => 0
    rwa [← Option.some_inj.mp heq] at hright
  · exact fun h dbeg => ⟨0, none, rfl, h⟩

lemma not_finds_over {room : ℕ} (h : room < d.length) (name : List UInt8) :
    ¬ FindsRight d (some room) name := by
  intro hfinds
  obtain ⟨k, found, heq, -⟩ := hfinds fun _ => 0
  have hlen : u32 d.length = d.length := u32_of_lt d.length_lt
  unfold isofsFinddir at heq
  dsimp only at heq
  rw [hlen, if_pos h] at heq
  cases heq

lemma finds_empty (hread : Readable sb) {room : ℕ} (hnil : d.sectors = []) (name : List UInt8) :
    FindsRight d (some room) name := by
  have hlength : d.length = 0 := by rw [Directory.length, hnil, List.length_nil, Nat.zero_mul]
  have hright : right d name = none := by rw [right, Directory.records, hnil]; rfl
  rw [findsRight_iff hread d (hlength ▸ Nat.zero_le room), hlength]
  unfold IsRight
  rw [hright]
  exact fun dbeg => ⟨none, (ends_leave (turn_done ..)).mpr rfl, rfl⟩

/-- **A name is looked up right** exactly if there is room for the directory, the first record
before a padding that is taken for it has the extent and the size of the right one, and, where no
record is right, none is taken and the directory is one padded sector or empty; or if there is no
room and no record is right. -/
theorem isoFinddir_iff (sb : Superblock) (hread : Readable sb) (d : Directory sb) (room : Option ℕ)
    (hroom : ∀ n ∈ room, n ≤ 2 ^ 15) (name : List UInt8) (hname : 0 ∉ name)
    (hlen : name.length + 4 ≤ 2 ^ 32) : FindsRight d room name ↔ Decides d room name := by
  unfold Decides
  cases room with
  | none =>
    rw [finds_roomless]
    unfold IsRight
    cases right d name with
    | none => exact iff_of_true rfl trivial
    | some r => exact iff_of_false (fun ⟨_, h, _⟩ => by cases h) id
  | some room =>
    by_cases hfit : d.length ≤ room
    · cases hr : right d name with
      | some r =>
        dsimp only
        rw [and_iff_right hfit]
        refine finds_some hread hfit (hroom room rfl) (fun hnil => ?_) hname hlen hr
        rw [right, Directory.records, hnil] at hr
        cases hr
      | none =>
        dsimp only
        rw [and_iff_right hfit]
        by_cases hnil : d.sectors = []
        · exact iff_of_true (finds_empty hread hnil name) (Or.inl hnil)
        · rw [or_iff_right hnil]
          exact finds_none hread hfit (hroom room rfl) hnil hname hlen hr
    · refine iff_of_false (not_finds_over (not_le.mp hfit) name) ?_
      cases right d name with
      | none => exact fun h => hfit h.1
      | some r => exact fun h => hfit h.1

lemma eleven_lt : 11 < 16 := by decide

def isoBytes : List UInt8 :=
  [34, 0, 5, 0, 0, 0, 0, 0, 0, 5, 7, 0, 0, 0, 0, 0, 0, 7, 0, 0, 0, 0, 0, 0, 0, 2, 0, 0, 1, 0, 0, 1,
    1, 65]

def isoByte (i : ℕ) : UInt8 := isoBytes.getD (i - 2048) 0

/-- A disk with a directory of one record in its second block, for the directory `A`. -/
def isoSuper : Superblock :=
  { smallSuper with
    blockLogs := 11
    small := eleven_lt
    bdev := { smallSuper.bdev with byte := isoByte } }

lemma iso_byte : isoSuper.bdev.byte = isoByte := by
  unfold isoSuper
  dsimp only

lemma iso_readable : Readable isoSuper := ⟨fun _ => Bool.false_ne_true, by decide⟩

def isoRecord : Record := ⟨34, 5, 7, 2, [65], le_rfl⟩

lemma isoByte_zero {i : ℕ} (h : 2048 + 34 ≤ i) : isoByte i = 0 := by
  have hlen : isoBytes.length = 34 := rfl
  unfold isoByte
  exact List.getD_eq_default _ _ (by omega)

lemma iso_lays : LaysSectors (fun i => isoSuper.bdev.byte (1 * isoSuper.blockSize + i))
    isoSuper.blockSize 0 [[isoRecord]] := by
  refine ⟨⟨by decide, by decide, by decide, by decide, by decide, fun i hi => ?_, trivial⟩,
    by decide, fun i hi _ => ?_, trivial⟩
  · obtain rfl : i = 0 := by simpa [isoRecord] using hi
    exact (by decide : isoSuper.bdev.byte 2081 = 65)
  · have h34 : 34 ≤ i := hi
    have hB : isoSuper.blockSize = 2048 := rfl
    dsimp only
    rw [iso_byte]
    exact isoByte_zero (by rw [hB]; omega)

def isoDirectory : Directory isoSuper where
  extent := 1
  sectors := [[isoRecord]]
  extent_lt := Nat.one_lt_two_pow (by decide)
  length_lt := by decide
  sector := le_rfl
  lays := iso_lays

theorem isoFinddir_iff_sub :
    FindsRight isoDirectory (some 2048) [65] ↔ Decides isoDirectory (some 2048) [65] :=
  isoFinddir_iff isoSuper iso_readable isoDirectory (some 2048)
    (by simp) [65] (by decide) (by decide)

/-- The directory `A` is found for `AB`. -/
theorem not_isoFinddir_prefix : ¬FindsRight isoDirectory (some 2048) [65, 66] := by
  intro h
  rw [findsRight_iff iso_readable _ (by decide)] at h
  obtain ⟨found, hends, hfound⟩ := h fun _ => 0
  obtain rfl : found = none := hfound
  have htakes : takes (loaded isoDirectory fun _ => 0) [65, 66] 0 = true := by decide
  have htaken : taken (loaded isoDirectory fun _ => 0) [65, 66] 0 (walked isoDirectory) =
      some isoRecord := if_pos htakes
  rw [ends_walked _ _ (List.cons_ne_nil _ _), htaken] at hends
  cases hends

end Elfboot.IsoDir
