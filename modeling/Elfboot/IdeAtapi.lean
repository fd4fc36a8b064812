import Elfboot.IdeDrive

/-!
Reading a drive that takes packets: `ide_atapi_read` of `ide.c`.

The drive finds in the packet which blocks it is to give, and it says how many bytes it moves each
time: the buffer has the same bytes at the end.
-/

namespace Elfboot.Ide

open Elfboot.Errno Elfboot.Word Elfboot.Buffer Elfboot.Loop

/-- `swap_bytes32`, which is `cputobe32`. -/
def swapBytes32 (val : ℕ) : ℕ :=
  u32 (val <<< 24) ||| (val &&& 0xff00) <<< 8 ||| (val &&& 0xff0000) >>> 8 ||| val >>> 24

/-- `struct scsi_xfer12` of `ide_atapi_read`. -/
def scsiXfer12 (sector blknum : ℕ) : Bytes :=
  put32 (put32 (Function.update (fun _ => 0) 0 scsiCmdRead12) 2 (swapBytes32 (u32 sector))) 6
    (swapBytes32 (u32 blknum))

/-- `sizeof(struct scsi_request_sense)`, which is that of its data as well. -/
def scsiRequestSenseSize : ℕ := 18

def scsiRequestSense : Bytes :=
  Function.update (Function.update (fun _ => 0) 0 scsiCmdRequestSense) 4
    (UInt8.ofNat scsiRequestSenseSize)

/-- The command of `ide_atapi_send`. -/
def atapiCmd (pkg : Bytes) (pkglen buflen : ℕ) : AtaCmd where
  bufsize := buflen
  cmd := some pkg
  cmdsize := pkglen
  write := false
  raw
    | 3 => byteAt buflen 0
    | 4 => byteAt buflen 8
    | 6 => ataCmdPacket
    | _ => 0

/-- `ide_atapi_send`: its result and the buffer. -/
def ideAtapiSend (dev : Device) (bdev : IdeDev) (pkg : Bytes) (pkglen : ℕ) (buf : Bytes)
    (buflen : ℕ) : Option (ℤ × Bytes) :=
  (ideSendCommand dev bdev.slave (atapiCmd pkg pkglen buflen) (start buf)).map fun r =>
    (if r.1 ≠ 0 ∨ r.2.1.bufsize ≠ buflen then 1 else 0, r.2.2.buf)

def ideAtapiRequestSense (dev : Device) (bdev : IdeDev) (rsd : Bytes) : Option (ℤ × Bytes) :=
  ideAtapiSend dev bdev scsiRequestSense scsiRequestSenseSize rsd scsiRequestSenseSize

/-- `ide_atapi_read`, for what the drive answers to its two commands. The data of the second one
are a variable that holds anything. -/
def ideAtapiRead (dev dev' : Device) (bdev : IdeDev) (rsd : Bytes) (sector blknum : ℕ)
    (buffer : Bytes) : Option (ℤ × Bytes) :=
  (ideAtapiSend dev bdev (scsiXfer12 sector blknum) 12 buffer
      (u32 (u64 (blknum * bdev.blockSize)))).bind fun r =>
    (ideAtapiRequestSense dev' bdev rsd).map fun r' =>
      if r'.1 ≠ 0 then (-efault, r.2)
      else if r.1 ≠ 0 then (r.1, r.2)
      else (0, r.2)

/-! ### A drive with packets -/

/-- The bytes of the words that have been sent to the register of the data. -/
def packet (sent : List (ℕ × ℕ)) : Bytes := fun i =>
  UInt8.ofNat (((sent.filter fun w => w.1 = ataRegData).map Prod.snd).getD (i / 2) 0 /
    2 ^ (8 * (i % 2)))

/-- A big-endian word. -/
def be32 (b : Bytes) (i : ℕ) : ℕ :=
  (b i).toNat * 2 ^ 24 + (b (i + 1)).toNat * 2 ^ 16 + (b (i + 2)).toNat * 2 ^ 8 + (b (i + 3)).toNat

/-- A drive with blocks of `2 ^ blockLogs` bytes. The data it gives to a packet with `READ(12)` are
the blocks on its disk. -/
structure AtapiDrive (slave : Fin 2) where
  disk : Bytes
  blocks : ℕ
  blocks_le : blocks ≤ 2 ^ 32
  blockLogs : ℕ
  logs_pos : 0 < blockLogs
  logs_lt : blockLogs < 16
  answers : List (ℕ × ℕ) → Device
  /-- what it answers when it is asked for the sense data afterwards -/
  senses : List (ℕ × ℕ) → Device
  gives : ∀ sent, (request sent).device &&& 0x10 = (slave : ℕ) <<< 4 →
    (request sent).command = 0xa0 → packet sent 0 = 0xa8 →
    be32 (packet sent) 2 + be32 (packet sent) 6 ≤ blocks →
      ∀ n < 2 ^ (blockLogs - 1) * be32 (packet sent) 6, ((answers sent).data n).toNat =
        le16 disk (2 ^ blockLogs * be32 (packet sent) 2 + 2 * n)

variable {slave : Fin 2} {sector blknum : ℕ} {buffer buf : Bytes} {cmd : AtaCmd}

/-- `struct bdev` of a drive with packets, as `ide_init_atapi` fills it in. -/
def atapiDev (slave : Fin 2) (blockSize : ℕ) : IdeDev := ⟨true, blockSize, slave, 0⟩

/-- What has been sent when the device has the packet. -/
def sentWith (slave : ℕ) (pkg : Bytes) (pkglen : ℕ) (cmd : AtaCmd) : List (ℕ × ℕ) :=
  (ideWriteIo pkg 0 pkglen (sendRegisters slave cmd (start fun _ => 0))).sent

/-! ### The packet -/

lemma mask_shift (val j k : ℕ) : val &&& (2 ^ k - 1) <<< j = (val / 2 ^ j % 2 ^ k) <<< j := by
  refine Nat.eq_of_testBit_eq fun i => ?_
  rw [Nat.testBit_and, Nat.testBit_shiftLeft, Nat.testBit_shiftLeft, Nat.testBit_two_pow_sub_one,
    Nat.testBit_mod_two_pow, Nat.testBit_div_two_pow]
  by_cases hi : j ≤ i
  · rw [decide_eq_true hi, Bool.true_and, Bool.true_and, Nat.sub_add_cancel hi, Bool.and_comm]
  · rw [decide_eq_false hi, Bool.false_and, Bool.false_and, Bool.and_false]

/-- The bytes of a word in reverse. -/
lemma swapBytes32_eq {a b c d : ℕ} (ha : a < 2 ^ 8) (hb : b < 2 ^ 8) (hc : c < 2 ^ 8)
    (hd : d < 2 ^ 8) :
    swapBytes32 (d * 2 ^ 24 + c * 2 ^ 16 + b * 2 ^ 8 + a) =
      a * 2 ^ 24 + b * 2 ^ 16 + c * 2 ^ 8 + d := by
  obtain ⟨val, hval⟩ : ∃ val, val = d * 2 ^ 24 + c * 2 ^ 16 + b * 2 ^ 8 + a := ⟨_, rfl⟩
  have hfirst : u32 (val <<< 24) = a <<< 24 := by
    rw [Nat.shiftLeft_eq, Nat.shiftLeft_eq]
    unfold u32
    omega
  have hsecond : (val &&& 0xff00) <<< 8 = b <<< 16 := by
    rw [show 0xff00 = (2 ^ 8 - 1) <<< 8 from rfl, mask_shift, ← Nat.shiftLeft_add]
    rw [show val / 2 ^ 8 % 2 ^ 8 = b by omega]
  have hthird : (val &&& 0xff0000) >>> 8 = c <<< 8 := by
    rw [show 0xff0000 = (2 ^ 8 - 1) <<< 16 from rfl, mask_shift, Nat.shiftLeft_eq,
      Nat.shiftLeft_eq, Nat.shiftRight_eq_div_pow]
    omega
  have hfourth : val >>> 24 = d := by
    rw [Nat.shiftRight_eq_div_pow]
    omega
  have hlow : c <<< 8 ||| d = c * 2 ^ 8 + d := by
    rw [← Nat.shiftLeft_add_eq_or_of_lt hd, Nat.shiftLeft_eq]
  have hmid : b <<< 16 ||| (c * 2 ^ 8 + d) = b * 2 ^ 16 + (c * 2 ^ 8 + d) := by
    rw [← Nat.shiftLeft_add_eq_or_of_lt (by omega), Nat.shiftLeft_eq]
  have hhigh : a <<< 24 ||| (b * 2 ^ 16 + (c * 2 ^ 8 + d)) =
      a * 2 ^ 24 + (b * 2 ^ 16 + (c * 2 ^ 8 + d)) := by
    rw [← Nat.shiftLeft_add_eq_or_of_lt (by omega), Nat.shiftLeft_eq]
  unfold swapBytes32
  rw [← hval, hfirst, hsecond, hthird, hfourth, Nat.or_assoc, Nat.or_assoc, hlow, hmid, hhigh]
  omega

lemma digit_eq {n q b r k : ℕ} (h : n = (q * 2 ^ 8 + b) * 2 ^ k + r) (hr : r < 2 ^ k)
    (hb : b < 2 ^ 8) : n / 2 ^ k % 2 ^ 8 = b := by
  rw [h, Nat.add_comm, Nat.add_mul_div_right _ _ (Nat.two_pow_pos k), Nat.div_eq_of_lt hr]
  omega

lemma be32_put32 {val : ℕ} (h : val < 2 ^ 32) (b : Bytes) (i : ℕ) :
    be32 (put32 b i (swapBytes32 val)) i = val := by
  have hat : ∀ k < 4, put32 b i (swapBytes32 val) (i + k) =
      UInt8.ofNat (swapBytes32 val / 2 ^ (8 * k)) := by
    intro k hk
    unfold put32
    rw [if_pos (by omega), Nat.add_sub_cancel_left]
  have h0 := hat 0 (by decide)
  obtain ⟨a, ha⟩ : ∃ a, a = val % 2 ^ 8 := ⟨_, rfl⟩
  obtain ⟨b, hb⟩ : ∃ b, b = val / 2 ^ 8 % 2 ^ 8 := ⟨_, rfl⟩
  obtain ⟨c, hc⟩ : ∃ c, c = val / 2 ^ 16 % 2 ^ 8 := ⟨_, rfl⟩
  obtain ⟨d, hd⟩ : ∃ d, d = val / 2 ^ 24 := ⟨_, rfl⟩
  have hval : val = d * 2 ^ 24 + c * 2 ^ 16 + b * 2 ^ 8 + a := by omega
  have ha : a < 2 ^ 8 := by omega
  have hb : b < 2 ^ 8 := by omega
  have hc : c < 2 ^ 8 := by omega
  have hd : d < 2 ^ 8 := by omega
  rw [Nat.add_zero] at h0
  unfold be32
  rw [h0, hat 1 (by decide), hat 2 (by decide), hat 3 (by decide), hval,
    swapBytes32_eq ha hb hc hd, UInt8.toNat_ofNat', UInt8.toNat_ofNat', UInt8.toNat_ofNat',
    UInt8.toNat_ofNat']
  obtain ⟨w, hw⟩ : ∃ w, w = a * 2 ^ 24 + b * 2 ^ 16 + c * 2 ^ 8 + d := ⟨_, rfl⟩
  have h3 : w / 2 ^ (8 * 0) % 2 ^ 8 = d :=
    digit_eq (k := 0) (q := a * 2 ^ 16 + b * 2 ^ 8 + c) (r := 0) (by omega) (by decide) hd
  have h2 : w / 2 ^ (8 * 1) % 2 ^ 8 = c :=
    digit_eq (k := 8) (q := a * 2 ^ 8 + b) (r := d) (by rw [hw]; ring) (by omega) hc
  have h1 : w / 2 ^ (8 * 2) % 2 ^ 8 = b :=
    digit_eq (k := 16) (q := a) (r := c * 2 ^ 8 + d) (by rw [hw]; ring) (by omega) hb
  have h0 : w / 2 ^ (8 * 3) % 2 ^ 8 = a :=
    digit_eq (k := 24) (q := 0) (r := b * 2 ^ 16 + c * 2 ^ 8 + d) (by rw [hw]; ring) (by omega) ha
  rw [← hw, h0, h1, h2, h3]

lemma be32_congr {b c : Bytes} {i : ℕ} (h : ∀ k < 4, b (i + k) = c (i + k)) :
    be32 b i = be32 c i := by
  have h0 := h 0 (by decide)
  rw [Nat.add_zero] at h0
  unfold be32
  rw [h0, h 1 (by decide), h 2 (by decide), h 3 (by decide)]

lemma scsiXfer12_lba (sector blknum : ℕ) : be32 (scsiXfer12 sector blknum) 2 = u32 sector := by
  refine Eq.trans ?_ (be32_put32 (u32_lt sector)
    (Function.update (fun _ => 0) 0 scsiCmdRead12) 2)
  refine be32_congr fun k hk => ?_
  unfold scsiXfer12 put32
  exact if_neg (by omega)

lemma scsiXfer12_num (sector blknum : ℕ) : be32 (scsiXfer12 sector blknum) 6 = u32 blknum :=
  be32_put32 (u32_lt blknum) _ 6

lemma scsiXfer12_cmd (sector blknum : ℕ) : scsiXfer12 sector blknum 0 = 0xa8 := by
  unfold scsiXfer12 put32
  rw [if_neg (by decide), if_neg (by decide)]
  rfl

lemma le16_byte (b : Bytes) (i : ℕ) :
    UInt8.ofNat (le16 b (2 * (i / 2)) / 2 ^ (8 * (i % 2))) = b i := by
  have hlow := (b (2 * (i / 2))).toNat_lt
  have hhigh := (b (2 * (i / 2) + 1)).toNat_lt
  refine UInt8.toNat_inj.mp ?_
  rw [UInt8.toNat_ofNat']
  unfold le16
  rcases Nat.mod_two_eq_zero_or_one i with heven | hodd
  · rw [heven, Nat.mul_zero, pow_zero, Nat.div_one]
    rw [show 2 * (i / 2) = i by omega] at hlow hhigh ⊢
    omega
  · rw [hodd, Nat.mul_one]
    have hi : 2 * (i / 2) + 1 = i := by omega
    rw [hi] at hhigh ⊢
    omega

/-- **The drive has the packet** that was written. -/
lemma packet_sent (slave : ℕ) (pkg : Bytes) (cmd : AtaCmd) {i : ℕ} (hi : i < 12) :
    packet (sentWith slave pkg 12 cmd) i = pkg i := by
  have hwords : ((sentWith slave pkg 12 cmd).filter fun w => w.1 = ataRegData).map Prod.snd =
      (List.range 6).map fun i => le16 pkg (0 + 2 * i) := rfl
  unfold packet
  rw [hwords, List.getD_eq_getElem?_getD, List.getElem?_map, List.getElem?_range (by omega),
    Option.map_some, Option.getD_some, Nat.zero_add, le16_byte]

/-! ### The block device -/

/-- The command to read blocks. -/
def atapiRead (blockSize sector blknum : ℕ) : AtaCmd :=
  atapiCmd (scsiXfer12 sector blknum) 12 (u32 (u64 (blknum * blockSize)))

/-- The command to ask for the sense data. -/
def atapiSense : AtaCmd := atapiCmd scsiRequestSense scsiRequestSenseSize scsiRequestSenseSize

def AtapiDrive.blockSize (drive : AtapiDrive slave) : ℕ := 2 ^ drive.blockLogs

/-- What is sent to read blocks. -/
def AtapiDrive.sent (drive : AtapiDrive slave) (sector blknum : ℕ) : List (ℕ × ℕ) :=
  sentWith slave (scsiXfer12 sector blknum) 12 (atapiRead drive.blockSize sector blknum)

def AtapiDrive.device (drive : AtapiDrive slave) (sector blknum : ℕ) : Device :=
  drive.answers (drive.sent sector blknum)

/-- The device when it is asked for the sense data. -/
def AtapiDrive.sense (drive : AtapiDrive slave) (sector blknum : ℕ) : Device :=
  drive.senses (drive.sent sector blknum ++
    sentWith slave scsiRequestSense scsiRequestSenseSize atapiSense)

/-- The drive goes along with the read and gives its sense data. -/
def AtapiDrive.Obliges (drive : AtapiDrive slave) (sector blknum : ℕ) : Prop :=
  Moves (drive.device sector blknum) (atapiRead drive.blockSize sector blknum) ∧
    Moves (drive.sense sector blknum) atapiSense

open Classical in
/-- The drive as a block device. -/
noncomputable def AtapiDrive.toBdev (drive : AtapiDrive slave) : Super.Bdev where
  blockLogs := drive.blockLogs
  size := drive.blockSize * drive.blocks
  byte := drive.disk
  fails sector blknum := !decide (drive.Obliges sector blknum)
  size_le := by
    have hlogs : drive.blockSize ≤ 2 ^ 32 := Nat.pow_le_pow_right (by decide)
      (drive.logs_lt.le.trans (by decide))
    calc drive.blockSize * drive.blocks ≤ 2 ^ 32 * 2 ^ 32 := Nat.mul_le_mul hlogs drive.blocks_le
      _ = 2 ^ 64 := by norm_num

lemma AtapiDrive.bdevRead_of_obliges (drive : AtapiDrive slave) (h : drive.Obliges sector blknum)
    (buffer : Bytes) : Super.bdevRead drive.toBdev sector blknum buffer =
      some (memcpy buffer 0 drive.disk (drive.blockSize * sector) (drive.blockSize * blknum)) := by
  classical
  have hfails : drive.toBdev.fails sector blknum = false := by
    unfold AtapiDrive.toBdev
    dsimp only
    rw [decide_eq_true h, Bool.not_true]
  unfold Super.bdevRead
  rw [if_neg (by rw [hfails]; decide), Nat.mul_comm drive.blockSize, Nat.mul_comm drive.blockSize]
  rfl

lemma AtapiDrive.bdevRead_of_not_obliges (drive : AtapiDrive slave)
    (h : ¬ drive.Obliges sector blknum) (buffer : Bytes) :
    Super.bdevRead drive.toBdev sector blknum buffer = none := by
  classical
  have hfails : drive.toBdev.fails sector blknum = true := by
    unfold AtapiDrive.toBdev
    dsimp only
    rw [decide_eq_false h, Bool.not_false]
  unfold Super.bdevRead
  exact if_pos hfails

lemma AtapiDrive.gives_disk (drive : AtapiDrive slave) (hin : sector + blknum ≤ drive.blocks)
    (hlen : blknum * drive.blockSize < 2 ^ 32) :
    ∀ n < 2 ^ (drive.blockLogs - 1) * blknum, ((drive.device sector blknum).data n).toNat =
      le16 drive.disk (drive.blockSize * sector + 2 * n) := by
  intro n hn
  have hpos : 0 < blknum := Nat.pos_of_ne_zero fun h0 => by
    rw [h0, Nat.mul_zero] at hn
    exact Nat.not_lt_zero n hn
  have hle := drive.blocks_le
  have hblknum : blknum < 2 ^ 32 :=
    (Nat.le_mul_of_pos_right blknum (Nat.two_pow_pos _)).trans_lt hlen
  have hlba : be32 (packet (drive.sent sector blknum)) 2 = sector := by
    refine (be32_congr fun k hk => packet_sent _ _ _ (by omega)).trans ?_
    rw [scsiXfer12_lba, u32_of_lt (by omega)]
  have hnum : be32 (packet (drive.sent sector blknum)) 6 = blknum := by
    refine (be32_congr fun k hk => packet_sent _ _ _ (by omega)).trans ?_
    rw [scsiXfer12_num, u32_of_lt hblknum]
  have hcmd : packet (drive.sent sector blknum) 0 = 0xa8 :=
    (packet_sent _ _ _ (by decide)).trans (scsiXfer12_cmd sector blknum)
  have hselects : ∀ slave : Fin 2,
      ((0 : UInt8).toNat &&& 0xef ||| (slave : ℕ) <<< 4) % 2 ^ 8 &&& 0x10 = (slave : ℕ) <<< 4 := by
    decide
  have hgives := drive.gives (drive.sent sector blknum) (hselects slave) rfl hcmd
  rw [hlba, hnum] at hgives
  exact hgives hin n hn

/-- A packet is sent and its data are received. -/
lemma atapiSend_spec (dev : Device) (bdev : IdeDev) (pkg : Bytes) (pkglen : ℕ) (buf : Bytes)
    (buflen : ℕ) :
    ∃ ret buf', ideAtapiSend dev bdev pkg pkglen buf buflen = some (ret, buf') ∧
      (ret = 0 ↔ Moves dev (atapiCmd pkg pkglen buflen)) ∧
      (Moves dev (atapiCmd pkg pkglen buflen) →
        buf' = memcpy buf 0 (stream dev) 0 (2 * (buflen / 2))) := by
  have hclean : Clean ((atapiCmd pkg pkglen buflen).raw 6) := by
    show Clean 0xa0
    decide
  have hread : (atapiCmd pkg pkglen buflen).write = false := rfl
  obtain ⟨ret, cmd', s', hsend, hok, hbuf⟩ := send_reads dev bdev.slave buf hread hclean
  unfold ideAtapiSend
  rw [hsend, Option.map_some]
  refine ⟨_, _, rfl, ?_, hbuf⟩
  rw [← hok]
  dsimp only
  by_cases hall : ret = 0 ∧ cmd'.bufsize = buflen
  · rw [if_neg fun h => h.elim (fun h0 => h0 hall.1) fun hsize => hsize hall.2]
    exact iff_of_true rfl hall
  · rw [if_pos (not_and_or.mp hall)]
    exact iff_of_false (by decide) hall

/-- **Reading a drive with packets is reading its block device**, whatever byte counts the drive
gives on the way. -/
theorem atapiRead_refines (drive : AtapiDrive slave) (hin : sector + blknum ≤ drive.blocks)
    (hlen : blknum * drive.blockSize < 2 ^ 32) (rsd buffer : Bytes) :
    ∃ ret buf, ideAtapiRead (drive.device sector blknum) (drive.sense sector blknum)
        (atapiDev slave drive.blockSize) rsd sector blknum buffer = some (ret, buf) ∧
      Super.bdevRead drive.toBdev sector blknum buffer = if ret = 0 then some buf else none := by
  have hblocks : blknum * drive.blockSize = 2 * (2 ^ (drive.blockLogs - 1) * blknum) := by
    unfold AtapiDrive.blockSize
    rw [← Nat.sub_add_cancel drive.logs_pos, pow_succ, Nat.sub_add_cancel drive.logs_pos]
    ring
  have hu : u32 (u64 (blknum * drive.blockSize)) = blknum * drive.blockSize := by
    rw [u64_of_lt (hlen.trans (by decide)), u32_of_lt hlen]
  obtain ⟨ret, buf, hsend, hok, hbuf⟩ := atapiSend_spec (drive.device sector blknum)
    (atapiDev slave drive.blockSize) (scsiXfer12 sector blknum) 12 buffer
    (u32 (u64 (blknum * drive.blockSize)))
  obtain ⟨ret', buf', hsense, hok', -⟩ := atapiSend_spec (drive.sense sector blknum)
    (atapiDev slave drive.blockSize) scsiRequestSense scsiRequestSenseSize rsd scsiRequestSenseSize
  have hread : ideAtapiRead (drive.device sector blknum) (drive.sense sector blknum)
      (atapiDev slave drive.blockSize) rsd sector blknum buffer =
        some (if ret' ≠ 0 then (-efault, buf) else if ret ≠ 0 then (ret, buf) else (0, buf)) := by
    unfold ideAtapiRead ideAtapiRequestSense
    rw [show (atapiDev slave drive.blockSize).blockSize = drive.blockSize from rfl, hsend, hsense]
    rfl
  rw [hread]
  by_cases hobliges : drive.Obliges sector blknum
  · obtain rfl : ret = 0 := hok.2 hobliges.1
    obtain rfl : ret' = 0 := hok'.2 hobliges.2
    refine ⟨0, buf, by rw [if_neg (not_not.mpr rfl), if_neg (not_not.mpr rfl)], ?_⟩
    have hdisk := stream_eq (drive.gives_disk hin hlen)
    rw [drive.bdevRead_of_obliges hobliges, if_pos rfl, hbuf hobliges.1, hu, hblocks,
      Nat.mul_div_cancel_left _ (by decide), memcpy_congr hdisk, ← hblocks, Nat.mul_comm blknum]
  · rw [drive.bdevRead_of_not_obliges hobliges]
    by_cases hsense0 : ret' = 0
    · have hret : ret ≠ 0 := fun h0 => hobliges ⟨hok.1 h0, hok'.1 hsense0⟩
      refine ⟨ret, buf, by rw [if_neg (not_not.mpr hsense0), if_pos hret], ?_⟩
      rw [if_neg hret]
    · exact ⟨-efault, buf, by rw [if_pos hsense0], by rw [if_neg (by decide)]⟩

/-- The registers of a drive that takes the packet and then moves `count` bytes each time. -/
def readyRegs (count : ℕ) (reg n : ℕ) : UInt8 :=
  if reg = atapiRegIreason then (if n = 0 then atapiIreasonCmdOut else atapiIreasonDataIn)
  else if reg = atapiRegCnthigh then byteAt count 8
  else if reg = atapiRegCntlow then byteAt count 0
  else 0x48

/-- A drive with blocks of 2048 bytes that moves one of them each time. -/
def readyAtapi (slave : Fin 2) (disk : Bytes) : AtapiDrive slave where
  disk
  blocks := 2 ^ 20
  blocks_le := by decide
  blockLogs := 11
  logs_pos := by decide
  logs_lt := by decide
  answers sent := ⟨readyRegs 2048, fun n =>
    UInt16.ofNat (le16 disk (2 ^ 11 * be32 (packet sent) 2 + 2 * n))⟩
  senses _ := ⟨readyRegs scsiRequestSenseSize, fun _ => 0⟩
  gives sent _ _ _ _ n _ := by
    have hlt := le16_lt disk (2 ^ 11 * be32 (packet sent) 2 + 2 * n)
    dsimp only
    rw [UInt16.toNat_ofNat', Nat.mod_eq_of_lt hlt]

theorem atapiRead_refines_ready :
    ∃ ret buf, ideAtapiRead ((readyAtapi 0 UInt8.ofNat).device 16 3)
        ((readyAtapi 0 UInt8.ofNat).sense 16 3) (atapiDev 0 (readyAtapi 0 UInt8.ofNat).blockSize)
        (fun _ => 0) 16 3 (fun _ => 0) = some (ret, buf) ∧
      Super.bdevRead (readyAtapi 0 UInt8.ofNat).toBdev 16 3 (fun _ => 0) =
        if ret = 0 then some buf else none :=
  atapiRead_refines (readyAtapi 0 UInt8.ofNat) (by decide) (by decide) _ _

end Elfboot.Ide
