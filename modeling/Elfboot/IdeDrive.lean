import Elfboot.IdeRead
import Elfboot.Super

/-!
The block devices of `ide.c`.

A drive answers to what is sent to it: from its registers, or from a packet, it takes the blocks it
is asked for, and the words it gives are theirs. To read it is to read the block device that has
the bytes of its disk and fails where the drive does not ask for all of them to be moved.
-/

namespace Elfboot.Ide

open Elfboot.Errno Elfboot.Word Elfboot.Buffer Elfboot.Loop

abbrev ataCmdReadPioExt : UInt8 := 0x24
abbrev ataCmdPacket : UInt8 := 0xa0
abbrev scsiCmdRequestSense : UInt8 := 0x03
abbrev scsiCmdRead12 : UInt8 := 0xa8

/-- Of `struct bdev` and of its `struct ide_dev`, what is used to read. -/
structure IdeDev where
  lba : Bool
  blockSize : ℕ
  slave : Fin 2
  disk : UInt8

/-- `(n >> k) & 0xff`. -/
def byteAt (n k : ℕ) : UInt8 := UInt8.ofNat ((n >>> k) &&& 0xff)

variable (dev : Device) (bdev : IdeDev)

/-! ### ATA -/

def ideAtaSend (cmd : AtaCmd) (command : UInt8) (s : State) : Option (ℤ × AtaCmd × State) :=
  let raw := Function.update (Function.update cmd.raw 5 bdev.disk) 6 command
  ideSendCommand dev bdev.slave { cmd with raw } s

/-- The registers that `ide_ata_read` fills in. -/
def ataReadRegs (sector blknum : ℕ) : Bytes
  | 1 => byteAt blknum 0
  | 2 => byteAt sector 0
  | 3 => byteAt sector 8
  | 4 => byteAt sector 16
  | 7 => if bdev.lba then byteAt blknum 8 else 0
  | 8 => if bdev.lba then byteAt sector 24 else 0
  | 9 => if bdev.lba then byteAt sector 32 else 0
  | 10 => if bdev.lba then byteAt sector 40 else 0
  | _ => 0

def ataReadCmd (sector blknum : ℕ) : AtaCmd where
  bufsize := u32 (u64 (bdev.blockSize * blknum))
  cmd := none
  cmdsize := 0
  write := false
  raw := ataReadRegs bdev sector blknum

/-- `ide_ata_read`: its result and the buffer. -/
def ideAtaRead (sector blknum : ℕ) (buffer : Bytes) : Option (ℤ × Bytes) :=
  (ideAtaSend dev bdev (ataReadCmd bdev sector blknum) ataCmdReadPioExt (start buffer)).map
    fun r =>
      if r.1 ≠ 0 then (-efault, r.2.2.buf)
      else if r.2.1.bufsize ≠ u64 (bdev.blockSize * blknum) then (-efault, r.2.2.buf)
      else (0, r.2.2.buf)

/-! ### A drive with sectors -/

/-- The two bytes last sent to a register. -/
def lastTwo (sent : List (ℕ × ℕ)) (reg : ℕ) : ℕ × ℕ :=
  sent.foldl (fun two w => if w.1 = reg then (two.2, w.2) else two) (0, 0)

/-- What a drive finds in its registers: those of the address and the count keep two bytes. -/
structure Request where
  device : ℕ
  command : ℕ
  sector : ℕ
  count : ℕ

def request (sent : List (ℕ × ℕ)) : Request where
  device := (lastTwo sent ataRegHddevsel).2
  command := (lastTwo sent ataRegCommand).2
  sector := (lastTwo sent 3).2 + (lastTwo sent 4).2 * 2 ^ 8 + (lastTwo sent 5).2 * 2 ^ 16 +
    (lastTwo sent 3).1 * 2 ^ 24 + (lastTwo sent 4).1 * 2 ^ 32 + (lastTwo sent 5).1 * 2 ^ 40
  count := (lastTwo sent ataRegSectors).2 + (lastTwo sent ataRegSectors).1 * 2 ^ 8

/-- A count of 0 stands for 65536 sectors. -/
def Request.sectors (r : Request) : ℕ := if r.count = 0 then 2 ^ 16 else r.count

/-- The drive is the one that is selected, and the address is that of a block. -/
def Request.Selects (r : Request) (slave : Fin 2) : Prop :=
  r.device &&& 0x50 = 0x40 ||| (slave : ℕ) <<< 4

/-- A drive with sectors of 512 bytes. Whatever it is sent, the data it gives to
`READ SECTORS EXT` are the sectors on its disk; what else its registers say is its own affair. -/
structure AtaDrive (slave : Fin 2) where
  disk : Bytes
  sectors : ℕ
  sectors_le : sectors ≤ 2 ^ 48
  answers : List (ℕ × ℕ) → Device
  gives : ∀ sent, (request sent).Selects slave → (request sent).command = 0x24 →
    (request sent).sector + (request sent).sectors ≤ sectors →
      ∀ n < 256 * (request sent).sectors,
        ((answers sent).data n).toNat = le16 disk (512 * (request sent).sector + 2 * n)

/-! ### What the drive is asked for -/

variable {dev} {lba : Bool} {slave : Fin 2} {sector blknum : ℕ} {buffer : Bytes}

/-- `struct bdev` of a drive with sectors of 512 bytes, as `ide_init_ata` fills it in. -/
def ataDev (lba : Bool) (slave : Fin 2) : IdeDev := ⟨lba, 512, slave, 0xe0⟩

/-- The command that is sent. -/
def ataRead (lba : Bool) (slave : Fin 2) (sector blknum : ℕ) : AtaCmd :=
  { ataReadCmd (ataDev lba slave) sector blknum with
    raw := Function.update (Function.update (ataReadRegs (ataDev lba slave) sector blknum) 5 0xe0) 6
      ataCmdReadPioExt }

/-- The address and the count have room in the registers. -/
structure Addressed (lba : Bool) (sector blknum : ℕ) : Prop where
  pos : 0 < blknum
  sector : sector < if lba then 2 ^ 48 else 2 ^ 24
  count : if lba then blknum ≤ 2 ^ 16 else blknum < 2 ^ 8

lemma byteAt_toNat (n k : ℕ) : (byteAt n k).toNat = n / 2 ^ k % 256 := by
  have hmask : n >>> k &&& 0xff = n / 2 ^ k % 256 := by
    rw [Nat.shiftRight_eq_div_pow]
    exact Nat.and_two_pow_sub_one_eq_mod _ 8
  unfold byteAt
  rw [hmask, UInt8.toNat_ofNat', Nat.mod_mod]

lemma sent_registers (slave : ℕ) (cmd : AtaCmd) (buf : Bytes) :
    (sendRegisters slave cmd (start buf)).sent =
      [(6, ((cmd.raw 5).toNat &&& 0xef ||| slave <<< 4) % 2 ^ 8), (2, (cmd.raw 7).toNat % 2 ^ 8),
        (3, (cmd.raw 8).toNat % 2 ^ 8), (4, (cmd.raw 9).toNat % 2 ^ 8),
        (5, (cmd.raw 10).toNat % 2 ^ 8), (1, (cmd.raw 0).toNat % 2 ^ 8),
        (2, (cmd.raw 1).toNat % 2 ^ 8), (3, (cmd.raw 2).toNat % 2 ^ 8),
        (4, (cmd.raw 3).toNat % 2 ^ 8), (5, (cmd.raw 4).toNat % 2 ^ 8),
        (7, (cmd.raw 6).toNat % 2 ^ 8)] := rfl

lemma request_registers (device sectors48 low48 mid48 high48 features sectors low mid high c : ℕ) :
    request [(6, device), (2, sectors48), (3, low48), (4, mid48), (5, high48), (1, features),
        (2, sectors), (3, low), (4, mid), (5, high), (7, c)] =
      ⟨device, c, low + mid * 2 ^ 8 + high * 2 ^ 16 + low48 * 2 ^ 24 + mid48 * 2 ^ 32 +
        high48 * 2 ^ 40, sectors + sectors48 * 2 ^ 8⟩ := rfl

/-- **The drive finds in its registers what is to be read.** -/
lemma request_ata (h : Addressed lba sector blknum) (buf : Bytes) :
    request (sendRegisters slave (ataRead lba slave sector blknum) (start buf)).sent =
      ⟨0xe0 ||| (slave : ℕ) <<< 4, 0x24, sector, blknum % 2 ^ 16⟩ := by
  have hdevice : ((0xe0 : UInt8).toNat &&& 0xef ||| (slave : ℕ) <<< 4) % 2 ^ 8 =
      0xe0 ||| (slave : ℕ) <<< 4 := by
    fin_cases slave <;> rfl
  obtain ⟨hpos, hsector, hcount⟩ := h
  rw [sent_registers, request_registers]
  congr 1
  · cases lba
    · have hsector : sector < 2 ^ 24 := hsector
      change (byteAt sector 0).toNat % 2 ^ 8 + (byteAt sector 8).toNat % 2 ^ 8 * 2 ^ 8 +
        (byteAt sector 16).toNat % 2 ^ 8 * 2 ^ 16 + 0 * 2 ^ 24 + 0 * 2 ^ 32 + 0 * 2 ^ 40 = sector
      rw [byteAt_toNat, byteAt_toNat, byteAt_toNat]
      omega
    · have hsector : sector < 2 ^ 48 := hsector
      change (byteAt sector 0).toNat % 2 ^ 8 + (byteAt sector 8).toNat % 2 ^ 8 * 2 ^ 8 +
        (byteAt sector 16).toNat % 2 ^ 8 * 2 ^ 16 + (byteAt sector 24).toNat % 2 ^ 8 * 2 ^ 24 +
        (byteAt sector 32).toNat % 2 ^ 8 * 2 ^ 32 + (byteAt sector 40).toNat % 2 ^ 8 * 2 ^ 40 =
          sector
      rw [byteAt_toNat, byteAt_toNat, byteAt_toNat, byteAt_toNat, byteAt_toNat, byteAt_toNat]
      omega
  · cases lba
    · have hcount : blknum < 2 ^ 8 := hcount
      change (byteAt blknum 0).toNat % 2 ^ 8 + 0 * 2 ^ 8 = blknum % 2 ^ 16
      rw [byteAt_toNat]
      omega
    · change (byteAt blknum 0).toNat % 2 ^ 8 + (byteAt blknum 8).toNat % 2 ^ 8 * 2 ^ 8 =
        blknum % 2 ^ 16
      rw [byteAt_toNat, byteAt_toNat]
      omega

/-! ### The sectors that are moved -/

/-- How many statuses have been read when the driver comes to a sector. -/
def sectorPoll (dev : Device) (k : ℕ) : ℕ := (polled dev)^[k + 1] 0

lemma sectorPoll_succ (dev : Device) (k : ℕ) :
    sectorPoll dev (k + 1) = polled dev (sectorPoll dev k) := Function.iterate_succ_apply' ..

variable {cmd : AtaCmd} {i j k m n : ℕ}

/-- Without a packet, the device asks for one sector after the other. -/
lemma Dialogue.sectors (h : Dialogue dev cmd i j k n) (hsize : cmd.cmdsize = 0) :
    ∃ m, i = sectorPoll dev m ∧ n = min (512 * m) cmd.bufsize ∧
      ∀ l < m, Asks dev (sectorPoll dev l) := by
  induction h with
  | plain hno => exact ⟨0, rfl, (Nat.zero_min _).symm, fun l hl => absurd hl (Nat.not_lt_zero l)⟩
  | packet hpkt _ _ => exact absurd hsize hpkt.1
  | atapi _ hpkt _ _ _ _ _ => exact absurd hsize hpkt
  | ata _ _ hmore hasks ih =>
    obtain ⟨m, rfl, rfl, hall⟩ := ih
    refine ⟨m + 1, (sectorPoll_succ dev m).symm, by omega, fun l hl => ?_⟩
    rcases Nat.lt_succ_iff_lt_or_eq.mp hl with hl | rfl
    · exact hall l hl
    · exact hasks

lemma dialogue_sectors (hsize : cmd.cmdsize = 0) (hm : 512 * m ≤ cmd.bufsize)
    (h : ∀ l < m, Asks dev (sectorPoll dev l)) :
    Dialogue dev cmd (sectorPoll dev m) 0 0 (512 * m) := by
  induction m with
  | zero => exact .plain fun hpkt => hpkt.1 hsize
  | succ m ih =>
      have hbefore := ih (by omega) fun l hl => h l (by omega)
      have hnext := hbefore.ata hsize (by omega) (h m (by omega))
      rw [sectorPoll_succ, Nat.mul_succ]
      rwa [min_eq_left (by omega)] at hnext

lemma moves_sectors (hsize : cmd.cmdsize = 0) (hbuf : cmd.bufsize = 512 * m) :
    Moves dev cmd ↔ ∀ l < m, Asks dev (sectorPoll dev l) := by
  constructor
  · rintro ⟨i, j, k, h⟩
    obtain ⟨m', -, hmin, hall⟩ := h.sectors hsize
    exact fun l hl => hall l (by omega)
  · intro h
    have hd := dialogue_sectors hsize hbuf.ge h
    rw [← hbuf] at hd
    exact ⟨_, _, _, hd⟩

/-! ### The block device -/

lemma stream_eq {disk : Bytes} {p n : ℕ}
    (h : ∀ i < n, (dev.data i).toNat = le16 disk (p + 2 * i)) :
    ∀ i < 2 * n, stream dev i = disk (p + i) := by
  intro i hi
  have hdiv : i / 2 < n := by omega
  have hlow := (disk (p + 2 * (i / 2))).toNat_lt
  have hhigh := (disk (p + 2 * (i / 2) + 1)).toNat_lt
  refine UInt8.toNat_inj.mp ?_
  unfold stream
  rw [h _ hdiv, UInt8.toNat_ofNat']
  unfold le16
  rcases Nat.mod_two_eq_zero_or_one i with heven | hodd
  · rw [heven, Nat.mul_zero, pow_zero, Nat.div_one]
    rw [show p + i = p + 2 * (i / 2) by omega]
    omega
  · rw [hodd, Nat.mul_one]
    rw [show p + i = p + 2 * (i / 2) + 1 by omega]
    omega

/-- What the drive answers to the command to read. -/
def AtaDrive.device (drive : AtaDrive slave) (lba : Bool) (sector blknum : ℕ) : Device :=
  drive.answers (sendRegisters slave (ataRead lba slave sector blknum) (start fun _ => 0)).sent

/-- The drive as a block device: a read fails where a sector is not asked for. -/
def AtaDrive.toBdev (drive : AtaDrive slave) (lba : Bool) : Super.Bdev where
  blockLogs := 9
  size := 512 * drive.sectors
  byte := drive.disk
  fails sector blknum := !decide (∀ l < blknum,
    Asks (drive.device lba sector blknum) (sectorPoll (drive.device lba sector blknum) l))
  size_le := by
    have := drive.sectors_le
    omega

lemma AtaDrive.gives_disk (drive : AtaDrive slave) (h : Addressed lba sector blknum)
    (hin : sector + blknum ≤ drive.sectors) :
    ∀ n < 256 * blknum, ((drive.device lba sector blknum).data n).toNat =
      le16 drive.disk (512 * sector + 2 * n) := by
  have hreq : request (sendRegisters slave (ataRead lba slave sector blknum)
      (start fun _ => 0)).sent = ⟨0xe0 ||| (slave : ℕ) <<< 4, 0x24, sector, blknum % 2 ^ 16⟩ :=
    request_ata h _
  have hsectors : (⟨0xe0 ||| (slave : ℕ) <<< 4, 0x24, sector, blknum % 2 ^ 16⟩ : Request).sectors =
      blknum := by
    have hpos := h.pos
    have hle : blknum ≤ 2 ^ 16 := by
      have hcount := h.count
      split_ifs at hcount <;> omega
    unfold Request.sectors
    dsimp only
    split_ifs <;> omega
  have hselects : ∀ slave : Fin 2, (0xe0 ||| (slave : ℕ) <<< 4) &&& 0x50 =
      0x40 ||| (slave : ℕ) <<< 4 := by decide
  have hgives := drive.gives (sendRegisters slave (ataRead lba slave sector blknum)
    (start fun _ => 0)).sent
  rw [hreq, hsectors] at hgives
  exact hgives (hselects slave) rfl hin

lemma AtaDrive.bdevRead_eq (drive : AtaDrive slave) (lba : Bool) (sector blknum : ℕ)
    (buffer : Bytes) :
    Super.bdevRead (drive.toBdev lba) sector blknum buffer =
      if ∀ l < blknum, Asks (drive.device lba sector blknum)
          (sectorPoll (drive.device lba sector blknum) l) then
        some (memcpy buffer 0 drive.disk (512 * sector) (512 * blknum))
      else none := by
  have hfails : (drive.toBdev lba).fails sector blknum = !decide (∀ l < blknum,
    Asks (drive.device lba sector blknum) (sectorPoll (drive.device lba sector blknum) l)) := rfl
  unfold Super.bdevRead
  rw [Nat.mul_comm 512 sector, Nat.mul_comm 512 blknum]
  by_cases hall : ∀ l < blknum, Asks (drive.device lba sector blknum)
    (sectorPoll (drive.device lba sector blknum) l)
  · rw [decide_eq_true hall] at hfails
    rw [if_neg (by rw [hfails]; decide), if_pos hall]
    rfl
  · rw [decide_eq_false hall] at hfails
    exact (if_pos hfails).trans (if_neg hall).symm

/-- **Reading a drive is reading its block device**: `ide_ata_read` ends, it reports an error
exactly when a read of the block device fails, and else the buffer has the bytes of the disk. -/
theorem ataRead_refines (drive : AtaDrive slave) (h : Addressed lba sector blknum)
    (hin : sector + blknum ≤ drive.sectors) (buffer : Bytes) :
    ∃ ret buf, ideAtaRead (drive.device lba sector blknum) (ataDev lba slave) sector blknum buffer =
        some (ret, buf) ∧ (ret = 0 ∨ ret = -efault) ∧
      Super.bdevRead (drive.toBdev lba) sector blknum buffer =
        if ret = 0 then some buf else none := by
  rw [drive.bdevRead_eq]
  have hdisk := stream_eq (drive.gives_disk h hin)
  obtain ⟨dev, hdev⟩ : ∃ dev, dev = drive.device lba sector blknum := ⟨_, rfl⟩
  obtain ⟨cmd, hcmd⟩ : ∃ cmd, cmd = ataRead lba slave sector blknum := ⟨_, rfl⟩
  rw [← hdev] at hdisk ⊢
  have hle : blknum ≤ 2 ^ 16 := by
    have hcount := h.count
    split_ifs at hcount <;> omega
  have hu64 : u64 (512 * blknum) = 512 * blknum := u64_of_lt (by omega)
  have hbufsize : cmd.bufsize = 512 * blknum := by
    rw [hcmd]
    change u32 (u64 (512 * blknum)) = _
    rw [hu64, u32_of_lt (by omega)]
  have hclean : Clean (cmd.raw 6) := by
    rw [hcmd]
    show Clean 0x24
    decide
  obtain ⟨ret, cmd', s', hsend, hok, hbuf⟩ :=
    send_reads dev slave buffer (show cmd.write = false by rw [hcmd]; rfl) hclean
  have hread : ideAtaRead dev (ataDev lba slave) sector blknum buffer =
      (ideSendCommand dev slave cmd (start buffer)).map fun r =>
        if r.1 ≠ 0 then (-efault, r.2.2.buf)
        else if r.2.1.bufsize ≠ u64 (512 * blknum) then (-efault, r.2.2.buf)
        else (0, r.2.2.buf) := by
    rw [hcmd]
    rfl
  have hmoves : Moves dev cmd ↔ ∀ l < blknum, Asks dev (sectorPoll dev l) :=
    moves_sectors (by rw [hcmd]; rfl) hbufsize
  rw [hbufsize] at hok hbuf
  rw [hread, hsend, Option.map_some, hu64]
  by_cases hall : ∀ l < blknum, Asks dev (sectorPoll dev l)
  · obtain ⟨rfl, hsize⟩ := hok.2 (hmoves.2 hall)
    refine ⟨0, s'.buf, ?_, .inl rfl, ?_⟩
    · rw [if_neg (not_not.mpr rfl), if_neg (not_not.mpr hsize)]
    · rw [if_pos hall, if_pos rfl, hbuf (hmoves.2 hall),
        show 2 * (512 * blknum / 2) = 2 * (256 * blknum) by omega, memcpy_congr hdisk,
        show 2 * (256 * blknum) = 512 * blknum by omega]
  · have hfail : ¬ (ret = 0 ∧ cmd'.bufsize = 512 * blknum) := fun h => hall (hmoves.1 (hok.1 h))
    refine ⟨-efault, s'.buf, ?_, .inr rfl, ?_⟩
    · by_cases hret : ret = 0
      · rw [if_neg (not_not.mpr hret), if_pos fun hsize => hfail ⟨hret, hsize⟩]
      · rw [if_pos hret]
    · rw [if_neg hall, if_neg (by decide)]

/-- A drive that always has the next sector ready. -/
def readyDrive (slave : Fin 2) (disk : Bytes) : AtaDrive slave where
  disk
  sectors := 2 ^ 28
  sectors_le := by decide
  answers sent := ⟨fun _ _ => 0x48, fun n =>
    UInt16.ofNat (le16 disk (512 * (request sent).sector + 2 * n))⟩
  gives sent _ _ _ n _ := by
    have hlt := le16_lt disk (512 * (request sent).sector + 2 * n)
    dsimp only
    rw [UInt16.toNat_ofNat', Nat.mod_eq_of_lt hlt]

theorem ataRead_refines_ready :
    ∃ ret buf, ideAtaRead ((readyDrive 1 UInt8.ofNat).device true 70000 65536) (ataDev true 1) 70000
        65536 (fun _ => 0) = some (ret, buf) ∧ (ret = 0 ∨ ret = -efault) ∧
      Super.bdevRead ((readyDrive 1 UInt8.ofNat).toBdev true) 70000 65536 (fun _ => 0) =
        if ret = 0 then some buf else none :=
  ataRead_refines (readyDrive 1 UInt8.ofNat) ⟨by decide, by decide, by decide⟩ (by decide) _

end Elfboot.Ide
