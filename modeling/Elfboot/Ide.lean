import Elfboot.Errno
import Elfboot.Buffer
import Elfboot.Loop

/-!
Commands to an ATA or ATAPI device: `ide_send_command` of `ide.c`.

A device is what each read of each of its registers gives. What it is sent is kept in a list and
does not come into the answers, which are arbitrary. Next to the buffer stands which of its bytes
have been stored.
-/

namespace Elfboot.Ide

open Elfboot.Errno Elfboot.Buffer Elfboot.Loop

abbrev ataRegData : ℕ := 0
abbrev ataRegError : ℕ := 1
abbrev ataRegFeatures : ℕ := 1
abbrev ataRegSectors : ℕ := 2
abbrev atapiRegIreason : ℕ := 2
abbrev atapiRegCntlow : ℕ := 4
abbrev ataRegLbahigh : ℕ := 5
abbrev atapiRegCnthigh : ℕ := 5
abbrev ataRegHddevsel : ℕ := 6
abbrev ataRegCommand : ℕ := 7
abbrev ataRegStatus : ℕ := 7
abbrev ataRegAltstatus : ℕ := 12

abbrev ataSrBsy : UInt8 := 0x80
abbrev ataSrDf : UInt8 := 0x20
abbrev ataSrDrq : UInt8 := 0x08
abbrev ataSrErr : UInt8 := 0x01
abbrev ataSrPoll : UInt8 := ataSrErr ||| ataSrDrq ||| ataSrDf

abbrev atapiIreasonMask : UInt8 := 0x3
abbrev atapiIreasonCmdOut : UInt8 := 0x1
abbrev atapiIreasonDataIn : UInt8 := 0x2

/-- It is not unfolded, so that no proof makes a million turns. -/
@[irreducible] def ataIoTimeout : ℕ := 1000000

/-- What the `n`-th read of a register gives, and the `n`-th word of data. -/
structure Device where
  reg : ℕ → ℕ → UInt8
  data : ℕ → UInt16

/-- `struct ata_cmd`, less the buffer; `raw` are the bytes of its registers. -/
structure AtaCmd where
  bufsize : ℕ
  cmd : Option Bytes
  cmdsize : ℕ
  write : Bool
  raw : Bytes

structure State where
  /-- how often each register has been read -/
  reads : ℕ → ℕ
  /-- the words of data read so far -/
  words : ℕ
  /-- the registers and what has been sent to them -/
  sent : List (ℕ × ℕ)
  buf : Bytes
  /-- the bytes of the buffer that have been stored -/
  stored : Finset ℕ

variable (dev : Device)

def ideOutb (reg val : ℕ) (s : State) : State := { s with sent := s.sent ++ [(reg, val % 2 ^ 8)] }

def ideInb (reg : ℕ) (s : State) : UInt8 × State :=
  (dev.reg reg (s.reads reg), { s with reads := Function.update s.reads reg (s.reads reg + 1) })

/-- A word of data is read and stored. -/
def ideReadWord (i : ℕ) (s : State) : State :=
  let w := (dev.data s.words).toNat
  let buf := Function.update (Function.update s.buf i (UInt8.ofNat w)) (i + 1)
    (UInt8.ofNat (w / 2 ^ 8))
  { s with words := s.words + 1, buf, stored := insert (i + 1) (insert i s.stored) }

/-- `k` turns of the loop of `ide_read_io`, from an offset on. -/
def ideReadLoop : ℕ → ℕ → State → State
  | 0, _, s => s
  | k + 1, i, s => ideReadLoop k (i + 2) (ideReadWord dev i s)

def ideReadIo (offset size : ℕ) (s : State) : State := ideReadLoop dev (size >>> 1) offset s

def ideWriteIo (b : Bytes) (offset size : ℕ) (s : State) : State :=
  { s with sent := s.sent ++
      (List.range (size >>> 1)).map fun i => (ataRegData, le16 b (offset + 2 * i)) }

def idePollPiodel (s : State) : State := (fun s => (ideInb dev ataRegAltstatus s).2)^[4] s

/-- `k` turns of the loop of `ide_poll_status`. -/
def idePollLoop : ℕ → UInt8 → State → UInt8 × State
  | 0, status, s => (status, s)
  | k + 1, _, s =>
    let (status, s) := ideInb dev ataRegStatus s
    if status &&& ataSrBsy = 0 then (status, s) else idePollLoop k status s

def idePollStatus (s : State) : UInt8 × State := idePollLoop dev ataIoTimeout 0 s

def idePollIo (s : State) : UInt8 × State := idePollStatus dev (idePollPiodel dev s)

/-- The registers and the command are sent. -/
def sendRegisters (slave : ℕ) (cmd : AtaCmd) (s : State) : State :=
  let dev := (cmd.raw 5).toNat &&& 0xef ||| slave <<< 4
  let s := ideOutb ataRegHddevsel dev s
  let s := (List.range' ataRegSectors 4).foldl
    (fun s i => ideOutb i (cmd.raw (7 + (i - ataRegSectors))).toNat s) s
  let s := (List.range' ataRegFeatures 5).foldl
    (fun s i => ideOutb i (cmd.raw (i - ataRegFeatures)).toNat s) s
  ideOutb ataRegCommand (cmd.raw 6).toNat s

/-- The packet of an ATAPI command is sent; no result where the device does not want it. -/
def sendPacket (cmd : AtaCmd) (status : UInt8) (s : State) : Option UInt8 × State :=
  match cmd.cmd with
  | none => (some status, s)
  | some pkt =>
    if cmd.cmdsize = 0 then (some status, s)
    else if status &&& ataSrPoll ≠ ataSrDrq then (none, s)
    else
      let (ireason, s) := ideInb dev atapiRegIreason s
      if ireason &&& atapiIreasonMask ≠ atapiIreasonCmdOut then (none, s)
      else
        let polled := idePollIo dev (ideWriteIo pkt 0 cmd.cmdsize s)
        (some polled.1, polled.2)

/-- How many bytes the device is to move next, when `rem` are left; no result where the device
says something else. -/
def chunkSize (cmd : AtaCmd) (rem : ℕ) (s : State) : Option ℕ × State :=
  if cmd.cmdsize ≠ 0 then
    let (ireason, s) := ideInb dev atapiRegIreason s
    if ireason &&& atapiIreasonMask ≠ atapiIreasonDataIn then (none, s)
    else
      let (cnthigh, s) := ideInb dev atapiRegCnthigh s
      let (cntlow, s) := ideInb dev atapiRegCntlow s
      let cnt := cnthigh.toNat <<< 8 ||| cntlow.toNat
      if 0 < cnt ∧ cnt ≤ rem ∧ (cnt &&& 1 = 0 ∨ cnt = rem) then (some cnt, s) else (none, s)
  else (some 512, s)

/-- What the loop of the transfer goes on with. -/
structure Transfer where
  status : UInt8
  nbread : ℕ
  s : State

/-- How the loop is left. -/
inductive Left
  | fails (s : State)
  | done (nbread : ℕ) (s : State)

def transferTurn (cmd : AtaCmd) (t : Transfer) : Option (Turn Transfer Left) :=
  if t.nbread < cmd.bufsize then
    let rem := cmd.bufsize - t.nbread
    if t.status &&& ataSrPoll ≠ ataSrDrq then some (.leave (.done t.nbread t.s))
    else
      match chunkSize dev cmd rem t.s with
      | (none, s) => some (.leave (.fails s))
      | (some cnt, s) =>
        let cnt := if rem < cnt then rem else cnt
        let s := if cmd.write then ideWriteIo s.buf t.nbread cnt s
          else ideReadIo dev t.nbread cnt s
        let polled := idePollIo dev s
        some (.next ⟨polled.1, t.nbread + cnt, polled.2⟩)
  else some (.leave (.done t.nbread t.s))

/-- `k` turns of the last loop: registers are read into `raw`. -/
def readRegisters : ℕ → ℕ → Bytes → State → Bytes × State
  | 0, _, raw, s => (raw, s)
  | k + 1, i, raw, s =>
    let (val, s) := ideInb dev i s
    readRegisters k (i + 1) (Function.update raw (i - ataRegFeatures) val) s

/-- The end of `ide_send_command`. -/
def finishCommand (cmd : AtaCmd) (nbread : ℕ) (s : State) : ℤ × AtaCmd × State :=
  let cmd := { cmd with bufsize := nbread }
  let s := (idePollIo dev s).2
  let (raw, s) := readRegisters dev (ataRegStatus - ataRegError) ataRegError cmd.raw s
  let cmd := { cmd with raw }
  if cmd.raw 6 &&& (ataSrDrq ||| ataSrErr) ≠ 0 then (-efault, cmd, s) else (0, cmd, s)

/-- What follows the loop. -/
def afterTransfer (cmd : AtaCmd) : Left → ℤ × AtaCmd × State
  | .fails s => (-efault, cmd, s)
  | .done nbread s =>
    if cmd.write then
      let polled := idePollIo dev s
      if polled.1 &&& (ataSrDrq ||| ataSrErr) ≠ 0 then (-efault, cmd, polled.2)
      else finishCommand dev cmd nbread polled.2
    else finishCommand dev cmd nbread s

/-- `ide_send_command`: each turn of its loop moves a byte or more. -/
def ideSendCommand (slave : ℕ) (cmd : AtaCmd) (s : State) : Option (ℤ × AtaCmd × State) :=
  let polled := idePollIo dev (sendRegisters slave cmd s)
  match sendPacket dev cmd polled.1 polled.2 with
  | (none, s) => some (-efault, cmd, s)
  | (some status, s) =>
    (loop (transferTurn dev cmd) (cmd.bufsize + 1) ⟨status, 0, s⟩).map (afterTransfer dev cmd)

/-- Nothing has been read or stored so far. -/
def start (buf : Bytes) : State where
  reads := fun _ => 0
  words := 0
  sent := []
  buf := buf
  stored := ∅

/-- The last status that the device has reported. -/
def lastStatus (s : State) : UInt8 := dev.reg ataRegStatus (s.reads ataRegStatus - 1)

/-- A status with neither `ERR` nor `DRQ`. -/
abbrev Clean (status : UInt8) : Prop := status &&& (ataSrDrq ||| ataSrErr) = 0

/-- The command comes to an end, and if it says that all went well, the device has said so last,
and `bufsize` is the number of bytes that have been stored. -/
def Reports (slave : ℕ) (cmd : AtaCmd) (buf : Bytes) : Prop :=
  ∃ ret cmd' s', ideSendCommand dev slave cmd (start buf) = some (ret, cmd', s') ∧
    (ret = 0 → Clean (lastStatus dev s') ∧
      (cmd.write = false → cmd'.bufsize = s'.stored.card ∧ s'.stored ⊆ Finset.range cmd.bufsize))

/-! ### What the device says -/

/-- How many statuses have been read when a poll of `k` turns is over, `i` before it. -/
def pollEnd : ℕ → ℕ → ℕ
  | 0, i => i
  | k + 1, i => if dev.reg ataRegStatus i &&& ataSrBsy = 0 then i + 1 else pollEnd k (i + 1)

def polled (i : ℕ) : ℕ := pollEnd dev ataIoTimeout i

/-- The status that was read before. -/
def statusAt (i : ℕ) : UInt8 := dev.reg ataRegStatus (i - 1)

/-- The device asks for data to be moved. -/
abbrev Asks (i : ℕ) : Prop := statusAt dev i &&& ataSrPoll = ataSrDrq

/-- The `k`-th byte count. -/
def countAt (k : ℕ) : ℕ :=
  (dev.reg atapiRegCnthigh k).toNat <<< 8 ||| (dev.reg atapiRegCntlow k).toNat

/-- The command comes with a packet. -/
abbrev Packet (cmd : AtaCmd) : Prop := cmd.cmdsize ≠ 0 ∧ cmd.cmd.isSome

/-- The device is to move a number of bytes when `rem` are left: an odd number only at the end. -/
abbrev Fits (rem cnt : ℕ) : Prop := 0 < cnt ∧ cnt ≤ rem ∧ (cnt &&& 1 = 0 ∨ cnt = rem)

/-- The device goes along with a command up to where it has given `i` statuses, `j` interrupt
reasons and `k` byte counts, and is to have moved `n` bytes. -/
inductive Dialogue (cmd : AtaCmd) : ℕ → ℕ → ℕ → ℕ → Prop
  | plain (h : ¬ Packet cmd) : Dialogue cmd (polled dev 0) 0 0 0
  | packet (h : Packet cmd) (hasks : Asks dev (polled dev 0))
      (hreason : dev.reg atapiRegIreason 0 &&& atapiIreasonMask = atapiIreasonCmdOut) :
      Dialogue cmd (polled dev (polled dev 0)) 1 0 0
  | atapi {i j k n : ℕ} (h : Dialogue cmd i j k n) (hsize : cmd.cmdsize ≠ 0)
      (hmore : n < cmd.bufsize) (hasks : Asks dev i)
      (hreason : dev.reg atapiRegIreason j &&& atapiIreasonMask = atapiIreasonDataIn)
      (hcount : Fits (cmd.bufsize - n) (countAt dev k)) :
      Dialogue cmd (polled dev i) (j + 1) (k + 1) (n + countAt dev k)
  | ata {i j k n : ℕ} (h : Dialogue cmd i j k n) (hsize : cmd.cmdsize = 0)
      (hmore : n < cmd.bufsize) (hasks : Asks dev i) :
      Dialogue cmd (polled dev i) j k (n + min 512 (cmd.bufsize - n))

/-- How many statuses have been read at the end of a command. -/
def lastPoll (cmd : AtaCmd) (i : ℕ) : ℕ :=
  if cmd.write then polled dev (polled dev i) else polled dev i

/-- A dialogue is over: all bytes have been moved or the device does not ask for more, and a device
that was written to is content. -/
structure Over (cmd : AtaCmd) (i j k n : ℕ) : Prop where
  dialogue : Dialogue dev cmd i j k n
  stops : n < cmd.bufsize → ¬ Asks dev i
  content : cmd.write = true → Clean (statusAt dev (polled dev i))

/-- The command byte has a bit of `DRQ` or `ERR`, or whenever a dialogue is over, the last status is
clean, and the number of bytes is even if they have been read. -/
def Sound (cmd : AtaCmd) : Prop :=
  ¬ Clean (cmd.raw 6) ∨ ∀ i j k n, Over dev cmd i j k n →
    Clean (statusAt dev (lastPoll dev cmd i)) ∧ (cmd.write = false → Even n)

end Elfboot.Ide
