import Elfboot.Errno
import Elfboot.Slots

/-!
The commands of the AHCI driver: `ahci.c`.

A command gets a slot of the port, and a table whose address is written into the command
header of the slot. Slots in use are told from the bits of two registers, and the device may
change the registers between any two accesses, in any way. The driver waits for the device
in loops; the model bounds their turns by `n`, and a driver that has used them up is still
waiting and has no result.
-/

namespace Elfboot.Ahci

open Elfboot.Errno Elfboot.Slots

abbrev ahciMaxDevices : ℕ := 32
abbrev sataSigAta : BitVec 32 := 0x00000101
abbrev sataSigAtapi : BitVec 32 := 0xeb140101
abbrev hbaPxISTfes : BitVec 32 := 0x40000000
abbrev ataSrBsy : BitVec 32 := 0x80
abbrev ataSrDrq : BitVec 32 := 0x08

/-- `sizeof(struct hba_cmd_tbl)` and `sizeof(struct hba_prdt)`. -/
abbrev cmdTblSize : ℕ := 128
abbrev prdtSize : ℕ := 16

/-- The registers of `struct hba_port` that are read. -/
structure HbaPort where
  is : BitVec 32
  tfd : BitVec 32
  sig : BitVec 32
  sact : BitVec 32
  ci : BitVec 32

/-- The port, with the addresses in the command headers and the books about the tables. -/
structure State where
  port : HbaPort
  time : ℕ
  headers : Books ℕ ℕ

/-- What is around the driver: the device, which changes the registers before each access,
the allocator of tables and the one of the block device with its name, and `bdev_init`. -/
structure Env where
  device : ℕ → HbaPort → HbaPort
  bzalloc : State → ℕ → Option ℕ
  bmalloc : State → Bool
  devName : State → Bool
  bdevInit : State → ℤ

variable (env : Env)

/-- A register is read. -/
def read (r : HbaPort → BitVec 32) (s : State) : BitVec 32 × State :=
  let port := env.device s.time s.port
  (r port, { s with port := port, time := s.time + 1 })

/-- The loop of `ahci_find_slot`, with `k` slots to go. -/
def findSlotLoop : ℕ → State → ℤ × State
  | 0, s => (-efault, s)
  | k + 1, s =>
    let i := ahciMaxDevices - (k + 1)
    let (sact, s) := read env HbaPort.sact s
    let (ci, s) := read env HbaPort.ci s
    if (sact ||| ci).getLsbD i then findSlotLoop k s else (i, s)

def ahciFindSlot (s : State) : ℤ × State := findSlotLoop env ahciMaxDevices s

/-- `ahci_port_wait`: whether the wait is over. -/
def ahciPortWait : ℕ → State → Bool × State
  | 0, s => (false, s)
  | n + 1, s =>
    let (tfd, s) := read env HbaPort.tfd s
    if tfd &&& ataSrBsy != 0 then ahciPortWait n s
    else
      let (tfd, s) := read env HbaPort.tfd s
      if tfd &&& ataSrDrq != 0 then ahciPortWait n s else (true, s)

def ahciIsAtapi (s : State) : Bool × State :=
  let (sig, s) := read env HbaPort.sig s
  (sig == sataSigAtapi, s)

def ahciPrepareCommand (s : State) (numPrdts : ℕ) : ℤ × State :=
  let (slot, s) := ahciFindSlot env s
  if slot < 0 then (-efault, s)
  else
    match env.bzalloc s (cmdTblSize + prdtSize * numPrdts) with
    | none => (-enomem, s)
    | some ctbl => (slot, { s with headers := take s.headers slot.toNat ctbl })

def ahciDestroyCommand (s : State) (slot : ℤ) : State :=
  { s with headers := release s.headers slot.toNat }

def ahciIdle (slot : ℤ) : ℕ → State → Option ℤ × State
  | 0, s => (none, s)
  | n + 1, s =>
    let (ci, s) := read env HbaPort.ci s
    let (is, s) := read env HbaPort.is s
    if ci.getLsbD slot.toNat then
      if is &&& hbaPxISTfes != 0 then (some (-efault), s) else ahciIdle slot n s
    else if is &&& hbaPxISTfes != 0 then (some (-efault), s)
    else (some 0, s)

/-- `port->ci |= 1UL << slot`. -/
def issue (s : State) (slot : ℤ) : State :=
  let (ci, s) := read env HbaPort.ci s
  { s with port := { s.port with ci := ci ||| 1#32 <<< slot.toNat } }

variable (n : ℕ)

/-- What comes between preparing and destroying a command: it is issued and waited for. -/
def ahciRunCommand (s : State) (slot : ℤ) : Option ℤ × State :=
  match ahciPortWait env n s with
  | (false, s) => (none, s)
  | (true, s) => ahciIdle env slot n (issue env s slot)

def ahciSendCommand (s : State) : Option ℤ × State :=
  let (slot, s) := ahciPrepareCommand env s 1
  if slot < 0 then (some slot, s)
  else
    match ahciRunCommand env n s slot with
    | (none, s) => (none, s)
    | (some r, s) => (some (if r ≠ 0 then -efault else 0), ahciDestroyCommand s slot)

/-- `ahci_satapi_request_sense` and `ahci_satapi_send`. -/
def ahciSatapiSend (s : State) : Option ℤ × State := ahciSendCommand env n s

def ahciSatapiRequestSense (s : State) : Option ℤ × State := ahciSatapiSend env n s

/-- A command with a request for its sense data after it: `ahci_satapi_read` and, but for the
fields that it fills in, `ahci_satapi_read_capacity`. -/
def satapiCommand (s : State) : Option ℤ × State :=
  match ahciSatapiSend env n s with
  | (none, s) => (none, s)
  | (some ret, s) =>
    match ahciSatapiRequestSense env n s with
    | (none, s) => (none, s)
    | (some sense, s) => (some (if sense ≠ 0 then -efault else ret), s)

def ahciSatapiRead (s : State) : Option ℤ × State := satapiCommand env n s

def ahciSatapiReadCapacity (s : State) : Option ℤ × State := satapiCommand env n s

def ahciFillSata (s : State) : ℤ :=
  if !env.bmalloc s then -enomem
  else if !env.devName s then -efault
  else env.bdevInit s

def ahciFillSatapi (s : State) : Option ℤ × State :=
  if !env.bmalloc s then (some (-enomem), s)
  else if !env.devName s then (some (-efault), s)
  else
    match ahciSatapiReadCapacity env n s with
    | (none, s) => (none, s)
    | (some r, s) => (some (if r ≠ 0 then -efault else env.bdevInit s), s)

/-- The `switch` of `ahci_identify_ahcidev`. -/
def fillDevice (s : State) : Option ℤ × State :=
  let (sig, s) := read env HbaPort.sig s
  if sig = sataSigAta then (some (ahciFillSata env s), s)
  else if sig = sataSigAtapi then ahciFillSatapi env n s
  else (some 0, s)

def ahciIdentifyAhcidev (s : State) : Option ℤ × State :=
  let (slot, s) := ahciPrepareCommand env s 1
  if slot < 0 then (some (-efault), s)
  else
    let (_, s) := ahciIsAtapi env s
    match ahciRunCommand env n s slot with
    | (none, s) => (none, s)
    | (some r, s) =>
      if r ≠ 0 then (some (-efault), ahciDestroyCommand s slot)
      else
        match fillDevice env n s with
        | (none, s) => (none, s)
        | (some ret, s) => (some ret, ahciDestroyCommand s slot)

/-- What is called from outside. -/
inductive Call
  | identify
  | satapiRead

def call (s : State) : Call → Option ℤ × State
  | .identify => ahciIdentifyAhcidev env n s
  | .satapiRead => ahciSatapiRead env n s

/-- Calls one after another, until one is left waiting: whether none is, and the state. -/
def calls (s : State) : List Call → Bool × State
  | [] => (true, s)
  | c :: cs =>
    match call env n s c with
    | (none, s) => (false, s)
    | (some _, s) => calls s cs

end Elfboot.Ahci
