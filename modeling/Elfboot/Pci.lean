import Elfboot.Traversal

/-!
PCI enumeration: `pci_init` of `pci.c` and what it calls.

The functions of a bus are put on the list of devices one after another. Behind a bridge
there is a further bus, which is scanned before the scan of its own bus goes on. Nothing in
the code bounds how deep the scans of buses are in one another, so the model has a bound of
its own, and no result where the bound is too small.
-/

namespace Elfboot.Pci

open Elfboot.Traversal

abbrev pciNumFuncs : ℕ := 8
abbrev pciNumSlots : ℕ := 32
abbrev pciNumBuses : ℕ := 256

abbrev pciVendor : ℕ := 0x00
abbrev pciDevice : ℕ := 0x02
abbrev pciCommand : ℕ := 0x04
abbrev pciStatus : ℕ := 0x06
abbrev pciRevision : ℕ := 0x08
abbrev pciSubclass : ℕ := 0x0A
abbrev pciClass : ℕ := 0x0B
abbrev pciHeaderType : ℕ := 0x0E
abbrev pciBar0 : ℕ := 0x10
abbrev pciBar1 : ℕ := 0x14
abbrev pciBar2 : ℕ := 0x18
abbrev pciBar3 : ℕ := 0x1C
abbrev pciBar4 : ℕ := 0x20
abbrev pciBar5 : ℕ := 0x24
abbrev pciSecondaryBus : ℕ := 0x19
abbrev pciSubvendor : ℕ := 0x2C
abbrev pciSubdevice : ℕ := 0x2E
abbrev pciInvalidDevice : BitVec 32 := 0xffffffff
abbrev pciClassBridge : BitVec 8 := 0x06
abbrev pciSubclassBridgePci : BitVec 8 := 0x04

/-- The configuration space: the register of four bytes with a number, of a function of a slot
of a bus. -/
abbrev ConfigSpace := ℕ → ℕ → ℕ → ℕ → BitVec 32

/-- `struct pci_address`. -/
structure PciAddress where
  bus : ℕ
  slot : ℕ
  func : ℕ
deriving DecidableEq

/-- `struct pci_dev`. The parent is given by its address. -/
structure PciDev where
  addr : PciAddress
  vendor : BitVec 16
  device : BitVec 16
  command : BitVec 16
  status : BitVec 16
  classrv : BitVec 32
  bar : List (BitVec 32)
  subvendor : BitVec 32
  subdevice : BitVec 32
  parent : Option PciAddress
deriving DecidableEq

variable (cfg : ConfigSpace)

/-- The arguments of the port accesses have eight bits. -/
def readPciConfigLong (bus slot func offset : ℕ) : BitVec 32 :=
  cfg (bus % 256) (slot % 256) (func % 256) (offset / 4)

def readPciConfigWord (bus slot func offset : ℕ) : BitVec 16 :=
  (readPciConfigLong cfg bus slot func offset >>> (8 * (offset &&& 2))).setWidth 16

def readPciConfigByte (bus slot func offset : ℕ) : BitVec 8 :=
  (readPciConfigLong cfg bus slot func offset >>> (8 * (offset &&& 3))).setWidth 8

def pciReadConfigByte (addr : PciAddress) (offset : ℕ) : BitVec 8 :=
  readPciConfigByte cfg addr.bus addr.slot addr.func offset

def pciReadConfigWord (addr : PciAddress) (offset : ℕ) : BitVec 16 :=
  readPciConfigWord cfg addr.bus addr.slot addr.func offset

def pciReadConfigLong (addr : PciAddress) (offset : ℕ) : BitVec 32 :=
  readPciConfigLong cfg addr.bus addr.slot addr.func offset

def pciProbeByte (addr : PciAddress) (offset : ℕ) (val : BitVec 8) : Bool :=
  pciReadConfigByte cfg addr offset == val

def pciProbeLong (addr : PciAddress) (offset : ℕ) (val : BitVec 32) : Bool :=
  pciReadConfigLong cfg addr offset == val

/-- There is no such function. -/
def pciProbeDevice (addr : PciAddress) : Bool := pciProbeLong cfg addr pciVendor pciInvalidDevice

def pciProbeClass (addr : PciAddress) (cls : BitVec 8) : Bool :=
  pciProbeByte cfg addr pciClass cls

def pciProbeSubclass (addr : PciAddress) (subclass : BitVec 8) : Bool :=
  pciProbeByte cfg addr pciSubclass subclass

def pciProbeMultifunction (addr : PciAddress) : Bool :=
  pciReadConfigByte cfg addr pciHeaderType &&& 0x80 != 0

def pciFindDeviceByAddress (devs : List PciDev) (addr : PciAddress) : Option PciDev :=
  devs.find? fun pcidev => addr == pcidev.addr

def pciFindDevice (devs : List PciDev) (bus slot func : ℕ) : Option PciDev :=
  pciFindDeviceByAddress devs ⟨bus, slot, func⟩

/-- `pci_probe_bus` at a smaller depth. -/
abbrev ProbeBus := List PciDev → PciAddress → Option PciAddress → Option (List PciDev)

variable (bmalloc : List PciDev → Bool) (probeBus : ProbeBus)

def pciProbeBridge (devs : List PciDev) (addr : PciAddress) (parent : Option PciAddress) :
    Option (List PciDev) :=
  if pciProbeClass cfg addr pciClassBridge && pciProbeSubclass cfg addr pciSubclassBridgePci then
    probeBus devs ⟨(pciReadConfigByte cfg addr pciSecondaryBus).toNat, 0, 0⟩ parent
  else some devs

/-- The device that `pci_alloc_device` fills in. -/
def pciNewDevice (addr : PciAddress) (parent : Option PciAddress) : PciDev where
  addr := addr
  vendor := pciReadConfigWord cfg addr pciVendor
  device := pciReadConfigWord cfg addr pciDevice
  command := pciReadConfigWord cfg addr pciCommand
  status := pciReadConfigWord cfg addr pciStatus
  classrv := pciReadConfigLong cfg addr pciRevision
  bar := [pciBar0, pciBar1, pciBar2, pciBar3, pciBar4, pciBar5].map (pciReadConfigLong cfg addr)
  subvendor := (pciReadConfigWord cfg addr pciSubvendor).setWidth 32
  subdevice := (pciReadConfigWord cfg addr pciSubdevice).setWidth 32
  parent := parent

def pciAllocDevice (devs : List PciDev) (addr : PciAddress) (parent : Option PciAddress) :
    Option (List PciDev) :=
  if !bmalloc devs then some devs
  else pciProbeBridge cfg probeBus (pciNewDevice cfg addr parent :: devs) addr (some addr)

def pciProbeFunc (devs : List PciDev) (addr : PciAddress) (parent : Option PciAddress) :
    Option (List PciDev) :=
  if pciProbeDevice cfg addr then some devs
  else if (pciFindDevice devs addr.bus addr.slot addr.func).isSome then some devs
  else pciAllocDevice cfg bmalloc probeBus devs addr parent

def pciProbeSlot (devs : List PciDev) (addr : PciAddress) (parent : Option PciAddress) :
    Option (List PciDev) :=
  let addr := { addr with func := 0 }
  if pciProbeDevice cfg addr then some devs
  else
    match pciProbeFunc cfg bmalloc probeBus devs addr parent with
    | none => none
    | some devs =>
      if !pciProbeMultifunction cfg addr then some devs
      else
        (List.range' 1 (pciNumFuncs - 1)).foldlM
          (fun devs func =>
            pciProbeFunc cfg bmalloc probeBus devs { addr with func := func } parent) devs

/-- `pci_probe_bus`, with scans of buses in one another to depth `k` at most. -/
def pciProbeBus : ℕ → ProbeBus
  | 0, _, _, _ => none
  | k + 1, devs, addr, parent =>
    (List.range pciNumSlots).foldlM
      (fun devs slot =>
        pciProbeSlot cfg bmalloc (pciProbeBus k) devs { addr with slot := slot } parent) devs

/-- `pci_init`: the list of devices afterwards. -/
def pciInit (k : ℕ) : Option (List PciDev) :=
  if !pciProbeMultifunction cfg ⟨0, 0, 0⟩ then pciProbeBus cfg bmalloc k [] ⟨0, 0, 0⟩ none
  else
    (List.range pciNumBuses).foldlM
      (fun devs bus => pciProbeBus cfg bmalloc k devs ⟨bus, 0, 0⟩ none) []

end Elfboot.Pci
