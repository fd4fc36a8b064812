import Elfboot.Pci
import Elfboot.Circular

/-!
Looking for PCI devices: `pci_get_subsys` and the two calls that it serves.

A search starts behind the head of the list, or behind a device, and ends where it started. On its
way from a device it comes to the head, and takes what lies around it for a device.
-/

namespace Elfboot.PciMatch

open Elfboot.Circular Elfboot.Pci

abbrev pciAnyId : BitVec 32 := 0xffffffff
abbrev pciClassMask : BitVec 32 := 0xffffff00

/-- `struct pci_dev_id`. -/
structure PciDevId where
  vendor : BitVec 32
  device : BitVec 32
  subvendor : BitVec 32
  subdevice : BitVec 32
  cls : BitVec 32

/-- The condition of `pci_get_subsys`. -/
def matchesId (id : PciDevId) (pcidev : PciDev) : Bool :=
  (id.vendor = pciAnyId ∨ id.vendor = pcidev.vendor.setWidth 32) ∧
    (id.device = pciAnyId ∨ id.device = pcidev.device.setWidth 32) ∧
    (id.subvendor = pciAnyId ∨ id.subvendor = pcidev.subvendor) ∧
    (id.subdevice = pciAnyId ∨ id.subdevice = pcidev.subdevice) ∧
    (id.cls ^^^ pcidev.classrv) &&& pciClassMask = 0

inductive Node
  | pciDevs
  | dev (i : ℕ)
  deriving DecidableEq

/-- The links, and what the members of a `struct pci_dev` around a node are. -/
structure State where
  links : Links Node
  device : Node → PciDev

variable (s : State) (n : ℕ)

/-- The loop of `pci_get_subsys` from a position on: what is found, and the nodes that were taken
for those of devices. -/
def subsysLoop (id : PciDevId) (start : Node) : ℕ → Node → Option (Option Node × List Node)
  | 0, _ => none
  | k + 1, node =>
    if node = start then some (none, [])
    else if matchesId id (s.device node) then some (some node, [node])
    else (subsysLoop id start k (s.links.next node)).map fun r => (r.1, node :: r.2)

def pciGetSubsys (id : PciDevId) (source : Option Node) : Option (Option Node × List Node) :=
  let start := source.getD .pciDevs
  subsysLoop s id start n (s.links.next start)

def pciGetDevice (vendor device : BitVec 16) (source : Option Node) :
    Option (Option Node × List Node) :=
  pciGetSubsys s n ⟨vendor.setWidth 32, device.setWidth 32, pciAnyId, pciAnyId, pciAnyId⟩ source

def pciGetClass (cls : BitVec 32) (source : Option Node) : Option (Option Node × List Node) :=
  pciGetSubsys s n ⟨pciAnyId, pciAnyId, pciAnyId, pciAnyId, cls⟩ source

/-- The devices of the list, in order. -/
def Devices (is : List ℕ) : Prop := IsList s.links .pciDevs (is.map .dev)

/-- The elements up to the first that is found. -/
def upTo {α : Type*} (p : α → Bool) : List α → List α
  | [] => []
  | x :: l => x :: if p x then [] else upTo p l

variable {s n} {id : PciDevId} {is : List ℕ}

/-- A search goes through the nodes between its start and its end. -/
lemma subsysLoop_eq {a start : Node} {xs : List Node} {k : ℕ} (h : Seg s.links a xs start)
    (hx : start ∉ xs) (hk : xs.length < k) :
    subsysLoop s id start k (s.links.next a) =
      some (xs.find? fun x => matchesId id (s.device x),
        upTo (fun x => matchesId id (s.device x)) xs) := by
  induction xs generalizing a k with
  | nil =>
    obtain ⟨k, rfl⟩ : ∃ j, k = j + 1 := ⟨k - 1, by omega⟩
    rw [h.1, subsysLoop, if_pos rfl]
    rfl
  | cons x xs ih =>
    obtain ⟨k, rfl⟩ : ∃ j, k = j + 1 := ⟨k - 1, by omega⟩
    obtain ⟨hnext, -, hrest⟩ := h
    rw [List.mem_cons, not_or] at hx
    rw [hnext, subsysLoop, if_neg (Ne.symm hx.1), List.find?_cons, upTo]
    cases hm : matchesId id (s.device x) with
    | true => rfl
    | false =>
      rw [if_neg Bool.false_ne_true, ih hrest hx.2 (Nat.lt_of_succ_lt_succ hk)]
      rfl

/-- A search from the head. -/
lemma subsys_head (h : Devices s is) (hn : is.length < n) :
    pciGetSubsys s n id none =
      some ((is.find? fun i => matchesId id (s.device (.dev i))).map .dev,
        upTo (fun x => matchesId id (s.device x)) (is.map .dev)) := by
  have hhead : Node.pciDevs ∉ is.map .dev := (List.nodup_cons.1 h.nodup).1
  refine (subsysLoop_eq h.seg hhead (by rwa [List.length_map])).trans ?_
  rw [List.find?_map]
  rfl

/-- The nodes that follow a device between two parts of the list. -/
def around (A B : List ℕ) : List Node := B.map .dev ++ .pciDevs :: A.map .dev

/-- A search from a device comes to the head, and to the devices in front of the device. -/
lemma subsys_device {A B : List ℕ} {i : ℕ} (h : Devices s (A ++ i :: B))
    (hn : (A ++ i :: B).length < n) :
    pciGetSubsys s n id (some (.dev i)) =
      some ((around A B).find? fun x => matchesId id (s.device x),
        upTo (fun x => matchesId id (s.device x)) (around A B)) := by
  obtain ⟨hnodup, hseg⟩ := h
  rw [List.map_append, List.map_cons] at hnodup hseg
  obtain ⟨hfront, hback⟩ := seg_append.1 hseg
  have hnot : Node.dev i ∉ around A B := by
    obtain ⟨hhead, hrest⟩ := List.nodup_cons.1 hnodup
    have hmid := List.nodup_middle.1 hrest
    rw [List.nodup_cons, List.mem_append, not_or] at hmid
    rw [around, List.mem_append, List.mem_cons, not_or, not_or]
    exact ⟨hmid.1.2, Node.noConfusion, hmid.1.1⟩
  refine subsysLoop_eq (seg_append.2 ⟨hback, hfront⟩) hnot ?_
  rw [around, List.length_append, List.length_cons, List.length_map, List.length_map]
  rw [List.length_append, List.length_cons] at hn
  omega

/-! ### Vendors, devices and classes -/

/-- The bytes of the class, the subclass and the programming interface. -/
def classBytes (c : BitVec 32) : BitVec 8 × BitVec 8 × BitVec 8 :=
  (c.extractLsb' 24 8, c.extractLsb' 16 8, c.extractLsb' 8 8)

def ofClass (s : State) (cls : BitVec 32) (i : ℕ) : Bool :=
  classBytes (s.device (.dev i)).classrv = classBytes cls

def ofVendor (s : State) (vendor device : BitVec 16) (i : ℕ) : Bool :=
  (s.device (.dev i)).vendor = vendor ∧ (s.device (.dev i)).device = device

lemma extract_byte {a b : BitVec 32} {k i : ℕ}
    (h : a.extractLsb' k 8 = b.extractLsb' k 8) (hk : k ≤ i) (hi : i < k + 8) :
    a.getLsbD i = b.getLsbD i := by
  have hbit := congrArg (fun v : BitVec 8 => v.getLsbD (i - k)) h
  simp only [BitVec.getLsbD_extractLsb', show i - k < 8 by omega, decide_true, Bool.true_and,
    Nat.add_sub_cancel' hk] at hbit
  exact hbit

lemma byte_of_bits {a b : BitVec 32} {k : ℕ} (hk : k + 8 ≤ 32)
    (h : ∀ i, k ≤ i → i < 32 → a.getLsbD i = b.getLsbD i) :
    a.extractLsb' k 8 = b.extractLsb' k 8 := by
  apply BitVec.eq_of_getLsbD_eq
  intro i hi
  simp only [BitVec.getLsbD_extractLsb', hi, decide_true, Bool.true_and]
  exact h (k + i) (Nat.le_add_right k i) (by omega)

/-- The comparison under the mask is one of the three bytes. -/
lemma xor_mask_iff (a b : BitVec 32) :
    (a ^^^ b) &&& pciClassMask = 0 ↔ classBytes b = classBytes a := by
  have hmask : ∀ i < 32, pciClassMask.getLsbD i = decide (8 ≤ i) := by decide
  constructor
  · intro h
    have hbit : ∀ i, 8 ≤ i → i < 32 → b.getLsbD i = a.getLsbD i := by
      intro i h8 hi
      have hxor := congrArg (fun v : BitVec 32 => v.getLsbD i) h
      simp only [BitVec.getLsbD_and, BitVec.getLsbD_xor, hmask i hi, decide_eq_true h8,
        Bool.and_true] at hxor
      replace hxor := hxor.trans BitVec.getLsbD_zero
      revert hxor
      cases a.getLsbD i <;> cases b.getLsbD i <;> decide
    unfold classBytes
    rw [byte_of_bits (by decide) fun i hi => hbit i (by omega),
      byte_of_bits (by decide) fun i hi => hbit i (by omega),
      byte_of_bits (by decide) fun i hi => hbit i hi]
  · intro h
    obtain ⟨hcls, hrest⟩ := Prod.mk.inj h
    obtain ⟨hsub, hprog⟩ := Prod.mk.inj hrest
    apply BitVec.eq_of_getLsbD_eq
    intro i hi
    rw [BitVec.getLsbD_and, BitVec.getLsbD_xor, hmask i hi]
    by_cases h8 : 8 ≤ i
    · have hbit : b.getLsbD i = a.getLsbD i := by
        rcases Nat.lt_or_ge i 16 with h16 | h16
        · exact extract_byte hprog h8 h16
        rcases Nat.lt_or_ge i 24 with h24 | h24
        · exact extract_byte hsub h16 h24
        · exact extract_byte hcls h24 hi
      rw [hbit, Bool.xor_self, Bool.false_and]
      exact BitVec.getLsbD_zero.symm
    · rw [decide_eq_false h8, Bool.and_false]
      exact BitVec.getLsbD_zero.symm

lemma matchesId_class (cls : BitVec 32) (i : ℕ) :
    matchesId ⟨pciAnyId, pciAnyId, pciAnyId, pciAnyId, cls⟩ (s.device (.dev i)) =
      ofClass s cls i := by
  unfold matchesId ofClass
  rw [decide_eq_decide, xor_mask_iff]
  simp only [true_or, true_and]

/-- A wildcard for the class is compared with the class. -/
lemma matchesId_device (vendor device : BitVec 16) (i : ℕ) :
    matchesId ⟨vendor.setWidth 32, device.setWidth 32, pciAnyId, pciAnyId, pciAnyId⟩
        (s.device (.dev i)) =
      (ofVendor s vendor device i && ofClass s pciAnyId i) := by
  have hany : ∀ v : BitVec 16, v.setWidth 32 ≠ pciAnyId := by
    intro v heq
    have hnat := congrArg BitVec.toNat heq
    rw [BitVec.toNat_setWidth] at hnat
    have hlt := v.isLt
    have hval : pciAnyId.toNat = 2 ^ 32 - 1 := rfl
    omega
  have hwiden : ∀ v w : BitVec 16, v.setWidth 32 = w.setWidth 32 ↔ w = v := by
    intro v w
    refine ⟨fun heq => ?_, fun heq => congrArg _ heq.symm⟩
    have hnat := congrArg BitVec.toNat heq
    rw [BitVec.toNat_setWidth, BitVec.toNat_setWidth] at hnat
    have hv := v.isLt
    have hw := w.isLt
    exact BitVec.eq_of_toNat_eq (by omega)
  unfold matchesId ofVendor ofClass
  rw [← Bool.decide_and, decide_eq_decide, xor_mask_iff, hwiden, hwiden]
  simp only [hany, false_or, true_or, true_and, and_assoc]

/-- The first device of the list that has the property. -/
def first (p : ℕ → Bool) (is : List ℕ) : Option Node := (is.find? p).map .dev

/-- What a search from the head is to give. -/
structure Finds (s : State) (n : ℕ) (is : List ℕ) (vendor device : BitVec 16) (cls : BitVec 32) :
    Prop where
  device : (pciGetDevice s n vendor device none).map Prod.fst =
    some (first (ofVendor s vendor device) is)
  cls : (pciGetClass s n cls none).map Prod.fst = some (first (ofClass s cls) is)

/-- A device with all bits of its class set. -/
def Unclassed (s : State) (i : ℕ) : Prop := classBytes (s.device (.dev i)).classrv = (255, 255, 255)

/-- The first element with one property has a second one as well. -/
lemma find_and_iff {α : Type*} {p q : α → Bool} {l : List α} :
    l.find? (fun x => p x && q x) = l.find? p ↔ ∀ x, l.find? p = some x → q x = true := by
  induction l with
  | nil => exact iff_of_true rfl nofun
  | cons a l ih =>
    simp only [List.find?_cons]
    cases hp : p a with
    | false => exact ih
    | true =>
      cases hq : q a with
      | true => exact iff_of_true rfl fun x hx => Option.some_inj.1 hx ▸ hq
      | false =>
        refine iff_of_false (fun heq => ?_) fun hall => ?_
        · have hboth := List.find?_some heq
          rw [hp, hq] at hboth
          cases hboth
        · rw [hall a rfl] at hq
          cases hq

lemma ofClass_any (i : ℕ) : ofClass s pciAnyId i = true ↔ Unclassed s i := by
  rw [ofClass, decide_eq_true_iff, Unclassed]
  exact Iff.rfl

/-- The class is found right, whatever the devices are. -/
lemma class_head (h : Devices s is) (hn : is.length < n) (cls : BitVec 32) :
    (pciGetClass s n cls none).map Prod.fst = some (first (ofClass s cls) is) := by
  rw [pciGetClass, subsys_head h hn, first]
  simp only [matchesId_class, Option.map_some]

/-- **A device is found by its vendor** right if and only if the first of that vendor, if there is
one, has no class. -/
theorem finds_iff (h : Devices s is) (hn : is.length < n) (vendor device : BitVec 16)
    (cls : BitVec 32) :
    Finds s n is vendor device cls ↔
      ∀ i, is.find? (ofVendor s vendor device) = some i → Unclassed s i := by
  have hdevice : (pciGetDevice s n vendor device none).map Prod.fst =
      some (first (fun i => ofVendor s vendor device i && ofClass s pciAnyId i) is) := by
    rw [pciGetDevice, subsys_head h hn, first]
    simp only [matchesId_device, Option.map_some]
  have hinj : Function.Injective Node.dev := fun _ _ => Node.dev.inj
  have hfirst : first (fun i => ofVendor s vendor device i && ofClass s pciAnyId i) is =
      first (ofVendor s vendor device) is ↔
        ∀ i, is.find? (ofVendor s vendor device) = some i → Unclassed s i := by
    rw [first, first, (Option.map_injective hinj).eq_iff, find_and_iff]
    simp only [ofClass_any]
  rw [← hfirst]
  constructor
  · intro hfinds
    exact Option.some_inj.1 (hdevice.symm.trans hfinds.device)
  · intro heq
    exact ⟨hdevice.trans (congrArg some heq), class_head h hn cls⟩

/-- A network card behind an address. -/
def card (vendor device : BitVec 16) (classrv : BitVec 32) : PciDev :=
  ⟨⟨0, 3, 0⟩, vendor, device, 0, 0, classrv, [], 0, 0, none⟩

/-- One device is listed, and the words around the head are zero. -/
def oneCard (classrv : BitVec 32) : State where
  links := listAdd (listInit ⟨fun _ => .pciDevs, fun _ => .pciDevs⟩ .pciDevs) (.dev 0) .pciDevs
  device node := match node with
    | .dev _ => card 0x8086 0x100e classrv
    | .pciDevs => card 0 0 0

lemma devices_oneCard (classrv : BitVec 32) : Devices (oneCard classrv) [0] :=
  (isList_init _ _).add (by decide)

/-- An Ethernet card that is listed is not found by its vendor. -/
lemma not_finds_oneCard :
    (pciGetDevice (oneCard 0x02000000) 2 0x8086 0x100e none).map Prod.fst = some none ∧
      first (ofVendor (oneCard 0x02000000) 0x8086 0x100e) [0] = some (.dev 0) ∧
      ¬ Finds (oneCard 0x02000000) 2 [0] 0x8086 0x100e 0x02000000 := by
  refine ⟨by decide, by decide, fun h => ?_⟩
  have hdevice := h.device
  revert hdevice
  decide

/-- Two controllers of one class in front of a card whose class is all ones. -/
def threeCards : State where
  links := listAdd (listAdd (oneCard 0xffffff00).links (.dev 1) .pciDevs) (.dev 2) .pciDevs
  device node := match node with
    | .dev 0 => card 0x8086 0x100e 0xffffff00
    | .dev _ => card 0x8086 0x2922 0x01060100
    | .pciDevs => card 0 0 0

lemma devices_threeCards : Devices threeCards [2, 1, 0] :=
  ((devices_oneCard 0xffffff00).add (by decide)).add (by decide)

/-- The last of them is found by its vendor, the first by its class. -/
theorem finds_iff_threeCards :
    (Finds threeCards 4 [2, 1, 0] 0x8086 0x100e 0x01060100 ↔
        ∀ i, [2, 1, 0].find? (ofVendor threeCards 0x8086 0x100e) = some i →
          Unclassed threeCards i) ∧
      (pciGetDevice threeCards 4 0x8086 0x100e none).map Prod.fst = some (some (.dev 0)) ∧
      (pciGetClass threeCards 4 0x01060100 none).map Prod.fst = some (some (.dev 2)) :=
  ⟨finds_iff devices_threeCards (by decide) 0x8086 0x100e 0x01060100, by decide, by decide⟩

end Elfboot.PciMatch
