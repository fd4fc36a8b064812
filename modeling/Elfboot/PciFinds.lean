import Elfboot.Pci

/-!
What PCI enumeration finds: on the buses that are to be scanned, and on those behind their
bridges, each function that is there, once.
-/

namespace Elfboot.Pci

open Elfboot.Traversal

section Spec

variable (cfg : ConfigSpace)

/-- A register of the function that the bits of an address select. -/
def register (a : PciAddress) (r : ℕ) : BitVec 32 :=
  cfg (a.bus % 256) (a.slot % 256) (a.func % 256) r

/-- The vendor and the device of a function that is not there read as ones. -/
def Present (a : PciAddress) : Prop := register cfg a 0 ≠ 0xffffffff#32

/-- The first bit of the header type, the third byte of its register. -/
def Multifunction (a : PciAddress) : Prop := (register cfg a 3).getLsbD 23

def PciAddress.first (a : PciAddress) : PciAddress := { a with func := 0 }

/-- A function that counts: functions 1 to 7 do only where function 0 is there and reports
that there are more. -/
structure Considered (a : PciAddress) : Prop where
  slot : a.slot < pciNumSlots
  func : a.func < pciNumFuncs
  present : Present cfg a
  first : a.func ≠ 0 → Present cfg a.first ∧ Multifunction cfg a.first

/-- The class of a function is 6, for bridges, and its subclass 4, for those to another bus. -/
def IsBridge (a : PciAddress) : Prop := (register cfg a 2).extractLsb' 16 16 = 0x0604#16

instance (a : PciAddress) : Decidable (IsBridge cfg a) := inferInstanceAs (Decidable (_ = _))

def secondaryBus (a : PciAddress) : ℕ := ((register cfg a 6).extractLsb' 8 8).toNat

/-- The buses to scan: bus 0, or all of them where the host bridge has more functions, and
those behind a bridge on a bus to scan. -/
inductive Scanned : ℕ → Prop
  | host : Scanned 0
  | hosts {b : ℕ} (h : Multifunction cfg ⟨0, 0, 0⟩) (hb : b < pciNumBuses) : Scanned b
  | behind {a : PciAddress} (h : Scanned a.bus) (ha : Considered cfg a) (hbr : IsBridge cfg a) :
      Scanned (secondaryBus cfg a)

/-- The functions to find. -/
def Listed (a : PciAddress) : Prop := Scanned cfg a.bus ∧ Considered cfg a

/-! ### Enumeration as a traversal -/

/-- The functions that count of a slot, in the order they are probed. -/
def slotFuncs (a : PciAddress) : List PciAddress :=
  if pciProbeDevice cfg a.first then []
  else a.first ::
    if pciProbeMultifunction cfg a.first then
      ((List.range' 1 (pciNumFuncs - 1)).map fun f => { a with func := f }).filter
        fun a => !pciProbeDevice cfg a
    else []

/-- The functions that count of a bus. -/
def busFuncs (b : ℕ) : List PciAddress :=
  (List.range pciNumSlots).flatMap fun s => slotFuncs cfg ⟨b, s, 0⟩

/-- The bus behind a function. -/
def leadsTo (a : PciAddress) : Option ℕ :=
  if IsBridge cfg a then some (secondaryBus cfg a) else none

/-- The buses that the scan starts from. -/
def hostBuses : List ℕ :=
  if pciProbeMultifunction cfg ⟨0, 0, 0⟩ then List.range pciNumBuses else [0]

def addrs (devs : List PciDev) : List PciAddress := devs.map PciDev.addr

end Spec

variable {cfg : ConfigSpace}

/-! ### The probes -/

lemma probeDevice_iff {a : PciAddress} : pciProbeDevice cfg a = false ↔ Present cfg a :=
  beq_eq_false_iff_ne

lemma readByte_eq (a : PciAddress) (offset : ℕ) : pciReadConfigByte cfg a offset =
    (register cfg a (offset / 4)).extractLsb' (8 * (offset &&& 3)) 8 := rfl

lemma and_128_ne (v : BitVec 8) : v &&& 0x80 ≠ 0 ↔ v.getLsbD 7 := by
  revert v
  decide

lemma probeMultifunction_iff {a : PciAddress} :
    pciProbeMultifunction cfg a = true ↔ Multifunction cfg a := by
  rw [pciProbeMultifunction, bne_iff_ne, and_128_ne, readByte_eq, BitVec.getLsbD_extractLsb']
  rfl

lemma append_inj_iff {v w : ℕ} {x x' : BitVec v} {y y' : BitVec w} :
    x ++ y = x' ++ y' ↔ x = x' ∧ y = y' := by
  constructor
  · intro h
    have hx := congrArg (BitVec.extractLsb' w v) h
    have hy := congrArg (BitVec.extractLsb' 0 w) h
    rw [BitVec.extractLsb'_append_eq_left, BitVec.extractLsb'_append_eq_left] at hx
    rw [BitVec.extractLsb'_append_eq_right, BitVec.extractLsb'_append_eq_right] at hy
    exact ⟨hx, hy⟩
  · rintro ⟨rfl, rfl⟩
    rfl

lemma probeBridge_iff {a : PciAddress} :
    (pciProbeClass cfg a pciClassBridge && pciProbeSubclass cfg a pciSubclassBridgePci) = true ↔
      IsBridge cfg a := by
  have hsplit : (register cfg a 2).extractLsb' 16 16 =
      pciReadConfigByte cfg a pciClass ++ pciReadConfigByte cfg a pciSubclass :=
    (@BitVec.extractLsb'_append_extractLsb'_eq_extractLsb' 32 24 16 8 8 (register cfg a 2)
      rfl).symm
  rw [IsBridge, hsplit, show 0x0604#16 = pciClassBridge ++ pciSubclassBridgePci from rfl,
    append_inj_iff, Bool.and_eq_true]
  exact and_congr beq_iff_eq beq_iff_eq

/-! ### The functions of a slot -/

lemma first_eq {a : PciAddress} (h : a.func = 0) : a.first = a := by
  rw [PciAddress.first, ← h]

lemma mem_slotFuncs {b s : ℕ} {c : PciAddress} : c ∈ slotFuncs cfg ⟨b, s, 0⟩ ↔
    c.bus = b ∧ c.slot = s ∧ c.func < pciNumFuncs ∧ Present cfg c ∧
      (c.func ≠ 0 → Present cfg c.first ∧ Multifunction cfg c.first) := by
  simp only [← probeDevice_iff, ← probeMultifunction_iff]
  unfold slotFuncs
  constructor
  · intro h
    by_cases hp : pciProbeDevice cfg ⟨b, s, 0⟩ = true
    · simp [PciAddress.first, hp] at h
    rw [PciAddress.first, if_neg hp, List.mem_cons] at h
    rcases h with heq | h
    · subst heq
      exact ⟨rfl, rfl, Nat.zero_lt_succ 7, by simpa using hp, fun hne => absurd rfl hne⟩
    · by_cases hm : pciProbeMultifunction cfg ⟨b, s, 0⟩ = true
      · rw [if_pos hm, List.mem_filter, List.mem_map] at h
        obtain ⟨⟨f, hf, heq⟩, hc⟩ := h
        subst heq
        rw [List.mem_range'_1] at hf
        exact ⟨rfl, rfl, by simpa [pciNumFuncs, Nat.add_comm] using hf.2,
          by simpa using hc, fun _ => ⟨by simpa [PciAddress.first] using hp, hm⟩⟩
      · simp [hm] at h
  · intro h
    obtain ⟨hb, hs, hf, hp, h0⟩ := h
    have hfirst : c.first = ⟨b, s, 0⟩ := by rw [PciAddress.first, hb, hs]
    by_cases hz : c.func = 0
    · have hc : c = ⟨b, s, 0⟩ := by rw [← hfirst, first_eq hz]
      have hpc : pciProbeDevice cfg ⟨b, s, 0⟩ = false := hc ▸ hp
      simp [PciAddress.first, hpc, hc]
    · obtain ⟨hpf, hm⟩ := h0 hz
      rw [hfirst] at hpf hm
      have hpf' : pciProbeDevice cfg ⟨b, s, 0⟩ = false := hpf
      rw [PciAddress.first, if_neg (by simp [hpf']), if_pos hm, List.mem_cons, List.mem_filter,
        List.mem_map]
      refine .inr ⟨⟨c.func, List.mem_range'_1.mpr ⟨by omega, by simpa [pciNumFuncs] using hf⟩, ?_⟩,
        by simpa using hp⟩
      rw [← hb, ← hs]

lemma mem_busFuncs {b : ℕ} {c : PciAddress} :
    c ∈ busFuncs cfg b ↔ c.bus = b ∧ Considered cfg c := by
  rw [busFuncs, List.mem_flatMap]
  constructor
  · intro h
    obtain ⟨s, hs, hc⟩ := h
    obtain ⟨hb, hcs, hf, hp, h0⟩ := mem_slotFuncs.mp hc
    exact ⟨hb, hcs ▸ List.mem_range.mp hs, hf, hp, h0⟩
  · intro h
    obtain ⟨hb, hc⟩ := h
    exact ⟨c.slot, List.mem_range.mpr hc.slot,
      mem_slotFuncs.mpr ⟨hb, rfl, hc.func, hc.present, hc.first⟩⟩

lemma leadsTo_eq {a : PciAddress} {b : ℕ} :
    leadsTo cfg a = some b ↔ IsBridge cfg a ∧ secondaryBus cfg a = b := by
  unfold leadsTo
  split <;> simp_all

lemma mem_hostBuses {b : ℕ} : b ∈ hostBuses cfg ↔
    b = 0 ∨ Multifunction cfg ⟨0, 0, 0⟩ ∧ b < pciNumBuses := by
  rw [← probeMultifunction_iff]
  unfold hostBuses
  split
  · rename_i h
    rw [List.mem_range]
    simp only [h, true_and]
    exact ⟨.inr, fun hb => hb.elim (fun h0 => h0 ▸ Nat.zero_lt_succ 255) id⟩
  · rename_i h
    simp [h]

/-- The buses to scan are those within reach of the ones the scan starts from. -/
lemma scanned_iff {b : ℕ} :
    Scanned cfg b ↔ Reached (busFuncs cfg) (leadsTo cfg) (hostBuses cfg) b := by
  constructor
  · intro h
    induction h with
    | host => exact reached_root (mem_hostBuses.mpr (.inl rfl))
    | hosts hm hb => exact reached_root (mem_hostBuses.mpr (.inr ⟨hm, hb⟩))
    | behind _ ha hbr ih => exact ih.tail (mem_busFuncs.mpr ⟨rfl, ha⟩) (leadsTo_eq.mpr ⟨hbr, rfl⟩)
  · intro h
    obtain ⟨r, hr, hb⟩ := h
    induction hb with
    | refl =>
      rcases mem_hostBuses.mp hr with h0 | ⟨hm, hlt⟩
      · exact h0 ▸ .host
      · exact .hosts hm hlt
    | tail _ hl ih =>
      obtain ⟨a, ha, hn⟩ := hl
      obtain ⟨hbus, hc⟩ := mem_busFuncs.mp ha
      obtain ⟨hbr, heq⟩ := leadsTo_eq.mp hn
      exact heq ▸ .behind (hbus ▸ ih) hc hbr

lemma listed_iff {a : PciAddress} :
    Listed cfg a ↔ Found (busFuncs cfg) (leadsTo cfg) (hostBuses cfg) a := by
  constructor
  · intro h
    exact ⟨a.bus, scanned_iff.mp h.1, mem_busFuncs.mpr ⟨rfl, h.2⟩⟩
  · intro h
    obtain ⟨b, hb, ha⟩ := h
    obtain ⟨hbus, hc⟩ := mem_busFuncs.mp ha
    exact ⟨hbus ▸ scanned_iff.mpr hb, hc⟩

lemma Scanned.lt {b : ℕ} (h : Scanned cfg b) : b < pciNumBuses := by
  cases h with
  | host => decide
  | hosts _ hb => exact hb
  | behind => exact BitVec.isLt _

/-- There are no more addresses than numbers for them. -/
lemma exists_allAddrs (buses slots funcs : ℕ) :
    ∃ U : Finset PciAddress, U.card ≤ buses * slots * funcs ∧
      ∀ a, a.bus < buses → a.slot < slots → a.func < funcs → a ∈ U := by
  refine ⟨(Finset.range buses ×ˢ Finset.range slots ×ˢ Finset.range funcs).image
    fun p => ⟨p.1, p.2.1, p.2.2⟩, Finset.card_image_le.trans (le_of_eq ?_), ?_⟩
  · rw [Finset.card_product, Finset.card_product, Finset.card_range, Finset.card_range,
      Finset.card_range, Nat.mul_assoc]
  · intro a hb hs hf
    rw [Finset.mem_image]
    exact ⟨(a.bus, a.slot, a.func), by simp [hb, hs, hf], rfl⟩

/-! ### The code is this traversal -/

lemma pciFindDevice_isSome {devs : List PciDev} {a : PciAddress} :
    (pciFindDevice devs a.bus a.slot a.func).isSome ↔ a ∈ addrs devs := by
  rw [pciFindDevice, pciFindDeviceByAddress, List.find?_isSome, addrs, List.mem_map]
  constructor
  · intro h
    obtain ⟨d, hd, heq⟩ := h
    exact ⟨d, hd, (beq_iff_eq.mp heq).symm⟩
  · intro h
    obtain ⟨d, hd, heq⟩ := h
    exact ⟨d, hd, beq_iff_eq.mpr heq.symm⟩

section Refines

variable {probeBus : ProbeBus} {sc : List PciAddress → ℕ → Option (List PciAddress)}

/-- What the probing of a bus does to the addresses on the list. -/
def Scans (probeBus : ProbeBus) (sc : List PciAddress → ℕ → Option (List PciAddress)) : Prop :=
  ∀ devs b parent, (probeBus devs ⟨b, 0, 0⟩ parent).map addrs = sc (addrs devs) b

lemma pciProbeBridge_scans (h : Scans probeBus sc) (devs : List PciDev) (a : PciAddress)
    (parent : Option PciAddress) :
    (pciProbeBridge cfg probeBus devs a parent).map addrs =
      match leadsTo cfg a with
      | none => some (addrs devs)
      | some b => sc (addrs devs) b := by
  unfold pciProbeBridge leadsTo
  by_cases hbr : IsBridge cfg a
  · rw [if_pos (probeBridge_iff.mpr hbr), if_pos hbr]
    exact h devs _ parent
  · rw [if_neg (mt probeBridge_iff.mp hbr), if_neg hbr]
    rfl

lemma pciProbeFunc_scans (h : Scans probeBus sc) (devs : List PciDev) (a : PciAddress)
    (parent : Option PciAddress) :
    (pciProbeFunc cfg (fun _ => true) probeBus devs a parent).map addrs =
      if pciProbeDevice cfg a then some (addrs devs)
      else visit (leadsTo cfg) sc (addrs devs) a := by
  unfold pciProbeFunc visit
  by_cases hp : pciProbeDevice cfg a = true
  · simp [hp]
  rw [if_neg hp, if_neg hp]
  by_cases hmem : a ∈ addrs devs
  · rw [if_pos (pciFindDevice_isSome.mpr hmem), if_pos hmem]
    rfl
  · rw [if_neg (mt pciFindDevice_isSome.mp hmem), if_neg hmem]
    have hadd : addrs (pciNewDevice cfg a parent :: devs) = a :: addrs devs := rfl
    rw [pciAllocDevice, if_neg (by simp), pciProbeBridge_scans h, hadd]
    cases leadsTo cfg a with
    | none => rfl
    | some b => rfl

/-- The loop over functions 1 to 7. -/
lemma probeFuncs_scans (h : Scans probeBus sc) (devs : List PciDev) (a : PciAddress)
    (parent : Option PciAddress) (fs : List ℕ) :
    (fs.foldlM (fun devs f => pciProbeFunc cfg (fun _ => true) probeBus devs
        { a with func := f } parent) devs).map addrs =
      ((fs.map fun f => { a with func := f }).filter fun a => !pciProbeDevice cfg a).foldlM
        (visit (leadsTo cfg) sc) (addrs devs) := by
  rw [List.foldlM_filter, List.foldlM_map]
  refine foldlM_image fs (fun v f _ => ?_) devs
  rw [pciProbeFunc_scans h]
  by_cases hf : pciProbeDevice cfg { a with func := f } = true
  · simp [hf]
  · simp [hf]

lemma pciProbeSlot_scans (h : Scans probeBus sc) (devs : List PciDev) (a : PciAddress)
    (parent : Option PciAddress) :
    (pciProbeSlot cfg (fun _ => true) probeBus devs a parent).map addrs =
      (slotFuncs cfg a).foldlM (visit (leadsTo cfg) sc) (addrs devs) := by
  unfold pciProbeSlot slotFuncs
  show Option.map addrs (if pciProbeDevice cfg a.first then some devs else _) = _
  by_cases hp : pciProbeDevice cfg a.first = true
  · rw [if_pos hp, if_pos hp]
    rfl
  have h0 := (pciProbeFunc_scans h devs a.first parent).trans (if_neg hp)
  rw [if_neg hp, if_neg hp, List.foldlM_cons, ← h0]
  simp only [show ({ a with func := 0 } : PciAddress) = a.first from rfl]
  cases pciProbeFunc cfg (fun _ => true) probeBus devs a.first parent with
  | none => rfl
  | some v =>
    by_cases hm : pciProbeMultifunction cfg a.first = true
    · simp only [hm, Bool.not_true, Bool.false_eq_true, if_false, if_true]
      exact probeFuncs_scans h v a parent _
    · simp only [hm, Bool.not_false, if_true, Bool.false_eq_true, if_false]
      rfl

lemma pciProbeBus_scans (k : ℕ) :
    Scans (pciProbeBus cfg (fun _ => true) k) (scan (busFuncs cfg) (leadsTo cfg) k) := by
  induction k with
  | zero => exact fun _ _ _ => rfl
  | succ k ih =>
    intro devs b parent
    rw [pciProbeBus, scan, busFuncs, foldlM_flatMap]
    exact foldlM_image _ (fun v s _ => pciProbeSlot_scans ih v ⟨b, s, 0⟩ parent) devs

lemma pciInit_scans (k : ℕ) : (pciInit cfg (fun _ => true) k).map addrs =
    scanAll (busFuncs cfg) (leadsTo cfg) k (hostBuses cfg) := by
  unfold pciInit scanAll hostBuses
  by_cases hm : pciProbeMultifunction cfg ⟨0, 0, 0⟩ = true
  · rw [if_neg (by simp [hm]), if_pos hm]
    exact foldlM_image _ (fun v b _ => pciProbeBus_scans k v b none) []
  · rw [if_pos (by simp [hm]), if_neg hm, pciProbeBus_scans k [] 0 none]
    simp [addrs]

end Refines

/-! ### A deeper bound finds the same -/

section Deeper

variable {probe probe' : ProbeBus}

/-- Where the one has a result, the other has it too. -/
def Below (probe probe' : ProbeBus) : Prop :=
  ∀ devs addr parent devs', probe devs addr parent = some devs' →
    probe' devs addr parent = some devs'

lemma pciProbeFunc_below (h : Below probe probe') :
    Below (pciProbeFunc cfg (fun _ => true) probe) (pciProbeFunc cfg (fun _ => true) probe') := by
  intro devs a parent devs' heq
  unfold pciProbeFunc pciAllocDevice pciProbeBridge at heq ⊢
  split_ifs at heq ⊢ with h1 h2 h3 h4
  · exact heq
  · exact heq
  · exact absurd h3 (by simp)
  · exact h _ _ _ _ heq
  · exact heq

lemma pciProbeSlot_below (h : Below probe probe') :
    Below (pciProbeSlot cfg (fun _ => true) probe) (pciProbeSlot cfg (fun _ => true) probe') := by
  intro devs a parent devs' heq
  have hf : Below (pciProbeFunc cfg _ probe) _ := pciProbeFunc_below h
  unfold pciProbeSlot at heq ⊢
  simp only at heq ⊢
  by_cases hp : pciProbeDevice cfg { a with func := 0 } = true
  · rw [if_pos hp] at heq ⊢
    exact heq
  rw [if_neg hp] at heq ⊢
  cases hv : pciProbeFunc cfg (fun _ => true) probe devs { a with func := 0 } parent with
  | none => simp [hv] at heq
  | some v =>
    rw [hv] at heq
    rw [hf _ _ _ _ hv]
    simp only at heq ⊢
    split_ifs at heq ⊢
    · exact heq
    · exact foldlM_mono (fun w f w' hw => hf _ _ _ _ hw) _ heq

lemma pciProbeBus_below (k : ℕ) :
    Below (pciProbeBus cfg (fun _ => true) k) (pciProbeBus cfg (fun _ => true) (k + 1)) := by
  induction k with
  | zero => exact fun _ _ _ _ h => absurd h (by simp [pciProbeBus])
  | succ k ih =>
    intro devs a parent devs' h
    rw [pciProbeBus] at h ⊢
    exact foldlM_mono (fun v s w hw => pciProbeSlot_below ih _ _ _ _ hw) _ h

lemma pciInit_below {k m : ℕ} (hkm : k ≤ m) {devs : List PciDev}
    (h : pciInit cfg (fun _ => true) k = some devs) :
    pciInit cfg (fun _ => true) m = some devs := by
  induction m, hkm using Nat.le_induction with
  | base => exact h
  | succ m _ ih =>
    unfold pciInit at ih ⊢
    split_ifs at ih ⊢
    · exact pciProbeBus_below m _ _ _ _ ih
    · exact foldlM_mono (fun v b w hw => pciProbeBus_below m _ _ _ _ hw) _ ih

end Deeper

/-- **PCI enumeration ends, and finds each function once**, whatever the configuration space
says lies behind the bridges: there is one list of devices, which every bound gives that is
larger than the number of addresses. -/
theorem pciInit_finds (cfg : ConfigSpace) :
    ∃ devs, (∀ k, pciNumBuses * pciNumSlots * pciNumFuncs < k →
        pciInit cfg (fun _ => true) k = some devs) ∧
      (devs.map PciDev.addr).Nodup ∧ ∀ a, a ∈ devs.map PciDev.addr ↔ Listed cfg a := by
  obtain ⟨U, hcard, hmemU⟩ := exists_allAddrs pciNumBuses pciNumSlots pciNumFuncs
  generalize pciNumBuses * pciNumSlots * pciNumFuncs = N at hcard ⊢
  have hU : ∀ a, Found (busFuncs cfg) (leadsTo cfg) (hostBuses cfg) a → a ∈ U := by
    intro a ha
    have hl := listed_iff.mpr ha
    exact hmemU a hl.1.lt hl.2.slot hl.2.func
  obtain ⟨vis, heq, hn, hmem⟩ := scanAll_finds hU (Nat.lt_succ_of_le hcard)
  rw [← pciInit_scans, Option.map_eq_some_iff] at heq
  obtain ⟨devs, hd, hv⟩ := heq
  subst hv
  refine ⟨devs, fun k hk => pciInit_below hk hd, hn, ?_⟩
  intro a
  rw [listed_iff]
  exact hmem a

/-- Two bridges, on the buses behind one another. -/
def crossedBridges : ConfigSpace := fun bus slot func register =>
  if slot = 1 ∧ func = 0 ∧ bus < 2 then
    match register with
    | 0 => 0x12348086
    | 2 => 0x06040000
    | 6 => if bus = 0 then 0x00000100 else 0
    | _ => 0
  else if register = 0 then pciInvalidDevice
  else 0

example : (pciInit crossedBridges (fun _ => true) 3).map (List.map PciDev.addr) =
    some [⟨1, 1, 0⟩, ⟨0, 1, 0⟩] := by decide +kernel

end Elfboot.Pci
