import Elfboot.Ide

/-!
An ATA or ATAPI command reports what the device has said exactly when the device has nothing to
report, or when it never ends well.

The driver follows the dialogue with the device: each turn of its loop is a step of the dialogue,
and it ends well where the dialogue is over, unless the byte of the command looks like an error.
-/

namespace Elfboot.Ide

open Elfboot.Errno Elfboot.Buffer Elfboot.Loop

variable {dev : Device} {cmd : AtaCmd} {s s' : State} {t : Transfer} {i j k n slave : ℕ}
  {buf : Bytes}

/-! ### Registers -/

/-- The same registers have been read, and the same bytes stored. -/
structure Quiet (s s' : State) : Prop where
  reads : s'.reads = s.reads
  stored : s'.stored = s.stored

lemma Quiet.trans {s'' : State} (h : Quiet s s') (h' : Quiet s' s'') : Quiet s s'' :=
  ⟨h'.reads.trans h.reads, h'.stored.trans h.stored⟩

lemma quiet_outb (reg val : ℕ) (s : State) : Quiet s (ideOutb reg val s) := ⟨rfl, rfl⟩

lemma quiet_writeIo (b : Bytes) (offset size : ℕ) (s : State) :
    Quiet s (ideWriteIo b offset size s) := ⟨rfl, rfl⟩

lemma quiet_foldl (reg val : ℕ → ℕ) (l : List ℕ) (s : State) :
    Quiet s (l.foldl (fun s i => ideOutb (reg i) (val i) s) s) := by
  induction l generalizing s with
  | nil => exact ⟨rfl, rfl⟩
  | cons i l ih => exact (quiet_outb (reg i) (val i) s).trans (ih _)

lemma quiet_sendRegisters (slave : ℕ) (cmd : AtaCmd) (s : State) :
    Quiet s (sendRegisters slave cmd s) := by
  unfold sendRegisters
  dsimp only
  exact (((quiet_outb _ _ s).trans (quiet_foldl id _ _ _)).trans (quiet_foldl id _ _ _)).trans
    (quiet_outb _ _ _)

lemma inb_val (reg : ℕ) (s : State) : (ideInb dev reg s).1 = dev.reg reg (s.reads reg) := rfl

lemma inb_reads_self (dev : Device) (reg : ℕ) (s : State) :
    (ideInb dev reg s).2.reads reg = s.reads reg + 1 := Function.update_self ..

lemma inb_reads_other {reg r : ℕ} (h : r ≠ reg) (s : State) :
    (ideInb dev reg s).2.reads r = s.reads r := Function.update_of_ne h ..

/-- Nothing but the registers of the status has been read. -/
structure OnlyStatus (s s' : State) : Prop where
  others : ∀ r, r ≠ ataRegStatus → r ≠ ataRegAltstatus → s'.reads r = s.reads r
  stored : s'.stored = s.stored

lemma OnlyStatus.trans {s'' : State} (h : OnlyStatus s s') (h' : OnlyStatus s' s'') :
    OnlyStatus s s'' :=
  ⟨fun r hr hr' => (h'.others r hr hr').trans (h.others r hr hr'), h'.stored.trans h.stored⟩

lemma piodel_spec (dev : Device) (s : State) : OnlyStatus s (idePollPiodel dev s) ∧
    (idePollPiodel dev s).reads ataRegStatus = s.reads ataRegStatus := by
  have hone : ∀ s, OnlyStatus s (ideInb dev ataRegAltstatus s).2 := fun s =>
    ⟨fun r _ hr' => inb_reads_other hr' s, rfl⟩
  have hne : ataRegStatus ≠ ataRegAltstatus := by decide
  refine ⟨((((hone s).trans (hone _)).trans (hone _)).trans (hone _)), ?_⟩
  unfold idePollPiodel
  simp only [Function.iterate_succ, Function.iterate_zero, Function.comp, id]
  rw [inb_reads_other hne, inb_reads_other hne, inb_reads_other hne, inb_reads_other hne]

lemma pollLoop_spec (dev : Device) (k : ℕ) (status : UInt8) (s : State)
    (h : k ≠ 0 ∨ status = statusAt dev (s.reads ataRegStatus)) :
    (idePollLoop dev k status s).2.reads ataRegStatus = pollEnd dev k (s.reads ataRegStatus) ∧
      (idePollLoop dev k status s).1 =
        statusAt dev ((idePollLoop dev k status s).2.reads ataRegStatus) ∧
      OnlyStatus s (idePollLoop dev k status s).2 := by
  induction k generalizing status s with
  | zero => exact ⟨rfl, h.resolve_left (fun h0 => h0 rfl), fun _ _ _ => rfl, rfl⟩
  | succ k ih =>
      have hself := inb_reads_self dev ataRegStatus s
      have hread : (ideInb dev ataRegStatus s).1 =
          statusAt dev ((ideInb dev ataRegStatus s).2.reads ataRegStatus) := by
        rw [hself]
        rfl
      have honly : OnlyStatus s (ideInb dev ataRegStatus s).2 :=
        ⟨fun r hr _ => inb_reads_other hr s, rfl⟩
      rw [idePollLoop, pollEnd, ← inb_val]
      dsimp only
      by_cases hbusy : (ideInb dev ataRegStatus s).1 &&& ataSrBsy = 0
      · rw [if_pos hbusy, if_pos hbusy]
        exact ⟨hself, hread, honly⟩
      · rw [if_neg hbusy, if_neg hbusy]
        obtain ⟨hend, hstatus, hrest⟩ := ih _ (ideInb dev ataRegStatus s).2 (.inr hread)
        refine ⟨?_, hstatus, honly.trans hrest⟩
        rw [hend, hself]

/-- **A poll** ends with the status that was read last. -/
lemma pollIo_spec (dev : Device) (s : State) :
    (idePollIo dev s).2.reads ataRegStatus = polled dev (s.reads ataRegStatus) ∧
      (idePollIo dev s).1 = statusAt dev (polled dev (s.reads ataRegStatus)) ∧
      OnlyStatus s (idePollIo dev s).2 := by
  obtain ⟨honly, hreads⟩ := piodel_spec dev s
  have htime : ataIoTimeout ≠ 0 := by
    unfold ataIoTimeout
    decide
  obtain ⟨hend, hstatus, hrest⟩ :=
    pollLoop_spec dev ataIoTimeout 0 (idePollPiodel dev s) (.inl htime)
  rw [hreads] at hend
  exact ⟨hend, hstatus.trans (congrArg (statusAt dev) hend), honly.trans hrest⟩

lemma readLoop_spec (dev : Device) (k i : ℕ) (s : State) (h : s.stored = Finset.range i) :
    (ideReadLoop dev k i s).reads = s.reads ∧
      (ideReadLoop dev k i s).stored = Finset.range (i + 2 * k) := by
  induction k generalizing i s with
  | zero => exact ⟨rfl, h⟩
  | succ k ih =>
      have hnext : (ideReadWord dev i s).stored = Finset.range (i + 2) := by
        rw [Finset.range_add_one, Finset.range_add_one, ← h]
        rfl
      rw [ideReadLoop]
      obtain ⟨hreads, hstored⟩ := ih (i + 2) (ideReadWord dev i s) hnext
      refine ⟨hreads, hstored.trans ?_⟩
      rw [Nat.mul_succ, Nat.add_assoc, Nat.add_comm 2]

/-! ### A turn -/

/-- Where the driver is in a dialogue. An odd number of bytes is the last one. -/
structure Follows (dev : Device) (cmd : AtaCmd) (i j k n : ℕ) (t : Transfer) : Prop where
  status : t.status = statusAt dev i
  nbread : t.nbread = n
  statuses : t.s.reads ataRegStatus = i
  reasons : t.s.reads atapiRegIreason = j
  low : t.s.reads atapiRegCntlow = k
  high : t.s.reads atapiRegCnthigh = k
  le : n ≤ cmd.bufsize
  even : n < cmd.bufsize → Even n
  stored : cmd.write = false → t.s.stored = Finset.range (2 * (n / 2))

/-- The turn that moves bytes: what it leaves of the state that knows how many. -/
def moved (dev : Device) (cmd : AtaCmd) (n cnt : ℕ) (s : State) : Transfer :=
  let s := if cmd.write then ideWriteIo s.buf n cnt s else ideReadIo dev n cnt s
  let polled := idePollIo dev s
  ⟨polled.1, n + cnt, polled.2⟩

lemma moved_follows {cnt i' : ℕ} (hi : s.reads ataRegStatus = i) (hj : s.reads atapiRegIreason = j)
    (hlow : s.reads atapiRegCntlow = k) (hhigh : s.reads atapiRegCnthigh = k)
    (hle : n + cnt ≤ cmd.bufsize) (hn : Even n) (hcnt : Even cnt ∨ n + cnt = cmd.bufsize)
    (hi' : polled dev i = i')
    (hstored : cmd.write = false → s.stored = Finset.range (2 * (n / 2))) :
    Follows dev cmd i' j k (n + cnt) (moved dev cmd n cnt s) := by
  obtain ⟨s₁, hs₁⟩ : ∃ s₁, s₁ =
      if cmd.write then ideWriteIo s.buf n cnt s else ideReadIo dev n cnt s := ⟨_, rfl⟩
  have hspec : s₁.reads = s.reads ∧
      (cmd.write = false → s₁.stored = Finset.range (2 * ((n + cnt) / 2))) := by
    obtain ⟨q, rfl⟩ := hn
    rw [hs₁]
    cases hwrite : cmd.write with
    | true => exact ⟨rfl, nofun⟩
    | false =>
      have hrange := hstored hwrite
      rw [show 2 * ((q + q) / 2) = q + q by omega] at hrange
      obtain ⟨hreads, hnew⟩ := readLoop_spec dev (cnt >>> 1) (q + q) s hrange
      rw [if_neg Bool.false_ne_true]
      refine ⟨hreads, fun _ => hnew.trans (congrArg Finset.range ?_)⟩
      rw [Nat.shiftRight_one]
      omega
  obtain ⟨hreads, hstored'⟩ := hspec
  obtain ⟨hend, hstatus, honly⟩ := pollIo_spec dev s₁
  have hmoved : moved dev cmd n cnt s =
      ⟨(idePollIo dev s₁).1, n + cnt, (idePollIo dev s₁).2⟩ := by
    rw [hs₁]
    rfl
  rw [hmoved]
  rw [hreads, hi, hi'] at hend hstatus
  refine ⟨hstatus, rfl, hend, ?_, ?_, ?_, hle, fun hlt => ?_, fun hwrite => ?_⟩
  · exact (honly.others _ (by decide) (by decide)).trans (by rw [hreads, hj])
  · exact (honly.others _ (by decide) (by decide)).trans (by rw [hreads, hlow])
  · exact (honly.others _ (by decide) (by decide)).trans (by rw [hreads, hhigh])
  · exact hn.add (hcnt.resolve_right hlt.ne)
  · exact honly.stored.trans (hstored' hwrite)

/-- The loop is left when the dialogue stops. -/
lemma turn_stops (h : Follows dev cmd i j k n t) (hstop : n < cmd.bufsize → ¬ Asks dev i) :
    transferTurn dev cmd t = some (.leave (.done n t.s)) := by
  unfold transferTurn
  rw [h.nbread, h.status]
  by_cases hlt : n < cmd.bufsize
  · rw [if_pos hlt]
    dsimp only
    rw [if_pos (hstop hlt)]
  · rw [if_neg hlt]

lemma turn_asks (h : Follows dev cmd i j k n t) (hlt : n < cmd.bufsize) (hasks : Asks dev i) :
    transferTurn dev cmd t =
      match chunkSize dev cmd (cmd.bufsize - n) t.s with
      | (none, s) => some (.leave (.fails s))
      | (some cnt, s) => some (.next (moved dev cmd n
          (if cmd.bufsize - n < cnt then cmd.bufsize - n else cnt) s)) := by
  unfold transferTurn
  rw [h.nbread, h.status, if_pos hlt]
  dsimp only
  rw [if_neg (not_not.mpr hasks)]
  rfl

/-- Without a packet, a sector or what is left of it is moved. -/
lemma turn_ata (h : Follows dev cmd i j k n t) (hsize : cmd.cmdsize = 0) (hlt : n < cmd.bufsize)
    (hasks : Asks dev i) : ∃ t', transferTurn dev cmd t = some (.next t') ∧
      Follows dev cmd (polled dev i) j k (n + min 512 (cmd.bufsize - n)) t' := by
  have hmin : (if cmd.bufsize - n < 512 then cmd.bufsize - n else 512) =
      min 512 (cmd.bufsize - n) := by
    split_ifs <;> omega
  refine ⟨_, ?_, moved_follows (s := t.s) h.statuses h.reasons h.low h.high (by omega) (h.even hlt)
    ?_ rfl h.stored⟩
  · rw [turn_asks h hlt hasks, chunkSize, if_neg (not_not.mpr hsize), ← hmin]
  · rcases le_total 512 (cmd.bufsize - n) with hle | hle
    · rw [min_eq_left hle]
      exact .inl (by decide)
    · rw [min_eq_right hle]
      exact .inr (by omega)

/-- The interrupt reason and the byte count are right for the next chunk. -/
def Chunk (dev : Device) (cmd : AtaCmd) (j k n : ℕ) : Prop :=
  dev.reg atapiRegIreason j &&& atapiIreasonMask = atapiIreasonDataIn ∧
    Fits (cmd.bufsize - n) (countAt dev k)

/-- With a packet, the device says how many bytes are to be moved, or the command fails. -/
lemma turn_atapi (h : Follows dev cmd i j k n t) (hsize : cmd.cmdsize ≠ 0) (hlt : n < cmd.bufsize)
    (hasks : Asks dev i) :
    (Chunk dev cmd j k n ∧ ∃ t', transferTurn dev cmd t = some (.next t') ∧
        Follows dev cmd (polled dev i) (j + 1) (k + 1) (n + countAt dev k) t') ∨
      (¬ Chunk dev cmd j k n ∧ ∃ s, transferTurn dev cmd t = some (.leave (.fails s))) := by
  obtain ⟨s₁, hs₁⟩ : ∃ s₁, s₁ = (ideInb dev atapiRegIreason t.s).2 := ⟨_, rfl⟩
  obtain ⟨s₂, hs₂⟩ : ∃ s₂, s₂ = (ideInb dev atapiRegCnthigh s₁).2 := ⟨_, rfl⟩
  obtain ⟨s₃, hs₃⟩ : ∃ s₃, s₃ = (ideInb dev atapiRegCntlow s₂).2 := ⟨_, rfl⟩
  have hreason : (ideInb dev atapiRegIreason t.s).1 = dev.reg atapiRegIreason j := by
    rw [inb_val, h.reasons]
  have hother : ∀ r, r ≠ atapiRegIreason → s₁.reads r = t.s.reads r := by
    intro r hr
    rw [hs₁, inb_reads_other hr]
  have hother' : ∀ r, r ≠ atapiRegCnthigh → s₂.reads r = s₁.reads r := by
    intro r hr
    rw [hs₂, inb_reads_other hr]
  have hother'' : ∀ r, r ≠ atapiRegCntlow → s₃.reads r = s₂.reads r := by
    intro r hr
    rw [hs₃, inb_reads_other hr]
  have hhigh : s₁.reads atapiRegCnthigh = k := (hother _ (by decide)).trans h.high
  have hlow : s₂.reads atapiRegCntlow = k :=
    (hother' _ (by decide)).trans ((hother _ (by decide)).trans h.low)
  have hcount : (ideInb dev atapiRegCnthigh s₁).1.toNat <<< 8 |||
      (ideInb dev atapiRegCntlow s₂).1.toNat = countAt dev k := by
    rw [inb_val, inb_val, hhigh, hlow]
    rfl
  have hchunk : chunkSize dev cmd (cmd.bufsize - n) t.s =
      if dev.reg atapiRegIreason j &&& atapiIreasonMask ≠ atapiIreasonDataIn then (none, s₁)
      else if Fits (cmd.bufsize - n) (countAt dev k) then (some (countAt dev k), s₃)
      else (none, s₃) := by
    unfold chunkSize
    rw [if_pos hsize]
    dsimp only
    rw [hreason, ← hs₁, ← hs₂, ← hs₃, hcount]
  rw [turn_asks h hlt hasks, hchunk]
  by_cases hdata : dev.reg atapiRegIreason j &&& atapiIreasonMask = atapiIreasonDataIn
  swap
  · rw [if_pos hdata]
    exact .inr ⟨fun hc => hdata hc.1, s₁, rfl⟩
  rw [if_neg (not_not.mpr hdata)]
  by_cases hfits : Fits (cmd.bufsize - n) (countAt dev k)
  swap
  · rw [if_neg hfits]
    exact .inr ⟨fun hc => hfits hc.2, s₃, rfl⟩
  rw [if_pos hfits]
  dsimp only
  obtain ⟨hpos, hle, hodd⟩ := id hfits
  rw [if_neg (not_lt.mpr hle)]
  refine .inl ⟨⟨hdata, hfits⟩, _, rfl, moved_follows ?_ ?_ ?_ ?_ (by omega) (h.even hlt) ?_ rfl ?_⟩
  · rw [hother'' _ (by decide), hother' _ (by decide), hother _ (by decide), h.statuses]
  · rw [hother'' _ (by decide), hother' _ (by decide), hs₁, inb_reads_self, h.reasons]
  · rw [hs₃, inb_reads_self, hlow]
  · rw [hother'' _ (by decide), hs₂, inb_reads_self, hhigh]
  · rw [Nat.and_one_is_mod] at hodd
    exact hodd.imp Nat.even_iff.mpr (by omega)
  · intro hwrite
    rw [hs₃, hs₂, hs₁]
    exact h.stored hwrite

/-! ### The whole command -/

/-- The registers, and the packet if there is one. -/
def opened (dev : Device) (slave : ℕ) (cmd : AtaCmd) (buf : Bytes) : Option UInt8 × State :=
  let polled := idePollIo dev (sendRegisters slave cmd (start buf))
  sendPacket dev cmd polled.1 polled.2

/-- What the driver knows when the command has been sent. -/
lemma sent_spec (dev : Device) (slave : ℕ) (cmd : AtaCmd) (buf : Bytes) :
    ∃ status s, idePollIo dev (sendRegisters slave cmd (start buf)) = (status, s) ∧
      Follows dev cmd (polled dev 0) 0 0 0 ⟨status, 0, s⟩ := by
  have hquiet := quiet_sendRegisters slave cmd (start buf)
  obtain ⟨hend, hstatus, honly⟩ := pollIo_spec dev (sendRegisters slave cmd (start buf))
  have hreads : ∀ r, (sendRegisters slave cmd (start buf)).reads r = 0 := fun r =>
    congrFun hquiet.reads r
  rw [hreads] at hend hstatus
  refine ⟨_, _, Prod.mk.eta.symm, hstatus, rfl, hend, ?_, ?_, ?_, Nat.zero_le _, fun _ => Even.zero,
    fun _ => ?_⟩
  · exact (honly.others _ (by decide) (by decide)).trans (hreads _)
  · exact (honly.others _ (by decide) (by decide)).trans (hreads _)
  · exact (honly.others _ (by decide) (by decide)).trans (hreads _)
  · rw [honly.stored, hquiet.stored, Nat.zero_div, Nat.mul_zero, Finset.range_zero]
    rfl

lemma opened_plain (dev : Device) (slave : ℕ) (buf : Bytes) (h : ¬ Packet cmd) :
    ∃ status s, opened dev slave cmd buf = (some status, s) ∧
      Follows dev cmd (polled dev 0) 0 0 0 ⟨status, 0, s⟩ := by
  obtain ⟨status, s, hsent, hfollows⟩ := sent_spec dev slave cmd buf
  refine ⟨status, s, ?_, hfollows⟩
  unfold opened
  rw [hsent]
  dsimp only
  unfold sendPacket
  cases hcmd : cmd.cmd with
  | none => rfl
  | some pkt =>
    have hsize : cmd.cmdsize = 0 := by
      by_contra hne
      exact h ⟨hne, by rw [hcmd]; rfl⟩
    dsimp only
    rw [if_pos hsize]

/-- The device wants the packet. -/
def Wants (dev : Device) : Prop := Asks dev (polled dev 0) ∧
  dev.reg atapiRegIreason 0 &&& atapiIreasonMask = atapiIreasonCmdOut

lemma opened_packet (dev : Device) (slave : ℕ) (buf : Bytes) (h : Packet cmd) :
    (Wants dev ∧ ∃ status s, opened dev slave cmd buf = (some status, s) ∧
        Follows dev cmd (polled dev (polled dev 0)) 1 0 0 ⟨status, 0, s⟩) ∨
      (¬ Wants dev ∧ ∃ s, opened dev slave cmd buf = (none, s)) := by
  obtain ⟨status, s, hsent, hfollows⟩ := sent_spec dev slave cmd buf
  obtain ⟨hsize, hsome⟩ := h
  obtain ⟨pkt, hpkt⟩ := Option.isSome_iff_exists.mp hsome
  have hstatus : status = statusAt dev (polled dev 0) := hfollows.status
  obtain ⟨s₁, hs₁⟩ : ∃ s₁, s₁ = (ideInb dev atapiRegIreason s).2 := ⟨_, rfl⟩
  have hreason : (ideInb dev atapiRegIreason s).1 = dev.reg atapiRegIreason 0 := by
    rw [inb_val, hfollows.reasons]
  have hopened : opened dev slave cmd buf =
      if statusAt dev (polled dev 0) &&& ataSrPoll ≠ ataSrDrq then (none, s)
      else if dev.reg atapiRegIreason 0 &&& atapiIreasonMask ≠ atapiIreasonCmdOut then (none, s₁)
      else (some (idePollIo dev (ideWriteIo pkt 0 cmd.cmdsize s₁)).1,
        (idePollIo dev (ideWriteIo pkt 0 cmd.cmdsize s₁)).2) := by
    unfold opened
    rw [hsent]
    dsimp only
    unfold sendPacket
    rw [hpkt]
    dsimp only
    rw [if_neg hsize, hstatus, hreason, ← hs₁]
  rw [hopened]
  by_cases hasks : Asks dev (polled dev 0)
  swap
  · rw [if_pos hasks]
    exact .inr ⟨fun hw => hasks hw.1, s, rfl⟩
  rw [if_neg (not_not.mpr hasks)]
  by_cases hcmd : dev.reg atapiRegIreason 0 &&& atapiIreasonMask = atapiIreasonCmdOut
  swap
  · rw [if_pos hcmd]
    exact .inr ⟨fun hw => hcmd hw.2, s₁, rfl⟩
  rw [if_neg (not_not.mpr hcmd)]
  obtain ⟨hend, hstatus', honly⟩ :=
    pollIo_spec dev (ideWriteIo pkt 0 cmd.cmdsize s₁)
  have hother : ∀ r, r ≠ atapiRegIreason → s₁.reads r = s.reads r := by
    intro r hr
    rw [hs₁, inb_reads_other hr]
  have hreads : ∀ r, (ideWriteIo pkt 0 cmd.cmdsize s₁).reads r = s₁.reads r := fun _ => rfl
  rw [hreads, hother _ (by decide), hfollows.statuses] at hend hstatus'
  refine .inl ⟨⟨hasks, hcmd⟩, _, _, rfl, hstatus', rfl, hend, ?_, ?_, ?_, Nat.zero_le _,
    fun _ => Even.zero, fun hwrite => ?_⟩
  · rw [honly.others _ (by decide) (by decide), hreads, hs₁, inb_reads_self, hfollows.reasons]
  · rw [honly.others _ (by decide) (by decide), hreads, hother _ (by decide), hfollows.low]
  · rw [honly.others _ (by decide) (by decide), hreads, hother _ (by decide), hfollows.high]
  · rw [honly.stored, (quiet_writeIo pkt 0 cmd.cmdsize s₁).stored, hs₁]
    exact hfollows.stored hwrite

/-- Once the command has been sent, the driver is at the beginning of a dialogue. -/
lemma dialogue_of_opened {status : UInt8} (h : opened dev slave cmd buf = (some status, s)) :
    ∃ i j, Dialogue dev cmd i j 0 0 ∧ Follows dev cmd i j 0 0 ⟨status, 0, s⟩ := by
  by_cases hpkt : Packet cmd
  · obtain ⟨hwants, status', s', hopened, hfollows⟩ | ⟨-, s', hopened⟩ :=
      opened_packet dev slave buf hpkt
    · rw [h] at hopened
      cases hopened
      exact ⟨_, _, .packet hpkt hwants.1 hwants.2, hfollows⟩
    · rw [h] at hopened
      cases hopened
  · obtain ⟨status', s', hopened, hfollows⟩ := opened_plain dev slave buf hpkt
    rw [h] at hopened
    cases hopened
    exact ⟨_, _, .plain hpkt, hfollows⟩

/-- **The driver follows every dialogue.** -/
lemma run_of_dialogue (slave : ℕ) (buf : Bytes) (h : Dialogue dev cmd i j k n) :
    ∃ status s t, opened dev slave cmd buf = (some status, s) ∧
      Reaches (transferTurn dev cmd) ⟨status, 0, s⟩ t ∧ Follows dev cmd i j k n t := by
  induction h with
  | plain hno =>
    obtain ⟨status, s, hopened, hfollows⟩ := opened_plain dev slave buf hno
    exact ⟨status, s, _, hopened, reaches_self _ _, hfollows⟩
  | packet hpkt hasks hreason =>
    obtain ⟨-, status, s, hopened, hfollows⟩ | ⟨hno, -⟩ := opened_packet dev slave buf hpkt
    · exact ⟨status, s, _, hopened, reaches_self _ _, hfollows⟩
    · exact absurd ⟨hasks, hreason⟩ hno
  | atapi _ hsize hmore hasks hreason hcount ih =>
    obtain ⟨status, s, t, hopened, hreach, hfollows⟩ := ih
    obtain ⟨-, t', hturn, hfollows'⟩ | ⟨hno, -⟩ := turn_atapi hfollows hsize hmore hasks
    · exact ⟨status, s, t', hopened, hreach.tail hturn, hfollows'⟩
    · exact absurd ⟨hreason, hcount⟩ hno
  | ata _ hsize hmore hasks ih =>
    obtain ⟨status, s, t, hopened, hreach, hfollows⟩ := ih
    obtain ⟨t', hturn, hfollows'⟩ := turn_ata hfollows hsize hmore hasks
    exact ⟨status, s, t', hopened, hreach.tail hturn, hfollows'⟩

/-- **The loop ends**, at the end of a dialogue or with a failure. -/
lemma transfer_ends {t : Transfer} (turns : ℕ) (hd : Dialogue dev cmd i j k n)
    (h : Follows dev cmd i j k n t) (hk : cmd.bufsize - n < turns) :
    ∃ r, loop (transferTurn dev cmd) turns t = some r ∧ ((∃ s, r = .fails s) ∨
      ∃ i j k n t, r = .done n t.s ∧ Dialogue dev cmd i j k n ∧ Follows dev cmd i j k n t ∧
        (n < cmd.bufsize → ¬ Asks dev i)) := by
  refine loop_total (I := fun t => ∃ i j k n, Dialogue dev cmd i j k n ∧
    Follows dev cmd i j k n t) (fun t => cmd.bufsize - t.nbread) ?_ ⟨i, j, k, n, hd, h⟩
    (by rwa [h.nbread])
  rintro t ⟨i, j, k, n, hd, h⟩
  rw [h.nbread]
  by_cases hstop : n < cmd.bufsize → ¬ Asks dev i
  · exact .inl ⟨_, turn_stops h hstop, .inr ⟨i, j, k, n, t, rfl, hd, h, hstop⟩⟩
  obtain ⟨hmore, hasks⟩ : n < cmd.bufsize ∧ Asks dev i := by
    rw [Classical.not_imp, not_not] at hstop
    exact hstop
  by_cases hsize : cmd.cmdsize = 0
  · obtain ⟨t', hturn, h'⟩ := turn_ata h hsize hmore hasks
    refine .inr ⟨t', hturn, ⟨_, _, _, _, hd.ata hsize hmore hasks, h'⟩, ?_⟩
    rw [h'.nbread]
    omega
  · obtain ⟨hchunk, t', hturn, h'⟩ | ⟨-, s, hturn⟩ := turn_atapi h hsize hmore hasks
    · refine .inr ⟨t', hturn, ⟨_, _, _, _, hd.atapi hsize hmore hasks hchunk.1 hchunk.2, h'⟩, ?_⟩
      have hpos := hchunk.2.1
      rw [h'.nbread]
      omega
    · exact .inl ⟨_, hturn, .inl ⟨s, rfl⟩⟩

lemma readRegisters_spec (dev : Device) (m r : ℕ) (raw : Bytes) (s : State) (hr : 1 ≤ r)
    (hm : r + m ≤ ataRegStatus) :
    (readRegisters dev m r raw s).1 6 = raw 6 ∧
      (readRegisters dev m r raw s).2.reads ataRegStatus = s.reads ataRegStatus ∧
      (readRegisters dev m r raw s).2.stored = s.stored := by
  induction m generalizing r raw s with
  | zero => exact ⟨rfl, rfl, rfl⟩
  | succ m ih =>
      have hlt : r + (m + 1) ≤ 7 := hm
      have hraw : (6 : ℕ) ≠ r - 1 := by omega
      have hstatus : ataRegStatus ≠ r := by
        show 7 ≠ r
        omega
      rw [readRegisters]
      dsimp only
      obtain ⟨h6, h7, hstored⟩ := ih (r + 1)
        (Function.update raw (r - ataRegFeatures) (ideInb dev r s).1) (ideInb dev r s).2
        (Nat.le_add_left 1 r) (by show r + 1 + m ≤ 7; omega)
      refine ⟨h6.trans (Function.update_of_ne hraw _ _), ?_, hstored⟩
      rw [h7, inb_reads_other hstatus]

/-- The last status that is read is not looked at: the byte of the command is. -/
lemma finish_spec (dev : Device) (cmd : AtaCmd) (n : ℕ) (s : State) :
    ∃ ret cmd' s', finishCommand dev cmd n s = (ret, cmd', s') ∧
      (ret = 0 ↔ Clean (cmd.raw 6)) ∧ cmd'.bufsize = n ∧ s'.stored = s.stored ∧
      lastStatus dev s' = statusAt dev (polled dev (s.reads ataRegStatus)) := by
  obtain ⟨hend, -, honly⟩ := pollIo_spec dev s
  obtain ⟨h6, h7, hstored⟩ := readRegisters_spec dev (ataRegStatus - ataRegError) ataRegError
    cmd.raw (idePollIo dev s).2 le_rfl le_rfl
  have hlast : lastStatus dev (readRegisters dev (ataRegStatus - ataRegError) ataRegError cmd.raw
      (idePollIo dev s).2).2 = statusAt dev (polled dev (s.reads ataRegStatus)) := by
    rw [lastStatus, h7, hend]
    rfl
  have hstored := hstored.trans honly.stored
  unfold finishCommand
  dsimp only
  by_cases hclean : Clean ((readRegisters dev (ataRegStatus - ataRegError) ataRegError cmd.raw
      (idePollIo dev s).2).1 6)
  · rw [if_neg (not_not.mpr hclean)]
    exact ⟨_, _, _, rfl, iff_of_true rfl (h6 ▸ hclean), rfl, hstored, hlast⟩
  · rw [if_pos hclean]
    exact ⟨_, _, _, rfl, iff_of_false (by decide) (h6 ▸ hclean), rfl, hstored, hlast⟩

/-- Where a dialogue is over, the driver ends well, unless the byte of the command is taken for an
error. -/
lemma after_over {t : Transfer} (h : Follows dev cmd i j k n t)
    (hcontent : cmd.write = true → Clean (statusAt dev (polled dev i))) :
    ∃ ret cmd' s', afterTransfer dev cmd (.done n t.s) = (ret, cmd', s') ∧
      (ret = 0 ↔ Clean (cmd.raw 6)) ∧ cmd'.bufsize = n ∧
      (cmd.write = false → s'.stored = Finset.range (2 * (n / 2))) ∧
      lastStatus dev s' = statusAt dev (lastPoll dev cmd i) := by
  rw [afterTransfer, lastPoll]
  cases hwrite : cmd.write with
  | false =>
    obtain ⟨ret, cmd', s', hfinish, hret, hsize, hstored, hlast⟩ := finish_spec dev cmd n t.s
    rw [if_neg Bool.false_ne_true, if_neg Bool.false_ne_true]
    rw [h.statuses] at hlast
    exact ⟨ret, cmd', s', hfinish, hret, hsize, fun _ => hstored.trans (h.stored hwrite), hlast⟩
  | true =>
    obtain ⟨hend, hstatus, -⟩ := pollIo_spec dev t.s
    obtain ⟨ret, cmd', s', hfinish, hret, hsize, hstored, hlast⟩ :=
      finish_spec dev cmd n (idePollIo dev t.s).2
    rw [h.statuses] at hend hstatus
    rw [if_pos rfl, if_pos rfl]
    dsimp only
    rw [hstatus, if_neg (not_not.mpr (hcontent hwrite))]
    rw [hend] at hlast
    exact ⟨ret, cmd', s', hfinish, hret, hsize, nofun, hlast⟩

lemma send_eq (slave : ℕ) (cmd : AtaCmd) (buf : Bytes) :
    ideSendCommand dev slave cmd (start buf) =
      match opened dev slave cmd buf with
      | (none, s) => some (-efault, cmd, s)
      | (some status, s) =>
        (loop (transferTurn dev cmd) (cmd.bufsize + 1) ⟨status, 0, s⟩).map
          (afterTransfer dev cmd) :=
  rfl

/-- The driver comes to the end of every dialogue that is over. -/
lemma send_of_over (slave : ℕ) (buf : Bytes) (h : Over dev cmd i j k n) :
    ∃ ret cmd' s', ideSendCommand dev slave cmd (start buf) = some (ret, cmd', s') ∧
      (ret = 0 ↔ Clean (cmd.raw 6)) ∧ cmd'.bufsize = n ∧
      (cmd.write = false → s'.stored = Finset.range (2 * (n / 2))) ∧
      lastStatus dev s' = statusAt dev (lastPoll dev cmd i) := by
  obtain ⟨status, s, t, hopened, hreach, hfollows⟩ := run_of_dialogue slave buf h.dialogue
  have hends : Ends (transferTurn dev cmd) ⟨status, 0, s⟩ (.done n t.s) :=
    hreach.ends.2 ((ends_leave (turn_stops hfollows h.stops)).2 rfl)
  obtain ⟨ret, cmd', s', hafter, hspec⟩ := after_over hfollows h.content
  obtain ⟨i₀, j₀, hd, hstart⟩ := dialogue_of_opened hopened
  obtain ⟨r, hloop, -⟩ := transfer_ends (cmd.bufsize + 1) hd hstart (by omega)
  obtain rfl : r = .done n t.s := ends_unique ⟨_, hloop⟩ hends
  refine ⟨ret, cmd', s', ?_, hspec⟩
  rw [send_eq, hopened]
  dsimp only
  rw [hloop, Option.map_some, hafter]

/-- A command fails, or a dialogue is over. -/
lemma send_cases (dev : Device) (slave : ℕ) (cmd : AtaCmd) (buf : Bytes) :
    (∃ ret cmd' s', ret ≠ 0 ∧
        ideSendCommand dev slave cmd (start buf) = some (ret, cmd', s')) ∨
      ∃ i j k n, Over dev cmd i j k n := by
  rw [send_eq]
  obtain ⟨o, s, hopened⟩ : ∃ o s, opened dev slave cmd buf = (o, s) := ⟨_, _, Prod.mk.eta.symm⟩
  have hefault : -efault ≠ 0 := by decide
  rw [hopened]
  cases o with
  | none => exact .inl ⟨_, _, _, hefault, rfl⟩
  | some status =>
    obtain ⟨i₀, j₀, hd, hstart⟩ := dialogue_of_opened hopened
    obtain ⟨r, hloop, ⟨s', rfl⟩ | ⟨i, j, k, n, t, rfl, hd', h, hstops⟩⟩ :=
      transfer_ends (cmd.bufsize + 1) hd hstart (by omega)
    · dsimp only
      rw [hloop]
      exact .inl ⟨_, _, _, hefault, rfl⟩
    · by_cases hcontent : cmd.write = true → Clean (statusAt dev (polled dev i))
      · exact .inr ⟨i, j, k, n, hd', hstops, hcontent⟩
      · obtain ⟨hwrite, hbad⟩ := Classical.not_imp.mp hcontent
        obtain ⟨-, hstatus, -⟩ := pollIo_spec dev t.s
        rw [h.statuses] at hstatus
        dsimp only
        rw [hloop, Option.map_some, afterTransfer, if_pos hwrite]
        dsimp only
        rw [hstatus, if_pos hbad]
        exact .inl ⟨_, _, _, hefault, rfl⟩

lemma stored_card_iff : n = (Finset.range (2 * (n / 2))).card ↔ Even n := by
  rw [Finset.card_range, Nat.even_iff]
  omega

/-- **A command reports** the error and the number of bytes if and only if the device has no error
to report and the bytes are even in number, or no command ends well. -/
theorem reports_iff (dev : Device) (slave : ℕ) (cmd : AtaCmd) (buf : Bytes) :
    Reports dev slave cmd buf ↔ Sound dev cmd := by
  constructor
  · rintro ⟨ret, cmd', s', hsend, hreports⟩
    by_cases hclean : Clean (cmd.raw 6)
    swap
    · exact .inl hclean
    refine .inr fun i j k n hover => ?_
    obtain ⟨ret', cmd'', s'', hsend', hret, hsize, hstored, hlast⟩ := send_of_over slave buf hover
    obtain ⟨rfl, rfl, rfl⟩ : ret = ret' ∧ cmd' = cmd'' ∧ s' = s'' := by
      rw [hsend'] at hsend
      cases hsend
      exact ⟨rfl, rfl, rfl⟩
    obtain ⟨hstatus, hread⟩ := hreports (hret.2 hclean)
    refine ⟨hlast ▸ hstatus, fun hwrite => ?_⟩
    have hcard := (hread hwrite).1
    rw [hsize, hstored hwrite] at hcard
    exact stored_card_iff.1 hcard
  · intro hsound
    obtain ⟨ret, cmd', s', hret, hsend⟩ | ⟨i, j, k, n, hover⟩ := send_cases dev slave cmd buf
    · exact ⟨ret, cmd', s', hsend, fun h0 => absurd h0 hret⟩
    obtain ⟨ret, cmd', s', hsend, hret, hsize, hstored, hlast⟩ := send_of_over slave buf hover
    refine ⟨ret, cmd', s', hsend, fun h0 => ?_⟩
    obtain ⟨hstatus, heven⟩ := (hsound.resolve_left fun hno => hno (hret.1 h0)) i j k n hover
    refine ⟨hlast ▸ hstatus, fun hwrite => ?_⟩
    obtain ⟨-, -, t, -, -, hfollows⟩ := run_of_dialogue slave buf hover.dialogue
    have hle := hfollows.le
    rw [hsize, hstored hwrite]
    refine ⟨stored_card_iff.2 (heven hwrite), Finset.range_subset_range.mpr ?_⟩
    omega

/-- A device that gives a sector and then says that it was wrong. -/
def failing : Device := ⟨fun reg n => if reg = ataRegStatus then
  (if n = 0 then 0x48 else if n = 1 then 0x40 else 0x41) else 0, fun _ => 0⟩

/-- `ATA_CMD_READ_PIO_EXT` of one sector. -/
def readSector : AtaCmd := ⟨512, none, 0, false, fun i => if i = 6 then 0x24 else 0⟩

/-- The command returns 0, and the last status has `ERR`. -/
lemma not_reports_failing :
    ((ideSendCommand failing 0 readSector (start fun _ => 0)).map
        fun r => (r.1, lastStatus failing r.2.2)) = some (0, 0x41) ∧
      ¬ Reports failing 0 readSector (fun _ => 0) := by
  have hsend : ((ideSendCommand failing 0 readSector (start fun _ => 0)).map
      fun r => (r.1, lastStatus failing r.2.2)) = some (0, 0x41) := by
    decide +kernel
  refine ⟨hsend, ?_⟩
  rintro ⟨ret, cmd', s', heq, hreports⟩
  rw [heq, Option.map_some, Option.some_inj, Prod.mk.injEq] at hsend
  have hclean := (hreports hsend.1).1
  rw [hsend.2] at hclean
  exact absurd hclean (by decide)

end Elfboot.Ide
