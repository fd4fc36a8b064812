import Elfboot.IdeReports

/-!
The words that a command reads.

Each turn of the driver goes on filling the buffer with the words that the device gives, however
many of them it moves at a time.
-/

namespace Elfboot.Ide

open Elfboot.Errno Elfboot.Buffer Elfboot.Loop

/-- The bytes of the words that the device gives. -/
def stream (dev : Device) : Bytes := fun i =>
  UInt8.ofNat ((dev.data (i / 2)).toNat / 2 ^ (8 * (i % 2)))

/-- The buffer, and how many words have been read into it. -/
def State.moved (s : State) : Bytes × ℕ := (s.buf, s.words)

variable {dev : Device} {cmd : AtaCmd} {s s' : State} {t t' : Transfer} {buf disk : Bytes}
  {i j k m n slave : ℕ}

lemma update_memcpy (b src : Bytes) (n : ℕ) :
    Function.update (memcpy b 0 src 0 n) n (src n) = memcpy b 0 src 0 (n + 1) := by
  funext i
  unfold memcpy
  rcases eq_or_ne i n with rfl | hne
  · rw [Function.update_self, if_pos (by omega), Nat.sub_zero, Nat.zero_add]
  · rw [Function.update_of_ne hne]
    by_cases hlt : i < n
    · rw [if_pos (by omega), if_pos (by omega)]
    · rw [if_neg (by omega), if_neg (by omega)]

lemma memcpy_congr {b src src' : Bytes} {p : ℕ} (h : ∀ i < n, src i = src' (p + i)) :
    memcpy b 0 src 0 n = memcpy b 0 src' p n := by
  funext i
  unfold memcpy
  by_cases hi : 0 ≤ i ∧ i < 0 + n
  · rw [if_pos hi, if_pos hi, Nat.zero_add, h _ (by omega)]
  · rw [if_neg hi, if_neg hi]

lemma readWord_moved (h : s.moved = (memcpy buf 0 (stream dev) 0 (2 * m), m)) :
    (ideReadWord dev (2 * m) s).moved = (memcpy buf 0 (stream dev) 0 (2 * (m + 1)), m + 1) := by
  obtain ⟨hbuf, hwords⟩ := Prod.mk.inj h
  have hlow : UInt8.ofNat (dev.data m).toNat = stream dev (2 * m) := by
    unfold stream
    rw [Nat.mul_div_cancel_left _ (by decide), Nat.mul_mod_right, Nat.mul_zero, pow_zero,
      Nat.div_one]
  have hhigh : UInt8.ofNat ((dev.data m).toNat / 2 ^ 8) = stream dev (2 * m + 1) := by
    unfold stream
    rw [show (2 * m + 1) / 2 = m by omega, show (2 * m + 1) % 2 = 1 by omega, Nat.mul_one]
  unfold ideReadWord State.moved
  dsimp only
  rw [hwords, hbuf, hlow, hhigh, update_memcpy, update_memcpy]
  rfl

lemma readLoop_moved (k : ℕ) (h : s.moved = (memcpy buf 0 (stream dev) 0 (2 * m), m)) :
    (ideReadLoop dev k (2 * m) s).moved =
      (memcpy buf 0 (stream dev) 0 (2 * (m + k)), m + k) := by
  induction k generalizing m s with
  | zero => exact h
  | succ k ih =>
      rw [ideReadLoop]
      rw [← Nat.mul_succ, ih (readWord_moved h), Nat.add_right_comm, Nat.add_assoc]

lemma pollLoop_moved (dev : Device) (k : ℕ) (status : UInt8) (s : State) :
    (idePollLoop dev k status s).2.moved = s.moved := by
  induction k generalizing status s with
  | zero => rfl
  | succ k ih =>
      rw [idePollLoop]
      dsimp only
      split_ifs
      · rfl
      · exact ih _ _

lemma pollIo_moved (dev : Device) (s : State) : (idePollIo dev s).2.moved = s.moved :=
  (pollLoop_moved dev ataIoTimeout 0 (idePollPiodel dev s)).trans rfl

lemma foldl_moved (reg val : ℕ → ℕ) (l : List ℕ) (s : State) :
    (l.foldl (fun s i => ideOutb (reg i) (val i) s) s).moved = s.moved := by
  induction l generalizing s with
  | nil => rfl
  | cons i l ih => exact ih _

lemma sendRegisters_moved (slave : ℕ) (cmd : AtaCmd) (s : State) :
    (sendRegisters slave cmd s).moved = s.moved := by
  unfold sendRegisters
  exact (foldl_moved id _ _ _).trans (foldl_moved id _ _ _)

lemma sendPacket_moved (dev : Device) (cmd : AtaCmd) (status : UInt8) (s : State) :
    (sendPacket dev cmd status s).2.moved = s.moved := by
  unfold sendPacket
  split
  · rfl
  · dsimp only
    split_ifs
    · rfl
    · rfl
    · rfl
    · exact pollIo_moved dev _

lemma chunkSize_moved (dev : Device) (cmd : AtaCmd) (rem : ℕ) (s : State) :
    (chunkSize dev cmd rem s).2.moved = s.moved := by
  unfold chunkSize
  dsimp only
  split_ifs <;> rfl

/-- An odd number of bytes is the last one. -/
lemma chunkSize_even {rem cnt : ℕ} (h : (chunkSize dev cmd rem s).1 = some cnt) :
    Even cnt ∨ rem ≤ cnt := by
  unfold chunkSize at h
  dsimp only at h
  split_ifs at h with hsize hreason hfits
  · obtain ⟨-, -, heven | hall⟩ := hfits
    · cases h
      rw [Nat.and_one_is_mod] at heven
      exact .inl (Nat.even_iff.mpr heven)
    · cases h
      exact .inr hall.ge
  · cases h
    exact .inl (by decide)

/-! ### The buffer of a command -/

/-- The buffer has the first words of the device; only the last chunk is odd. -/
structure Filled (dev : Device) (cmd : AtaCmd) (buf : Bytes) (t : Transfer) : Prop where
  moved : t.s.moved = (memcpy buf 0 (stream dev) 0 (2 * (t.nbread / 2)), t.nbread / 2)
  even : t.nbread < cmd.bufsize → Even t.nbread

/-- What a turn does. -/
lemma turn_cases {r : Turn Transfer Left} (h : transferTurn dev cmd t = some r) :
    r = .leave (.done t.nbread t.s) ∨ (∃ s, r = .leave (.fails s)) ∨
      ∃ cnt s, t.nbread < cmd.bufsize ∧
        chunkSize dev cmd (cmd.bufsize - t.nbread) t.s = (some cnt, s) ∧
        r = .next (moved dev cmd t.nbread (min cnt (cmd.bufsize - t.nbread)) s) := by
  have hdone : ∀ r' : Turn Transfer Left, some r' = some r → r = r' := fun _ h =>
    (Option.some_inj.mp h).symm
  unfold transferTurn at h
  by_cases hlt : t.nbread < cmd.bufsize
  swap
  · rw [if_neg hlt] at h
    exact .inl (hdone _ h)
  rw [if_pos hlt] at h
  dsimp only at h
  by_cases hasks : t.status &&& ataSrPoll ≠ ataSrDrq
  · rw [if_pos hasks] at h
    exact .inl (hdone _ h)
  rw [if_neg hasks] at h
  rcases hc : chunkSize dev cmd (cmd.bufsize - t.nbread) t.s with ⟨_ | cnt, s⟩
  · rw [hc] at h
    exact .inr (.inl ⟨s, hdone _ h⟩)
  · have hmin : (if cmd.bufsize - t.nbread < cnt then cmd.bufsize - t.nbread else cnt) =
        min cnt (cmd.bufsize - t.nbread) := by
      split_ifs <;> omega
    rw [hc] at h
    dsimp only at h
    rw [hmin] at h
    exact .inr (.inr ⟨cnt, s, hlt, rfl, hdone _ h⟩)

/-- **A turn goes on filling the buffer.** -/
lemma Filled.turn (hread : cmd.write = false) (h : Filled dev cmd buf t)
    (hturn : transferTurn dev cmd t = some (.next t')) : Filled dev cmd buf t' := by
  obtain hr | ⟨s, hr⟩ | ⟨cnt, s, hlt, hc, hr⟩ := turn_cases hturn
  · cases hr
  · cases hr
  cases hr
  obtain ⟨half, hhalf⟩ := h.even hlt
  have hmoved := h.moved
  rw [show t.nbread / 2 = half by omega] at hmoved
  have hchunk := chunkSize_moved dev cmd (cmd.bufsize - t.nbread) t.s
  have hodd : Even cnt ∨ cmd.bufsize - t.nbread ≤ cnt := chunkSize_even (congrArg Prod.fst hc)
  rw [hc] at hchunk
  obtain ⟨size, hsize⟩ : ∃ size, size = min cnt (cmd.bufsize - t.nbread) := ⟨_, rfl⟩
  have hlast : Even size ∨ cmd.bufsize ≤ t.nbread + size := by
    rcases le_total cnt (cmd.bufsize - t.nbread) with hle | hle
    · rw [hsize, min_eq_left hle]
      exact hodd.imp id (by omega)
    · exact .inr (by omega)
  rw [← hsize]
  unfold Ide.moved
  rw [hread, if_neg Bool.false_ne_true]
  dsimp only
  constructor
  · dsimp only
    unfold ideReadIo
    rw [pollIo_moved, show t.nbread = 2 * half by omega, readLoop_moved _ (hchunk.trans hmoved),
      Nat.shiftRight_one, show (2 * half + size) / 2 = half + size / 2 by omega]
  · intro hless
    exact (h.even hlt).add (hlast.resolve_right (not_le.mpr hless))

lemma readRegisters_moved (dev : Device) (k i : ℕ) (raw : Bytes) (s : State) :
    (readRegisters dev k i raw s).2.moved = s.moved := by
  induction k generalizing i raw s with
  | zero => rfl
  | succ k ih => exact ih _ _ _

lemma finish_moved (dev : Device) (cmd : AtaCmd) (n : ℕ) (s : State) :
    (finishCommand dev cmd n s).2.2.moved = s.moved := by
  unfold finishCommand
  dsimp only
  split_ifs
  · exact (readRegisters_moved _ _ _ _ _).trans (pollIo_moved dev s)
  · exact (readRegisters_moved _ _ _ _ _).trans (pollIo_moved dev s)

lemma finish_bufsize (dev : Device) (cmd : AtaCmd) (n : ℕ) (s : State) :
    (finishCommand dev cmd n s).2.1.bufsize = n := by
  unfold finishCommand
  dsimp only
  split_ifs <;> rfl

/-- How a loop that fills the buffer is left. -/
lemma left_filled (hread : cmd.write = false) {t : Transfer} {r : Left} (h : Filled dev cmd buf t)
    (hends : Ends (transferTurn dev cmd) t r) :
    (∃ s, r = .fails s) ∨ ∃ t', r = .done t'.nbread t'.s ∧ Filled dev cmd buf t' := by
  refine ends_induction (P := fun t => Filled dev cmd buf t → _) hends ?_ ?_ h
  · intro t hturn h
    obtain hr | ⟨s, hr⟩ | ⟨_, _, _, _, hr⟩ := turn_cases hturn
    · cases hr
      exact .inr ⟨t, rfl, h⟩
    · cases hr
      exact .inl ⟨s, rfl⟩
    · cases hr
  · intro t t' hturn ih h
    exact ih (h.turn hread hturn)

/-- **A command that ends well** has put as many words of the device into the buffer as it says. -/
lemma send_filled (hread : cmd.write = false) {ret : ℤ} {cmd' : AtaCmd}
    (h : ideSendCommand dev slave cmd (start buf) = some (ret, cmd', s')) (hret : ret = 0) :
    s'.buf = memcpy buf 0 (stream dev) 0 (2 * (cmd'.bufsize / 2)) := by
  have hefault : -efault ≠ 0 := by decide
  rw [send_eq] at h
  have hopened : (opened dev slave cmd buf).2.moved = (start buf).moved := by
    unfold opened
    dsimp only
    rw [sendPacket_moved, pollIo_moved, sendRegisters_moved]
  rcases ho : opened dev slave cmd buf with ⟨_ | status, s⟩
  · rw [ho] at h
    cases h
    exact absurd hret hefault
  · rw [ho] at h hopened
    dsimp only at h hopened
    obtain ⟨r, hloop, hafter⟩ := Option.map_eq_some_iff.mp h
    have hzero : memcpy buf 0 (stream dev) 0 0 = buf := by
      funext i
      exact if_neg (by omega)
    have hfirst : (start buf).moved = (memcpy buf 0 (stream dev) 0 (2 * (0 / 2)), 0 / 2) := by
      rw [Nat.zero_div, Nat.mul_zero, hzero]
      rfl
    have hstart : Filled dev cmd buf ⟨status, 0, s⟩ := ⟨hopened.trans hfirst, fun _ => Even.zero⟩
    obtain ⟨s, rfl⟩ | ⟨t, rfl, hfilled⟩ := left_filled hread hstart ⟨_, hloop⟩
    · cases hafter
      exact absurd hret hefault
    · rw [afterTransfer, hread, if_neg Bool.false_ne_true] at hafter
      have hmoved := finish_moved dev cmd t.nbread t.s
      have hsize := finish_bufsize dev cmd t.nbread t.s
      rw [hafter] at hmoved hsize
      dsimp only at hmoved hsize
      rw [hsize]
      exact (Prod.mk.inj (hmoved.trans hfilled.moved)).1

/-- The device goes along until all bytes have been moved. -/
def Moves (dev : Device) (cmd : AtaCmd) : Prop := ∃ i j k, Dialogue dev cmd i j k cmd.bufsize

/-- **A command to read**: it ends well with all bytes exactly when the device goes along, and then
the buffer has the words of the device. -/
theorem send_reads (dev : Device) (slave : ℕ) (buf : Bytes) (hread : cmd.write = false)
    (hclean : Clean (cmd.raw 6)) :
    ∃ ret cmd' s', ideSendCommand dev slave cmd (start buf) = some (ret, cmd', s') ∧
      (ret = 0 ∧ cmd'.bufsize = cmd.bufsize ↔ Moves dev cmd) ∧
      (Moves dev cmd → s'.buf = memcpy buf 0 (stream dev) 0 (2 * (cmd.bufsize / 2))) := by
  by_cases hmoves : Moves dev cmd
  · obtain ⟨i, j, k, hdialogue⟩ := hmoves
    have hover : Over dev cmd i j k cmd.bufsize :=
      ⟨hdialogue, fun h => absurd h (lt_irrefl _), fun h => absurd (hread.symm.trans h) (by decide)⟩
    obtain ⟨ret, cmd', s', hsend, hret, hsize, -, -⟩ := send_of_over slave buf hover
    have hok : ret = 0 := hret.2 hclean
    refine ⟨ret, cmd', s', hsend, iff_of_true ⟨hok, hsize⟩ ⟨i, j, k, hdialogue⟩, fun _ => ?_⟩
    rw [send_filled hread hsend hok, hsize]
  · obtain ⟨ret, cmd', s', hret, hsend⟩ | ⟨i, j, k, n, hover⟩ := send_cases dev slave cmd buf
    · exact ⟨ret, cmd', s', hsend, iff_of_false (fun h => hret h.1) hmoves,
        fun h => absurd h hmoves⟩
    · obtain ⟨ret, cmd', s', hsend, -, hsize, -, -⟩ := send_of_over slave buf hover
      refine ⟨ret, cmd', s', hsend, iff_of_false (fun h => hmoves ?_) hmoves,
        fun h => absurd h hmoves⟩
      obtain rfl : n = cmd.bufsize := hsize.symm.trans h.2
      exact ⟨i, j, k, hover.dialogue⟩

end Elfboot.Ide
