import Elfboot.Ahci

/-!
Who frees the command tables of the AHCI driver.

The identify command of an ATAPI device is still open while further commands are sent, and
these get a slot by the registers alone. Where no command gets the slot of one that is open,
each command frees its own table, once.
-/

namespace Elfboot.Ahci

open Elfboot.Slots

variable (env : Env) (n : ℕ) {s : State}

lemma findSlotLoop_headers (k : ℕ) (s : State) :
    (findSlotLoop env k s).2.headers = s.headers := by
  induction k generalizing s with
  | zero => rfl
  | succ k ih =>
    simp only [findSlotLoop]
    split_ifs
    · exact ih _
    · rfl

lemma ahciPortWait_headers (s : State) :
    (ahciPortWait env n s).2.headers = s.headers := by
  induction n generalizing s with
  | zero => rfl
  | succ n ih =>
    simp only [ahciPortWait]
    split_ifs
    · exact ih _
    · exact ih _
    · rfl

lemma ahciIdle_headers (slot : ℤ) (n : ℕ) (s : State) :
    (ahciIdle env slot n s).2.headers = s.headers := by
  induction n generalizing s with
  | zero => rfl
  | succ n ih =>
    simp only [ahciIdle]
    split_ifs
    · rfl
    · exact ih _
    · rfl
    · rfl

lemma ahciRunCommand_headers (s : State) (slot : ℤ) :
    (ahciRunCommand env n s slot).2.headers = s.headers := by
  have hw := ahciPortWait_headers env n s
  unfold ahciRunCommand
  generalize ahciPortWait env n s = r at hw ⊢
  obtain ⟨b, s'⟩ := r
  cases b with
  | false => exact hw
  | true => exact (ahciIdle_headers env slot n _).trans hw

lemma ahciPrepareCommand_cases (s : State) (num : ℕ) :
    ∃ slot s', ahciPrepareCommand env s num = (slot, s') ∧
      (slot < 0 ∧ s'.headers = s.headers ∨
        0 ≤ slot ∧ ∃ a, s'.headers = take s.headers slot.toNat a) := by
  have hf := findSlotLoop_headers env ahciMaxDevices s
  unfold ahciPrepareCommand ahciFindSlot
  generalize findSlotLoop env ahciMaxDevices s = r at hf ⊢
  obtain ⟨slot, s'⟩ := r
  simp only at hf ⊢
  split_ifs with hneg
  · exact ⟨_, _, rfl, .inl ⟨by decide, hf⟩⟩
  · cases env.bzalloc s' (cmdTblSize + prdtSize * num) with
    | none => exact ⟨_, _, rfl, .inl ⟨by decide, hf⟩⟩
    | some a => exact ⟨_, _, rfl, .inr ⟨not_lt.mp hneg, a, hf ▸ rfl⟩⟩

/-- The books are kept right, and every command that was begun has ended, unless one is
still waited for. -/
structure Nested (s : State) (r : Option ℤ × State) : Prop where
  keeps : Keeps s.headers r.2.headers
  ended : r.1.isSome → r.2.headers.opened = s.headers.opened

lemma Nested.of_eq {r : Option ℤ × State} (h : r.2.headers = s.headers) : Nested s r where
  keeps := h ▸ Keeps.refl _
  ended _ := by rw [h]

/-- What is done after something that has ended. -/
lemma Nested.trans {s' : State} {o : Option ℤ} {r : Option ℤ × State} (h : Nested s (o, s'))
    (ho : o.isSome) (h' : Nested s' r) : Nested s r where
  keeps := h.keeps.trans h'.keeps
  ended hr := (h'.ended hr).trans (h.ended ho)

/-- **A command and what is done while it is open.** -/
lemma Nested.command {slot : ℤ} {a : ℕ} {s₁ s₂ : State} {o o' : Option ℤ}
    (ht : s₁.headers = take s.headers slot.toNat a) (h : Nested s₁ (o, s₂)) (ho : o.isSome) :
    Nested s (o', ahciDestroyCommand s₂ slot) := by
  have hopen : s₂.headers.opened = (slot.toNat, a) :: s.headers.opened := by
    rw [h.ended ho, ht]
    rfl
  have hk : Keeps s.headers s₂.headers := (ht ▸ keeps_take s.headers slot.toNat a).trans h.keeps
  constructor
  · exact hk.trans (keeps_release hopen)
  · intro _
    exact congrArg List.tail hopen

/-- A command that is still waited for. -/
lemma Nested.waiting {slot : ℤ} {a : ℕ} {s₁ s₂ : State}
    (ht : s₁.headers = take s.headers slot.toNat a) (h : Nested s₁ (none, s₂)) :
    Nested s (none, s₂) where
  keeps := (ht ▸ keeps_take s.headers slot.toNat a).trans h.keeps
  ended h := absurd h (by simp)

lemma ahciSendCommand_nested (s : State) : Nested s (ahciSendCommand env n s) := by
  obtain ⟨slot, s₁, hp, ⟨hneg, heq⟩ | ⟨hpos, a, ht⟩⟩ := ahciPrepareCommand_cases env s 1
  · simp only [ahciSendCommand, hp, if_pos hneg]
    exact .of_eq heq
  have hrun := Nested.of_eq (ahciRunCommand_headers env n s₁ slot)
  simp only [ahciSendCommand, hp, if_neg (not_lt.mpr hpos)]
  generalize ahciRunCommand env n s₁ slot = r at hrun ⊢
  rcases r with ⟨_ | r, s₂⟩
  · exact .waiting ht hrun
  · exact .command ht hrun rfl

lemma satapiCommand_nested (s : State) : Nested s (satapiCommand env n s) := by
  have h := ahciSendCommand_nested env n s
  unfold satapiCommand ahciSatapiSend
  generalize ahciSendCommand env n s = r at h ⊢
  rcases r with ⟨_ | ret, s₁⟩
  · exact h
  have h' := ahciSendCommand_nested env n s₁
  simp only [ahciSatapiRequestSense, ahciSatapiSend]
  generalize ahciSendCommand env n s₁ = r at h' ⊢
  rcases r with ⟨_ | sense, s₂⟩
  · exact h.trans rfl h'
  · exact h.trans rfl ⟨h'.keeps, h'.ended⟩

lemma ahciFillSatapi_nested (s : State) : Nested s (ahciFillSatapi env n s) := by
  unfold ahciFillSatapi ahciSatapiReadCapacity
  split_ifs
  · exact .of_eq rfl
  · exact .of_eq rfl
  · have h := satapiCommand_nested env n s
    generalize satapiCommand env n s = r at h ⊢
    rcases r with ⟨_ | r, s₁⟩
    · exact h
    · exact ⟨h.keeps, h.ended⟩

lemma fillDevice_nested (s : State) : Nested s (fillDevice env n s) := by
  simp only [fillDevice]
  split_ifs
  · exact .of_eq rfl
  · have hr : Nested s (some 0, (read env HbaPort.sig s).2) := .of_eq rfl
    exact hr.trans rfl (ahciFillSatapi_nested env n _)
  · exact .of_eq rfl

lemma ahciIdentifyAhcidev_nested (s : State) : Nested s (ahciIdentifyAhcidev env n s) := by
  obtain ⟨slot, s₁, hp, ⟨hneg, heq⟩ | ⟨hpos, a, ht⟩⟩ := ahciPrepareCommand_cases env s 1
  · simp only [ahciIdentifyAhcidev, hp, if_pos hneg]
    exact .of_eq heq
  have hrun := Nested.of_eq (s := s₁)
    (ahciRunCommand_headers env n (ahciIsAtapi env s₁).2 slot)
  simp only [ahciIdentifyAhcidev, hp, if_neg (not_lt.mpr hpos)]
  generalize ahciRunCommand env n (ahciIsAtapi env s₁).2 slot = r at hrun ⊢
  rcases r with ⟨_ | r, s₂⟩
  · exact .waiting ht hrun
  simp only
  split_ifs
  · exact .command ht hrun rfl
  · have hfill := hrun.trans rfl (fillDevice_nested env n s₂)
    generalize fillDevice env n s₂ = r at hfill ⊢
    rcases r with ⟨_ | ret, s₃⟩
    · exact .waiting ht hfill
    · exact .command ht hfill rfl

lemma call_nested (s : State) (c : Call) : Nested s (call env n s c) := by
  cases c with
  | identify => exact ahciIdentifyAhcidev_nested env n s
  | satapiRead => exact satapiCommand_nested env n s

lemma calls_keeps (s : State) (cs : List Call) :
    Keeps s.headers (calls env n s cs).2.headers ∧
      ((calls env n s cs).1 = true → (calls env n s cs).2.headers.opened = s.headers.opened) := by
  induction cs generalizing s with
  | nil => exact ⟨Keeps.refl _, fun _ => rfl⟩
  | cons c cs ih =>
    have h := call_nested env n s c
    unfold calls
    generalize call env n s c = r at h ⊢
    rcases r with ⟨_ | r, s₁⟩
    · exact ⟨h.keeps, fun h => absurd h (by simp)⟩
    · obtain ⟨hk, ho⟩ := ih s₁
      exact ⟨h.keeps.trans hk, fun hr => (ho hr).trans (h.ended rfl)⟩

/-- The port before the first command; the headers hold whatever they hold. -/
def start (port : HbaPort) (ctba : ℕ → ℕ) : State := ⟨port, 0, fresh ctba⟩

/-- **Every command table is freed once, by its own command**, in every run in which no command
is prepared in the slot of one that is open: whatever is passed to `bfree` is the table of the
command destroyed, and each table has been passed to it once, or its command is still waited
for. Where the run has ended there is no such command. -/
theorem tables_freed (env : Env) (n : ℕ) (port : HbaPort) (ctba : ℕ → ℕ) (cs : List Call)
    (h : Apart (calls env n (start port ctba) cs).2.headers) :
    Right (calls env n (start port ctba) cs).2.headers ∧
      ((calls env n (start port ctba) cs).1 = true →
        (calls env n (start port ctba) cs).2.headers.opened = []) := by
  obtain ⟨hk, ho⟩ := calls_keeps env n (start port ctba) cs
  exact ⟨(hk.inv h (inv_fresh ctba)).toRight, ho⟩

/-- The tables that have not been passed to `bfree`. -/
def live (s : State) : List ℕ := s.headers.items.diff (s.headers.released.map Prod.snd)

/-- A device that completes every command at once, and memory for two tables at a time. -/
def promptEnv : Env where
  device _ port := { port with ci := 0 }
  bzalloc s _ := if 0x1000 ∈ live s then some 0x1090 else some 0x1000
  bmalloc _ := true
  devName _ := true
  bdevInit _ := 0

def idlePort (sig : BitVec 32) : HbaPort := ⟨0, 0, sig, 0, 0⟩

/-- One that keeps its first slot active from the third access on. -/
def activeEnv : Env :=
  { promptEnv with
    device := fun time port => { port with ci := 0, sact := if time < 3 then 0 else 1 } }

/-- An ATAPI device is identified, with two commands while the first one is open, and read. -/
theorem tables_freed_atapi :
    (calls activeEnv 2 (start (idlePort sataSigAtapi) fun _ => 0)
        [.identify, .satapiRead]).2.headers.released.map Prod.snd =
        [0x1000, 0x1000, 0x1000, 0x1090, 0x1090] ∧
      Right (calls activeEnv 2 (start (idlePort sataSigAtapi) fun _ => 0)
        [.identify, .satapiRead]).2.headers ∧
      ((calls activeEnv 2 (start (idlePort sataSigAtapi) fun _ => 0)
        [.identify, .satapiRead]).1 = true →
        (calls activeEnv 2 (start (idlePort sataSigAtapi) fun _ => 0)
          [.identify, .satapiRead]).2.headers.opened = []) :=
  ⟨by decide +kernel, tables_freed activeEnv 2 (idlePort sataSigAtapi) (fun _ => 0)
    [.identify, .satapiRead] (by decide +kernel)⟩

/-- The identify command of an ATAPI device: its table is at `0x1000`, and what is freed in
the end is the table of the command that asked for sense data, which was freed before. -/
theorem not_tables_freed : ¬ ∀ (env : Env) (n : ℕ) (port : HbaPort) (ctba : ℕ → ℕ)
    (cs : List Call), Right (calls env n (start port ctba) cs).2.headers := by
  intro h
  have hr := h promptEnv 2 (idlePort sataSigAtapi) (fun _ => 0) [.identify]
  have hfreed : (some 0x1000, 0x1090) ∈ (calls promptEnv 2
      (start (idlePort sataSigAtapi) fun _ => 0) [.identify]).2.headers.released := by
    decide +kernel
  exact absurd (hr.own _ hfreed) (by decide)

end Elfboot.Ahci
