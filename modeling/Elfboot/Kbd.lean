import Elfboot.Input
import Elfboot.Run

/-!
The keyboard's interrupt: `kbd.c`.

A scancode is that of a key, with bit 7 set when the key is released. The keys that change what
others mean have a bit of the status each; the two shift keys have one between them.
-/

namespace Elfboot.Kbd

open Elfboot.Run

abbrev Code := BitVec 8

abbrev kbdMetaShift : BitVec 32 := 0x01
abbrev kbdMetaCtrl : BitVec 32 := 0x02
abbrev kbdMetaCapslock : BitVec 32 := 0x08
abbrev kbdMetaAltgr : BitVec 32 := 0x40

abbrev kbdCodeLshift : Code := 0x2a
abbrev kbdCodeRshift : Code := 0x36
abbrev kbdCodeCtrl : Code := 0x1d
abbrev kbdCodeCapslock : Code := 0x3a
abbrev kbdCodeAlt : Code := 0x38

abbrev inv : UInt8 := 0
abbrev kbdLayoutSize : ℕ := 96

/-- `struct kbd_layout`; which layout there is depends on the configuration. -/
structure KbdLayout where
  regular : Fin kbdLayoutSize → UInt8
  shifted : Fin kbdLayoutSize → UInt8
  altgram : Fin kbdLayoutSize → UInt8

/-- The status of the keyboard, and the buffer that its characters go to. -/
structure State where
  status : BitVec 32
  input : Input.State

def keyRelease (scancode : Code) : Bool := scancode &&& 0x80 ≠ 0

def keyShifted (scancode : Code) : Bool := scancode = kbdCodeLshift ∨ scancode = kbdCodeRshift

def keyAltgram (scancode : Code) : Bool := scancode = kbdCodeAlt

def keyControl (scancode : Code) : Bool := scancode = kbdCodeCtrl

def keyCapslck (scancode : Code) : Bool := scancode = kbdCodeCapslock

def keyGetchar (layout : KbdLayout) (status : BitVec 32) (scancode : Fin kbdLayoutSize) : UInt8 :=
  let held : Bool := status &&& kbdMetaShift ≠ 0
  let shifted := if status &&& kbdMetaCapslock ≠ 0 then !held else held
  let altgram : Bool := status &&& kbdMetaAltgr ≠ 0
  if shifted && altgram then inv
  else if shifted then layout.shifted scancode
  else if altgram then layout.altgram scancode
  else layout.regular scancode

def kbdHandleRelease (status : BitVec 32) (scancode : Code) : BitVec 32 :=
  if keyShifted scancode then status &&& ~~~kbdMetaShift
  else if keyAltgram scancode then status &&& ~~~kbdMetaAltgr
  else if keyControl scancode then status &&& ~~~kbdMetaCtrl
  else status

/-- The end of `kbd_handle_pressed`: a key that has a character. -/
def characterKey (layout : KbdLayout) (s : State) (scancode : Code) : Option State :=
  if h : scancode.toNat < kbdLayoutSize then
    let c := keyGetchar layout s.status ⟨scancode.toNat, h⟩
    if c = 0 then some s
    else (Input.inputCopyToBuffer s.input c).map fun r => { s with input := r.2 }
  else some s

def kbdHandlePressed (layout : KbdLayout) (s : State) (scancode : Code) : Option State :=
  if keyShifted scancode then some { s with status := s.status ||| kbdMetaShift }
  else if keyAltgram scancode then some { s with status := s.status ||| kbdMetaAltgr }
  else if keyControl scancode then some { s with status := s.status ||| kbdMetaCtrl }
  else if keyCapslck scancode then some { s with status := s.status ^^^ kbdMetaCapslock }
  else characterKey layout s scancode

/-- The callback, for the scancode that the port gives. -/
def kbdInterruptCallback (layout : KbdLayout) (s : State) (scancode : Code) : Option State :=
  if keyRelease scancode then
    some { s with status := kbdHandleRelease s.status (scancode &&& ~~~0x80) }
  else kbdHandlePressed layout s (scancode &&& ~~~0x80)

/-! ### What the keys do -/

/-- A key is held down after it was pressed, until it is released. -/
def held (key : Code) (codes : List Code) : Bool :=
  codes.foldl (fun down c => if c = key then true else if c = key ||| 0x80 then false else down)
    false

/-- What the status is to be after a sequence of scancodes. -/
structure Right (status : BitVec 32) (codes : List Code) : Prop where
  shift : status &&& kbdMetaShift ≠ 0 ↔
    held kbdCodeLshift codes = true ∨ held kbdCodeRshift codes = true
  altgr : status &&& kbdMetaAltgr ≠ 0 ↔ held kbdCodeAlt codes = true
  ctrl : status &&& kbdMetaCtrl ≠ 0 ↔ held kbdCodeCtrl codes = true
  capslock : status &&& kbdMetaCapslock ≠ 0 ↔ Odd (codes.count kbdCodeCapslock)

/-- The keyboard beside the scancodes it has sent. A key is released only while it is held. -/
def keyboard (layout : KbdLayout) : System (Option State × List Code) Code where
  init x := ∃ s q, x = (some s, []) ∧ s.status = 0 ∧ Input.Holds s.input q
  pre x c := c ≠ 0xe0 ∧ (keyRelease c = true → held (c &&& ~~~0x80) x.2 = true)
  step x c := (x.1.bind fun s => kbdInterruptCallback layout s c, x.2 ++ [c])

/-- The keyboard is in a state whose status follows the keys. -/
def Follows (x : Option State × List Code) : Prop := ∃ s, x.1 = some s ∧ Right s.status x.2

/-- No shift key is released while the other one is held. -/
def ShiftAlone (x : Option State × List Code) (c : Code) : Prop :=
  ¬ (c = kbdCodeLshift ||| 0x80 ∧ held kbdCodeRshift x.2 = true) ∧
    ¬ (c = kbdCodeRshift ||| 0x80 ∧ held kbdCodeLshift x.2 = true)

variable {layout : KbdLayout} {s : State} {codes : List Code} {c key : Code} {status : BitVec 32}

lemma held_concat : held key (codes ++ [c]) =
    if c = key then true else if c = key ||| 0x80 then false else held key codes :=
  List.foldl_concat _ _ _ _

/-- What an interrupt does to the status. -/
def statusAfter (status : BitVec 32) (c : Code) : BitVec 32 :=
  if c = kbdCodeLshift ∨ c = kbdCodeRshift then status ||| kbdMetaShift
  else if c = kbdCodeLshift ||| 0x80 ∨ c = kbdCodeRshift ||| 0x80 then status &&& ~~~kbdMetaShift
  else if c = kbdCodeAlt then status ||| kbdMetaAltgr
  else if c = kbdCodeAlt ||| 0x80 then status &&& ~~~kbdMetaAltgr
  else if c = kbdCodeCtrl then status ||| kbdMetaCtrl
  else if c = kbdCodeCtrl ||| 0x80 then status &&& ~~~kbdMetaCtrl
  else if c = kbdCodeCapslock then status ^^^ kbdMetaCapslock
  else status

lemma release_status : ∀ c : Code, keyRelease c = true →
    ∀ status, kbdHandleRelease status (c &&& ~~~0x80) = statusAfter status c := by
  intro c hc status
  have hkeys : ∀ c : Code, keyRelease c = true →
      (keyShifted (c &&& ~~~0x80) = true ↔
        c = kbdCodeLshift ||| 0x80 ∨ c = kbdCodeRshift ||| 0x80) ∧
      (keyAltgram (c &&& ~~~0x80) = true ↔ c = kbdCodeAlt ||| 0x80) ∧
      (keyControl (c &&& ~~~0x80) = true ↔ c = kbdCodeCtrl ||| 0x80) ∧
      ¬ (c = kbdCodeLshift ∨ c = kbdCodeRshift) ∧ c ≠ kbdCodeAlt ∧ c ≠ kbdCodeCtrl ∧
      c ≠ kbdCodeCapslock := by
    decide +kernel
  obtain ⟨hshift, halt, hctrl, hmake, hmakeAlt, hmakeCtrl, hmakeCaps⟩ := hkeys c hc
  simp only [kbdHandleRelease, statusAfter, hshift, halt, hctrl, if_neg hmake, if_neg hmakeAlt,
    if_neg hmakeCtrl, if_neg hmakeCaps]

/-- The interrupt changes the status so, and the buffer goes on holding what is typed. -/
lemma callback_spec (layout : KbdLayout) {q : Input.Queue} (h : Input.Holds s.input q) (c : Code) :
    ∃ s', kbdInterruptCallback layout s c = some s' ∧ s'.status = statusAfter s.status c ∧
      ∃ q', Input.Holds s'.input q' := by
  unfold kbdInterruptCallback
  cases hc : keyRelease c with
  | true => exact ⟨_, rfl, release_status c hc s.status, q, h⟩
  | false =>
    have hkeys : ∀ c : Code, keyRelease c = false → c &&& ~~~0x80 = c ∧
        ¬ (c = kbdCodeLshift ||| 0x80 ∨ c = kbdCodeRshift ||| 0x80) ∧
        c ≠ kbdCodeAlt ||| 0x80 ∧ c ≠ kbdCodeCtrl ||| 0x80 := by
      decide +kernel
    obtain ⟨hcode, hbreak, hbreakAlt, hbreakCtrl⟩ := hkeys c hc
    rw [if_neg Bool.false_ne_true, hcode]
    simp only [kbdHandlePressed, keyShifted, keyAltgram, keyControl, keyCapslck,
      decide_eq_true_eq, statusAfter, if_neg hbreak, if_neg hbreakAlt, if_neg hbreakCtrl]
    split_ifs with hshift halt hctrl hcaps
    · exact ⟨_, rfl, rfl, q, h⟩
    · exact ⟨_, rfl, rfl, q, h⟩
    · exact ⟨_, rfl, rfl, q, h⟩
    · exact ⟨_, rfl, rfl, q, h⟩
    · unfold characterKey
      split_ifs with hsize
      · dsimp only
        split_ifs with hchar
        · exact ⟨_, rfl, rfl, q, h⟩
        · obtain ⟨input, hinput, hholds⟩ := Input.input_spec h
            (keyGetchar layout s.status ⟨c.toNat, hsize⟩)
          rw [hinput]
          exact ⟨_, rfl, rfl, _, hholds⟩
      · exact ⟨_, rfl, rfl, q, h⟩

lemma meta_iff {k : ℕ} (hk : k < 32) : status &&& BitVec.twoPow 32 k ≠ 0 ↔
    status.getLsbD k = true := by
  rw [BitVec.and_twoPow]
  cases status.getLsbD k with
  | true =>
    refine iff_of_true (fun h => ?_) rfl
    have hbit := congrArg (fun v : BitVec 32 => v.getLsbD k) h
    rw [if_pos rfl, BitVec.getLsbD_twoPow, decide_eq_true hk] at hbit
    simp at hbit
  | false => exact iff_of_false (not_not_intro rfl) Bool.false_ne_true

/-- A bit is set and cleared by its keys, and no other key touches it. -/
lemma after_shift : (statusAfter status c).getLsbD 0 =
    if c = kbdCodeLshift ∨ c = kbdCodeRshift then true
    else if c = kbdCodeLshift ||| 0x80 ∨ c = kbdCodeRshift ||| 0x80 then false
    else status.getLsbD 0 := by
  unfold statusAfter
  split_ifs <;> simp

lemma after_altgr : (statusAfter status c).getLsbD 6 =
    if c = kbdCodeAlt then true else if c = kbdCodeAlt ||| 0x80 then false
    else status.getLsbD 6 := by
  split_ifs with hmake hbreak
  · subst hmake
    simp [statusAfter]
  · subst hbreak
    simp [statusAfter]
  · unfold statusAfter
    split_ifs <;> simp

lemma after_ctrl : (statusAfter status c).getLsbD 1 =
    if c = kbdCodeCtrl then true else if c = kbdCodeCtrl ||| 0x80 then false
    else status.getLsbD 1 := by
  split_ifs with hmake hbreak
  · subst hmake
    simp [statusAfter]
  · subst hbreak
    simp [statusAfter]
  · unfold statusAfter
    split_ifs <;> simp

lemma after_capslock : (statusAfter status c).getLsbD 3 =
    if c = kbdCodeCapslock then !status.getLsbD 3 else status.getLsbD 3 := by
  split_ifs with hmake
  · subst hmake
    simp [statusAfter]
  · unfold statusAfter
    split_ifs <;> simp

lemma right_iff : Right status codes ↔
    status.getLsbD 0 = (held kbdCodeLshift codes || held kbdCodeRshift codes) ∧
      status.getLsbD 6 = held kbdCodeAlt codes ∧ status.getLsbD 1 = held kbdCodeCtrl codes ∧
      status.getLsbD 3 = decide (Odd (codes.count kbdCodeCapslock)) := by
  have hshift : status.getLsbD 0 = (held kbdCodeLshift codes || held kbdCodeRshift codes) ↔
      (status &&& kbdMetaShift ≠ 0 ↔
        held kbdCodeLshift codes = true ∨ held kbdCodeRshift codes = true) := by
    rw [Bool.eq_iff_iff, Bool.or_eq_true]
    exact iff_congr (meta_iff (by decide)).symm Iff.rfl
  have haltgr : status.getLsbD 6 = held kbdCodeAlt codes ↔
      (status &&& kbdMetaAltgr ≠ 0 ↔ held kbdCodeAlt codes = true) := by
    rw [Bool.eq_iff_iff]
    exact iff_congr (meta_iff (by decide)).symm Iff.rfl
  have hctrl : status.getLsbD 1 = held kbdCodeCtrl codes ↔
      (status &&& kbdMetaCtrl ≠ 0 ↔ held kbdCodeCtrl codes = true) := by
    rw [Bool.eq_iff_iff]
    exact iff_congr (meta_iff (by decide)).symm Iff.rfl
  have hcaps : status.getLsbD 3 = decide (Odd (codes.count kbdCodeCapslock)) ↔
      (status &&& kbdMetaCapslock ≠ 0 ↔ Odd (codes.count kbdCodeCapslock)) := by
    rw [Bool.eq_iff_iff, decide_eq_true_eq]
    exact iff_congr (meta_iff (by decide)).symm Iff.rfl
  rw [hshift, haltgr, hctrl, hcaps]
  exact ⟨fun h => ⟨h.shift, h.altgr, h.ctrl, h.capslock⟩, fun h => ⟨h.1, h.2.1, h.2.2.1, h.2.2.2⟩⟩

lemma odd_concat : decide (Odd ((codes ++ [c]).count kbdCodeCapslock)) =
    if c = kbdCodeCapslock then !decide (Odd (codes.count kbdCodeCapslock))
    else decide (Odd (codes.count kbdCodeCapslock)) := by
  rw [List.count_append, List.count_singleton]
  by_cases hc : c = kbdCodeCapslock
  · rw [if_pos hc, if_pos (beq_iff_eq.2 hc), ← decide_not]
    exact decide_eq_decide.2 Nat.odd_add_one
  · rw [if_neg hc, if_neg (mt beq_iff_eq.1 hc), Nat.add_zero]

/-- The bit that two keys share is cleared by either of them. -/
lemma shift_step (h : status.getLsbD 0 = (held kbdCodeLshift codes || held kbdCodeRshift codes)) :
    (statusAfter status c).getLsbD 0 =
        (held kbdCodeLshift (codes ++ [c]) || held kbdCodeRshift (codes ++ [c])) ↔
      ¬ (c = kbdCodeLshift ||| 0x80 ∧ held kbdCodeRshift codes = true) ∧
        ¬ (c = kbdCodeRshift ||| 0x80 ∧ held kbdCodeLshift codes = true) := by
  rw [after_shift, held_concat, held_concat, h]
  by_cases hl : c = kbdCodeLshift
  · subst hl
    simp
  by_cases hr : c = kbdCodeRshift
  · subst hr
    simp
  by_cases hlb : c = kbdCodeLshift ||| 0x80
  · subst hlb
    simp
  by_cases hrb : c = kbdCodeRshift ||| 0x80
  · subst hrb
    simp
  · simp only [hl, hr, hlb, hrb, or_self, if_false, false_and, not_false_eq_true, and_self]

lemma right_step (h : Right status codes) : Right (statusAfter status c) (codes ++ [c]) ↔
    ¬ (c = kbdCodeLshift ||| 0x80 ∧ held kbdCodeRshift codes = true) ∧
      ¬ (c = kbdCodeRshift ||| 0x80 ∧ held kbdCodeLshift codes = true) := by
  obtain ⟨hshift, haltgr, hctrl, hcaps⟩ := right_iff.1 h
  have haltgr' : (statusAfter status c).getLsbD 6 = held kbdCodeAlt (codes ++ [c]) := by
    rw [after_altgr, held_concat, haltgr]
  have hctrl' : (statusAfter status c).getLsbD 1 = held kbdCodeCtrl (codes ++ [c]) := by
    rw [after_ctrl, held_concat, hctrl]
  have hcaps' : (statusAfter status c).getLsbD 3 =
      decide (Odd ((codes ++ [c]).count kbdCodeCapslock)) := by
    rw [after_capslock, odd_concat, hcaps]
  rw [right_iff, ← shift_step hshift]
  exact and_iff_left ⟨haltgr', hctrl', hcaps'⟩

lemma right_start : Right 0 [] :=
  right_iff.2 ⟨rfl, rfl, rfl, rfl⟩

/-- The keyboard goes on. -/
def Running (x : Option State × List Code) : Prop := ∃ s q, x.1 = some s ∧ Input.Holds s.input q

lemma step_fst {x : Option State × List Code} (h : x.1 = some s) (c : Code) :
    ((keyboard layout).step x c).1 = kbdInterruptCallback layout s c :=
  congrArg (fun o => o.bind fun s => kbdInterruptCallback layout s c) h

lemma running_step {x : Option State × List Code} (h : Running x) (c : Code) :
    Running ((keyboard layout).step x c) := by
  obtain ⟨s, q, hx, hq⟩ := h
  obtain ⟨s', hcallback, -, q', hq'⟩ := callback_spec layout hq c
  exact ⟨s', q', (step_fst hx c).trans hcallback, hq'⟩

lemma follows_step {x : Option State × List Code} (h : Running x) (hx : Follows x) (c : Code) :
    Follows ((keyboard layout).step x c) ↔ ShiftAlone x c := by
  obtain ⟨s, q, hs, hq⟩ := h
  obtain ⟨s₁, hs₁, hright⟩ := hx
  obtain rfl : s = s₁ := Option.some_inj.1 (hs.symm.trans hs₁)
  obtain ⟨s', hcallback, hstatus, -⟩ := callback_spec layout hq c
  have hnext : ((keyboard layout).step x c).1 = some s' :=
    (step_fst hs c).trans hcallback
  have hcodes : ((keyboard layout).step x c).2 = x.2 ++ [c] := rfl
  rw [ShiftAlone, ← right_step hright, ← hstatus, Follows, hnext, hcodes]
  constructor
  · rintro ⟨t, ht, hfollows⟩
    rwa [Option.some_inj.1 ht]
  · exact fun hfollows => ⟨s', rfl, hfollows⟩

/-- **The status follows the keys** in all states of a run if and only if no shift key is released
while the other one is held. -/
theorem status_follows_iff {x : Option State × List Code} (hinit : (keyboard layout).init x)
    {codes : List Code} (ht : (keyboard layout).Takes x codes) :
    (∀ j, Follows ((keyboard layout).run x (codes.take j))) ↔
      ((keyboard layout).restrict ShiftAlone).Takes x codes := by
  obtain ⟨s, q, rfl, hstatus, hq⟩ := hinit
  refine System.always_iff (I := Running) (fun x c hx _ => running_step hx c)
    (fun x c hx hfollows _ => follows_step hx hfollows c) ⟨s, q, rfl, hq⟩ ⟨s, rfl, ?_⟩ ht
  rw [hstatus]
  exact right_start

/-- A layout without characters, and a buffer that nothing has come to. -/
def blank : KbdLayout := ⟨fun _ => inv, fun _ => inv, fun _ => inv⟩

abbrev start : Option State × List Code := (some ⟨0, Input.kbdInit⟩, [])

lemma init_start : (keyboard blank).init start :=
  ⟨_, .empty, rfl, rfl, ⟨rfl, fun i hi => absurd hi (Nat.not_lt_zero i)⟩⟩

instance (x : Option State × List Code) (c : Code) : Decidable ((keyboard blank).pre x c) :=
  inferInstanceAs (Decidable (c ≠ 0xe0 ∧ (keyRelease c = true → held (c &&& ~~~0x80) x.2 = true)))

/-- Both shift keys are pressed, and the left one is released. -/
abbrev bothShifts : List Code := [kbdCodeLshift, kbdCodeRshift, kbdCodeLshift ||| 0x80]

lemma takes_bothShifts : (keyboard blank).Takes start bothShifts := by
  decide

lemma follows_iff_bothShifts :
    (∀ j, Follows ((keyboard blank).run start (bothShifts.take j))) ↔
      ((keyboard blank).restrict ShiftAlone).Takes start bothShifts :=
  status_follows_iff init_start takes_bothShifts

/-- The right shift key is held, and the status has it that none is. -/
lemma not_follows_bothShifts : (keyboard blank).Takes start bothShifts ∧
    (keyboard blank).run start bothShifts = (some ⟨0, Input.kbdInit⟩, bothShifts) ∧
      held kbdCodeRshift bothShifts = true ∧
      ¬ ∀ j, Follows ((keyboard blank).run start (bothShifts.take j)) := by
  refine ⟨takes_bothShifts, rfl, rfl, fun hall => ?_⟩
  obtain ⟨s, hs, hright⟩ := hall 3
  obtain rfl : (⟨0, Input.kbdInit⟩ : State) = s := Option.some_inj.1 hs
  exact absurd (hright.shift.2 (.inr rfl)) (by decide)

end Elfboot.Kbd
