import Elfboot.Kbd

/-!
From the keys to the reader: `kbd.c` and `input.c` together.

What a key means is given by the keys that are held down with it. The keyboard's interrupt has a
status instead, and the buffer in between; whoever reads the buffer gets what the keys mean.

Interrupts are on while a character is taken out of the buffer, which is many steps: the index is
read and stored, and the characters behind are moved down a word or a byte at a time. A key that
means a character must not come between them.
-/

namespace Elfboot.Typing

open Elfboot.Run Elfboot.Buffer Elfboot.Copy Elfboot.Input Elfboot.Kbd

/-- The key has a meaning for other keys, not one of its own. -/
def modifier (c : Code) : Bool := keyShifted c || keyAltgram c || keyControl c || keyCapslck c

/-- One of the two shift keys is held down, or the characters are locked, and not both. -/
def isShifted (codes : List Code) : Bool :=
  (held kbdCodeLshift codes || held kbdCodeRshift codes) ^^
    decide (Odd (codes.count kbdCodeCapslock))

/-- The character of a key, by the keys that are held down. -/
def charOf (layout : KbdLayout) (codes : List Code) (c : Code) : UInt8 :=
  if h : c.toNat < kbdLayoutSize then
    match isShifted codes, held kbdCodeAlt codes with
    | true, true => inv
    | true, false => layout.shifted ⟨c.toNat, h⟩
    | false, true => layout.altgram ⟨c.toNat, h⟩
    | false, false => layout.regular ⟨c.toNat, h⟩
  else inv

/-- What a scancode means for the line. -/
def meaning (layout : KbdLayout) (codes : List Code) (c : Code) : Option UInt8 :=
  if keyRelease c || modifier c || charOf layout codes c == inv then none
  else some (charOf layout codes c)

/-- What was typed: what the scancodes mean, each under the keys before it. -/
def typed (layout : KbdLayout) (codes : List Code) : List UInt8 :=
  (codes.foldl (fun t c => (t.1 ++ [c], t.2 ++ (meaning layout t.1 c).toList)) ([], [])).2

/-! ### Taking a character, step by step -/

/-- What is left of a call of `__bgetch`: everything, the call of `memcpy` with its arguments still
to be read, the index still to be stored, `k` words and `r` bytes still to be moved from `a` to `d`,
or just the bytes. -/
inductive Call
  | char
  | index (c : UInt8)
  | lower (c : UInt8) (n : ℕ)
  | words (c : UInt8) (k r d a : ℕ)
  | bytes (c : UInt8) (r d a : ℕ)
  deriving DecidableEq

/-- One step of `__bgetch`. The last one returns the character. -/
def Call.next : Call → Input.State → Option ((Call ⊕ UInt8) × Input.State)
  | .char, s => (load allocated s.keybuffer 0).map fun c => (.inl (.index c), s)
  | .index c, s => some (.inl (.lower c s.index), s)
  | .lower c n, s => some (.inl (.words c (n / 4) (n % 4) 0 1), { s with index := n - 1 })
  | .words c 0 r d a, s => some (.inl (.bytes c r d a), s)
  | .words c (k + 1) r d a, s => (movs allocated 4 s.keybuffer d a).map fun b =>
      (.inl (.words c k r (d + 4) (a + 4)), { s with keybuffer := b })
  | .bytes c 0 _ _, s => some (.inr c, s)
  | .bytes c (r + 1) d a, s => (movs allocated 1 s.keybuffer d a).map fun b =>
      (.inl (.bytes c r (d + 1) (a + 1)), { s with keybuffer := b })

/-- All that is left of it at once. -/
def Call.finish : Call → Input.State → Option (UInt8 × Input.State)
  | .char, s => bgetchNext s
  | .index c, s => (memcpyAsm allocated s.keybuffer 0 1 s.index).map fun b => (c, ⟨s.index - 1, b⟩)
  | .lower c n, s => (memcpyAsm allocated s.keybuffer 0 1 n).map fun b => (c, ⟨n - 1, b⟩)
  | .words c k r d a, s => ((repMovs allocated 4 k s.keybuffer d a).bind fun b =>
      repMovs allocated 1 r b (d + 4 * k) (a + 4 * k)).map fun b => (c, { s with keybuffer := b })
  | .bytes c r d a, s =>
    (repMovs allocated 1 r s.keybuffer d a).map fun b => (c, { s with keybuffer := b })

/-! ### The keyboard and a reader -/

/-- Who looks at the buffer: what it does where it need not look, and what it makes of an empty
buffer and of a character. There is no result where it leaves its own memory. -/
structure Reader (ρ : Type*) where
  idle : ρ → Option ρ
  empty : ρ → ρ
  take : ρ → UInt8 → Option ρ

/-- The keyboard sends a scancode, the reader begins to look at the buffer, or it goes on with the
call of `__bgetch` that it is in. -/
inductive Event
  | scancode (c : Code)
  | look
  | on
  deriving DecidableEq

structure Desk (ρ : Type*) where
  kbd : Option Kbd.State
  codes : List Code
  reader : ρ
  inside : Option Call

def Desk.scan {ρ : Type*} (layout : KbdLayout) (x : Desk ρ) (c : Code) : Desk ρ :=
  { x with
    kbd := x.kbd.bind fun s => kbdInterruptCallback layout s c
    codes := x.codes ++ [c] }

def Desk.look {ρ : Type*} (R : Reader ρ) (x : Desk ρ) : Desk ρ :=
  match x.kbd, R.idle x.reader with
  | none, _ => x
  | some _, some reader => { x with reader }
  | some s, none =>
    if s.input.index = 0 then { x with reader := R.empty x.reader }
    else { x with inside := some .char }

def Desk.on {ρ : Type*} (R : Reader ρ) (x : Desk ρ) : Desk ρ :=
  match x.kbd, x.inside with
  | some s, some p =>
    match p.next s.input with
    | none => { x with kbd := none }
    | some (.inl p, input) => { x with kbd := some { s with input }, inside := some p }
    | some (.inr c, input) =>
      match R.take x.reader c with
      | none => { x with kbd := none }
      | some reader => { x with kbd := some { s with input }, reader, inside := none }
  | _, _ => x

/-- Every order of scancodes and of the reader's steps. An access outside the memory ends the
run. -/
def desk {ρ : Type*} (layout : KbdLayout) (start : ρ) (R : Reader ρ) : System (Desk ρ) Event where
  init x := x = ⟨some ⟨0, kbdInit⟩, [], start, none⟩
  pre x
    | .scancode _ => True
    | .look => x.inside = none
    | .on => x.inside ≠ none
  step x
    | .scancode c => x.scan layout c
    | .look => x.look R
    | .on => x.on R

/-- No shift key is released while the other one is held. -/
def Alone {ρ : Type*} (x : Desk ρ) : Event → Prop
  | .scancode c => ShiftAlone (x.kbd, x.codes) c
  | _ => True

/-- No key that means a character comes while one is being taken out. -/
def Calm {ρ : Type*} (layout : KbdLayout) (x : Desk ρ) : Event → Prop
  | .scancode c => x.inside ≠ none → meaning layout x.codes c = none
  | _ => True

/-- A reader of a queue. -/
structure Line (ρ : Type*) where
  queue : Queue
  codes : List Code
  reader : ρ

def Queue.type (q : Queue) : Option UInt8 → Queue
  | none => q
  | some c => (q.step (.input c)).2

/-- The reader looks at the queue in one step, and what is taken is taken at once. -/
def Line.step {ρ : Type*} (layout : KbdLayout) (look : ρ → Queue → ρ × Queue) (l : Line ρ) :
    Event → Line ρ
  | .scancode c => ⟨Queue.type l.queue (meaning layout l.codes c), l.codes ++ [c], l.reader⟩
  | .look => ⟨(look l.reader l.queue).2, l.codes, (look l.reader l.queue).1⟩
  | .on => l

/-- The buffer and the reader have come to those of a line, or what is left of `__bgetch` takes
them there. -/
def Settles {ρ : Type*} (R : Reader ρ) (reader : ρ) (input : Input.State) (l : Line ρ) :
    Option Call → Prop
  | none => Holds input l.queue ∧ reader = l.reader
  | some p => ∃ c input', p.finish input = some (c, input') ∧ Holds input' l.queue ∧
      R.take reader c = some l.reader

/-- The desk has the line: the status follows the keys, and the buffer holds the queue. -/
def HasLine {ρ : Type*} (R : Reader ρ) (x : Desk ρ) (l : Line ρ) : Prop :=
  ∃ s, x.kbd = some s ∧ Right s.status l.codes ∧ x.codes = l.codes ∧
    Settles R x.reader s.input l x.inside

/-- The reader does with the queue what it does with what it finds in the buffer. -/
def Reads {ρ : Type*} (R : Reader ρ) (look : ρ → Queue → ρ × Queue) : Prop :=
  ∀ r q,
    match R.idle r with
    | some r' => look r q = (r', q)
    | none =>
      if q.chars = [] then look r q = (R.empty r, q)
      else R.take r q.pop.1 = some (look r q).1 ∧ (look r q).2 = q.pop.2

variable {layout : KbdLayout} {s : Kbd.State} {codes : List Code} {c : Code} {q : Queue}
variable {status : BitVec 32}

/-! ### One scancode -/

lemma getchar_eq (h : Right status codes) (hc : c.toNat < kbdLayoutSize) :
    keyGetchar layout status ⟨c.toNat, hc⟩ = charOf layout codes c := by
  have hshift : decide (status &&& kbdMetaShift ≠ 0) =
      (held kbdCodeLshift codes || held kbdCodeRshift codes) := by
    rw [Bool.eq_iff_iff, decide_eq_true_iff, h.shift, Bool.or_eq_true]
  have halt : decide (status &&& kbdMetaAltgr ≠ 0) = held kbdCodeAlt codes := by
    rw [Bool.eq_iff_iff, decide_eq_true_iff, h.altgr]
  have hcaps : (if status &&& kbdMetaCapslock ≠ 0 then
      !(held kbdCodeLshift codes || held kbdCodeRshift codes)
      else held kbdCodeLshift codes || held kbdCodeRshift codes) = isShifted codes := by
    unfold isShifted
    by_cases hodd : Odd (codes.count kbdCodeCapslock)
    · rw [if_pos (h.capslock.mpr hodd), decide_eq_true hodd, Bool.xor_true]
    · rw [if_neg (mt h.capslock.mp hodd), decide_eq_false hodd, Bool.xor_false]
  unfold keyGetchar charOf
  dsimp only
  rw [hshift, halt, hcaps, dif_pos hc]
  cases isShifted codes <;> cases held kbdCodeAlt codes <;> rfl

/-- A key that changes what others mean changes nothing but the status. -/
lemma pressed_modifier (hmod : modifier c = true) :
    kbdHandlePressed layout s c = some ⟨statusAfter s.status c, s.input⟩ := by
  have hcases : ∀ c : Code, modifier c = true → c = kbdCodeLshift ∨ c = kbdCodeRshift ∨
      c = kbdCodeAlt ∨ c = kbdCodeCtrl ∨ c = kbdCodeCapslock := by
    decide +kernel
  rcases hcases c hmod with rfl | rfl | rfl | rfl | rfl <;> rfl

/-- No other key that is pressed changes the status. -/
lemma plain_status : ∀ c : Code, keyRelease c = false → modifier c = false →
    ∀ status, statusAfter status c = status := by
  intro c hrel hmod status
  have hcases : ∀ c : Code, keyRelease c = false → modifier c = false →
      ¬ (c = kbdCodeLshift ∨ c = kbdCodeRshift) ∧
      ¬ (c = kbdCodeLshift ||| 0x80 ∨ c = kbdCodeRshift ||| 0x80) ∧ c ≠ kbdCodeAlt ∧
      c ≠ kbdCodeAlt ||| 0x80 ∧ c ≠ kbdCodeCtrl ∧ c ≠ kbdCodeCtrl ||| 0x80 ∧
      c ≠ kbdCodeCapslock := by
    decide +kernel
  obtain ⟨h1, h2, h3, h4, h5, h6, h7⟩ := hcases c hrel hmod
  rw [statusAfter, if_neg h1, if_neg h2, if_neg h3, if_neg h4, if_neg h5, if_neg h6, if_neg h7]

/-- Any other key gives its character to the buffer, if it has one. -/
lemma pressed_plain (h : Right s.status codes) (hmod : modifier c = false) :
    kbdHandlePressed layout s c =
      if charOf layout codes c = inv then some s
      else (inputCopyToBuffer s.input (charOf layout codes c)).map fun r =>
        { s with input := r.2 } := by
  unfold modifier at hmod
  simp only [Bool.or_eq_false_iff] at hmod
  obtain ⟨⟨⟨h1, h2⟩, h3⟩, h4⟩ := hmod
  unfold kbdHandlePressed
  simp only [h1, h2, h3, h4, Bool.false_eq_true, if_false]
  unfold characterKey
  by_cases hc : c.toNat < kbdLayoutSize
  · rw [dif_pos hc, getchar_eq h hc]
  · rw [dif_neg hc, if_pos (show charOf layout codes c = inv from dif_neg hc)]

/-- **A scancode does to the buffer what it means.** -/
lemma callback_eq (h : Right s.status codes) (c : Code) :
    kbdInterruptCallback layout s c =
      match meaning layout codes c with
      | none => some ⟨statusAfter s.status c, s.input⟩
      | some ch => (inputCopyToBuffer s.input ch).map fun r => ⟨statusAfter s.status c, r.2⟩ := by
  unfold kbdInterruptCallback meaning
  cases hrel : keyRelease c with
  | true =>
    simp only [if_true, Bool.true_or, release_status c hrel]
  | false =>
    have hcode : ∀ c : Code, keyRelease c = false → c &&& ~~~0x80 = c := by
      decide +kernel
    rw [if_neg Bool.false_ne_true, hcode c hrel]
    cases hmod : modifier c with
    | true =>
      rw [pressed_modifier hmod]
      rfl
    | false =>
      rw [pressed_plain h hmod, plain_status c hrel hmod]
      by_cases hinv : charOf layout codes c = inv
      · rw [if_pos hinv, hinv]
        rfl
      · rw [if_neg hinv, Bool.false_or, Bool.false_or, beq_eq_false_iff_ne.mpr hinv]
        rfl

/-- It does to the queue that the buffer holds what it means. -/
lemma callback_meaning (h : Right s.status codes) (hq : Holds s.input q) (c : Code) :
    ∃ input, kbdInterruptCallback layout s c = some ⟨statusAfter s.status c, input⟩ ∧
      Holds input (Queue.type q (meaning layout codes c)) := by
  rw [callback_eq h]
  cases meaning layout codes c with
  | none => exact ⟨s.input, rfl, hq⟩
  | some ch =>
    obtain ⟨input, hinput, hholds⟩ := input_spec hq ch
    dsimp only
    rw [hinput]
    exact ⟨input, rfl, hholds⟩

lemma typed_concat (codes : List Code) (c : Code) :
    typed layout (codes ++ [c]) = typed layout codes ++ (meaning layout codes c).toList := by
  have hcodes : ∀ codes : List Code,
      (codes.foldl (fun t c => (t.1 ++ [c], t.2 ++ (meaning layout t.1 c).toList)) ([], [])).1 =
        codes := by
    intro codes
    induction codes using List.reverseRecOn with
    | nil => rfl
    | append_singleton codes c ih => rw [List.foldl_concat, ih]
  unfold typed
  rw [List.foldl_concat, hcodes]

/-! ### One step of `__bgetch` -/

/-- What is done in steps comes to what is done at once. -/
lemma finish_next {p : Call} {input : Input.State} {r : UInt8 × Input.State}
    (h : p.finish input = some r) :
    (∃ p' input', p.next input = some (.inl p', input') ∧ p'.finish input' = some r) ∨
      p.next input = some (.inr r.1, r.2) := by
  cases p with
  | char =>
    rw [Call.finish, bgetchNext] at h
    obtain ⟨c, hc, hrest⟩ := Option.bind_eq_some_iff.mp h
    refine .inl ⟨.index c, input, ?_, hrest⟩
    rw [Call.next, hc]
    rfl
  | index c => exact .inl ⟨.lower c input.index, input, rfl, h⟩
  | lower c n =>
    refine .inl ⟨_, _, rfl, ?_⟩
    rw [Call.finish, memcpyAsm] at h
    exact h
  | words c k r d a =>
    cases k with
    | zero => exact .inl ⟨.bytes c r d a, input, rfl, h⟩
    | succ k =>
      obtain ⟨b, hb, hr⟩ := Option.map_eq_some_iff.mp h
      obtain ⟨b₁, hwords, hbytes⟩ := Option.bind_eq_some_iff.mp hb
      obtain ⟨b₂, hfirst, hrest⟩ := Option.bind_eq_some_iff.mp hwords
      refine .inl ⟨.words c k r (d + 4) (a + 4), ⟨input.index, b₂⟩, ?_, ?_⟩
      · rw [Call.next, hfirst]
        rfl
      · have hd : d + 4 * (k + 1) = d + 4 + 4 * k := by omega
        have ha : a + 4 * (k + 1) = a + 4 + 4 * k := by omega
        rw [hd, ha] at hbytes
        rw [Call.finish, hrest, Option.bind_some, hbytes, Option.map_some, hr]
  | bytes c r d a =>
    cases r with
    | zero =>
      obtain rfl : (c, input) = r := Option.some_inj.mp h
      exact .inr rfl
    | succ r =>
      obtain ⟨b, hb, hr⟩ := Option.map_eq_some_iff.mp h
      obtain ⟨b₁, hfirst, hrest⟩ := Option.bind_eq_some_iff.mp hb
      refine .inl ⟨.bytes c r (d + 1) (a + 1), ⟨input.index, b₁⟩, ?_, ?_⟩
      · rw [Call.next, hfirst]
        rfl
      · rw [Call.finish, hrest, Option.map_some, hr]

/-! ### The runs -/

section

variable {ρ : Type*} {start : ρ} {R : Reader ρ} {look : ρ → Queue → ρ × Queue}
variable {x : Desk ρ} {l : Line ρ}

lemma hasLine_scan (h : HasLine R x l) (halone : ShiftAlone (x.kbd, x.codes) c)
    (hcalm : x.inside ≠ none → meaning layout x.codes c = none) :
    HasLine R (x.scan layout c) (l.step layout look (.scancode c)) := by
  obtain ⟨s, hs, hright, hcodes, hsettles⟩ := h
  have hstatus : Right (statusAfter s.status c) (l.codes ++ [c]) := by
    refine (right_step hright).mpr ?_
    rw [← hcodes]
    exact halone
  have hcodes' : x.codes ++ [c] = l.codes ++ [c] := congrArg (· ++ [c]) hcodes
  have hkbd : (x.scan layout c).kbd = kbdInterruptCallback layout s c := by
    rw [Desk.scan, hs]
    rfl
  cases hin : x.inside with
  | none =>
    rw [hin] at hsettles
    obtain ⟨hq, hreader⟩ := hsettles
    obtain ⟨input, heq, hholds⟩ : ∃ input, kbdInterruptCallback layout s c =
        some ⟨statusAfter s.status c, input⟩ ∧
          Holds input (Queue.type l.queue (meaning layout l.codes c)) :=
      callback_meaning hright hq c
    refine ⟨⟨statusAfter s.status c, input⟩, hkbd.trans heq, hstatus, hcodes', ?_⟩
    rw [show (x.scan layout c).inside = none from hin]
    exact ⟨hholds, hreader⟩
  | some p =>
    -- the buffer is not touched, so what is left of the call comes to the same
    have hquiet : meaning layout l.codes c = none := by
      rw [← hcodes]
      exact hcalm (by rw [hin]; exact Option.some_ne_none p)
    have heq : kbdInterruptCallback layout s c = some ⟨statusAfter s.status c, s.input⟩ := by
      rw [callback_eq hright, hquiet]
    refine ⟨⟨statusAfter s.status c, s.input⟩, hkbd.trans heq, hstatus, hcodes', ?_⟩
    rw [hin] at hsettles
    rw [Line.step, hquiet, show (x.scan layout c).inside = some p from hin]
    exact hsettles

lemma hasLine_look (hreads : Reads R look) (h : HasLine R x l) (hin : x.inside = none) :
    HasLine R (x.look R) (l.step layout look .look) := by
  obtain ⟨s, hs, hright, hcodes, hsettles⟩ := h
  rw [hin] at hsettles
  obtain ⟨hq, hreader⟩ := hsettles
  have hlook := hreads l.reader l.queue
  unfold Desk.look
  rw [hs, hreader]
  cases hidle : R.idle l.reader with
  | some r =>
    rw [hidle] at hlook
    refine ⟨s, rfl, hright, hcodes, ?_⟩
    dsimp only
    rw [hin, Line.step, show look l.reader l.queue = _ from hlook]
    exact ⟨hq, rfl⟩
  | none =>
    rw [hidle] at hlook
    dsimp only at hlook ⊢
    have hindex : s.input.index = 0 ↔ l.queue.chars = [] := by
      rw [hq.index, List.length_eq_zero_iff]
    by_cases hempty : l.queue.chars = []
    · rw [if_pos hempty] at hlook
      rw [if_pos (hindex.mpr hempty)]
      refine ⟨s, rfl, hright, hcodes, ?_⟩
      dsimp only
      rw [hin, Line.step, hlook]
      exact ⟨hq, rfl⟩
    · rw [if_neg hempty] at hlook
      rw [if_neg (mt hindex.mp hempty)]
      obtain ⟨input, hget, hholds⟩ := get_spec hq
      rw [bgetchNoblock, if_neg (mt hindex.mp hempty)] at hget
      refine ⟨s, rfl, hright, hcodes, l.queue.pop.1, input, hget, ?_, hlook.1⟩
      rw [Line.step, hlook.2]
      exact hholds

lemma hasLine_on (h : HasLine R x l) : HasLine R (x.on R) l := by
  obtain ⟨s, hs, hright, hcodes, hsettles⟩ := h
  unfold Desk.on
  rw [hs]
  cases hin : x.inside with
  | none => exact ⟨s, hs, hright, hcodes, hsettles⟩
  | some p =>
    rw [hin] at hsettles
    obtain ⟨c, input, hfinish, hholds, htake⟩ := hsettles
    rcases finish_next hfinish with ⟨p', input', hnext, hfinish'⟩ | hnext
    · dsimp only
      rw [hnext]
      exact ⟨_, rfl, hright, hcodes, c, input, hfinish', hholds, htake⟩
    · dsimp only
      rw [hnext]
      dsimp only
      rw [htake]
      exact ⟨_, rfl, hright, hcodes, hholds, rfl⟩

lemma hasLine_step (hreads : Reads R look) (h : HasLine R x l) {e : Event}
    (hpre : (desk layout start R).pre x e) (halone : Alone x e) (hcalm : Calm layout x e) :
    HasLine R ((desk layout start R).step x e) (l.step layout look e) := by
  cases e with
  | scancode c => exact hasLine_scan h halone hcalm
  | look => exact hasLine_look hreads h hpre
  | on => exact hasLine_on h

/-- In every run the reader reads the queue, and the queue takes what the keys mean. A property of
the line that the steps keep holds of it in the end. -/
lemma hasLine_run {ok : Desk ρ → Event → Prop} {P : Line ρ → Prop} (hreads : Reads R look)
    (h0 : P ⟨Queue.empty, [], start⟩)
    (hP : ∀ {x l} e, HasLine R x l → P l → Calm layout x e → ok x e →
      P (l.step layout look e)) (hx : (desk layout start R).init x) {events : List Event}
    (ht : ((desk layout start R).restrict
      fun x e => Alone x e ∧ Calm layout x e ∧ ok x e).Takes x events) :
    let l := events.foldl (Line.step layout look) ⟨Queue.empty, [], start⟩
    HasLine R ((desk layout start R).run x events) l ∧ P l := by
  have hstart : HasLine R x ⟨Queue.empty, [], start⟩ := by
    rw [show x = _ from hx]
    exact ⟨_, rfl, right_start, rfl, ⟨rfl, fun i hi => absurd hi (Nat.not_lt_zero i)⟩, rfl⟩
  clear hx
  generalize (⟨Queue.empty, [], start⟩ : Line ρ) = l at *
  induction events generalizing x l with
  | nil => exact ⟨hstart, h0⟩
  | cons e events ih =>
    obtain ⟨⟨hpre, halone, hcalm, hok⟩, hrest⟩ := ht
    have hnext : HasLine R ((desk layout start R).step x e) (l.step layout look e) :=
      hasLine_step hreads hstart hpre halone hcalm
    exact ih hrest _ (hP e hstart h0 hcalm hok) hnext

end

/-! ### Reading without waiting -/

/-- Somebody who keeps what `bgetch_noblock` returns. -/
def keep : Reader (List UInt8) where
  idle _ := none
  empty read := read ++ [0]
  take read c := some (read ++ [c])

lemma keep_reads : Reads keep fun read q => (read ++ [q.pop.1], q.pop.2) := by
  rintro read ⟨chars, hsmall⟩
  cases chars with
  | nil => rfl
  | cons c chars => exact ⟨rfl, rfl⟩

/-- **What is read is what the keys mean**: with every order of scancodes and of the reader's steps
in which no key means a character while one is being taken out, the keyboard, its buffer and the
reader are the queue that takes the meaning of each key under the keys held down with it. -/
theorem run_line (layout : KbdLayout) {x : Desk (List UInt8)}
    (hx : (desk layout [] keep).init x) {events : List Event}
    (ht : ((desk layout [] keep).restrict
      fun x e => Alone x e ∧ Calm layout x e).Takes x events) :
    HasLine keep ((desk layout [] keep).run x events)
      (events.foldl (Line.step layout fun read q => (read ++ [q.pop.1], q.pop.2))
        ⟨Queue.empty, [], []⟩) := by
  have ht' : ((desk layout [] keep).restrict
      fun x e => Alone x e ∧ Calm layout x e ∧ True).Takes x events := by
    simpa only [and_true] using ht
  exact (hasLine_run keep_reads (P := fun _ => True) trivial (fun _ _ _ _ _ => trivial)
    hx ht').1

/-! ### `bgets` -/

abbrev keyEnter : UInt8 := 10

/-- `bgets` under way: what it has written, how far it has come, and what it returned. -/
structure Bgets where
  buffer : Bytes
  curpos : ℕ
  result : Option ℕ

/-- `bgets`, from one look at the buffer to the next. It waits while there is no character. -/
def bgets (length : ℕ) : Reader Bgets where
  idle b :=
    if b.result.isSome then some b
    else if length ≤ b.curpos then some { b with result := some length }
    else none
  empty b := b
  take b c :=
    if c = keyEnter then some { b with result := some (b.curpos + 1) }
    else (store ⟨0, length⟩ b.buffer b.curpos c).map fun buffer => ⟨buffer, b.curpos + 1, none⟩

/-- What it takes from a queue. -/
def takeLine (length : ℕ) (b : Bgets) (q : Queue) : Bgets × Queue :=
  if b.result.isSome then (b, q)
  else if length ≤ b.curpos then ({ b with result := some length }, q)
  else if q.chars = [] then (b, q)
  else if q.pop.1 = keyEnter then ({ b with result := some (b.curpos + 1) }, q.pop.2)
  else (⟨Function.update b.buffer b.curpos q.pop.1, b.curpos + 1, none⟩, q.pop.2)

lemma bgets_reads (length : ℕ) : Reads (bgets length) (takeLine length) := by
  intro b q
  unfold bgets takeLine
  dsimp only
  by_cases hresult : b.result.isSome = true
  · rw [if_pos hresult, if_pos hresult]
  by_cases hlength : length ≤ b.curpos
  · rw [if_neg hresult, if_neg hresult, if_pos hlength, if_pos hlength]
  rw [if_neg hresult, if_neg hresult, if_neg hlength, if_neg hlength]
  dsimp only
  by_cases hempty : q.chars = []
  · rw [if_pos hempty, if_pos hempty]
  rw [if_neg hempty, if_neg hempty]
  by_cases henter : q.pop.1 = keyEnter
  · rw [if_pos henter, if_pos henter]
    exact ⟨rfl, rfl⟩
  · have hin : (⟨0, length⟩ : Window).has b.curpos 1 := ⟨Nat.zero_le _, by dsimp only; omega⟩
    rw [if_neg henter, if_neg henter, store, if_pos hin]
    exact ⟨rfl, rfl⟩

/-- What was got of a text, and what is left of it. -/
def Got (length : ℕ) (typed : List UInt8) (b : Bgets) (rest got : List UInt8) : Prop :=
  keyEnter ∉ got ∧ got.length = b.curpos ∧ b.curpos ≤ length ∧
    (∀ i (h : i < got.length), b.buffer i = got[i]) ∧
    match b.result with
    | none => typed = got ++ rest
    | some r => (typed = got ++ keyEnter :: rest ∧ r = got.length + 1 ∧ r ≤ length) ∨
        (typed = got ++ rest ∧ r = length ∧ got.length = length)

/-- A key that means a character means one that is kept. -/
def Kept {ρ : Type*} (layout : KbdLayout) (x : Desk ρ) : Event → Prop
  | .scancode c => ∀ ch ∈ meaning layout x.codes c, ch ≠ keyBackspace ∧
      ∀ s ∈ x.kbd, s.input.index < keyboardBufferSize
  | _ => True

variable {length : ℕ} {b : Bgets} {text rest got : List UInt8}

lemma Got.more (h : Got length text b rest got) (more : List UInt8) :
    Got length (text ++ more) b (rest ++ more) got := by
  obtain ⟨henter, hcurpos, hlength, hbuffer, hresult⟩ := h
  refine ⟨henter, hcurpos, hlength, hbuffer, ?_⟩
  cases hr : b.result with
  | none =>
    rw [hr] at hresult
    change text = _ at hresult
    change text ++ more = _
    rw [hresult, List.append_assoc]
  | some r =>
    rw [hr] at hresult
    rcases hresult with ⟨htext, hr⟩ | ⟨htext, hr⟩
    · exact .inl ⟨by rw [htext, List.append_assoc, List.cons_append], hr⟩
    · exact .inr ⟨by rw [htext, List.append_assoc], hr⟩

lemma chars_pop (h : q.chars ≠ []) : q.chars = q.pop.1 :: q.pop.2.chars := by
  obtain ⟨chars, hsmall⟩ := q
  cases chars with
  | nil => exact absurd rfl h
  | cons c chars => rfl

lemma Got.take (h : Got length text b q.chars got) :
    ∃ got, Got length text (takeLine length b q).1 (takeLine length b q).2.chars got := by
  unfold takeLine
  by_cases hdone : b.result.isSome = true
  · rw [if_pos hdone]
    exact ⟨got, h⟩
  have hnone : b.result = none := Option.not_isSome_iff_eq_none.mp hdone
  obtain ⟨henter, hcurpos, hlength, hbuffer, hresult⟩ := h
  rw [hnone] at hresult
  change text = _ at hresult
  rw [if_neg hdone]
  by_cases hfull : length ≤ b.curpos
  · rw [if_pos hfull]
    exact ⟨got, henter, hcurpos, hlength, hbuffer, .inr ⟨hresult, rfl, by omega⟩⟩
  rw [if_neg hfull]
  by_cases hempty : q.chars = []
  · rw [if_pos hempty]
    refine ⟨got, henter, hcurpos, hlength, hbuffer, ?_⟩
    rw [hnone]
    exact hresult
  rw [if_neg hempty]
  rw [chars_pop hempty] at hresult
  by_cases hc : q.pop.1 = keyEnter
  · rw [if_pos hc]
    refine ⟨got, henter, hcurpos, hlength, hbuffer, .inl ⟨?_, ?_, ?_⟩⟩
    · rw [hresult, hc]
    · rw [hcurpos]
    · omega
  · rw [if_neg hc]
    refine ⟨got ++ [q.pop.1], ?_, ?_, ?_, fun i hi => ?_, ?_⟩
    · rw [List.mem_append, List.mem_singleton, not_or]
      exact ⟨henter, Ne.symm hc⟩
    · rw [List.length_append, hcurpos]
      rfl
    · dsimp only
      omega
    · rw [List.length_append, List.length_singleton] at hi
      dsimp only
      rcases Nat.lt_or_ge i got.length with hlt | hge
      · rw [List.getElem_append_left hlt, Function.update_of_ne (by omega)]
        exact hbuffer i hlt
      · obtain rfl : i = got.length := by omega
        rw [List.getElem_concat_length rfl, hcurpos, Function.update_self]
    · change text = got ++ [q.pop.1] ++ q.pop.2.chars
      rw [hresult, List.append_assoc]
      rfl

/-- What has been got is got of what was typed. -/
def Line.Gets (layout : KbdLayout) (length : ℕ) (l : Line Bgets) : Prop :=
  ∃ got, Got length (typed layout l.codes) l.reader l.queue.chars got

lemma gets_step {x : Desk Bgets} {l : Line Bgets} (h : HasLine (bgets length) x l)
    (hl : l.Gets layout length) {e : Event} (hcalm : Calm layout x e) (hkept : Kept layout x e) :
    (l.step layout (takeLine length) e).Gets layout length := by
  obtain ⟨got, hgot⟩ := hl
  obtain ⟨s, hs, -, hcodes, hsettles⟩ := h
  cases e with
  | look => exact hgot.take
  | on => exact ⟨got, hgot⟩
  | scancode c =>
    refine ⟨got, ?_⟩
    change Got length (typed layout (l.codes ++ [c])) l.reader
      (Queue.type l.queue (meaning layout l.codes c)).chars got
    rw [typed_concat]
    cases hch : meaning layout l.codes c with
    | none => simpa [Queue.type] using hgot
    | some ch =>
      have hin : x.inside = none := by
        by_contra hne
        have hquiet := hcalm hne
        rw [hcodes, hch] at hquiet
        exact Option.some_ne_none ch hquiet
      rw [hin] at hsettles
      obtain ⟨hback, hroom⟩ := hkept ch (by rw [hcodes]; exact hch)
      have hlt : l.queue.chars.length < keyboardBufferSize := by
        rw [← hsettles.1.index]
        exact hroom s hs
      have hqueue : (Queue.type l.queue (some ch)).chars = l.queue.chars ++ [ch] := by
        simp only [Queue.type, Queue.step, if_neg hback, Queue.push, dif_pos hlt]
      rw [hqueue]
      exact hgot.more [ch]

/-- **`bgets` gets the line that was typed**, with every order of scancodes and of its own steps in
which no character comes while one is being taken out, is refused or is taken back: the characters
up to the enter key, or as many as there is room for. What was typed after them is still there for
the next reader. -/
theorem bgets_line (layout : KbdLayout) (length : ℕ) (buffer : Bytes) {x : Desk Bgets}
    (hx : (desk layout ⟨buffer, 0, none⟩ (bgets length)).init x) {events : List Event}
    (ht : ((desk layout ⟨buffer, 0, none⟩ (bgets length)).restrict
      fun x e => Alone x e ∧ Calm layout x e ∧ Kept layout x e).Takes x events) :
    let y := (desk layout ⟨buffer, 0, none⟩ (bgets length)).run x events
    ∃ l got, HasLine (bgets length) y l ∧
      Got length (typed layout y.codes) l.reader l.queue.chars got := by
  have hgets : Line.Gets layout length ⟨Queue.empty, [], ⟨buffer, 0, none⟩⟩ :=
    ⟨[], List.not_mem_nil, rfl, Nat.zero_le _, fun i hi => absurd hi (Nat.not_lt_zero i), rfl⟩
  obtain ⟨hline, got, hgot⟩ := hasLine_run (bgets_reads length) hgets
    (fun _ h hl hcalm hkept => gets_step h hl hcalm hkept) hx ht
  have hcodes := hline.choose_spec.2.2.1
  rw [← hcodes] at hgot
  exact ⟨_, got, hline, hgot⟩

/-! ### A line in capitals -/

/-- The key `a`, and the enter key. -/
abbrev layoutA : KbdLayout :=
  ⟨fun c => if c = 0x1e then 97 else if c = 0x1c then keyEnter else inv,
    fun c => if c = 0x1e then 65 else if c = 0x1c then keyEnter else inv, fun _ => inv⟩

instance {ρ : Type*} (layout : KbdLayout) (start : ρ) (R : Reader ρ) (x : Desk ρ) :
    ∀ e, Decidable ((desk layout start R).pre x e)
  | .scancode _ => isTrue trivial
  | .look => inferInstanceAs (Decidable (x.inside = none))
  | .on => inferInstanceAs (Decidable (x.inside ≠ none))

instance {ρ : Type*} (x : Desk ρ) : ∀ e, Decidable (Alone x e)
  | .scancode _ => inferInstanceAs (Decidable (¬ (_ ∧ _) ∧ ¬ (_ ∧ _)))
  | .look => isTrue trivial
  | .on => isTrue trivial

instance {ρ : Type*} (layout : KbdLayout) (x : Desk ρ) : ∀ e, Decidable (Calm layout x e)
  | .scancode c => inferInstanceAs
      (Decidable (x.inside ≠ none → meaning layout x.codes c = none))
  | .look => isTrue trivial
  | .on => isTrue trivial

instance {ρ : Type*} (layout : KbdLayout) (x : Desk ρ) : ∀ e, Decidable (Kept layout x e)
  | .scancode c => inferInstanceAs (Decidable (∀ ch ∈ meaning layout x.codes c, ch ≠ keyBackspace ∧
      ∀ s ∈ x.kbd, s.input.index < keyboardBufferSize))
  | .look => isTrue trivial
  | .on => isTrue trivial

/-- The steps of `__bgetch` for one character. -/
abbrev taking : List Event := [.on, .on, .on, .on, .on, .on]

/-- The shift key is held while `a` is typed, and released while the reader takes the character;
then `a` and the enter key are typed, and the reader takes both. -/
abbrev capital : List Event :=
  [.scancode 0x2a, .scancode 0x1e, .look, .on, .on, .scancode 0x9e, .on, .scancode 0xaa, .on, .on,
    .on, .look, .scancode 0x1e, .scancode 0x1c, .look] ++ taking ++ [.on, .look] ++ taking

theorem run_line_capital :
    HasLine keep ((desk layoutA [] keep).run ⟨some ⟨0, kbdInit⟩, [], [], none⟩ capital)
      (capital.foldl (Line.step layoutA fun read q => (read ++ [q.pop.1], q.pop.2))
        ⟨Queue.empty, [], []⟩) :=
  run_line layoutA rfl (by decide +kernel)

theorem bgets_line_capital :
    let y := (desk layoutA ⟨fun _ => 0, 0, none⟩ (bgets 8)).run
      ⟨some ⟨0, kbdInit⟩, [], ⟨fun _ => 0, 0, none⟩, none⟩ capital
    ∃ l got, HasLine (bgets 8) y l ∧ Got 8 (typed layoutA y.codes) l.reader l.queue.chars got :=
  bgets_line layoutA 8 (fun _ => 0) rfl (by decide +kernel)

/-- `a` is typed once more while the first one is being taken out. -/
abbrev hasty : List Event :=
  [.scancode 0x1e, .look, .on, .on, .scancode 0x1e, .on, .on, .on, .on]

/-- The second character is lost: the index is stored as if it had not come. -/
theorem run_line_hasty :
    let y := (desk layoutA [] keep).run ⟨some ⟨0, kbdInit⟩, [], [], none⟩ hasty
    y.inside = none ∧ y.reader = [97] ∧ y.kbd.map (fun s => s.input.index) = some 0 ∧
      typed layoutA y.codes = [97, 97] := by
  decide +kernel

end Elfboot.Typing
