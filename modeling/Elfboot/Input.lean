import Elfboot.Errno
import Elfboot.Copy

/-!
The keyboard buffer: `input.c`.

It is a bounded queue of characters from which the youngest can be taken back. The oldest is
taken out by moving all others down by one byte.
-/

namespace Elfboot.Input

open Elfboot.Errno Elfboot.Buffer Elfboot.Copy

abbrev keyBackspace : UInt8 := 8
abbrev keyboardBufferSize : ℕ := 127

/-- The bytes that `kbd_init` allocates for the buffer. -/
def allocated : Window := ⟨0, keyboardBufferSize + 1⟩

structure State where
  index : ℕ
  keybuffer : Bytes

def inputVerify (s : State) (c : UInt8) : Bool :=
  let isBackspace := c == keyBackspace
  if keyboardBufferSize ≤ s.index ∧ !isBackspace then false
  else if s.index = 0 ∧ isBackspace then false
  else true

/-- `input_copy_to_buffer`, as long as it stays inside the buffer. -/
def inputCopyToBuffer (s : State) (c : UInt8) : Option (ℤ × State) :=
  if !inputVerify s c then some (-efault, s)
  else if c = keyBackspace then
    (store allocated s.keybuffer (s.index - 1) 0).map fun b => (0, ⟨s.index - 1, b⟩)
  else (store allocated s.keybuffer s.index c).map fun b => (0, ⟨s.index + 1, b⟩)

/-- `__bgetch`, where there is a character. -/
def bgetchNext (s : State) : Option (UInt8 × State) :=
  (load allocated s.keybuffer 0).bind fun c =>
    (memcpyAsm allocated s.keybuffer 0 1 s.index).map fun b => (c, ⟨s.index - 1, b⟩)

def bgetchNoblock (s : State) : Option (UInt8 × State) :=
  if s.index = 0 then some (0, s) else bgetchNext s

/-- `bgetch`, with the characters that arrive while the machine is suspended. There is no
result while none of them is left in the buffer. -/
def bgetch : List UInt8 → State → Option (UInt8 × State)
  | [], s => if s.index = 0 then none else bgetchNext s
  | c :: arriving, s =>
    if s.index = 0 then (inputCopyToBuffer s c).bind fun r => bgetch arriving r.2
    else bgetchNext s

/-- The buffer as `kbd_init` leaves it. -/
def kbdInit : State := ⟨0, fun _ => 0⟩

inductive Op
  | input (c : UInt8)
  | get

inductive Out
  | status (r : ℤ)
  | char (c : UInt8)

def step (s : State) : Op → Option (Out × State)
  | .input c => (inputCopyToBuffer s c).map fun r => (.status r.1, r.2)
  | .get => (bgetchNoblock s).map fun r => (.char r.1, r.2)

/-- What the calls return, and the state after them. -/
def run : State → List Op → Option (List Out × State)
  | s, [] => some ([], s)
  | s, op :: ops => (step s op).bind fun r => (run r.2 ops).map fun t => (r.1 :: t.1, t.2)

/-! ### The queue -/

/-- At most 127 characters, the oldest first. -/
structure Queue where
  chars : List UInt8
  small : chars.length ≤ keyboardBufferSize

def Queue.empty : Queue := ⟨[], Nat.zero_le _⟩

def Queue.push (q : Queue) (c : UInt8) : ℤ × Queue :=
  if h : q.chars.length < keyboardBufferSize then (0, ⟨q.chars ++ [c], by simpa using h⟩)
  else (-efault, q)

def Queue.takeBack (q : Queue) : ℤ × Queue :=
  if q.chars = [] then (-efault, q)
  else (0, ⟨q.chars.dropLast, (List.length_dropLast ▸ Nat.sub_le _ _).trans q.small⟩)

def Queue.pop (q : Queue) : UInt8 × Queue :=
  match h : q.chars with
  | [] => (0, q)
  | c :: cs => (c, ⟨cs, by have := q.small; rw [h, List.length_cons] at this; omega⟩)

def Queue.step (q : Queue) : Op → Out × Queue
  | .input c =>
    let r := if c = keyBackspace then q.takeBack else q.push c
    (.status r.1, r.2)
  | .get => (.char q.pop.1, q.pop.2)

def Queue.run : Queue → List Op → List Out × Queue
  | q, [] => ([], q)
  | q, op :: ops =>
    let r := q.step op
    let t := r.2.run ops
    (r.1 :: t.1, t.2)

/-- The unread characters stand at the start of the buffer. -/
structure Holds (s : State) (q : Queue) : Prop where
  index : s.index = q.chars.length
  get : ∀ i (h : i < q.chars.length), s.keybuffer i = q.chars[i]

/-! ### Each call does to the queue what it says -/

variable {s : State} {q : Queue} {c : UInt8}

lemma verify_iff (h : Holds s q) : inputVerify s c = true ↔
    if c = keyBackspace then q.chars ≠ [] else q.chars.length < keyboardBufferSize := by
  have hlen : q.chars = [] ↔ q.chars.length = 0 := List.length_eq_zero_iff.symm
  unfold inputVerify
  rw [h.index]
  by_cases hc : c = keyBackspace
  · simp [hc]
  · simp [hc]

lemma input_spec (h : Holds s q) (c : UInt8) :
    ∃ s', inputCopyToBuffer s c =
        some ((if c = keyBackspace then q.takeBack else q.push c).1, s') ∧
      Holds s' (if c = keyBackspace then q.takeBack else q.push c).2 := by
  have hsmall := q.small
  have hv := verify_iff (c := c) h
  unfold inputCopyToBuffer
  by_cases hc : c = keyBackspace
  · simp only [if_pos hc] at hv ⊢
    unfold Queue.takeBack
    by_cases hne : q.chars = []
    · rw [Bool.eq_false_iff.mpr (mt hv.mp (not_not.mpr hne)), if_pos hne]
      exact ⟨s, rfl, h⟩
    · have hpos := List.length_pos_iff.mpr hne
      rw [hv.mpr hne, if_neg hne]
      have hin : allocated.has (s.index - 1) 1 := by
        refine ⟨Nat.zero_le _, ?_⟩
        rw [h.index]
        show _ ≤ keyboardBufferSize + 1
        omega
      refine ⟨⟨s.index - 1, Function.update s.keybuffer (s.index - 1) 0⟩,
        by simp [store, if_pos hin], ?_, fun i hi => ?_⟩
      · simp [h.index]
      · simp only [List.length_dropLast] at hi
        have hne' : i ≠ s.index - 1 := by
          rw [h.index]
          omega
        simp only [Function.update_of_ne hne', List.getElem_dropLast]
        exact h.get i (by omega)
  · simp only [if_neg hc] at hv ⊢
    unfold Queue.push
    by_cases hlt : q.chars.length < keyboardBufferSize
    · rw [hv.mpr hlt, dif_pos hlt]
      have hin : allocated.has s.index 1 := by
        refine ⟨Nat.zero_le _, ?_⟩
        rw [h.index]
        show _ ≤ keyboardBufferSize + 1
        omega
      refine ⟨⟨s.index + 1, Function.update s.keybuffer s.index c⟩,
        by simp [store, if_pos hin], ?_, fun i hi => ?_⟩
      · simp [h.index]
      · simp only [List.length_append, List.length_singleton] at hi
        rcases Nat.lt_or_ge i q.chars.length with hi' | hi'
        · have hne : i ≠ s.index := by
            rw [h.index]
            omega
          simp only [Function.update_of_ne hne, List.getElem_append_left hi']
          exact h.get i hi'
        · obtain rfl : i = q.chars.length := by omega
          simp [h.index]
    · rw [Bool.eq_false_iff.mpr (mt hv.mp hlt), dif_neg hlt]
      exact ⟨s, rfl, h⟩

lemma get_spec (h : Holds s q) :
    ∃ s', bgetchNoblock s = some (q.pop.1, s') ∧ Holds s' q.pop.2 := by
  obtain ⟨chars, hsmall⟩ := q
  unfold bgetchNoblock
  rw [h.index]
  cases chars with
  | nil => exact ⟨s, rfl, h⟩
  | cons c cs =>
    have hlen : s.index = cs.length + 1 := h.index
    rw [List.length_cons] at hsmall
    -- one byte more than the rest is moved: the one behind the last character
    have hhi : allocated.hi = 128 := rfl
    have hsize : keyboardBufferSize = 127 := rfl
    have hsrc : allocated.has 1 s.index := ⟨Nat.zero_le _, by omega⟩
    have hdst : allocated.has 0 s.index := ⟨le_rfl, by omega⟩
    have hone : allocated.has 0 1 := ⟨le_rfl, by decide⟩
    have h0 : s.keybuffer 0 = c := h.get 0 (Nat.succ_pos _)
    rw [if_neg (List.length_pos_iff.mpr (List.cons_ne_nil c cs)).ne', bgetchNext, load,
      if_pos hone, Option.bind_some,
      memcpyAsm_down (Nat.zero_le 1) hsrc hdst, h0]
    refine ⟨_, rfl, ?_, fun i hi => ?_⟩
    · exact Nat.sub_eq_of_eq_add hlen
    · have hi' : i < cs.length := hi
      have hget := h.get (i + 1) (Nat.succ_lt_succ hi')
      simp only [memcpy, Nat.zero_add, Nat.zero_le, true_and, Nat.sub_zero]
      rw [if_pos (by omega), Nat.add_comm 1 i]
      exact hget

lemma step_spec (h : Holds s q) (op : Op) :
    ∃ s', step s op = some ((q.step op).1, s') ∧ Holds s' (q.step op).2 := by
  cases op with
  | input c =>
    obtain ⟨s', heq, h'⟩ := input_spec h c
    exact ⟨s', by rw [step, heq]; rfl, h'⟩
  | get =>
    obtain ⟨s', heq, h'⟩ := get_spec h
    exact ⟨s', by rw [step, heq]; rfl, h'⟩

lemma run_spec (ops : List Op) : ∀ {s : State} {q : Queue}, Holds s q →
    ∃ s', run s ops = some ((q.run ops).1, s') ∧ Holds s' (q.run ops).2 := by
  induction ops with
  | nil => exact fun h => ⟨_, rfl, h⟩
  | cons op ops ih =>
    intro s q h
    obtain ⟨s1, heq, h1⟩ := step_spec h op
    obtain ⟨s2, heq', h2⟩ := ih h1
    exact ⟨s2, by rw [run, heq, Option.bind_some, heq']; rfl, h2⟩

/-- **The keyboard buffer is a bounded queue** with backspace: every run of calls stays inside
the allocated bytes and returns what the queue returns, and the buffer holds the queue
afterwards. -/
theorem run_fifo (ops : List Op) :
    ∃ s, run kbdInit ops = some ((Queue.empty.run ops).1, s) ∧
      Holds s (Queue.empty.run ops).2 :=
  run_spec ops ⟨rfl, fun _ hi => absurd hi (Nat.not_lt_zero _)⟩

/-- What waits for a character returns what `bgetch_noblock` returns after some of the
characters have arrived, and there is one then. -/
lemma bgetch_spec {r : UInt8 × State} (arriving : List UInt8) : ∀ {s : State} {q : Queue},
    Holds s q → bgetch arriving s = some r → ∃ k, k ≤ arriving.length ∧
      let q' := (q.run ((arriving.take k).map .input)).2
      q'.chars ≠ [] ∧ r.1 = q'.pop.1 ∧ Holds r.2 q'.pop.2 := by
  have hnow : ∀ {s : State} {q : Queue}, Holds s q → s.index ≠ 0 → bgetchNext s = some r →
      q.chars ≠ [] ∧ r.1 = q.pop.1 ∧ Holds r.2 q.pop.2 := by
    intro s q h hne heq
    obtain ⟨s', hget, h'⟩ := get_spec h
    rw [bgetchNoblock, if_neg hne, heq] at hget
    cases hget
    rw [h.index] at hne
    exact ⟨List.length_pos_iff.mp (Nat.pos_of_ne_zero hne), rfl, h'⟩
  induction arriving with
  | nil =>
    intro s q h heq
    rw [bgetch] at heq
    split_ifs at heq with hne
    exact ⟨0, le_rfl, hnow h hne heq⟩
  | cons c arriving ih =>
    intro s q h heq
    rw [bgetch] at heq
    split_ifs at heq with hne
    · obtain ⟨s', hin, h'⟩ := input_spec h c
      rw [hin, Option.bind_some] at heq
      obtain ⟨k, hk, hres⟩ := ih h' heq
      exact ⟨k + 1, Nat.succ_le_succ hk, hres⟩
    · exact ⟨0, Nat.zero_le _, hnow h hne heq⟩

end Elfboot.Input
