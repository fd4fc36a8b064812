import Elfboot.Copy
import Elfboot.Memblock

/-!
`memmove` of `copy.S`, instruction by instruction.

A string instruction goes up or down by the direction flag. Going down, the words are moved
first, from four bytes below the end on; the bytes that are left over are then moved from where
the words have ended, which is four bytes below the last word and not one.
-/

namespace Elfboot.Memmove

open Elfboot.Word Elfboot.Buffer Elfboot.Copy Elfboot.Mm

/-- The registers that `memmove` uses, the direction flag and the memory. -/
structure Cpu where
  edi : ℕ
  esi : ℕ
  ecx : ℕ
  df : Bool
  mem : Bytes

/-- The whole address space. -/
def flat : Window := ⟨0, 2 ^ 32⟩

/-- The pointers behind a string instruction on `k` bytes. -/
def Cpu.advance (c : Cpu) (k : ℕ) : Cpu :=
  if c.df then { c with edi := sub32 c.edi k, esi := sub32 c.esi k }
  else { c with edi := u32 (c.edi + k), esi := u32 (c.esi + k) }

def Cpu.movs (c : Cpu) (k : ℕ) : Option Cpu :=
  (Copy.movs flat k c.mem c.edi c.esi).map fun mem => { c with mem }.advance k

def repLoop (k : ℕ) : ℕ → Cpu → Option Cpu
  | 0, c => some c
  | n + 1, c => (c.movs k).bind (repLoop k n)

def Cpu.rep (c : Cpu) (k : ℕ) : Option Cpu :=
  (repLoop k c.ecx c).map fun c => { c with ecx := 0 }

/-- What comes before the first `rep`. -/
def setup (dst src len : ℕ) (c : Cpu) : Cpu :=
  let c := { c with edi := dst, esi := src, ecx := len }
  if c.edi < c.esi then c
  else
    let c := { c with edi := u32 (c.edi + c.ecx), esi := u32 (c.esi + c.ecx) }
    -- `jge` compares signed numbers
    let back := if c.ecx < 4 ∨ 2 ^ 31 ≤ c.ecx then 1 else 4
    { c with edi := sub32 c.edi back, esi := sub32 c.esi back, df := true }

/-- The two `rep`, of words and of the bytes that are left over, and `cld`. -/
def phases (c : Cpu) : Option Cpu :=
  ({ c with ecx := c.ecx >>> 2 }.rep 4).bind fun c₁ =>
    ({ c₁ with ecx := c.ecx &&& 3 }.rep 1).map fun c₂ : Cpu => { c₂ with df := false }

/-- `memmove`. The registers that it saves on the stack are left out. -/
def memmove (dst src len : ℕ) (c : Cpu) : Option Cpu := phases (setup dst src len c)

/-- A call on these arguments moves the bytes, whatever the memory holds, and clears the flag. -/
def Moves (dst src len : ℕ) : Prop :=
  ∀ c : Cpu, c.df = false → ∃ c', memmove dst src len c = some c' ∧
    (∀ i < len, c'.mem (dst + i) = c.mem (src + i)) ∧
    (∀ a, a < dst ∨ dst + len ≤ a → c'.mem a = c.mem a) ∧ c'.df = false

variable {c c' : Cpu} {b : Bytes} {d s k m n a e x : ℕ}

/-! ### The loops -/

lemma sub32_zero (ha : a < 2 ^ 32) : sub32 a 0 = a := by
  unfold sub32
  omega

lemma sub32_sub32 (h : k + m ≤ 2 ^ 32) : sub32 (sub32 a k) m = sub32 a (k + m) := by
  unfold sub32
  omega

lemma sub32_u32 (h : k ≤ 2 ^ 32) : sub32 (u32 a) k = sub32 a k := by
  unfold sub32 u32
  omega

/-- Going down, a row of string instructions is the one on the memory. -/
lemma repLoop_down (n : ℕ) (hc : c.df = true) (he : c.edi < 2 ^ 32) (hs : c.esi < 2 ^ 32)
    (hk : k * n ≤ 2 ^ 32) :
    repLoop k n c = (repMovsDown flat k n c.mem c.edi c.esi).map fun mem =>
      { c with mem, edi := sub32 c.edi (k * n), esi := sub32 c.esi (k * n) } := by
  induction n generalizing c with
  | zero =>
      rw [repLoop, repMovsDown, Option.map_some, Nat.mul_zero, sub32_zero he, sub32_zero hs]
  | succ n ih =>
      rw [Nat.mul_succ] at hk ⊢
      rw [repLoop, repMovsDown, Cpu.movs]
      cases Copy.movs flat k c.mem c.edi c.esi with
      | none => rfl
      | some mem =>
          have hadv : { c with mem }.advance k =
              { c with mem, edi := sub32 c.edi k, esi := sub32 c.esi k } := if_pos hc
          have hsum : k + k * n = k * n + k := Nat.add_comm _ _
          rw [Option.map_some, Option.bind_some, Option.bind_some, hadv,
            ih (c := { c with mem, edi := sub32 c.edi k, esi := sub32 c.esi k }) hc
              (sub32_lt _ _) (sub32_lt _ _) (by omega)]
          dsimp only
          rw [sub32_sub32 (by omega), sub32_sub32 (by omega), hsum]

/-- Going up, too, as long as the pointers stay in the address space. -/
lemma repLoop_up (n : ℕ) (hc : c.df = false) (he : c.edi + k * n ≤ 2 ^ 32)
    (hs : c.esi + k * n ≤ 2 ^ 32) (he' : c.edi < 2 ^ 32) (hs' : c.esi < 2 ^ 32) :
    (repLoop k n c) = (repMovs flat k n c.mem c.edi c.esi).map fun mem =>
      { c with mem, edi := u32 (c.edi + k * n), esi := u32 (c.esi + k * n) } := by
  induction n generalizing c with
  | zero =>
      rw [repLoop, repMovs, Option.map_some, Nat.mul_zero, Nat.add_zero, Nat.add_zero,
        u32_of_lt he', u32_of_lt hs']
  | succ n ih =>
      rw [Nat.mul_succ] at he hs ⊢
      rw [repLoop, repMovs, Cpu.movs]
      cases Copy.movs flat k c.mem c.edi c.esi with
      | none => rfl
      | some mem =>
          have hadv : { c with mem }.advance k =
              { c with mem, edi := u32 (c.edi + k), esi := u32 (c.esi + k) } :=
            if_neg (by rw [hc]; decide)
          rw [Option.map_some, Option.bind_some, Option.bind_some, hadv]
          -- a pointer reaches the end of the address space with the last turn only
          cases n with
          | zero =>
              rw [repLoop, repMovs, Option.map_some, Nat.mul_zero, Nat.zero_add]
          | succ n =>
              have hle : k ≤ k * (n + 1) := Nat.le_mul_of_pos_right k (Nat.succ_pos n)
              have hk : c.edi + k < 2 ^ 32 ∧ c.esi + k < 2 ^ 32 := by omega
              rw [u32_of_lt hk.1, u32_of_lt hk.2]
              have hrest := ih (c := { c with mem, edi := c.edi + k, esi := c.esi + k }) hc
                (by dsimp only; omega) (by dsimp only; omega) hk.1 hk.2
              rw [hrest]
              dsimp only
              rw [Nat.add_assoc, Nat.add_assoc, Nat.add_comm k]

/-- What there is to see of a processor afterwards. -/
def Cpu.seen (c : Cpu) : Bytes × Bool := (c.mem, c.df)

lemma shiftRight_two (n : ℕ) : n >>> 2 = n / 4 := Nat.shiftRight_eq_div_pow n 2

lemma and_three (n : ℕ) : n &&& 3 = n % 4 := Nat.and_two_pow_sub_one_eq_mod n 2

lemma phases_down (hc : c.df = true) (he : c.edi < 2 ^ 32) (hs : c.esi < 2 ^ 32)
    (hn : c.ecx < 2 ^ 31) :
    (phases c).map Cpu.seen =
      ((repMovsDown flat 4 (c.ecx / 4) c.mem c.edi c.esi).bind fun b =>
        repMovsDown flat 1 (c.ecx % 4) b (sub32 c.edi (4 * (c.ecx / 4)))
          (sub32 c.esi (4 * (c.ecx / 4)))).map fun mem => (mem, false) := by
  rw [phases, Cpu.rep, shiftRight_two, and_three,
    repLoop_down (c := { c with ecx := c.ecx / 4 }) (c.ecx / 4) hc he hs (by omega)]
  dsimp only
  cases repMovsDown flat 4 (c.ecx / 4) c.mem c.edi c.esi with
  | none => rfl
  | some b =>
      rw [Option.map_some, Option.map_some, Option.bind_some, Option.bind_some, Cpu.rep]
      dsimp only
      rw [repLoop_down (c := { c with
            edi := sub32 c.edi (4 * (c.ecx / 4)), esi := sub32 c.esi (4 * (c.ecx / 4)),
            ecx := c.ecx % 4, mem := b }) (c.ecx % 4) hc (sub32_lt _ _) (sub32_lt _ _) (by omega)]
      dsimp only
      rw [Option.map_map, Option.map_map, Option.map_map]
      rfl

lemma phases_up (hc : c.df = false) (he : c.edi < 2 ^ 32) (hs : c.esi < 2 ^ 32)
    (he' : c.edi + c.ecx ≤ 2 ^ 32) (hs' : c.esi + c.ecx ≤ 2 ^ 32) :
    (phases c).map Cpu.seen =
      (memcpyAsm flat c.mem c.edi c.esi c.ecx).map fun mem => (mem, false) := by
  rw [phases, Cpu.rep, shiftRight_two, and_three, memcpyAsm,
    repLoop_up (c := { c with ecx := c.ecx / 4 }) (c.ecx / 4) hc (by dsimp only; omega)
      (by dsimp only; omega) he hs]
  dsimp only
  cases repMovs flat 4 (c.ecx / 4) c.mem c.edi c.esi with
  | none => rfl
  | some b =>
      rw [Option.map_some, Option.map_some, Option.bind_some, Option.bind_some, Cpu.rep]
      dsimp only
      rcases Nat.eq_zero_or_pos (c.ecx % 4) with hzero | hpos
      · rw [hzero, repLoop, repMovs]
        rfl
      · have hlt : c.edi + 4 * (c.ecx / 4) < 2 ^ 32 ∧ c.esi + 4 * (c.ecx / 4) < 2 ^ 32 := by omega
        rw [u32_of_lt hlt.1, u32_of_lt hlt.2, repLoop_up (c := { c with
            edi := c.edi + 4 * (c.ecx / 4), esi := c.esi + 4 * (c.ecx / 4),
            ecx := c.ecx % 4, mem := b }) (c.ecx % 4) hc (by dsimp only; omega)
          (by dsimp only; omega) hlt.1 hlt.2]
        dsimp only
        rw [Option.map_map, Option.map_map, Option.map_map]
        rfl

/-- **The instructions** compute what `memmoveAsm` says of the memory, and clear the flag. -/
lemma memmove_seen (hc : c.df = false) (hd : d < 2 ^ 32) (hs : s < 2 ^ 32) (hn : n < 2 ^ 31)
    (hdn : d + n ≤ 2 ^ 32) (hsn : s + n ≤ 2 ^ 32) :
    (memmove d s n c).map Cpu.seen = (memmoveAsm flat c.mem d s n).map fun mem => (mem, false) := by
  unfold memmove setup memmoveAsm
  dsimp only
  by_cases hds : d < s
  · rw [if_pos hds, if_pos hds, phases_up (c := { c with edi := d, esi := s, ecx := n }) hc hd hs
      hdn hsn]
  · rw [if_neg hds, if_neg hds]
    obtain ⟨back, hback⟩ : ∃ k, k = if n < 4 ∨ 2 ^ 31 ≤ n then 1 else 4 := ⟨_, rfl⟩
    have hle : back ≤ 2 ^ 32 := by
      rw [hback]
      split <;> decide
    rw [← hback, sub32_u32 hle, sub32_u32 hle, phases_down (c := { c with
        edi := sub32 (d + n) back, esi := sub32 (s + n) back, ecx := n, df := true }) rfl
      (sub32_lt _ _) (sub32_lt _ _) hn]

/-! ### Downwards -/

/-- **Copying up**: a row of words that goes down from the end, to a higher address. -/
lemma repMovsDown_up (hk : 0 < k) (hsd : s ≤ d) (hd : d + k * n ≤ 2 ^ 32) :
    repMovsDown flat k n b (sub32 (d + k * n) k) (sub32 (s + k * n) k) =
      some (memcpy b d b s (k * n)) := by
  induction n generalizing b with
  | zero =>
      rw [repMovsDown]
      congr 1
      funext i
      rw [memcpy, if_neg (by omega)]
  | succ n ih =>
      rw [Nat.mul_succ] at hd ⊢
      have hpd : sub32 (d + (k * n + k)) k = d + k * n := by
        unfold sub32
        omega
      have hps : sub32 (s + (k * n + k)) k = s + k * n := by
        unfold sub32
        omega
      have hws : flat.has (s + k * n) k := ⟨Nat.zero_le _, by show _ ≤ 2 ^ 32; omega⟩
      have hwd : flat.has (d + k * n) k := ⟨Nat.zero_le _, by show _ ≤ 2 ^ 32; omega⟩
      rw [hpd, hps, repMovsDown, movs, if_pos ⟨hws, hwd⟩, Option.bind_some, ih (by omega)]
      congr 1
      funext i
      unfold memcpy
      by_cases h1 : d ≤ i ∧ i < d + k * n
      · -- a byte of the rest, which the first turn has left alone
        rw [if_pos h1, if_neg (by omega), if_pos (by omega)]
      · rw [if_neg h1]
        by_cases h2 : d + k * n ≤ i ∧ i < d + k * n + k
        · rw [if_pos h2, if_pos (by omega)]
          congr 1
          omega
        · rw [if_neg h2, if_neg (by omega)]

/-- The words of a length that is not below four, from the end down. -/
lemma words_down (hsd : s ≤ d) (hd : d + n ≤ 2 ^ 32) :
    repMovsDown flat 4 (n / 4) b (sub32 (d + n) 4) (sub32 (s + n) 4) =
      some (memcpy b (d + n % 4) b (s + n % 4) (4 * (n / 4))) := by
  have hdn : d + n = d + n % 4 + 4 * (n / 4) := by omega
  have hsn : s + n = s + n % 4 + 4 * (n / 4) := by omega
  rw [hdn, hsn]
  exact repMovsDown_up (by decide) (by omega) (by omega)

/-- Where the words end, four bytes below the last one. -/
lemma words_end (h : 4 * (n / 4) + 4 ≤ 2 ^ 32) :
    sub32 (sub32 (a + n) 4) (4 * (n / 4)) = sub32 (a + n % 4) 4 := by
  have hn := Nat.div_add_mod n 4
  rw [sub32_sub32 (by omega)]
  unfold sub32
  omega

lemma memcpy_self (b : Bytes) (d n : ℕ) : memcpy b d b d n = b := by
  funext i
  unfold memcpy
  split
  · next h => rw [Nat.add_sub_cancel' h.1]
  · rfl

/-- Single bytes can go down from anywhere. What they do not reach stays, and all of it does where
source and destination are one. -/
lemma bytes_down (he : e < 2 ^ 32) (hx : x < 2 ^ 32) (hn : n ≤ 2 ^ 32) :
    ∃ b', repMovsDown flat 1 n b e x = some b' ∧
      (∀ a, (∀ j < n, a ≠ sub32 e j) → b' a = b a) ∧ (e = x → b' = b) := by
  induction n generalizing b e x with
  | zero => exact ⟨b, rfl, fun _ _ => rfl, fun _ => rfl⟩
  | succ n ih =>
      obtain ⟨b', hrun, hothers, hself⟩ :=
        ih (b := memcpy b e b x 1) (sub32_lt e 1) (sub32_lt x 1) (by omega)
      have hwx : flat.has x 1 := ⟨Nat.zero_le _, hx⟩
      have hwe : flat.has e 1 := ⟨Nat.zero_le _, he⟩
      refine ⟨b', ?_, fun a ha => ?_, fun heq => ?_⟩
      · rw [repMovsDown, movs, if_pos ⟨hwx, hwe⟩, Option.bind_some, hrun]
      · have hae : a ≠ e := by
          have h0 := ha 0 (Nat.succ_pos n)
          rwa [sub32_zero he] at h0
        rw [hothers a fun j hj => ?_, memcpy, if_neg (by omega)]
        have hj' := ha (1 + j) (by omega)
        rwa [sub32_sub32 (by omega)]
      · rw [hself (congrArg (sub32 · 1) heq), heq, memcpy_self]

/-! ### Where it moves -/

/-- Downwards with four bytes or more: the words, then bytes from four below the last word on. -/
lemma memmoveAsm_words (hsd : s ≤ d) (hn : 4 ≤ n) (hn' : n < 2 ^ 31) (hd : d + n ≤ 2 ^ 32) :
    memmoveAsm flat b d s n =
      repMovsDown flat 1 (n % 4) (memcpy b (d + n % 4) b (s + n % 4) (4 * (n / 4)))
        (sub32 (d + n % 4) 4) (sub32 (s + n % 4) 4) := by
  have hback : ¬ (n < 4 ∨ 2 ^ 31 ≤ n) := by omega
  have hend : 4 * (n / 4) + 4 ≤ 2 ^ 32 := by omega
  rw [memmoveAsm, if_neg (Nat.not_lt.mpr hsd)]
  dsimp only
  rw [if_neg hback, words_down hsd hd, Option.bind_some, words_end hend, words_end hend]

lemma memmoveAsm_short (hsd : s ≤ d) (hn : n < 4) (hd : d + n ≤ 2 ^ 32) :
    memmoveAsm flat b d s n = some (memcpy b d b s n) := by
  have hwords : n / 4 = 0 := Nat.div_eq_of_lt hn
  have hbytes : n % 4 = n := Nat.mod_eq_of_lt hn
  rw [memmoveAsm, if_neg (Nat.not_lt.mpr hsd)]
  dsimp only
  rw [if_pos (.inl hn), hwords, hbytes, repMovsDown, Option.bind_some, Nat.mul_zero,
    sub32_zero (sub32_lt _ _), sub32_zero (sub32_lt _ _)]
  have hrun := repMovsDown_up (b := b) (k := 1) (n := n) Nat.one_pos hsd (by omega)
  rwa [Nat.one_mul] at hrun

lemma memmoveAsm_moves (hn : n < 2 ^ 31) (hd : d + n ≤ 2 ^ 32) (hs : s + n ≤ 2 ^ 32)
    (h : d ≤ s ∨ n < 4 ∨ n % 4 = 0) :
    memmoveAsm flat b d s n = some (memcpy b d b s n) := by
  by_cases hds : d < s
  · rw [memmoveAsm, if_pos hds]
    exact memcpyAsm_down hds.le ⟨Nat.zero_le _, hs⟩ ⟨Nat.zero_le _, hd⟩
  · have hsd : s ≤ d := Nat.not_lt.mp hds
    by_cases h4 : n < 4
    · exact memmoveAsm_short hsd h4 hd
    · rw [memmoveAsm_words hsd (Nat.not_lt.mp h4) hn hd]
      by_cases hmod : n % 4 = 0
      · have hmul : 4 * (n / 4) = n := by omega
        rw [hmod, repMovsDown, hmul, Nat.add_zero, Nat.add_zero]
      · -- the source is the destination: all that is written is there already
        obtain rfl : d = s := by omega
        obtain ⟨b', hrun, -, hself⟩ :=
          bytes_down (b := memcpy b (d + n % 4) b (d + n % 4) (4 * (n / 4))) (n := n % 4)
            (sub32_lt (d + n % 4) 4) (sub32_lt (d + n % 4) 4) (by omega)
        rw [hrun, hself rfl, memcpy_self, memcpy_self]

/-- **The first byte** of the destination is not reached otherwise. -/
lemma memmoveAsm_stuck (hn : n < 2 ^ 31) (hd : d + n ≤ 2 ^ 32)
    (h : ¬ (d ≤ s ∨ n < 4 ∨ n % 4 = 0)) :
    ∃ b', memmoveAsm flat b d s n = some b' ∧ b' d = b d := by
  rw [not_or, not_or] at h
  obtain ⟨hds, h4, hmod⟩ := h
  obtain ⟨b', hrun, hothers, -⟩ :=
    bytes_down (b := memcpy b (d + n % 4) b (s + n % 4) (4 * (n / 4))) (n := n % 4)
      (sub32_lt (d + n % 4) 4) (sub32_lt (s + n % 4) 4) (by omega)
  refine ⟨b', ?_, ?_⟩
  · rw [memmoveAsm_words (by omega) (Nat.not_lt.mp h4) hn hd, hrun]
  · have hbelow : ∀ j < n % 4, d ≠ sub32 (sub32 (d + n % 4) 4) j := by
      intro j hj
      rw [sub32_sub32 (by omega)]
      unfold sub32
      omega
    rw [hothers d hbelow, memcpy, if_neg (by omega)]

lemma moves_of (hd : d < 2 ^ 32) (hs : s < 2 ^ 32) (hn : n < 2 ^ 31) (hdn : d + n ≤ 2 ^ 32)
    (hsn : s + n ≤ 2 ^ 32) (h : d ≤ s ∨ n < 4 ∨ n % 4 = 0) : Moves d s n := by
  intro c hc
  have hseen := memmove_seen hc hd hs hn hdn hsn
  rw [memmoveAsm_moves hn hdn hsn h, Option.map_some] at hseen
  obtain ⟨c', hrun, heq⟩ := Option.map_eq_some_iff.mp hseen
  have hmem : c'.mem = memcpy c.mem d c.mem s n := congrArg Prod.fst heq
  have hdf : c'.df = false := congrArg Prod.snd heq
  refine ⟨c', hrun, fun i hi => ?_, fun a ha => ?_, hdf⟩
  · rw [hmem, memcpy, if_pos (by omega), Nat.add_sub_cancel_left]
  · rw [hmem, memcpy, if_neg (by omega)]

/-! ### Regions -/

/-- The array of regions at an address. -/
def regionsAt (mem : Bytes) (a i : ℕ) : Region :=
  ⟨le32 mem (a + 8 * i), le32 mem (a + 8 * i + 4)⟩

/-- **Regions are moved** as the array of them says, in either direction. -/
theorem memmove_regions {dst src : ℕ} (hc : c.df = false)
    (hd : a + 8 * dst < 2 ^ 32) (hs : a + 8 * src < 2 ^ 32) (hlen : 8 * n < 2 ^ 31)
    (hdst : a + 8 * (dst + n) ≤ 2 ^ 32) (hsrc : a + 8 * (src + n) ≤ 2 ^ 32) :
    ∃ c', memmove (a + 8 * dst) (a + 8 * src) (8 * n) c = some c' ∧ c'.df = false ∧
      regionsAt c'.mem a = Memblock.memmove (regionsAt c.mem a) dst src n := by
  obtain ⟨c', hrun, hmoved, hothers, hdf⟩ := moves_of (d := a + 8 * dst) (s := a + 8 * src)
    hd hs hlen (by omega) (by omega) (.inr (.inr (by omega))) c hc
  refine ⟨c', hrun, hdf, funext fun j => ?_⟩
  unfold Memblock.memmove
  split_ifs with hj
  · -- the words of a region that is moved
    have hword : ∀ o, o + 4 ≤ 8 → le32 c'.mem (a + 8 * j + o) =
        le32 c.mem (a + 8 * (j - dst + src) + o) := by
      intro o ho
      refine le32_congr fun k hk => ?_
      have hbyte := hmoved (8 * (j - dst) + o + k) (by omega)
      have hto : a + 8 * dst + (8 * (j - dst) + o + k) = a + 8 * j + o + k := by omega
      have hfrom : a + 8 * src + (8 * (j - dst) + o + k) =
          a + 8 * (j - dst + src) + o + k := by omega
      rwa [hto, hfrom] at hbyte
    exact congrArg₂ Region.mk (hword 0 (by decide)) (hword 4 (by decide))
  · have hword : ∀ o, o + 4 ≤ 8 → le32 c'.mem (a + 8 * j + o) = le32 c.mem (a + 8 * j + o) :=
      fun o ho => le32_congr fun k hk => hothers _ (by omega)
    exact congrArg₂ Region.mk (hword 0 (by decide)) (hword 4 (by decide))

/-! ### Exactly where it moves -/

/-- A processor whose memory is zero but for one byte. -/
def marked (a : ℕ) : Cpu := ⟨0, 0, 0, false, fun i => if i = a then 1 else 0⟩

/-- **`memmove` moves** where the destination is not above the source, and above it the lengths
below four and the multiples of four. -/
theorem moves_iff (hd : d < 2 ^ 32) (hs : s < 2 ^ 32) (hn : n < 2 ^ 31) (hdn : d + n ≤ 2 ^ 32)
    (hsn : s + n ≤ 2 ^ 32) : Moves d s n ↔ d ≤ s ∨ n < 4 ∨ n % 4 = 0 := by
  constructor
  · intro hmoves
    by_contra h
    obtain ⟨c', hrun, hbytes, -, -⟩ := hmoves (marked d) rfl
    obtain ⟨b', hasm, hfirst⟩ := memmoveAsm_stuck (b := (marked d).mem) hn hdn h
    have hseen := memmove_seen (c := marked d) rfl hd hs hn hdn hsn
    rw [hrun, hasm, Option.map_some, Option.map_some, Option.some_inj] at hseen
    have hmem : c'.mem = b' := congrArg Prod.fst hseen
    have hone : c'.mem d = 1 := by
      rw [hmem, hfirst]
      exact if_pos rfl
    have hzero : c'.mem (d + 0) = 0 := by
      rw [hbytes 0 (by omega)]
      exact if_neg (by omega)
    rw [Nat.add_zero, hone] at hzero
    exact absurd hzero (by decide)
  · exact moves_of hd hs hn hdn hsn

/-- Five bytes, to the address above. -/
theorem moves_iff_five : Moves 0x1001 0x1000 5 ↔ 0x1001 ≤ 0x1000 ∨ 5 < 4 ∨ 5 % 4 = 0 :=
  moves_iff (by decide) (by decide) (by decide) (by decide) (by decide)

/-- Of these five bytes the first stays behind. -/
theorem not_moves_all : ¬ ∀ d s n, d < 2 ^ 32 → s < 2 ^ 32 → n < 2 ^ 31 → d + n ≤ 2 ^ 32 →
    s + n ≤ 2 ^ 32 → Moves d s n := by
  intro h
  obtain ⟨c', hrun, hbytes, -, -⟩ :=
    h 0x1001 0x1000 5 (by decide) (by decide) (by decide) (by decide) (by decide)
      (marked 0x1001) rfl
  have hfirst : (memmove 0x1001 0x1000 5 (marked 0x1001)).map (fun c => c.mem 0x1001) = some 1 := by
    decide +kernel
  rw [hrun, Option.map_some, Option.some_inj] at hfirst
  have hzero : c'.mem (0x1001 + 0) = 0 := (hbytes 0 (by decide)).trans (by decide)
  rw [Nat.add_zero, hfirst] at hzero
  exact absurd hzero (by decide)

end Elfboot.Memmove
