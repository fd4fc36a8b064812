import Elfboot.Copy

/-!
The text console: `tty.c`.

What has been written is shown as if on a page without an end, of which the screen has the
last rows. A scroll waits for the byte that needs it, so the cursor may stand below the screen
between two bytes.

The port writes that move the cursor on the screen are left out.
-/

namespace Elfboot.Tty

open Elfboot.Word Elfboot.Buffer Elfboot.Copy

abbrev ttyBaseAddress : ℕ := 0xb8000
abbrev ttyMaxWidth : ℕ := 80
abbrev ttyMaxHeight : ℕ := 25
abbrev consoleCharNewline : UInt8 := 10
abbrev consoleCharCreturn : UInt8 := 13
abbrev consoleCharSpace : UInt8 := 32
abbrev consoleScrollUp : ℕ := 0

/-- `struct console`, with the colours as `vga_color`. -/
structure Console where
  active : Bool
  fbaddr : ℕ
  width : ℕ
  height : ℕ
  xunit : ℕ
  yunit : ℕ
  xpos : ℕ
  ypos : ℕ
  bpu : ℕ
  fgcolor : UInt8
  bgcolor : UInt8

/-- `tty_console`, with its cursor at the origin and the colours it may have been given. -/
def ttyConsole (active : Bool) (fgcolor bgcolor : UInt8) : Console where
  active := active
  fbaddr := ttyBaseAddress
  width := ttyMaxWidth
  height := ttyMaxHeight
  xunit := 1
  yunit := 1
  xpos := 0
  ypos := 0
  bpu := 2
  fgcolor := fgcolor
  bgcolor := bgcolor

def consoleUnit (cons : Console) (xpos ypos : ℕ) : ℕ :=
  u32 (cons.fbaddr + cons.bpu * u32 (xpos + cons.width * ypos))

def consoleLine (cons : Console) (ypos : ℕ) : ℕ := consoleUnit cons 0 ypos

def consoleBpl (cons : Console) : ℕ := u32 (cons.width * cons.bpu)

/-- `VGA_COLOR`, as a `uint16_t`. -/
def vgaColor (fgcolor bgcolor : UInt8) : ℕ := (fgcolor.toNat ||| bgcolor.toNat <<< 4) % 2 ^ 16

/-- `tty_char`: the character is signed. -/
def ttyChar (cons : Console) (c : UInt8) : ℕ :=
  let c := if c < 128 then c.toNat else 0xff00 + c.toNat
  (c ||| vgaColor cons.fgcolor cons.bgcolor <<< 8) % 2 ^ 16

/-- The bytes of the frame buffer. -/
def frame : Window := ⟨ttyBaseAddress, ttyBaseAddress + 2 * (ttyMaxWidth * ttyMaxHeight)⟩

/-- The console, the memory, and how often `tty_scroll` has been called. -/
structure State where
  cons : Console
  mem : Bytes
  scrolls : ℕ

/-- `tty_scroll`, as long as it stays inside the frame buffer. -/
def ttyScroll (cons : Console) (mem : Bytes) (direction units : ℕ) : Option Bytes :=
  if units = 0 ∨ direction ≠ consoleScrollUp then some mem
  else
    (memmoveAsm frame mem (consoleLine cons 0) (consoleLine cons units)
        (u32 (consoleBpl cons * sub32 cons.height units))).bind fun mem =>
      memset16 frame mem (consoleLine cons (sub32 cons.height units))
        (ttyChar cons consoleCharSpace) (u32 (consoleBpl cons * units))

/-- The scrolling that a byte begins with. -/
def scrollIfFull (t : State) : Option State :=
  if t.cons.height ≤ t.cons.ypos then
    (ttyScroll t.cons t.mem consoleScrollUp 1).map fun mem =>
      { cons := { t.cons with ypos := sub32 t.cons.ypos t.cons.yunit }
        mem := mem
        scrolls := t.scrolls + 1 }
  else some t

/-- What a byte does after that. -/
def putByte (t : State) (c : UInt8) : Option State :=
  let cons := t.cons
  if c = consoleCharCreturn then some { t with cons := { cons with xpos := 0 } }
  else if c = consoleCharNewline then
    some { t with cons := { cons with xpos := 0, ypos := u32 (cons.ypos + cons.yunit) } }
  else
    (memset16 frame t.mem (consoleUnit cons cons.xpos cons.ypos) (ttyChar cons c) 2).map
      fun mem =>
        let xpos := u32 (cons.xpos + 1)
        { t with
          mem := mem
          cons := if ttyMaxWidth ≤ xpos then { cons with xpos := 0, ypos := u32 (cons.ypos + 1) }
            else { cons with xpos := xpos } }

/-- The loop of `__tty_write`, over what is left of the buffer. -/
def ttyWriteLoop : List UInt8 → State → Option State
  | [], t => some t
  | c :: cs, t =>
    if c = 0 then some t
    else (scrollIfFull t).bind fun t => (putByte t c).bind fun t => ttyWriteLoop cs t

/-- `__tty_write`, as long as it stays inside the frame buffer. -/
def ttyWrite (offset : ℕ) (buffer : List UInt8) (t : State) : Option State :=
  let t := if offset = 0 then t else
    let qr := div offset ttyMaxWidth
    { t with cons := { t.cons with xpos := qr.2, ypos := u32 qr.1 } }
  ttyWriteLoop buffer t

/-- Writes with offset 0, one after the other. -/
def ttyWrites : List (List UInt8) → State → Option State
  | [], t => some t
  | w :: ws, t => (ttyWrite 0 w t).bind (ttyWrites ws)

/-! ### The page -/

/-- A page without an end, and where the next byte goes. -/
structure Page where
  cell : ℕ → ℕ → UInt8
  row : ℕ
  col : ℕ

def Page.blank : Page := ⟨fun _ _ => consoleCharSpace, 0, 0⟩

def Page.write (p : Page) (c : UInt8) : Page :=
  if c = consoleCharCreturn then { p with col := 0 }
  else if c = consoleCharNewline then { p with row := p.row + 1, col := 0 }
  else
    let cell := fun r x => if r = p.row ∧ x = p.col then c else p.cell r x
    if p.col + 1 < ttyMaxWidth then ⟨cell, p.row, p.col + 1⟩ else ⟨cell, p.row + 1, 0⟩

/-- The address of a cell of the screen. -/
def cellAddr (y x : ℕ) : ℕ := ttyBaseAddress + 2 * (ttyMaxWidth * y + x)

/-- The byte of the colours. -/
def colour (cons : Console) : UInt8 := UInt8.ofNat (vgaColor cons.fgcolor cons.bgcolor)

/-- Row `y` of the screen shows row `s + y` of the page, for every row. -/
def ShowsFrom (cons : Console) (mem : Bytes) (p : Page) (s : ℕ) : Prop :=
  ∀ y < ttyMaxHeight, ∀ x < ttyMaxWidth,
    mem (cellAddr y x) = p.cell (s + y) x ∧ mem (cellAddr y x + 1) = colour cons

/-- The screen shows the last rows of the page. -/
structure Shows (t : State) (p : Page) : Prop where
  xpos : t.cons.xpos = p.col
  width : t.cons.xpos < ttyMaxWidth
  height : t.cons.ypos ≤ ttyMaxHeight
  row : p.row = t.scrolls + t.cons.ypos
  rows : ShowsFrom t.cons t.mem p t.scrolls

/-! ### What is written -/

variable {cons : Console} {t t' : State} {p : Page} {mem mem' : Bytes} {c : UInt8} {s y x : ℕ}
  {active : Bool} {fg bg : UInt8}

/-- `tty_console`, wherever its cursor is and whatever its colours are. -/
structure Is (cons : Console) : Prop where
  fbaddr : cons.fbaddr = 0xb8000
  width : cons.width = 80
  height : cons.height = 25
  yunit : cons.yunit = 1
  bpu : cons.bpu = 2

lemma Is.moveTo (h : Is cons) (x y : ℕ) : Is { cons with xpos := x, ypos := y } :=
  ⟨h.fbaddr, h.width, h.height, h.yunit, h.bpu⟩

variable (cons) in
lemma ttyChar_bytes (hc : c < 128) : UInt8.ofNat (ttyChar cons c) = c ∧
    UInt8.ofNat (ttyChar cons c / 2 ^ 8) = colour cons := by
  have hlt : c.toNat < 2 ^ 8 := c.toNat_lt
  unfold ttyChar colour
  dsimp only
  rw [if_pos hc, Nat.or_comm, ← Nat.shiftLeft_add_eq_or_of_lt hlt, Nat.shiftLeft_eq]
  generalize vgaColor cons.fgcolor cons.bgcolor = v
  constructor
  · refine UInt8.toNat_inj.mp ?_
    rw [UInt8.toNat_ofNat']
    omega
  · refine UInt8.toNat_inj.mp ?_
    rw [UInt8.toNat_ofNat', UInt8.toNat_ofNat']
    omega

lemma cellAddr_eq (y x : ℕ) : cellAddr y x = 0xb8000 + 2 * (80 * y + x) := rfl

lemma consoleUnit_eq (h : Is cons) (hx : x < 80) (hy : y ≤ 25) :
    consoleUnit cons x y = cellAddr y x := by
  unfold consoleUnit
  have hin : u32 (x + 80 * y) = x + 80 * y := u32_of_lt (by omega)
  rw [cellAddr_eq, h.fbaddr, h.bpu, h.width, hin, u32_of_lt (by omega), Nat.add_comm x]

lemma consoleBpl_eq (h : Is cons) : consoleBpl cons = 160 := by
  rw [consoleBpl, h.width, h.bpu]
  rfl

variable (cons mem) in
/-- A character is written to one cell. -/
lemma memset16_cell (hx : x < 80) (hy : y < 25) (hc : c < 128) :
    ∃ mem', memset16 frame mem (cellAddr y x) (ttyChar cons c) 2 = some mem' ∧
      mem' (cellAddr y x) = c ∧ mem' (cellAddr y x + 1) = colour cons ∧
      ∀ i, i ≠ cellAddr y x → i ≠ cellAddr y x + 1 → mem' i = mem i := by
  obtain ⟨h1, h2⟩ := ttyChar_bytes cons hc
  have hin : frame.has (cellAddr y x) (2 * 1) := by
    show 0xb8000 ≤ cellAddr y x ∧ cellAddr y x + 2 ≤ 0xb8000 + 4000
    rw [cellAddr_eq]
    omega
  refine ⟨filled mem (cellAddr y x) (ttyChar cons c) 1, repStosw_eq hin, ?_, ?_, ?_⟩
  · exact (filled_even (Nat.zero_lt_one)).trans h1
  · exact (filled_odd (Nat.zero_lt_one)).trans h2
  · intro i hi hi'
    rw [filled, if_neg (by omega)]

variable (mem) in
/-- **A scroll** moves every row up by one and leaves the last one blank. -/
lemma ttyScroll_spec (h : Is cons) :
    ∃ mem', ttyScroll cons mem consoleScrollUp 1 = some mem' ∧
      (∀ y < 24, ∀ x < 80,
        mem' (cellAddr y x) = mem (cellAddr (y + 1) x) ∧
          mem' (cellAddr y x + 1) = mem (cellAddr (y + 1) x + 1)) ∧
      ∀ x < 80, mem' (cellAddr 24 x) = consoleCharSpace ∧
        mem' (cellAddr 24 x + 1) = colour cons := by
  have hsub : sub32 25 1 = 24 := rfl
  obtain ⟨h1, h2⟩ := ttyChar_bytes cons (c := consoleCharSpace) (by decide)
  have hsrc : frame.has (cellAddr 1 0) 3840 := by decide
  have hdst : frame.has (cellAddr 0 0) 3840 := by decide
  have hlast : frame.has (cellAddr 24 0) (2 * 80) := by decide
  have hmove : memmoveAsm frame mem (cellAddr 0 0) (cellAddr 1 0) 3840 =
      some (memcpy mem (cellAddr 0 0) mem (cellAddr 1 0) 3840) := by
    rw [memmoveAsm, if_pos (by decide)]
    exact memcpyAsm_down (by decide) hsrc hdst
  refine ⟨filled (memcpy mem (cellAddr 0 0) mem (cellAddr 1 0) 3840) (cellAddr 24 0)
    (ttyChar cons consoleCharSpace) 80, ?_, ?_, ?_⟩
  · unfold ttyScroll consoleLine
    rw [if_neg (by decide), h.height, hsub, consoleBpl_eq h,
      consoleUnit_eq h (by decide) (by decide), consoleUnit_eq h (by decide) (by decide),
      consoleUnit_eq h (by decide) (by decide), show u32 (160 * 24) = 3840 from rfl, hmove,
      Option.bind_some]
    exact repStosw_eq hlast
  · intro y hy x hx
    have h0 := cellAddr_eq 0 0
    have h1 := cellAddr_eq 1 0
    have h24 := cellAddr_eq 24 0
    have hcell := cellAddr_eq y x
    have hnext := cellAddr_eq (y + 1) x
    unfold filled memcpy
    constructor
    · rw [if_neg (by omega), if_pos (by omega)]
      exact congrArg mem (by omega)
    · rw [if_neg (by omega), if_pos (by omega)]
      exact congrArg mem (by omega)
  · intro x hx
    have hcell : cellAddr 24 x = cellAddr 24 0 + 2 * x := by
      rw [cellAddr_eq, cellAddr_eq]
      omega
    rw [hcell]
    exact ⟨(filled_even hx).trans h1, (filled_odd hx).trans h2⟩

/-! ### A byte -/

/-- What holds between two bytes. Below the cursor the page is blank, and so is the row of the
cursor while it is not on the screen yet. -/
structure Inv (t : State) (p : Page) : Prop extends Shows t p where
  cons : Is t.cons
  below : ∀ r x, p.row < r → p.cell r x = consoleCharSpace
  waiting : t.cons.ypos = 25 → ∀ x, p.cell p.row x = consoleCharSpace

/-- The state with room for a byte on the screen. -/
lemma scrollIfFull_spec (h : Inv t p) :
    ∃ t', scrollIfFull t = some t' ∧ Inv t' p ∧ t'.cons.ypos < 25 := by
  have hle : t.cons.ypos ≤ 25 := h.height
  have hrow := h.row
  unfold scrollIfFull
  rw [h.cons.height, h.cons.yunit]
  rcases Nat.lt_or_ge t.cons.ypos 25 with hlt | hge
  · rw [if_neg (by omega)]
    exact ⟨t, rfl, h, hlt⟩
  · have h25 : t.cons.ypos = 25 := le_antisymm hle hge
    have hsub : sub32 25 1 = 24 := rfl
    obtain ⟨mem', heq, hup, hlast⟩ := ttyScroll_spec t.mem h.cons
    have hrows : ShowsFrom t.cons mem' p (t.scrolls + 1) := by
      intro y hy x hx
      rcases Nat.lt_or_ge y 24 with hlt | hge'
      · rw [(hup y hlt x hx).1, (hup y hlt x hx).2, Nat.add_assoc, Nat.add_comm 1 y]
        exact h.rows (y + 1) (Nat.succ_lt_succ hlt) x hx
      · obtain rfl : y = 24 := le_antisymm (Nat.lt_succ_iff.mp hy) hge'
        have hcell : t.scrolls + 1 + 24 = p.row := by omega
        rw [(hlast x hx).1, (hlast x hx).2, hcell, h.waiting h25]
        exact ⟨rfl, rfl⟩
    rw [if_pos hge, heq, h25, hsub]
    refine ⟨⟨{ t.cons with ypos := 24 }, mem', t.scrolls + 1⟩, rfl,
      ⟨⟨h.xpos, h.toShows.width, ?_, ?_, hrows⟩, h.cons.moveTo _ _, h.below, ?_⟩, ?_⟩
    · exact Nat.le_succ 24
    · dsimp only
      omega
    · intro h24
      dsimp only at h24
      omega
    · exact Nat.lt_succ_self 24

/-- The cell of the cursor gets a byte, and the page with it. -/
lemma showsFrom_cell {cell : ℕ → ℕ → UInt8} {row scrolls : ℕ} {mem mem' : Bytes}
    (h : ShowsFrom cons mem ⟨cell, row, cons.xpos⟩ scrolls) (hw : cons.xpos < 80)
    (hrow : row = scrolls + cons.ypos) (h1 : mem' (cellAddr cons.ypos cons.xpos) = c)
    (h2 : mem' (cellAddr cons.ypos cons.xpos + 1) = colour cons)
    (h3 : ∀ i, i ≠ cellAddr cons.ypos cons.xpos → i ≠ cellAddr cons.ypos cons.xpos + 1 →
      mem' i = mem i) :
    ShowsFrom cons mem'
      ⟨fun r x => if r = row ∧ x = cons.xpos then c else cell r x, row, 0⟩ scrolls := by
  intro y hy x hx
  have hat := cellAddr_eq y x
  have hcur := cellAddr_eq cons.ypos cons.xpos
  have hx80 : x < 80 := hx
  dsimp only
  by_cases hsame : scrolls + y = row ∧ x = cons.xpos
  · obtain ⟨rfl, rfl⟩ : y = cons.ypos ∧ x = cons.xpos := by omega
    rw [if_pos hsame]
    exact ⟨h1, h2⟩
  · rw [if_neg hsame, h3 _ (by omega) (by omega), h3 _ (by omega) (by omega)]
    exact h y hy x hx

lemma putByte_spec (h : Inv t p) (hlt : t.cons.ypos < 25) (hc : c < 128) :
    ∃ t', putByte t c = some t' ∧ Inv t' (p.write c) := by
  obtain ⟨cell, row, col⟩ := p
  obtain rfl : t.cons.xpos = col := h.xpos
  have hw : t.cons.xpos < 80 := h.toShows.width
  have hrow : row = t.scrolls + t.cons.ypos := h.row
  have hsucc : u32 (t.cons.ypos + 1) = t.cons.ypos + 1 := u32_of_lt (by omega)
  have hxsucc : u32 (t.cons.xpos + 1) = t.cons.xpos + 1 := u32_of_lt (by omega)
  have hnext : row + 1 = t.scrolls + (t.cons.ypos + 1) := by omega
  have h0 : 0 < ttyMaxWidth := by decide
  unfold putByte Page.write
  by_cases hr : c = consoleCharCreturn
  · rw [if_pos hr, if_pos hr]
    exact ⟨_, rfl, ⟨rfl, h0, h.height, hrow, h.rows⟩, h.cons.moveTo _ _, h.below, h.waiting⟩
  rw [if_neg hr, if_neg hr]
  by_cases hn : c = consoleCharNewline
  · have hunit : u32 (t.cons.ypos + t.cons.yunit) = t.cons.ypos + 1 := by
      rw [h.cons.yunit, hsucc]
    rw [if_pos hn, if_pos hn, hunit]
    exact ⟨_, rfl, ⟨rfl, h0, hlt, hnext, h.rows⟩, h.cons.moveTo _ _,
      fun r x hr => h.below r x ((Nat.lt_succ_self _).trans hr),
      fun _ x => h.below _ x (Nat.lt_succ_self _)⟩
  rw [if_neg hn, if_neg hn]
  obtain ⟨mem', heq, h1, h2, h3⟩ := memset16_cell t.cons t.mem hw hlt hc
  have hrows := showsFrom_cell h.rows hw hrow h1 h2 h3
  have hbelow : ∀ r x, row < r →
      (if r = row ∧ x = t.cons.xpos then c else cell r x) = consoleCharSpace := by
    intro r x hr
    rw [if_neg (by omega)]
    exact h.below r x hr
  rw [consoleUnit_eq h.cons hw hlt.le, heq, Option.map_some, hxsucc, hsucc]
  dsimp only
  rcases Nat.lt_or_ge (t.cons.xpos + 1) 80 with hin | hwrap
  · rw [if_neg (not_le.mpr hin), if_pos hin]
    exact ⟨_, rfl, ⟨rfl, hin, h.height, hrow, hrows⟩, h.cons.moveTo _ _, hbelow,
      fun h25 => absurd h25 hlt.ne⟩
  · rw [if_pos hwrap, if_neg (not_lt.mpr hwrap)]
    exact ⟨_, rfl, ⟨rfl, h0, hlt, hnext, hrows⟩, h.cons.moveTo _ _,
      fun r x hr => hbelow r x ((Nat.lt_succ_self _).trans hr),
      fun _ x => hbelow _ x (Nat.lt_succ_self _)⟩

/-! ### Writes -/

variable {w v : List UInt8} {ws : List (List UInt8)}

/-- The bytes that the console is asked to write: characters of 7 bits, without a terminator. -/
def Plain (w : List UInt8) : Prop := ∀ c ∈ w, 1 ≤ c ∧ c ≤ 127

lemma ttyWriteLoop_spec (hw : Plain w) (h : Inv t p) :
    ∃ t', ttyWriteLoop w t = some t' ∧ Inv t' (w.foldl Page.write p) := by
  induction w generalizing t p with
  | nil => exact ⟨t, rfl, h⟩
  | cons c w ih =>
    obtain ⟨⟨h1, h127⟩, hw⟩ := List.forall_mem_cons.mp hw
    have hne : c ≠ 0 := fun h0 => absurd (h0 ▸ h1) (by decide)
    have hc : c < 128 := UInt8.lt_of_le_of_lt h127 (by decide)
    obtain ⟨t1, heq1, h1, hlt⟩ := scrollIfFull_spec h
    obtain ⟨t2, heq2, h2⟩ := putByte_spec h1 hlt hc
    obtain ⟨t3, heq3, h3⟩ := ih hw h2
    refine ⟨t3, ?_, h3⟩
    rw [ttyWriteLoop, if_neg hne, heq1, Option.bind_some, heq2, Option.bind_some, heq3]

/-- Two writes are one. -/
lemma ttyWriteLoop_append (hw : Plain w) (v : List UInt8) (t : State) :
    ttyWriteLoop (w ++ v) t = (ttyWriteLoop w t).bind (ttyWriteLoop v) := by
  induction w generalizing t with
  | nil => rfl
  | cons c w ih =>
    obtain ⟨⟨h1, -⟩, hw⟩ := List.forall_mem_cons.mp hw
    have hne : c ≠ 0 := fun h0 => absurd (h0 ▸ h1) (by decide)
    rw [List.cons_append, ttyWriteLoop, ttyWriteLoop, if_neg hne, if_neg hne, Option.bind_assoc]
    refine Option.bind_congr fun t1 _ => ?_
    rw [Option.bind_assoc]
    exact Option.bind_congr fun t2 _ => ih hw t2

lemma ttyWrites_flatten (hws : ∀ w ∈ ws, Plain w) (t : State) :
    ttyWrites ws t = ttyWriteLoop ws.flatten t := by
  induction ws generalizing t with
  | nil => rfl
  | cons w ws ih =>
    obtain ⟨hw, hws⟩ := List.forall_mem_cons.mp hws
    rw [List.flatten_cons, ttyWriteLoop_append hw]
    exact Option.bind_congr fun t1 _ => ih hws t1

/-- A screen of blanks. -/
def Blank (t : State) : Prop := ShowsFrom t.cons t.mem Page.blank 0

/-- **The console shows the last rows** of the page that all bytes written so far make, and
it does not matter how they are divided into writes. -/
theorem writes_shown (mem : Bytes) (active : Bool) (fg bg : UInt8) (ws : List (List UInt8))
    (hblank : Blank ⟨ttyConsole active fg bg, mem, 0⟩) (hws : ∀ w ∈ ws, Plain w) :
    ∃ t, ttyWrites ws ⟨ttyConsole active fg bg, mem, 0⟩ = some t ∧
      Shows t (ws.flatten.foldl Page.write Page.blank) ∧
      ttyWrite 0 ws.flatten ⟨ttyConsole active fg bg, mem, 0⟩ = some t := by
  have hplain : Plain ws.flatten := by
    intro c hc
    obtain ⟨w, hw, hcw⟩ := List.mem_flatten.mp hc
    exact hws w hw c hcw
  have hinv : Inv ⟨ttyConsole active fg bg, mem, 0⟩ Page.blank :=
    ⟨⟨rfl, Nat.lt_of_sub_eq_succ rfl, Nat.zero_le _, rfl, hblank⟩, ⟨rfl, rfl, rfl, rfl, rfl⟩,
      fun _ _ _ => rfl, fun _ _ => rfl⟩
  obtain ⟨t, heq, h⟩ := ttyWriteLoop_spec hplain hinv
  exact ⟨t, (ttyWrites_flatten hws _).trans heq, h.toShows, heq⟩

theorem writes_shown_hello :
    ∃ t, ttyWrites [[104, 105, 10], [33]]
        ⟨ttyConsole true 7 0, fun i => if i % 2 = 0 then 32 else 7, 0⟩ = some t ∧
      Shows t ([104, 105, 10, 33].foldl Page.write Page.blank) ∧
      ttyWrite 0 [104, 105, 10, 33]
        ⟨ttyConsole true 7 0, fun i => if i % 2 = 0 then 32 else 7, 0⟩ = some t :=
  writes_shown _ true 7 0 [[104, 105, 10], [33]]
    (fun y _ x _ => by
      have hcell := cellAddr_eq y x
      exact ⟨if_pos (by omega), if_neg (by omega)⟩)
    (by
      intro w hw c hc
      obtain rfl | rfl : w = [104, 105, 10] ∨ w = [33] := by simpa using hw
      · obtain rfl | rfl | rfl : c = 104 ∨ c = 105 ∨ c = 10 := by simpa using hc
        all_goals decide
      · obtain rfl : c = 33 := by simpa using hc
        decide)

end Elfboot.Tty
