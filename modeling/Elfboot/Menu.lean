import Elfboot.Errno
import Elfboot.Str
import Elfboot.Word

/-!
The boot menu of `loader.c`: the first drawing of the entries, the time until the first key,
and the keys that change the selection.

The console keeps the attributes that it was given last, and a text that is written begins
where they say. The timer interrupts while the menu waits for the first key and not later:
its handler has been taken off the list by then. What a loop reads in a turn, and how often the
timer has interrupted that turn, is an input.
-/

namespace Elfboot.Menu

open Elfboot.Errno Elfboot.Word Elfboot.Buffer Elfboot.Str

abbrev consoleCtrlEnter : UInt8 := 10
abbrev consoleCtrlArrup : UInt8 := 0xA1
abbrev consoleCtrlArrdo : UInt8 := 0xA4

def secstomilli (x : ℕ) : ℕ := x * 1000
def millitosecs (x : ℕ) : ℕ := x / 1000

def control : List UInt8 :=
  chars "Use arrow keys (\x18 and \x19) to change the selection".toList

structure ConsoleAttr where
  active : Bool
  width : ℕ
  height : ℕ
  xpos : ℕ
  ypos : ℕ
  fgcolor : UInt8
  bgcolor : UInt8

/-- `struct tmg_header`, less the signature and the picture. -/
structure TmgHeader where
  width : UInt8
  height : UInt8

/-- What the menu shows. An entry stands for the text with its name and command line. -/
inductive Shown
  | logo
  | control
  | seconds (secs : ℕ)
  | blanks
  | entry (index : ℤ)
  deriving DecidableEq

structure State where
  bootNumber : ℤ
  bootChoice : ℤ
  bootTimeout : ℕ
  menuAttr : ConsoleAttr
  /-- the attributes that the console was given last -/
  given : ConsoleAttr
  /-- what has been shown, with the attributes of the console -/
  shown : List (ConsoleAttr × Shown)
  /-- the calls of `bmalloc` so far -/
  calls : ℕ

/-- How the menu goes on: it waits for a turn, it ends with an error, or it boots an entry. -/
inductive Outcome
  | waits
  | fails (err : ℤ)
  | boots (index : ℤ)

/-- A turn of a loop that reads keys: the timer interrupts, and what `bgetch_noblock` or
`bgetch` gives. -/
structure Turn where
  ticks : ℕ
  c : UInt8

variable (m : Bmalloc) (logo : TmgHeader)

/-- `bmalloc(logo->width)`. -/
def bmalloc (s : State) : Bool × State :=
  (m.ok s.calls logo.width.toNat, { s with calls := s.calls + 1 })

/-- `file_ioctl(menu, IOCTL_RESET, attr)`. -/
def State.reset (s : State) (attr : ConsoleAttr) : State := { s with given := attr }

/-- `file_write(menu, logo->width, ..)`. -/
def State.write (s : State) (text : Shown) : State :=
  { s with shown := s.shown ++ [(s.given, text)] }

def loaderTimeoutCallback (s : State) : State :=
  if s.bootTimeout = 0 then s
  else
    let secsold := millitosecs s.bootTimeout
    let s := { s with bootTimeout := s.bootTimeout - 1 }
    let secsnew := millitosecs s.bootTimeout
    if secsold = secsnew then s
    else
      let (boptstr, s) := bmalloc m logo s
      if !boptstr then s
      else
        let menuAttr := { s.menuAttr with
          xpos := sub32 s.menuAttr.width control.length / 2
          ypos := sub32 s.menuAttr.height 2 }
        ({ s with menuAttr }.reset menuAttr).write (.seconds secsnew)

/-- `loader_boot_choice`, up to the call of `loader_init_module`. -/
def loaderBootChoice (s : State) : Outcome × State :=
  let menuAttr := { s.menuAttr with active := true, xpos := 0, ypos := 0 }
  (.boots s.bootChoice, { s with menuAttr }.reset menuAttr)

def loaderMenuFont (s : State) (index : ℤ) (consAttr : ConsoleAttr) : ℤ × ConsoleAttr :=
  if s.bootNumber ≤ index then (-efault, consAttr)
  else if index = s.bootChoice then
    (0, { consAttr with fgcolor := s.menuAttr.bgcolor, bgcolor := s.menuAttr.fgcolor })
  else (0, { consAttr with fgcolor := s.menuAttr.fgcolor, bgcolor := s.menuAttr.bgcolor })

/-- `menu_attr->ypos + index + 3`, as a `uint32_t`. -/
def entryRow (ypos : ℕ) (index : ℤ) : ℕ := ((ypos + index + 3) % 2 ^ 32).toNat

/-- `loader_menu_show_entry`: it ends with 1 where `entry` is still null. -/
def loaderMenuShowEntry (index : ℤ) (consAttr : ConsoleAttr) (s : State) :
    ℤ × ConsoleAttr × State :=
  let (bent, s) := bmalloc m logo s
  if !bent then (-enomem, consAttr, s)
  else
    let (fent, s) := bmalloc m logo s
    if !fent then (1, consAttr, s)
    else
      let consAttr := { consAttr with ypos := entryRow s.menuAttr.ypos index }
      let (err, consAttr) := loaderMenuFont s index consAttr
      if err ≠ 0 then (1, consAttr, s)
      else (0, consAttr, (s.reset consAttr).write (.entry index))

/-- `4 + (logo->height / 2)`. -/
def menuRow : ℕ := 4 + logo.height.toNat / 2

def loaderInitUpdate (prevChoice : ℤ) (s : State) : ℤ × State :=
  let s := { s with menuAttr := { s.menuAttr with ypos := menuRow logo } }
  let consAttr := { s.menuAttr with xpos := sub32 s.menuAttr.xpos 2 }
  let (err, consAttr, s) := loaderMenuShowEntry m logo prevChoice consAttr s
  if err ≠ 0 then (-efault, s)
  else
    let consAttr := { consAttr with xpos := sub32 s.menuAttr.xpos 2 }
    let (err, _, s) := loaderMenuShowEntry m logo s.bootChoice consAttr s
    if err ≠ 0 then (-efault, s) else (0, s)

/-- A turn of the loop of `loader_menu_init_selected`, up to the next key. -/
def changeSelection (c : UInt8) (s : State) : ℤ × State :=
  if c = consoleCtrlArrup then
    if s.bootChoice ≤ 0 then (0, s)
    else loaderInitUpdate m logo s.bootChoice { s with bootChoice := s.bootChoice - 1 }
  else if c = consoleCtrlArrdo then
    if s.bootNumber - 1 ≤ s.bootChoice then (0, s)
    else loaderInitUpdate m logo s.bootChoice { s with bootChoice := s.bootChoice + 1 }
  else (0, s)

/-- The loop of `loader_menu_init_selected`, and the boot after it. -/
def selectLoop (c : UInt8) (s : State) (turns : List Turn) : Outcome × State :=
  if c = consoleCtrlEnter then loaderBootChoice s
  else
    let (err, s) := changeSelection m logo c s
    if err ≠ 0 then (.fails (-efault), s)
    else
      match turns with
      | [] => (.waits, s)
      | t :: turns => selectLoop t.c s turns

def loaderMenuInitSelected (c : UInt8) (turns : List Turn) (s : State) : Outcome × State :=
  let (noption, s) := bmalloc m logo s
  if !noption then (.fails (-enomem), s)
  else if c = 0 ∨ c = consoleCtrlEnter then loaderBootChoice s
  else selectLoop m logo c ((s.reset s.menuAttr).write .blanks) turns

/-- The loop of `loader_menu_init_keyboard`: the first key, or 0 when the time is over, and the
turns that are left. -/
def keyboardLoop (s : State) : List Turn → Option (UInt8 × List Turn) × State
  | [] => if s.bootTimeout = 0 then (some (0, []), s) else (none, s)
  | t :: turns =>
    if s.bootTimeout = 0 then (some (0, t :: turns), s)
    else
      let s := (loaderTimeoutCallback m logo)^[t.ticks] s
      if t.c ≠ 0 then (some (t.c, turns), s) else keyboardLoop s turns

def loaderMenuInitKeyboard (turns : List Turn) (s : State) : Outcome × State :=
  match keyboardLoop m logo s turns with
  | (none, s) => (.waits, s)
  | (some (c, turns), s) => loaderMenuInitSelected m logo c turns s

/-- `k` turns of the loop of `loader_menu_show`, from an index on. -/
def showLoop : ℕ → ℕ → ConsoleAttr → State → ℤ × State
  | 0, _, _, s => (0, s)
  | k + 1, index, consAttr, s =>
    let (err, consAttr, s) := loaderMenuShowEntry m logo index consAttr s
    if err ≠ 0 then (-efault, s) else showLoop k (index + 1) consAttr s

def loaderMenuShow (turns : List Turn) (s : State) : Outcome × State :=
  let consAttr := { s.menuAttr with ypos := u32 (s.menuAttr.ypos + 3) }
  let (err, s) := showLoop m logo s.bootNumber.toNat 0 consAttr (s.reset consAttr)
  if err ≠ 0 then (.fails (-efault), s) else loaderMenuInitKeyboard m logo turns s

def loaderMenuInit (turns : List Turn) (s : State) : Outcome × State :=
  let menuAttr := { s.menuAttr with
    xpos := sub32 s.menuAttr.width logo.width.toNat / 2
    ypos := 2 }
  let s := ({ s with menuAttr }.reset menuAttr).write .logo
  let menuAttr := { menuAttr with ypos := menuRow logo }
  let consAttr := { menuAttr with
    xpos := sub32 menuAttr.width control.length / 2
    ypos := sub32 menuAttr.height 3 }
  loaderMenuShow m logo turns (({ s with menuAttr }.reset consAttr).write .control)

/-- The menu with `n` entries on a console with the attributes: `loader_init_boot_options` has
left the choice 0. -/
def start (n : ℤ) (attr : ConsoleAttr) (calls : ℕ) : State where
  bootNumber := n
  bootChoice := 0
  bootTimeout := secstomilli 10
  menuAttr := attr
  given := attr
  shown := []
  calls := calls

/-! ### Where the entries are drawn -/

/-- The attributes with which an entry has been drawn, one drawing after the other. -/
def State.drawings (s : State) (k : ℤ) : List ConsoleAttr :=
  (s.shown.filter fun x => x.2 = .entry k).map Prod.fst

/-- The colours of an entry: those of the console, and the other way round for the one that is
highlighted. -/
def colours (attr : ConsoleAttr) (highlighted : Bool) : UInt8 × UInt8 :=
  if highlighted then (attr.bgcolor, attr.fgcolor) else (attr.fgcolor, attr.bgcolor)

/-- The menu is consistent: the choice is an entry, each entry is redrawn where it was drawn first,
and unless a drawing has failed, the choice alone is highlighted. -/
structure Consistent (attr : ConsoleAttr) (r : Outcome × State) : Prop where
  choice : 0 ≤ r.2.bootChoice ∧ r.2.bootChoice < r.2.bootNumber
  placed : ∀ k, ∀ first ∈ (r.2.drawings k).head?, ∀ a ∈ r.2.drawings k,
    a.xpos = first.xpos ∧ a.ypos = first.ypos
  highlighted : (∀ err, r.1 ≠ .fails err) → ∀ k, 0 ≤ k → k < r.2.bootNumber →
    ∃ a ∈ (r.2.drawings k).getLast?, (a.fgcolor, a.bgcolor) = colours attr (k = r.2.bootChoice)

/-! ### When the menu is consistent -/

/-- The seconds that are over after so many ticks. -/
def secondsOver (t : ℕ) : ℕ := 10 - (10000 - t) / 1000

/-- The ticks until the first key, and the keys from that one on; none when the time is over
before. -/
def untilKey : ℕ → List Turn → Option (ℕ × List UInt8)
  | _, [] => none
  | t, turn :: turns =>
    if 10000 ≤ t then none
    else if turn.c ≠ 0 then some (t + turn.ticks, turn.c :: turns.map Turn.c)
    else untilKey (t + turn.ticks) turns

/-- The column of the first drawings. -/
def firstColumn (attr : ConsoleAttr) : ℕ := sub32 attr.width logo.width.toNat / 2

/-- The column of the texts below the entries. -/
def controlColumn (attr : ConsoleAttr) : ℕ := sub32 attr.width control.length / 2

/-- After so many ticks and with these keys an entry is drawn again: there are two entries or more
and memory for their texts, and an arrow goes down before the selection is confirmed. -/
structure Redraws (n : ℤ) (calls t : ℕ) (keys : List UInt8) : Prop where
  entries : 2 ≤ n
  drawn : ∀ i < 2 * n.toNat, m.ok (calls + i) logo.width.toNat
  down : consoleCtrlArrdo ∈ keys.takeWhile (· ≠ consoleCtrlEnter)
  again : ∀ i < 3, m.ok (calls + 2 * n.toNat + secondsOver t + i) logo.width.toNat

/-- One of the ticks has shown how many seconds are left. -/
def Counted (n : ℤ) (calls t : ℕ) : Prop :=
  ∃ i < secondsOver t, m.ok (calls + 2 * n.toNat + i) logo.width.toNat

/-- No entry is drawn again, or the seconds that are left have been shown before, and two columns
to the left of that text is where the entries were drawn first. -/
def InPlace (n : ℤ) (attr : ConsoleAttr) (calls : ℕ) (turns : List Turn) : Prop :=
  ∀ t keys, untilKey 0 turns = some (t, keys) → Redraws m logo n calls t keys →
    Counted m logo n calls t ∧ sub32 (controlColumn attr) 2 = firstColumn logo attr

end Elfboot.Menu
