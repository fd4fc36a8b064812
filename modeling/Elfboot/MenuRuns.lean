import Elfboot.Menu

/-!
The boot menu is consistent exactly when no entry is drawn again, or the timer has moved the
shared attributes to where the redrawing expects them.

The drawings of an entry are the first one, in one column, and the later ones, all in another.
That the choice is an entry and that it alone is highlighted holds in every case.
-/

namespace Elfboot.Menu

open Elfboot.Errno Elfboot.Word Elfboot.Buffer

variable {m : Bmalloc} {logo : TmgHeader} {attr consAttr a : ConsoleAttr} {s s' : State}
  {n index : ℤ} {x calls t : ℕ} {c : UInt8} {turns : List Turn}

/-- There is memory for a text at this call. -/
abbrev Room (m : Bmalloc) (logo : TmgHeader) (i : ℕ) : Prop := m.ok i logo.width.toNat = true

/-! ### Drawings -/

lemma drawings_write (s : State) (text : Shown) (k : ℤ) :
    (s.write text).drawings k = s.drawings k ++ if text = .entry k then [s.given] else [] := by
  unfold State.drawings State.write
  rw [List.filter_append, List.map_append]
  by_cases h : text = .entry k
  · simp [h]
  · simp [h]

/-- The place and the colours of a drawing. -/
structure DrawnAs (s : State) (index : ℤ) (x : ℕ) (a : ConsoleAttr) : Prop where
  xpos : a.xpos = x
  ypos : a.ypos = entryRow s.menuAttr.ypos index
  colours : (a.fgcolor, a.bgcolor) = colours s.menuAttr (index = s.bootChoice)

/-- The state after an entry has been drawn. -/
def State.draw (s : State) (index : ℤ) (a : ConsoleAttr) : State :=
  ({ s with calls := s.calls + 2 }.reset a).write (.entry index)

lemma drawings_draw (s : State) (index : ℤ) (a : ConsoleAttr) (k : ℤ) :
    (s.draw index a).drawings k = s.drawings k ++ if index = k then [a] else [] := by
  unfold State.draw
  rw [drawings_write]
  simp only [Shown.entry.injEq]
  rfl

/-- **An entry is drawn**, or there is no room for its texts and nothing is drawn. -/
lemma showEntry_spec (m : Bmalloc) (logo : TmgHeader) (consAttr : ConsoleAttr)
    (h : index < s.bootNumber) :
    (Room m logo s.calls ∧ Room m logo (s.calls + 1) ∧ ∃ a, DrawnAs s index consAttr.xpos a ∧
        loaderMenuShowEntry m logo index consAttr s = (0, a, s.draw index a)) ∨
      (¬ (Room m logo s.calls ∧ Room m logo (s.calls + 1)) ∧ ∃ err ≠ 0, ∃ calls,
        loaderMenuShowEntry m logo index consAttr s = (err, consAttr, { s with calls })) := by
  unfold loaderMenuShowEntry bmalloc
  dsimp only
  by_cases hbent : m.ok s.calls logo.width.toNat = true
  · by_cases hfent : m.ok (s.calls + 1) logo.width.toNat = true
    · left
      refine ⟨hbent, hfent, ?_⟩
      simp only [hbent, hfent, Bool.not_true, Bool.false_eq_true, if_false]
      unfold loaderMenuFont
      simp only [not_le.mpr h, if_false]
      by_cases hchoice : index = s.bootChoice
      · simp only [hchoice, if_true, ne_eq, not_true_eq_false, if_false]
        refine ⟨_, ?_, rfl⟩
        exact ⟨rfl, rfl, by simp [colours]⟩
      · simp only [hchoice, if_false, ne_eq, not_true_eq_false]
        refine ⟨_, ?_, rfl⟩
        exact ⟨rfl, rfl, by simp [colours, hchoice]⟩
    · right
      refine ⟨fun h => hfent h.2, 1, one_ne_zero, s.calls + 1 + 1, ?_⟩
      simp only [hbent, hfent, Bool.not_true, Bool.not_false, Bool.false_eq_true, if_false,
        if_true]
  · right
    refine ⟨fun h => hbent h.1, -enomem, by decide, s.calls + 1, ?_⟩
    simp only [hbent, Bool.not_false, if_true]

/-- What is known of the drawings once all entries have been drawn: the first drawings and the later
ones each have their column. -/
structure Drawn (logo : TmgHeader) (attr : ConsoleAttr) (n : ℤ) (x : ℕ) (s : State) : Prop where
  number : s.bootNumber = n
  choice : 0 ≤ s.bootChoice ∧ s.bootChoice < n
  shown : ∀ k, 0 ≤ k → k < n → s.drawings k ≠ []
  first : ∀ k, ∀ a ∈ (s.drawings k).head?,
    a.xpos = firstColumn logo attr ∧ a.ypos = entryRow (menuRow logo) k
  again : ∀ k, ∀ a ∈ (s.drawings k).tail, a.xpos = x ∧ a.ypos = entryRow (menuRow logo) k

/-- The choice alone is highlighted. -/
def Highlighted (attr : ConsoleAttr) (s : State) : Prop :=
  ∀ k, 0 ≤ k → k < s.bootNumber →
    ∃ a ∈ (s.drawings k).getLast?, (a.fgcolor, a.bgcolor) = colours attr (k = s.bootChoice)

/-- An entry has been drawn again. -/
def Redrawn (s : State) : Prop := ∃ k, (s.drawings k).tail ≠ []

/-- **Each entry is where it was drawn first** if and only if none has been drawn again, or the
columns are the same. -/
lemma placed_iff (h : Drawn logo attr n x s) :
    (∀ k, ∀ first ∈ (s.drawings k).head?, ∀ a ∈ s.drawings k,
        a.xpos = first.xpos ∧ a.ypos = first.ypos) ↔
      (Redrawn s → x = firstColumn logo attr) := by
  constructor
  · rintro hplaced ⟨k, hk⟩
    have hfirst := h.first k
    have hagain := h.again k
    have hplaced := hplaced k
    rcases hd : s.drawings k with _ | ⟨a, _ | ⟨b, rest⟩⟩
    · rw [hd] at hk
      exact absurd rfl hk
    · rw [hd] at hk
      exact absurd rfl hk
    · rw [hd] at hfirst hagain hplaced
      have hb := (hplaced a rfl b (by simp)).1
      rw [← (hfirst a rfl).1, ← (hagain b (by simp)).1, hb]
  · intro hx k first hfirst a ha
    have hf := h.first k first hfirst
    have hagain := h.again k
    rcases hd : s.drawings k with _ | ⟨b, rest⟩
    · rw [hd] at ha
      exact absurd ha (List.not_mem_nil)
    · rw [hd] at ha hfirst hagain
      obtain rfl : b = first := by simpa using hfirst
      rcases List.mem_cons.mp ha with rfl | ha
      · exact ⟨rfl, rfl⟩
      · have hat := hagain a ha
        have hre : Redrawn s := ⟨k, by rw [hd]; exact List.ne_nil_of_mem ha⟩
        rw [hat.1, hat.2, hf.1, hf.2, hx hre]
        exact ⟨rfl, rfl⟩

/-! ### A key -/

/-- The attributes of the menu lead to a column, with the colours of the console. -/
structure Aimed (attr : ConsoleAttr) (x : ℕ) (s : State) : Prop where
  column : sub32 s.menuAttr.xpos 2 = x
  fgcolor : s.menuAttr.fgcolor = attr.fgcolor
  bgcolor : s.menuAttr.bgcolor = attr.bgcolor

lemma Aimed.colours_eq (h : Aimed attr x s) (b : Bool) : colours s.menuAttr b = colours attr b := by
  unfold colours
  rw [h.fgcolor, h.bgcolor]

/-- What a drawing of an entry leaves. -/
lemma Drawn.draw (h : Drawn logo attr n x s) (hindex : 0 ≤ index ∧ index < n)
    (hrow : s.menuAttr.ypos = menuRow logo) (ha : DrawnAs s index x a) :
    Drawn logo attr n x (s.draw index a) ∧ Redrawn (s.draw index a) := by
  have hne := h.shown index hindex.1 hindex.2
  have hself : (s.draw index a).drawings index = s.drawings index ++ [a] := by
    rw [drawings_draw, if_pos rfl]
  have hother : ∀ k, index ≠ k → (s.draw index a).drawings k = s.drawings k := by
    intro k hk
    rw [drawings_draw, if_neg hk, List.append_nil]
  refine ⟨⟨h.number, h.choice, ?_, ?_, ?_⟩, index, ?_⟩
  · intro k h0 hn
    rw [drawings_draw]
    exact List.append_ne_nil_of_left_ne_nil (h.shown k h0 hn) _
  · intro k b hb
    by_cases hk : index = k
    · subst hk
      rw [hself, List.head?_append_of_ne_nil _ hne] at hb
      exact h.first index b hb
    · rw [hother k hk] at hb
      exact h.first k b hb
  · intro k b hb
    by_cases hk : index = k
    · subst hk
      rw [hself, List.tail_append_of_ne_nil hne] at hb
      rcases List.mem_append.mp hb with hb | hb
      · exact h.again index b hb
      · obtain rfl := List.mem_singleton.mp hb
        exact ⟨ha.xpos, hrow ▸ ha.ypos⟩
    · rw [hother k hk] at hb
      exact h.again k b hb
  · rw [hself, List.tail_append_of_ne_nil hne]
    exact List.append_ne_nil_of_right_ne_nil _ (List.cons_ne_nil a [])

/-- The same drawings, choice and number of entries. -/
structure Kept (s s' : State) : Prop where
  number : s'.bootNumber = s.bootNumber
  choice : s'.bootChoice = s.bootChoice
  drawings : s'.drawings = s.drawings

lemma Drawn.of_kept (h : Drawn logo attr n x s) (hk : Kept s s') : Drawn logo attr n x s' := by
  refine ⟨hk.number.trans h.number, ?_, ?_, ?_, ?_⟩
  · rw [hk.choice]
    exact h.choice
  · rw [hk.drawings]
    exact h.shown
  · rw [hk.drawings]
    exact h.first
  · rw [hk.drawings]
    exact h.again

lemma Kept.redrawn_iff (hk : Kept s s') : Redrawn s' ↔ Redrawn s := by
  unfold Redrawn
  rw [hk.drawings]

lemma Highlighted.of_kept (h : Highlighted attr s) (hk : Kept s s') : Highlighted attr s' := by
  unfold Highlighted
  rw [hk.number, hk.choice, hk.drawings]
  exact h

lemma kept_boot (s : State) : Kept s (loaderBootChoice s).2 := ⟨rfl, rfl, rfl⟩

/-- The colours of the last drawing of an entry. -/
def LastAs (attr : ConsoleAttr) (s : State) (k : ℤ) (highlighted : Bool) : Prop :=
  ∃ a ∈ (s.drawings k).getLast?, (a.fgcolor, a.bgcolor) = colours attr highlighted

/-- The state with the menu's own row. -/
def State.atRow (s : State) (logo : TmgHeader) : State :=
  { s with menuAttr := { s.menuAttr with ypos := menuRow logo } }

lemma initUpdate_eq (m : Bmalloc) (logo : TmgHeader) (prev : ℤ) (s : State) :
    loaderInitUpdate m logo prev s =
      (let (err, consAttr, s) := loaderMenuShowEntry m logo prev
        { (s.atRow logo).menuAttr with xpos := sub32 (s.atRow logo).menuAttr.xpos 2 } (s.atRow logo)
      if err ≠ 0 then (-efault, s)
      else
        let (err, _, s) := loaderMenuShowEntry m logo s.bootChoice
          { consAttr with xpos := sub32 s.menuAttr.xpos 2 } s
        if err ≠ 0 then (-efault, s) else (0, s)) :=
  rfl

/-- An entry is drawn again, or there is no room for its texts. -/
lemma redraw_spec (consAttr : ConsoleAttr) (h : Drawn logo attr n x s) (haim : Aimed attr x s)
    (hrow : s.menuAttr.ypos = menuRow logo) (hindex : 0 ≤ index ∧ index < n) :
    (Room m logo s.calls ∧ Room m logo (s.calls + 1) ∧ ∃ a,
        loaderMenuShowEntry m logo index
          { consAttr with xpos := sub32 s.menuAttr.xpos 2 } s = (0, a, s.draw index a) ∧
        Drawn logo attr n x (s.draw index a) ∧ Redrawn (s.draw index a) ∧
        (a.fgcolor, a.bgcolor) = colours attr (index = s.bootChoice)) ∨
      (¬ (Room m logo s.calls ∧ Room m logo (s.calls + 1)) ∧ ∃ err ≠ 0, ∃ a calls,
        loaderMenuShowEntry m logo index
          { consAttr with xpos := sub32 s.menuAttr.xpos 2 } s = (err, a, { s with calls })) := by
  have hlt : index < s.bootNumber := by
    rw [h.number]
    exact hindex.2
  obtain ⟨hroom, hroom', a, ha, heq⟩ | ⟨hno, err, herr, calls', heq⟩ :=
    showEntry_spec m logo { consAttr with xpos := sub32 s.menuAttr.xpos 2 } hlt
  · have ha : DrawnAs s index x a := ⟨ha.xpos.trans haim.column, ha.ypos, ha.colours⟩
    obtain ⟨hd, hre⟩ := h.draw hindex hrow ha
    exact .inl ⟨hroom, hroom', a, heq, hd, hre, ha.colours.trans (haim.colours_eq _)⟩
  · exact .inr ⟨hno, err, herr, _, calls', heq⟩

lemma lastAs_draw {k : ℤ} {b : Bool}
    (ha : index = k → (a.fgcolor, a.bgcolor) = colours attr b)
    (hs : index ≠ k → LastAs attr s k b) : LastAs attr (s.draw index a) k b := by
  unfold LastAs
  rw [drawings_draw]
  by_cases hk : index = k
  · rw [if_pos hk, List.getLast?_concat]
    exact ⟨a, rfl, ha hk⟩
  · rw [if_neg hk, List.append_nil]
    exact hs hk

/-- **A redraw** of two entries, after which the new choice alone is highlighted. -/
lemma initUpdate_spec {prev : ℤ} (m : Bmalloc) (h : Drawn logo attr n x s)
    (haim : Aimed attr x s) (hprev : 0 ≤ prev ∧ prev < n)
    (hplain : ∀ k, 0 ≤ k → k < n → k ≠ prev → k ≠ s.bootChoice → LastAs attr s k false) :
    ∃ err s', loaderInitUpdate m logo prev s = (err, s') ∧ Drawn logo attr n x s' ∧
      Aimed attr x s' ∧ (err = 0 → Highlighted attr s' ∧ Redrawn s') ∧
      (Redrawn s' ↔ Redrawn s ∨ Room m logo s.calls ∧ Room m logo (s.calls + 1)) := by
  have hkept : Kept s (s.atRow logo) := ⟨rfl, rfl, rfl⟩
  have haim₁ : Aimed attr x (s.atRow logo) := ⟨haim.column, haim.fgcolor, haim.bgcolor⟩
  have h₁ := h.of_kept hkept
  have hefault : -efault ≠ 0 := by decide
  rw [initUpdate_eq]
  obtain ⟨hroom, hroom', a, heq, h₂, hre, ha⟩ | ⟨hno, err, herr, a, calls', heq⟩ :=
    redraw_spec (m := m) (s.atRow logo).menuAttr h₁ haim₁ rfl hprev
  · rw [heq]
    dsimp only
    rw [if_neg (not_not.mpr rfl)]
    have haim₂ : Aimed attr x ((s.atRow logo).draw prev a) :=
      ⟨haim.column, haim.fgcolor, haim.bgcolor⟩
    obtain ⟨-, -, b, heq, h₃, hre', hb⟩ | ⟨-, err, herr, b, calls', heq⟩ :=
      redraw_spec (m := m) a h₂ haim₂ rfl h₂.choice
    · rw [heq]
      dsimp only
      rw [if_neg (not_not.mpr rfl)]
      refine ⟨0, _, rfl, h₃, ⟨haim.column, haim.fgcolor, haim.bgcolor⟩,
        fun _ => ⟨fun k h0 hn => ?_, hre'⟩,
        iff_of_true hre' (.inr ⟨hroom, hroom'⟩)⟩
      have hn' : k < n := h₃.number ▸ hn
      refine lastAs_draw (fun hk => ?_) fun hk => lastAs_draw (fun hk' => ?_) fun hk' => ?_
      · rw [← hk]
        exact hb
      · rw [← hk']
        exact ha
      · have hk : k ≠ s.bootChoice := Ne.symm hk
        have hlast := hplain k h0 hn' (Ne.symm hk') hk
        rwa [← decide_eq_false hk] at hlast
    · rw [heq]
      dsimp only
      rw [if_pos herr]
      exact ⟨-efault, _, rfl, h₂.of_kept ⟨rfl, rfl, rfl⟩,
        ⟨haim.column, haim.fgcolor, haim.bgcolor⟩, fun h0 => absurd h0 hefault,
        iff_of_true hre (.inr ⟨hroom, hroom'⟩)⟩
  · rw [heq]
    dsimp only
    rw [if_pos herr]
    have hkept' : Kept s { s.atRow logo with calls := calls' } := ⟨rfl, rfl, rfl⟩
    refine ⟨-efault, _, rfl, h.of_kept hkept', ⟨haim.column, haim.fgcolor, haim.bgcolor⟩,
      fun h0 => absurd h0 hefault, ?_⟩
    rw [hkept'.redrawn_iff]
    exact ⟨.inl, fun hor => hor.resolve_right hno⟩

/-- The choice moves to an entry. -/
lemma update_spec {choice : ℤ} (m : Bmalloc) (h : Drawn logo attr n x s) (haim : Aimed attr x s)
    (hlit : Highlighted attr s) (hchoice : 0 ≤ choice ∧ choice < n) :
    ∃ err s', loaderInitUpdate m logo s.bootChoice { s with bootChoice := choice } = (err, s') ∧
      Drawn logo attr n x s' ∧ Aimed attr x s' ∧ (err = 0 → Highlighted attr s' ∧ Redrawn s') ∧
      (Redrawn s' ↔ Redrawn s ∨ Room m logo s.calls ∧ Room m logo (s.calls + 1)) := by
  have hmoved : Drawn logo attr n x { s with bootChoice := choice } :=
    ⟨h.number, hchoice, h.shown, h.first, h.again⟩
  refine initUpdate_spec m hmoved ⟨haim.column, haim.fgcolor, haim.bgcolor⟩ h.choice ?_
  intro k h0 hn hprev _
  have hlast := hlit k h0 (h.number ▸ hn)
  rwa [decide_eq_false hprev] at hlast

/-- What a key does that is not `CONSOLE_CTRL_ENTER`. -/
lemma changeSelection_spec (m : Bmalloc) (c : UInt8) (h : Drawn logo attr n x s)
    (haim : Aimed attr x s) (hlit : Highlighted attr s) :
    ∃ err s', changeSelection m logo c s = (err, s') ∧ Drawn logo attr n x s' ∧
      Aimed attr x s' ∧ (err = 0 → Highlighted attr s') ∧ (Redrawn s → Redrawn s') := by
  have hstay : ∃ err s', ((0, s) : ℤ × State) = (err, s') ∧ Drawn logo attr n x s' ∧
      Aimed attr x s' ∧ (err = 0 → Highlighted attr s') ∧ (Redrawn s → Redrawn s') :=
    ⟨0, s, rfl, h, haim, fun _ => hlit, id⟩
  have hmove : ∀ choice, 0 ≤ choice ∧ choice < n → ∃ err s',
      loaderInitUpdate m logo s.bootChoice { s with bootChoice := choice } = (err, s') ∧
      Drawn logo attr n x s' ∧ Aimed attr x s' ∧ (err = 0 → Highlighted attr s') ∧
      (Redrawn s → Redrawn s') := by
    intro choice hchoice
    obtain ⟨err, s', heq, hd, ha, hl, hre⟩ := update_spec m h haim hlit hchoice
    exact ⟨err, s', heq, hd, ha, fun h0 => (hl h0).1, fun hs => hre.2 (.inl hs)⟩
  have hin := h.choice
  have hnum := h.number
  unfold changeSelection
  split_ifs with hup htop hdown hbottom
  · exact hstay
  · exact hmove _ (by omega)
  · exact hstay
  · exact hmove _ (by omega)
  · exact hstay

/-- With the first entry as the choice, a key does nothing unless it is the arrow down and there
is a second entry. -/
lemma changeSelection_first (h : Drawn logo attr n x s) (haim : Aimed attr x s)
    (hlit : Highlighted attr s) (hzero : s.bootChoice = 0) :
    (c = consoleCtrlArrdo ∧ 2 ≤ n ∧ ∃ err s', changeSelection m logo c s = (err, s') ∧
        Drawn logo attr n x s' ∧ Aimed attr x s' ∧ (err = 0 → Highlighted attr s' ∧ Redrawn s') ∧
        (Redrawn s' ↔ Redrawn s ∨ Room m logo s.calls ∧ Room m logo (s.calls + 1))) ∨
      (¬ (c = consoleCtrlArrdo ∧ 2 ≤ n) ∧ changeSelection m logo c s = (0, s)) := by
  have hnum := h.number
  have hne : consoleCtrlArrdo ≠ consoleCtrlArrup := by decide
  by_cases hmove : c = consoleCtrlArrdo ∧ 2 ≤ n
  · left
    obtain ⟨rfl, htwo⟩ := hmove
    have hchoice : 0 ≤ s.bootChoice + 1 ∧ s.bootChoice + 1 < n := by omega
    obtain ⟨err, s', heq, hspec⟩ := update_spec m h haim hlit hchoice
    refine ⟨rfl, htwo, err, s', ?_, hspec⟩
    rw [changeSelection, if_neg hne, if_pos rfl, if_neg (by omega)]
    exact heq
  · refine .inr ⟨hmove, ?_⟩
    unfold changeSelection
    split_ifs with hup htop hdown hbottom
    · rfl
    · omega
    · rfl
    · exact absurd ⟨hdown, by omega⟩ hmove
    · rfl

/-! ### The keys -/

/-- **All keys** leave the drawings as they should be, and the choice highlighted unless a drawing
has failed. -/
lemma selectLoop_spec (m : Bmalloc) (c : UInt8) (turns : List Turn) (h : Drawn logo attr n x s)
    (haim : Aimed attr x s) (hlit : Highlighted attr s) :
    Drawn logo attr n x (selectLoop m logo c s turns).2 ∧
      ((∀ err, (selectLoop m logo c s turns).1 ≠ .fails err) →
        Highlighted attr (selectLoop m logo c s turns).2) ∧
      (Redrawn s → Redrawn (selectLoop m logo c s turns).2) := by
  induction turns generalizing c s with
  | nil =>
      rw [selectLoop]
      by_cases henter : c = consoleCtrlEnter
      · rw [if_pos henter]
        exact ⟨h.of_kept (kept_boot s), fun _ => hlit.of_kept (kept_boot s), id⟩
      · rw [if_neg henter]
        obtain ⟨err, s', heq, hd, -, hl, hre⟩ := changeSelection_spec m c h haim hlit
        rw [heq]
        dsimp only
        by_cases herr : err = 0
        · rw [if_neg (not_not.mpr herr)]
          exact ⟨hd, fun _ => hl herr, hre⟩
        · rw [if_pos herr]
          exact ⟨hd, fun hok => absurd rfl (hok _), hre⟩
  | cons turn turns ih =>
      rw [selectLoop]
      by_cases henter : c = consoleCtrlEnter
      · rw [if_pos henter]
        exact ⟨h.of_kept (kept_boot s), fun _ => hlit.of_kept (kept_boot s), id⟩
      · rw [if_neg henter]
        obtain ⟨err, s', heq, hd, ha, hl, hre⟩ := changeSelection_spec m c h haim hlit
        rw [heq]
        dsimp only
        by_cases herr : err = 0
        · rw [if_neg (not_not.mpr herr)]
          obtain ⟨hd', hl', hre'⟩ := ih turn.c hd ha (hl herr)
          exact ⟨hd', hl', fun hs => hre' (hre hs)⟩
        · rw [if_pos herr]
          exact ⟨hd, fun hok => absurd rfl (hok _), hre⟩

/-- **An entry is drawn again** with the first arrow down, if there is room. -/
lemma selectLoop_redrawn_iff (m : Bmalloc) (c : UInt8) (turns : List Turn)
    (h : Drawn logo attr n x s) (haim : Aimed attr x s) (hlit : Highlighted attr s)
    (hzero : s.bootChoice = 0) (hno : ¬ Redrawn s) :
    Redrawn (selectLoop m logo c s turns).2 ↔ 2 ≤ n ∧
      consoleCtrlArrdo ∈ (c :: turns.map Turn.c).takeWhile (· ≠ consoleCtrlEnter) ∧
      Room m logo s.calls ∧ Room m logo (s.calls + 1) := by
  have hfirst : ∀ (s' : State) (keys : List UInt8), 2 ≤ n →
      (Redrawn s' ↔ Redrawn s ∨ Room m logo s.calls ∧ Room m logo (s.calls + 1)) →
      (Redrawn s' ↔ 2 ≤ n ∧ consoleCtrlArrdo ∈ consoleCtrlArrdo :: keys ∧ Room m logo s.calls ∧
        Room m logo (s.calls + 1)) := by
    intro s' keys htwo hre
    rw [hre]
    exact ⟨fun hor => ⟨htwo, List.mem_cons_self, hor.resolve_left hno⟩, fun hin => .inr hin.2.2⟩
  induction turns generalizing c with
  | nil =>
      rw [selectLoop]
      by_cases henter : c = consoleCtrlEnter
      · rw [if_pos henter, List.takeWhile_cons_of_neg (by simpa using henter)]
        exact iff_of_false hno fun hin => absurd hin.2.1 List.not_mem_nil
      rw [if_neg henter, List.takeWhile_cons_of_pos (by simpa using henter)]
      obtain ⟨rfl, htwo, err, s', heq, -, -, -, hre⟩ | ⟨hstay, heq⟩ :=
        changeSelection_first (m := m) (c := c) h haim hlit hzero
      · rw [heq]
        dsimp only
        rw [apply_ite Prod.snd, ite_self]
        exact hfirst s' _ htwo hre
      · rw [heq]
        dsimp only
        rw [if_neg (not_not.mpr rfl)]
        refine iff_of_false hno fun hin => hstay ⟨?_, hin.1⟩
        exact (List.mem_singleton.mp hin.2.1).symm
  | cons turn turns ih =>
      rw [selectLoop]
      by_cases henter : c = consoleCtrlEnter
      · rw [if_pos henter, List.takeWhile_cons_of_neg (by simpa using henter)]
        exact iff_of_false hno fun hin => absurd hin.2.1 List.not_mem_nil
      rw [if_neg henter, List.takeWhile_cons_of_pos (by simpa using henter)]
      obtain ⟨rfl, htwo, err, s', heq, hd, ha, hl, hre⟩ | ⟨hstay, heq⟩ :=
        changeSelection_first (m := m) (c := c) h haim hlit hzero
      · rw [heq]
        dsimp only
        have hiff := hfirst s'
          (((turn :: turns).map Turn.c).takeWhile (· ≠ consoleCtrlEnter)) htwo hre
        by_cases herr : err = 0
        · rw [if_neg (not_not.mpr herr)]
          have hre' := (selectLoop_spec m turn.c turns hd ha (hl herr).1).2.2 (hl herr).2
          exact iff_of_true hre' (hiff.1 (hl herr).2)
        · rw [if_pos herr]
          exact hiff
      · rw [heq]
        dsimp only
        rw [if_neg (not_not.mpr rfl)]
        refine (ih turn.c).trans ?_
        rw [List.map_cons, List.mem_cons]
        constructor
        · exact fun hin => ⟨hin.1, .inr hin.2.1, hin.2.2⟩
        · rintro ⟨htwo, hdown | hdown, hroom⟩
          · exact absurd ⟨hdown.symm, htwo⟩ hstay
          · exact ⟨htwo, hdown, hroom⟩

/-! ### The first drawings -/

/-- The entries below an index have been drawn once, the others not yet. -/
structure FirstDrawn (logo : TmgHeader) (attr : ConsoleAttr) (i : ℕ) (s : State) : Prop where
  drawn : ∀ k : ℤ, 0 ≤ k → k < i → ∃ a, s.drawings k = [a] ∧ a.xpos = firstColumn logo attr ∧
    a.ypos = entryRow (menuRow logo) k ∧ (a.fgcolor, a.bgcolor) = colours attr (k = 0)
  others : ∀ k : ℤ, ¬ (0 ≤ k ∧ k < i) → s.drawings k = []

/-- What the menu has been set up with. -/
structure Ready (logo : TmgHeader) (attr : ConsoleAttr) (n : ℤ) (s : State) : Prop where
  number : s.bootNumber = n
  choice : s.bootChoice = 0
  timeout : s.bootTimeout = 10000
  width : s.menuAttr.width = attr.width
  xpos : s.menuAttr.xpos = firstColumn logo attr
  ypos : s.menuAttr.ypos = menuRow logo
  fgcolor : s.menuAttr.fgcolor = attr.fgcolor
  bgcolor : s.menuAttr.bgcolor = attr.bgcolor

lemma FirstDrawn.draw {i : ℕ} (h : FirstDrawn logo attr i s) (hr : Ready logo attr n s)
    (ha : DrawnAs s i (firstColumn logo attr) a) : FirstDrawn logo attr (i + 1) (s.draw i a) := by
  have hcolours : (a.fgcolor, a.bgcolor) = colours attr ((i : ℤ) = 0) := by
    rw [ha.colours, hr.choice]
    unfold colours
    rw [hr.fgcolor, hr.bgcolor]
  refine ⟨fun k h0 hk => ?_, fun k hk => ?_⟩
  · rw [drawings_draw]
    by_cases heq : (i : ℤ) = k
    · subst heq
      rw [if_pos rfl, h.others i (by omega)]
      exact ⟨a, rfl, ha.xpos, hr.ypos ▸ ha.ypos, hcolours⟩
    · rw [if_neg heq, List.append_nil]
      exact h.drawn k h0 (by omega)
  · rw [drawings_draw, if_neg (by omega), List.append_nil]
    exact h.others k (by omega)

lemma room_succ {k : ℕ} : (∀ i < 2 * (k + 1), Room m logo (calls + i)) ↔
    (Room m logo calls ∧ Room m logo (calls + 1)) ∧ ∀ i < 2 * k, Room m logo (calls + 2 + i) := by
  constructor
  · intro h
    refine ⟨⟨h 0 (by omega), h 1 (by omega)⟩, fun i hi => ?_⟩
    rw [Nat.add_assoc, Nat.add_comm 2]
    exact h (i + 2) (by omega)
  · rintro ⟨⟨h0, h1⟩, hrest⟩ i hi
    match i, hi with
    | 0, _ => exact h0
    | 1, _ => exact h1
    | i + 2, hi =>
      have hat := hrest i (by omega)
      rwa [Nat.add_assoc, Nat.add_comm 2] at hat

/-- **The entries are drawn** one after the other, while there is room for their texts. -/
lemma showLoop_spec {k i : ℕ} (m : Bmalloc) (consAttr : ConsoleAttr) (hr : Ready logo attr n s)
    (hcol : consAttr.xpos = firstColumn logo attr) (hk : (i + k : ℤ) = n)
    (h : FirstDrawn logo attr i s) :
    ∃ err s', showLoop m logo k i consAttr s = (err, s') ∧ Ready logo attr n s' ∧
      ((err = 0 ∧ (∀ j < 2 * k, Room m logo (s.calls + j)) ∧ s'.calls = s.calls + 2 * k ∧
          FirstDrawn logo attr (i + k) s') ∨
        (err ≠ 0 ∧ (¬ ∀ j < 2 * k, Room m logo (s.calls + j)) ∧
          ∃ j, FirstDrawn logo attr j s')) := by
  induction k generalizing i consAttr s with
  | zero => exact ⟨0, s, rfl, hr, .inl ⟨rfl, fun j hj => absurd hj (Nat.not_lt_zero j), rfl, h⟩⟩
  | succ k ih =>
      have hlt : (i : ℤ) < s.bootNumber := by
        rw [hr.number]
        omega
      rw [room_succ, showLoop]
      obtain ⟨hroom, hroom', a, ha, heq⟩ | ⟨hno, err, herr, calls', heq⟩ :=
        showEntry_spec m logo consAttr hlt
      · rw [heq]
        dsimp only
        rw [if_neg (not_not.mpr rfl)]
        rw [hcol] at ha
        have hr' : Ready logo attr n (s.draw i a) :=
          ⟨hr.number, hr.choice, hr.timeout, hr.width, hr.xpos, hr.ypos, hr.fgcolor, hr.bgcolor⟩
        obtain ⟨err, s', hloop, hr', hend⟩ := ih _ hr' ha.xpos (by omega) (h.draw hr ha)
        refine ⟨err, s', hloop, hr', hend.imp (fun hok => ?_) fun hno => ?_⟩
        · obtain ⟨herr, hrooms, hcalls, hdrawn⟩ := hok
          refine ⟨herr, ⟨⟨hroom, hroom'⟩, hrooms⟩, ?_, ?_⟩
          · rw [hcalls]
            exact Nat.add_assoc s.calls 2 (2 * k) |>.trans (by rw [Nat.mul_succ, Nat.add_comm 2])
          · rwa [Nat.add_comm k 1, ← Nat.add_assoc]
        · exact ⟨hno.1, fun hall => hno.2.1 hall.2, hno.2.2⟩
      · rw [heq]
        dsimp only
        rw [if_pos herr]
        exact ⟨_, _, rfl,
          ⟨hr.number, hr.choice, hr.timeout, hr.width, hr.xpos, hr.ypos, hr.fgcolor, hr.bgcolor⟩,
          .inr ⟨by decide, fun hall => hno hall.1, i, ⟨h.drawn, h.others⟩⟩⟩

lemma FirstDrawn.short {i : ℕ} (h : FirstDrawn logo attr i s) (k : ℤ) :
    s.drawings k = [] ∨ ∃ a, s.drawings k = [a] ∧ a.xpos = firstColumn logo attr ∧
      a.ypos = entryRow (menuRow logo) k := by
  by_cases hk : 0 ≤ k ∧ k < i
  · obtain ⟨a, ha, hx, hy, -⟩ := h.drawn k hk.1 hk.2
    exact .inr ⟨a, ha, hx, hy⟩
  · exact .inl (h.others k hk)

/-- All entries have been drawn once, with the first as the choice. -/
structure Fresh (logo : TmgHeader) (attr : ConsoleAttr) (n : ℤ) (s : State) : Prop where
  choice : s.bootChoice = 0
  drawn : ∀ x, Drawn logo attr n x s
  lit : Highlighted attr s
  once : ¬ Redrawn s

lemma Fresh.of_kept (h : Fresh logo attr n s) (hk : Kept s s') : Fresh logo attr n s' :=
  ⟨hk.choice.trans h.choice, fun x => (h.drawn x).of_kept hk, h.lit.of_kept hk,
    fun hre => h.once (hk.redrawn_iff.1 hre)⟩

lemma FirstDrawn.fresh (h : FirstDrawn logo attr n.toNat s) (hr : Ready logo attr n s)
    (hn : 1 ≤ n) : Fresh logo attr n s := by
  have hnat : (n.toNat : ℤ) = n := Int.toNat_of_nonneg (by omega)
  have htail : ∀ k, (s.drawings k).tail = [] := by
    intro k
    obtain hk | ⟨a, ha, -⟩ := h.short k
    · rw [hk]
      rfl
    · rw [ha]
      rfl
  refine ⟨hr.choice, fun x => ⟨hr.number, ?_, fun k h0 hk => ?_, fun k a ha => ?_,
    fun k a ha => ?_⟩, fun k h0 hk => ?_, fun ⟨k, hk⟩ => hk (htail k)⟩
  · rw [hr.choice]
    omega
  · obtain ⟨a, ha, -⟩ := h.drawn k h0 (by omega)
    rw [ha]
    exact List.cons_ne_nil a []
  · obtain hk | ⟨b, hb, hx, hy⟩ := h.short k
    · rw [hk] at ha
      exact absurd ha (Option.not_mem_none a)
    · rw [hb] at ha
      obtain rfl : b = a := by simpa using ha
      exact ⟨hx, hy⟩
  · rw [htail k] at ha
    exact absurd ha List.not_mem_nil
  · rw [hr.number] at hk
    obtain ⟨a, ha, -, -, hcolours⟩ := h.drawn k h0 (by omega)
    refine ⟨a, ?_, ?_⟩
    · rw [ha]
      rfl
    · rw [hr.choice]
      exact hcolours

/-! ### The ticks -/

/-- The menu waits for a key, and the timer has interrupted so many times since there were so many
calls. -/
structure Waiting (m : Bmalloc) (logo : TmgHeader) (attr : ConsoleAttr) (n : ℤ) (calls t : ℕ)
    (s : State) : Prop where
  fresh : Fresh logo attr n s
  timeout : s.bootTimeout = 10000 - t
  count : s.calls = calls + secondsOver t
  counted : (∃ i < secondsOver t, Room m logo (calls + i)) → s.menuAttr.xpos = controlColumn attr
  uncounted : (¬ ∃ i < secondsOver t, Room m logo (calls + i)) →
    s.menuAttr.xpos = firstColumn logo attr
  width : s.menuAttr.width = attr.width
  fgcolor : s.menuAttr.fgcolor = attr.fgcolor
  bgcolor : s.menuAttr.bgcolor = attr.bgcolor

lemma Kept.write {text : Shown} (hk : Kept s s') (h : ∀ k, text ≠ .entry k) :
    Kept s (s'.write text) := by
  refine ⟨hk.number, hk.choice, funext fun k => ?_⟩
  rw [drawings_write, if_neg (h k), List.append_nil, hk.drawings]

/-- **A tick** that ends a second moves the attributes of the menu, if there is room for the
text. -/
lemma Waiting.tick (h : Waiting m logo attr n calls t s) :
    Waiting m logo attr n calls (t + 1) (loaderTimeoutCallback m logo s) := by
  have htime := h.timeout
  unfold loaderTimeoutCallback
  by_cases hzero : s.bootTimeout = 0
  · have hover : secondsOver (t + 1) = secondsOver t := by
      unfold secondsOver
      omega
    rw [if_pos hzero]
    refine ⟨h.fresh, by omega, ?_, ?_, ?_, h.width, h.fgcolor, h.bgcolor⟩
    all_goals rw [hover]
    · exact h.count
    · exact h.counted
    · exact h.uncounted
  rw [if_neg hzero]
  dsimp only
  have hnext : s.bootTimeout - 1 = 10000 - (t + 1) := by omega
  by_cases hsecs : millitosecs s.bootTimeout = millitosecs (s.bootTimeout - 1)
  · have hover : secondsOver (t + 1) = secondsOver t := by
      unfold millitosecs at hsecs
      unfold secondsOver
      omega
    rw [if_pos hsecs]
    refine ⟨h.fresh.of_kept ⟨rfl, rfl, rfl⟩, hnext, ?_, ?_, ?_, h.width, h.fgcolor, h.bgcolor⟩
    all_goals rw [hover]
    · exact h.count
    · exact h.counted
    · exact h.uncounted
  have hover : secondsOver (t + 1) = secondsOver t + 1 := by
    unfold millitosecs at hsecs
    unfold secondsOver
    omega
  have hcalls : s.calls + 1 = calls + secondsOver (t + 1) := by
    rw [h.count, hover]
    rfl
  rw [if_neg hsecs]
  unfold bmalloc
  dsimp only
  by_cases hroom : m.ok s.calls logo.width.toNat = true
  · rw [hroom]
    simp only [Bool.not_true, Bool.false_eq_true, if_false]
    have hcounted : ∃ i < secondsOver (t + 1), Room m logo (calls + i) := by
      rw [hover, Nat.exists_lt_succ_right, ← h.count]
      exact .inr hroom
    obtain ⟨x, hx⟩ : ∃ x, x = sub32 s.menuAttr.width control.length / 2 := ⟨_, rfl⟩
    obtain ⟨y, hy⟩ : ∃ y, y = sub32 s.menuAttr.height 2 := ⟨_, rfl⟩
    rw [← hx, ← hy]
    refine ⟨h.fresh.of_kept (Kept.write ⟨rfl, rfl, rfl⟩ ?_), hnext, hcalls, fun _ => ?_,
      fun hno => absurd hcounted hno, h.width, h.fgcolor, h.bgcolor⟩
    · intro k hk
      cases hk
    · rw [controlColumn, ← h.width]
      exact hx
  · simp only [hroom, Bool.not_false, if_true]
    refine ⟨h.fresh.of_kept ⟨rfl, rfl, rfl⟩, hnext, hcalls, fun hin => ?_, fun hno => ?_, h.width,
      h.fgcolor, h.bgcolor⟩
    · rw [hover, Nat.exists_lt_succ_right, ← h.count] at hin
      exact h.counted (hin.resolve_right hroom)
    · rw [hover, Nat.exists_lt_succ_right, ← h.count] at hno
      exact h.uncounted fun hin => hno (.inl hin)

lemma Waiting.ticks (h : Waiting m logo attr n calls t s) (k : ℕ) :
    Waiting m logo attr n calls (t + k) ((loaderTimeoutCallback m logo)^[k] s) := by
  induction k with
  | zero => exact h
  | succ k ih =>
      rw [Function.iterate_succ_apply', ← Nat.add_assoc]
      exact ih.tick

/-- **The time until the first key**: the loop ends with it, or the time is over before, or there
is no key yet. -/
lemma keyboardLoop_spec (h : Waiting m logo attr n calls t s) (turns : List Turn) :
    ∃ t' s', Waiting m logo attr n calls t' s' ∧
      ((∃ c rest, keyboardLoop m logo s turns = (some (c, rest), s') ∧ c ≠ 0 ∧
          untilKey t turns = some (t', c :: rest.map Turn.c)) ∨
        (untilKey t turns = none ∧ (keyboardLoop m logo s turns = (none, s') ∨
          ∃ rest, keyboardLoop m logo s turns = (some (0, rest), s')))) := by
  have htime := h.timeout
  induction turns generalizing t s with
  | nil =>
      refine ⟨t, s, h, .inr ⟨rfl, ?_⟩⟩
      rw [keyboardLoop]
      by_cases hzero : s.bootTimeout = 0
      · rw [if_pos hzero]
        exact .inr ⟨[], rfl⟩
      · rw [if_neg hzero]
        exact .inl rfl
  | cons turn turns ih =>
      rw [keyboardLoop, untilKey]
      by_cases hzero : s.bootTimeout = 0
      · have ht : 10000 ≤ t := by omega
        rw [if_pos hzero, if_pos ht]
        exact ⟨t, s, h, .inr ⟨rfl, .inr ⟨turn :: turns, rfl⟩⟩⟩
      · have ht : ¬ 10000 ≤ t := by omega
        rw [if_neg hzero, if_neg ht]
        have h' := h.ticks turn.ticks
        by_cases hkey : turn.c ≠ 0
        · rw [if_pos hkey, if_pos hkey]
          exact ⟨_, _, h', .inl ⟨turn.c, turns, rfl, hkey, rfl⟩⟩
        · rw [if_neg hkey, if_neg hkey]
          exact ih h' h'.timeout

/-! ### The whole menu -/

lemma Fresh.consistent {r : Outcome × State} (h : Fresh logo attr n r.2) : Consistent attr r := by
  have hd := h.drawn 0
  refine ⟨?_, (placed_iff hd).2 fun hre => absurd hre h.once, fun _ => h.lit⟩
  rw [hd.number]
  exact hd.choice

lemma FirstDrawn.consistent {i : ℕ} {err : ℤ} (h : FirstDrawn logo attr i s)
    (hr : Ready logo attr n s) (hn : 1 ≤ n) : Consistent attr (.fails err, s) := by
  refine ⟨?_, fun k first hfirst a ha => ?_, fun hok => absurd rfl (hok err)⟩
  · rw [hr.choice, hr.number]
    omega
  · obtain hk | ⟨b, hb, -⟩ := h.short k
    · rw [hk] at ha
      exact absurd ha List.not_mem_nil
    · rw [hb] at ha hfirst
      obtain rfl := List.mem_singleton.mp ha
      obtain rfl : a = first := by simpa using hfirst
      exact ⟨rfl, rfl⟩

lemma sub32_two_ne {y : ℕ} (hy : y < 2 ^ 32) : sub32 y 2 ≠ y := by
  unfold sub32
  omega

lemma firstColumn_lt (logo : TmgHeader) (attr : ConsoleAttr) : firstColumn logo attr < 2 ^ 32 := by
  have h : sub32 attr.width logo.width.toNat < 2 ^ 32 := Nat.mod_lt _ (by decide)
  exact (Nat.div_le_self _ _).trans_lt h

/-- The columns of the first drawings and of the later ones are the same. -/
lemma Waiting.column_iff (h : Waiting m logo attr n calls t s) :
    sub32 s.menuAttr.xpos 2 = firstColumn logo attr ↔
      (∃ i < secondsOver t, Room m logo (calls + i)) ∧
        sub32 (controlColumn attr) 2 = firstColumn logo attr := by
  by_cases hcounted : ∃ i < secondsOver t, Room m logo (calls + i)
  · rw [h.counted hcounted]
    exact ⟨fun heq => ⟨hcounted, heq⟩, fun heq => heq.2⟩
  · rw [h.uncounted hcounted]
    exact iff_of_false (sub32_two_ne (firstColumn_lt logo attr)) fun heq => hcounted heq.1

/-- What is left after the first key. -/
lemma selected_iff (h : Waiting m logo attr n (calls + 2 * n.toNat) t s) (hc : c ≠ 0)
    (hrooms : ∀ i < 2 * n.toNat, Room m logo (calls + i)) (turns : List Turn) :
    Consistent attr (loaderMenuInitSelected m logo c turns s) ↔
      (Redraws m logo n calls t (c :: turns.map Turn.c) →
        Counted m logo n calls t ∧ sub32 (controlColumn attr) 2 = firstColumn logo attr) := by
  have hcount := h.count
  have hcalled : Fresh logo attr n { s with calls := s.calls + 1 } :=
    h.fresh.of_kept ⟨rfl, rfl, rfl⟩
  unfold loaderMenuInitSelected bmalloc
  dsimp only
  by_cases hroom : m.ok s.calls logo.width.toNat = true
  swap
  · simp only [hroom, Bool.not_false, if_true]
    refine iff_of_true hcalled.consistent fun hre => ?_
    exact absurd (hcount ▸ hre.again 0 (by decide)) hroom
  simp only [hroom, Bool.not_true, Bool.false_eq_true, if_false]
  by_cases henter : c = 0 ∨ c = consoleCtrlEnter
  · obtain rfl := henter.resolve_left hc
    rw [if_pos henter]
    refine iff_of_true (hcalled.of_kept (kept_boot _)).consistent fun hre => ?_
    exact absurd hre.down (by rw [List.takeWhile_cons_of_neg (by simp)]; exact List.not_mem_nil)
  rw [if_neg henter]
  obtain ⟨s₁, hs₁⟩ : ∃ s₁, s₁ = ({ s with calls := s.calls + 1 }.reset s.menuAttr).write .blanks :=
    ⟨_, rfl⟩
  have hkept : Kept s s₁ := by
    rw [hs₁]
    exact Kept.write ⟨rfl, rfl, rfl⟩ fun k hk => by cases hk
  have haim : Aimed attr (sub32 s.menuAttr.xpos 2) s₁ := by
    rw [hs₁]
    exact ⟨rfl, h.fgcolor, h.bgcolor⟩
  have hcalls : s₁.calls = calls + 2 * n.toNat + secondsOver t + 1 := by
    rw [hs₁, ← hcount]
    rfl
  have hf := h.fresh.of_kept hkept
  have hdrawn := hf.drawn (sub32 s.menuAttr.xpos 2)
  have hre : Redrawn (selectLoop m logo c s₁ turns).2 ↔
      Redraws m logo n calls t (c :: turns.map Turn.c) := by
    rw [selectLoop_redrawn_iff m c turns hdrawn haim hf.lit hf.choice hf.once, hcalls]
    constructor
    · rintro ⟨htwo, hdown, hroom₁, hroom₂⟩
      refine ⟨htwo, hrooms, hdown, fun i hi => ?_⟩
      match i, hi with
      | 0, _ => exact hcount ▸ hroom
      | 1, _ => exact hroom₁
      | 2, _ => exact hroom₂
    · exact fun hre => ⟨hre.entries, hre.down, hre.again 1 (by decide), hre.again 2 (by decide)⟩
  obtain ⟨hd, hlit, -⟩ := selectLoop_spec m c turns hdrawn haim hf.lit
  have hcolumn := h.column_iff
  rw [← hs₁, ← hre]
  constructor
  · intro hcons hredrawn
    exact hcolumn.1 ((placed_iff hd).1 hcons.placed hredrawn)
  · intro hplace
    refine ⟨?_, (placed_iff hd).2 fun hredrawn => hcolumn.2 (hplace hredrawn), hlit⟩
    rw [hd.number]
    exact hd.choice

/-- No key has come in time. -/
lemma selected_timeout (h : Fresh logo attr n s) (turns : List Turn) :
    Consistent attr (loaderMenuInitSelected m logo 0 turns s) := by
  have hcalled : Fresh logo attr n { s with calls := s.calls + 1 } := h.of_kept ⟨rfl, rfl, rfl⟩
  unfold loaderMenuInitSelected bmalloc
  dsimp only
  by_cases hroom : m.ok s.calls logo.width.toNat = true
  · simp only [hroom, Bool.not_true, Bool.false_eq_true, if_false, true_or, if_true]
    exact (hcalled.of_kept (kept_boot _)).consistent
  · simp only [hroom, Bool.not_false, if_true]
    exact hcalled.consistent

/-- What `loader_menu_init` gives to `loader_menu_show`. -/
def painted (logo : TmgHeader) (s : State) : State :=
  let menuAttr := { s.menuAttr with
    xpos := sub32 s.menuAttr.width logo.width.toNat / 2
    ypos := 2 }
  let s := ({ s with menuAttr }.reset menuAttr).write .logo
  let menuAttr := { menuAttr with ypos := menuRow logo }
  let consAttr := { menuAttr with
    xpos := sub32 menuAttr.width control.length / 2
    ypos := sub32 menuAttr.height 3 }
  ({ s with menuAttr }.reset consAttr).write .control

lemma menuInit_eq (turns : List Turn) (s : State) :
    loaderMenuInit m logo turns s = loaderMenuShow m logo turns (painted logo s) := rfl

lemma ready_painted (logo : TmgHeader) (attr : ConsoleAttr) (n : ℤ) (calls : ℕ) :
    Ready logo attr n (painted logo (start n attr calls)) := by
  obtain ⟨x, hx⟩ : ∃ x, x = sub32 attr.width logo.width.toNat / 2 := ⟨_, rfl⟩
  unfold painted start State.reset State.write
  dsimp only
  rw [← hx]
  exact ⟨rfl, rfl, rfl, rfl, hx, rfl, rfl, rfl⟩

/-- **A run of the menu** is consistent if and only if the entries are in place. -/
lemma consistent_turns_iff (hn : 1 ≤ n) (turns : List Turn) :
    Consistent attr (loaderMenuInit m logo turns (start n attr calls)) ↔
      InPlace m logo n attr calls turns := by
  have hready := ready_painted logo attr n calls
  have hnat : ((0 : ℕ) + n.toNat : ℤ) = n := by omega
  rw [menuInit_eq, loaderMenuShow]
  obtain ⟨s₀, hs₀⟩ : ∃ s₀, s₀ = painted logo (start n attr calls) := ⟨_, rfl⟩
  have hcalls : s₀.calls = calls := by
    rw [hs₀]
    rfl
  have hblank : ∀ k, s₀.drawings k = [] := by
    intro k
    rw [hs₀]
    rfl
  rw [← hs₀] at hready ⊢
  dsimp only
  have hready' : Ready logo attr n
      (s₀.reset { s₀.menuAttr with ypos := u32 (s₀.menuAttr.ypos + 3) }) :=
    ⟨hready.number, hready.choice, hready.timeout, hready.width, hready.xpos, hready.ypos,
      hready.fgcolor, hready.bgcolor⟩
  obtain ⟨err, s₁, hloop, hready₁, hend⟩ := showLoop_spec (k := n.toNat) (i := 0) m
    { s₀.menuAttr with ypos := u32 (s₀.menuAttr.ypos + 3) } hready' hready.xpos hnat
    ⟨fun k h0 hk => absurd hk (by omega), fun k _ => hblank k⟩
  rw [hready.number, hloop]
  dsimp only
  have hrooms : ∀ j, (s₀.reset { s₀.menuAttr with ypos := u32 (s₀.menuAttr.ypos + 3) }).calls + j =
      calls + j := fun j => congrArg (· + j) hcalls
  simp only [hrooms] at hend
  obtain ⟨rfl, hroom, hcount, hdrawn⟩ | ⟨herr, hno, j, hdrawn⟩ := hend
  · rw [if_neg (not_not.mpr rfl)]
    rw [Nat.zero_add] at hdrawn
    have hfresh := hdrawn.fresh hready₁ hn
    have hwait : Waiting m logo attr n (calls + 2 * n.toNat) 0 s₁ := by
      refine ⟨hfresh, hready₁.timeout, hcount, fun hin => ?_, fun _ => hready₁.xpos, hready₁.width,
        hready₁.fgcolor, hready₁.bgcolor⟩
      obtain ⟨i, hi, -⟩ := hin
      exact absurd hi (Nat.not_lt_zero i)
    obtain ⟨t, s₂, hwait, ⟨c, rest, hloop, hc, huntil⟩ | ⟨hnone, hloop⟩⟩ :=
      keyboardLoop_spec hwait turns
    · rw [loaderMenuInitKeyboard, hloop]
      refine (selected_iff hwait hc hroom rest).trans ?_
      unfold InPlace
      rw [huntil]
      constructor
      · rintro hplace t' keys ⟨⟩ hre
        exact hplace hre
      · exact fun hplace hre => hplace t _ rfl hre
    · refine iff_of_true ?_ fun t' keys hin => absurd (hnone.symm.trans hin) (by simp)
      rw [loaderMenuInitKeyboard]
      obtain hloop | ⟨rest, hloop⟩ := hloop
      · rw [hloop]
        exact hwait.fresh.consistent
      · rw [hloop]
        exact selected_timeout hwait.fresh rest
  · rw [if_pos herr]
    exact iff_of_true (hdrawn.consistent hready₁ hn) fun t keys _ hre => absurd hre.drawn hno

lemma untilKey_take {keys : List UInt8} {t' : ℕ} (j : ℕ)
    (h : untilKey t (turns.take j) = some (t', keys)) :
    ∃ rest, untilKey t turns = some (t', keys ++ rest) := by
  induction turns generalizing t j with
  | nil =>
      rw [List.take_nil] at h
      exact absurd h (by simp [untilKey])
  | cons turn turns ih =>
      cases j with
      | zero => exact absurd h (by simp [untilKey])
      | succ j =>
          rw [List.take_succ_cons, untilKey] at h
          rw [untilKey]
          split_ifs at h ⊢ with htime hkey
          · obtain ⟨rfl, rfl⟩ : t + turn.ticks = t' ∧
                turn.c :: (turns.take j).map Turn.c = keys := by simpa using h
            refine ⟨(turns.drop j).map Turn.c, ?_⟩
            rw [List.cons_append, ← List.map_append, List.take_append_drop]
          · exact ih j h

/-- With more keys after them, an entry is drawn again as well. -/
lemma Redraws.append {keys : List UInt8} (h : Redraws m logo n calls t keys) (rest : List UInt8) :
    Redraws m logo n calls t (keys ++ rest) := by
  refine ⟨h.entries, h.drawn, ?_, h.again⟩
  rw [List.takeWhile_append]
  split_ifs with hall
  · exact List.mem_append_left _ ((List.takeWhile_sublist _).subset h.down)
  · exact h.down

/-- **The boot menu stays consistent** up to every turn if and only if no entry is drawn again, or
it is drawn where it was drawn first. -/
theorem menu_consistent_iff (m : Bmalloc) (logo : TmgHeader) (attr : ConsoleAttr) (calls : ℕ)
    (hn : 1 ≤ n) (turns : List Turn) :
    (∀ j, Consistent attr (loaderMenuInit m logo (turns.take j) (start n attr calls))) ↔
      InPlace m logo n attr calls turns := by
  constructor
  · intro hall
    have hlast := hall turns.length
    rw [List.take_length] at hlast
    exact (consistent_turns_iff hn turns).1 hlast
  · intro hplace j
    refine (consistent_turns_iff hn _).2 fun t keys huntil hre => ?_
    obtain ⟨rest, hrest⟩ := untilKey_take j huntil
    exact hplace t _ hrest (hre.append rest)

/-- There is always memory. -/
def roomy : Bmalloc := ⟨fun _ _ => true, fun _ _ => 0⟩

/-- A console of 80 columns, and a logo of 52. -/
abbrev console : ConsoleAttr := ⟨false, 80, 25, 0, 0, 7, 0⟩

abbrev logo52 : TmgHeader := ⟨52, 10⟩

/-- The arrow down comes before the timer has interrupted. -/
abbrev untimed : List Turn := [⟨0, consoleCtrlArrdo⟩]

lemma consistent_iff_untimed :
    (∀ j, Consistent console (loaderMenuInit roomy logo52 (untimed.take j) (start 2 console 0))) ↔
      InPlace roomy logo52 2 console 0 untimed :=
  menu_consistent_iff roomy logo52 console 0 (by decide) untimed

/-- The first entry is drawn again two columns to the left. -/
lemma not_consistent_untimed :
    ((loaderMenuInit roomy logo52 untimed (start 2 console 0)).2.drawings 0).map
        (fun a => (a.xpos, a.ypos)) = [(14, 12), (12, 12)] ∧
      ¬ ∀ j, Consistent console
        (loaderMenuInit roomy logo52 (untimed.take j) (start 2 console 0)) := by
  have hplaces : ((loaderMenuInit roomy logo52 untimed (start 2 console 0)).2.drawings 0).map
      (fun a => (a.xpos, a.ypos)) = [(14, 12), (12, 12)] := by
    decide +kernel
  refine ⟨hplaces, fun hall => ?_⟩
  have hplaced := (hall 1).placed 0
  obtain ⟨a, l, hl, ha, hb⟩ := List.map_eq_cons_iff.mp hplaces
  obtain ⟨b, l', rfl, hb, -⟩ := List.map_eq_cons_iff.mp hb
  have hsame := (hplaced a (by rw [show untimed.take 1 = untimed from rfl, hl]; rfl) b
    (by rw [show untimed.take 1 = untimed from rfl, hl]; simp)).1
  have hx : a.xpos = 14 := congrArg Prod.fst ha
  have hx' : b.xpos = 12 := congrArg Prod.fst hb
  omega

end Elfboot.Menu
