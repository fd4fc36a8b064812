import Elfboot.Loop

/-!
Programs that allocate and free, and the rules for what they leave allocated.

Time passes with every call that may fail, so that each of them may or may not. An object is the
time at which it was allocated.
-/

namespace Elfboot.Objects

structure Heap where
  time : ℕ
  live : Finset ℕ
  live_lt : ∀ i ∈ live, i < time

variable {h h' h'' : Heap}

lemma none_live : ∀ i ∈ (∅ : Finset ℕ), i < 0 := fun _ h => absurd h (Finset.notMem_empty _)

/-- Nothing has been allocated yet. -/
def emptyHeap : Heap := ⟨0, ∅, none_live⟩

lemma live_lt_succ (h : Heap) : ∀ i ∈ h.live, i < h.time + 1 := fun i hi =>
  (h.live_lt i hi).trans (Nat.lt_succ_self _)

lemma insert_lt_succ (h : Heap) : ∀ i ∈ insert h.time h.live, i < h.time + 1 := by
  intro i hi
  rcases Finset.mem_insert.1 hi with rfl | hi
  · exact Nat.lt_succ_self _
  · exact live_lt_succ h i hi

lemma erase_lt (h : Heap) (object : ℕ) : ∀ i ∈ h.live.erase object, i < h.time := fun i hi =>
  h.live_lt i (Finset.mem_of_mem_erase hi)

/-- A call that allocates nothing. -/
def Heap.tick (h : Heap) : Heap := ⟨h.time + 1, h.live, live_lt_succ h⟩

/-- A call that allocates the object `h.time`. -/
def Heap.alloc (h : Heap) : Heap := ⟨h.time + 1, insert h.time h.live, insert_lt_succ h⟩

def Heap.free (h : Heap) (object : ℕ) : Heap :=
  ⟨h.time, h.live.erase object, erase_lt h object⟩

lemma time_notMem (h : Heap) : h.time ∉ h.live := fun hmem => lt_irrefl _ (h.live_lt _ hmem)

/-- Time has passed, and there are the objects that there were. -/
structure Same (h h' : Heap) : Prop where
  time : h.time ≤ h'.time
  live : h'.live = h.live

lemma Same.refl (h : Heap) : Same h h := ⟨le_rfl, rfl⟩

lemma Same.trans (h₁ : Same h h') (h₂ : Same h' h'') : Same h h'' :=
  ⟨h₁.time.trans h₂.time, h₂.live.trans h₁.live⟩

lemma same_tick (h : Heap) : Same h h.tick := ⟨Nat.le_succ _, rfl⟩

/-- **The rule for an object that is used for a while**: it is allocated, what follows leaves
what there is, and then it is freed. -/
lemma Same.free_alloc (hs : Same h.alloc h') : Same h (h'.free h.time) := by
  refine ⟨(Nat.le_succ _).trans hs.time, ?_⟩
  show h'.live.erase h.time = h.live
  rw [hs.live]
  exact Finset.erase_insert (time_notMem h)

/-! ### Programs -/

/-- A program gives a value, or it traps or does not end. -/
abbrev Prog (α : Type) := StateT Heap Option α

variable {α β γ : Type} {x : Prog α} {f : α → Prog β} {a a' : α}

def trap : Prog α := fun _ => none

/-- What does not depend on the heap. -/
def ofOption (x : Option α) : Prog α := fun h => x.map fun a => (a, h)

/-- An object with a value, if there is memory for it now. -/
def allocate (give : ℕ → Option β) : Prog (Option (ℕ × β)) := fun h =>
  match give h.time with
  | none => some (none, h.tick)
  | some b => some (some (h.time, b), h.alloc)

def release (object : ℕ) : Prog Unit := fun h => some ((), h.free object)

/-- Something whose result depends on the time. -/
def sense (give : ℕ → β) : Prog β := fun h => some (give h.time, h.tick)

lemma pure_eq_some : (pure a : Prog α) h = some (a', h') ↔ a = a' ∧ h = h' := by
  rw [show (pure a : Prog α) h = some (a, h) from rfl, Option.some_inj, Prod.mk.injEq]

lemma bind_eq_some {r : β × Heap} :
    (x >>= f) h = some r ↔ ∃ a h', x h = some (a, h') ∧ f a h' = some r := by
  rw [show (x >>= f) h = (x h).bind fun p => f p.1 p.2 from rfl, Option.bind_eq_some_iff]
  exact Prod.exists

lemma sense_eq_some {give : ℕ → β} {b : β} :
    sense give h = some (b, h') ↔ give h.time = b ∧ h.tick = h' := by
  rw [show sense give h = some (give h.time, h.tick) from rfl, Option.some_inj, Prod.mk.injEq]

lemma ofOption_eq_some {x : Option α} :
    ofOption x h = some (a, h') ↔ x = some a ∧ h = h' := by
  unfold ofOption
  rw [Option.map_eq_some_iff]
  constructor
  · rintro ⟨a', hx, heq⟩
    cases heq
    exact ⟨hx, rfl⟩
  · rintro ⟨hx, rfl⟩
    exact ⟨a, hx, rfl⟩

lemma allocate_none {give : ℕ → Option β} (hg : give h.time = none) :
    allocate give h = some (none, h.tick) := by
  unfold allocate
  rw [hg]

lemma allocate_some {give : ℕ → Option β} {b : β} (hg : give h.time = some b) :
    allocate give h = some (some (h.time, b), h.alloc) := by
  unfold allocate
  rw [hg]

/-- A program that begins with an allocation. -/
lemma allocate_bind {give : ℕ → Option β} {f : Option (ℕ × β) → Prog γ} {r : γ × Heap} :
    (allocate give >>= f) h = some r ↔
      (give h.time = none ∧ f none h.tick = some r) ∨
        ∃ b, give h.time = some b ∧ f (some (h.time, b)) h.alloc = some r := by
  rw [show (allocate give >>= f) h = (allocate give h).bind fun p => f p.1 p.2 from rfl]
  cases hg : give h.time with
  | none =>
    rw [allocate_none hg]
    simp
  | some b =>
    rw [allocate_some hg]
    simp

/-! ### What is computed -/

/-- The program gives a value with the property, whatever there is. -/
def Computes (x : Prog α) (P : α → Prop) : Prop := ∀ h, ∃ a h', x h = some (a, h') ∧ P a

variable {P : α → Prop} {Q : β → Prop}

lemma computes_pure (ha : P a) : Computes (pure a : Prog α) P := fun h => ⟨a, h, rfl, ha⟩

lemma computes_sense {give : ℕ → β} (hg : ∀ t, Q (give t)) : Computes (sense give) Q :=
  fun h => ⟨give h.time, h.tick, rfl, hg _⟩

lemma computes_release (object : ℕ) : Computes (release object) fun _ => True :=
  fun _ => ⟨(), _, rfl, trivial⟩

lemma computes_ofOption {x : Option α} (hx : x = some a) : Computes (ofOption x) (· = a) :=
  fun h => ⟨a, h, ofOption_eq_some.2 ⟨hx, rfl⟩, rfl⟩

/-- The object that is given may be any. -/
lemma computes_allocate {give : ℕ → Option β} {b : Option β} (hg : ∀ t, give t = b) :
    Computes (allocate give) fun o => o.map Prod.snd = b := by
  intro h
  cases b with
  | none => exact ⟨none, h.tick, allocate_none (hg _), rfl⟩
  | some b => exact ⟨some (h.time, b), h.alloc, allocate_some (hg _), rfl⟩

lemma Computes.bind (hx : Computes x P) (hf : ∀ a, P a → Computes (f a) Q) :
    Computes (x >>= f) Q := by
  intro h
  obtain ⟨a, h', hxa, ha⟩ := hx h
  obtain ⟨b, h'', hfb, hb⟩ := hf a ha h'
  exact ⟨b, h'', bind_eq_some.2 ⟨a, h', hxa, hfb⟩, hb⟩

/-- Both the program and what it computes depend on the condition. -/
lemma computes_ite {c : Prop} [Decidable c] {x y : Prog α} {u v : β} {R : α → β → Prop}
    (hx : Computes x fun a => R a u) (hy : Computes y fun a => R a v) :
    Computes (if c then x else y) fun a => R a (if c then u else v) := by
  split_ifs
  · exact hx
  · exact hy

/-! ### What is left allocated -/

/-- The program leaves allocated what was. -/
def Keeps (x : Prog α) : Prop := ∀ h a h', x h = some (a, h') → Same h h'

lemma keeps_pure (a : α) : Keeps (pure a : Prog α) := by
  intro h b h' heq
  rw [← (pure_eq_some.1 heq).2]
  exact Same.refl h

lemma keeps_trap : Keeps (trap : Prog α) := fun _ _ _ heq =>
  absurd heq.symm (Option.some_ne_none _)

lemma keeps_sense (give : ℕ → β) : Keeps (sense give) := by
  intro h a h' heq
  rw [← (sense_eq_some.1 heq).2]
  exact same_tick h

lemma Keeps.bind (hx : Keeps x) (hf : ∀ a, Keeps (f a)) : Keeps (x >>= f) := by
  intro h b h'' heq
  obtain ⟨a, h', hxa, hfa⟩ := bind_eq_some.1 heq
  exact (hx h a h' hxa).trans (hf a h' b h'' hfa)

/-- An object that is released when it has been used. -/
lemma Keeps.release (hx : Keeps x) (hf : ∀ a, Keeps (f a)) {b : β}
    (heq : (do let a ← x; release h.time; f a) h.alloc = some (b, h')) : Same h h' := by
  obtain ⟨a, h₁, hxa, heq⟩ := bind_eq_some.1 heq
  obtain ⟨⟨⟩, h₂, hfree, heq⟩ := bind_eq_some.1 heq
  cases hfree
  exact (hx _ _ _ hxa).free_alloc.trans (hf _ _ _ _ heq)

/-! ### What is lost -/

/-- There is one object more than there was. -/
def Loses (h h' : Heap) : Prop := ∃ i, h.time ≤ i ∧ h'.live = insert i h.live

lemma Loses.not_same (hl : Loses h h') : h'.live ≠ h.live := by
  obtain ⟨i, hi, hlive⟩ := hl
  intro heq
  have hmem : i ∈ h.live := by
    rw [← heq, hlive]
    exact Finset.mem_insert_self _ _
  exact absurd (h.live_lt i hmem) (not_lt.2 hi)

lemma Same.loses (hs : Same h h') (hl : Loses h' h'') : Loses h h'' := by
  obtain ⟨i, hi, hlive⟩ := hl
  exact ⟨i, hs.time.trans hi, hs.live ▸ hlive⟩

lemma loses_alloc (hs : Same h.alloc h') : Loses h h' := ⟨h.time, le_rfl, hs.live⟩

/-- An object that is used while another one is lost. -/
lemma Loses.free_alloc (hl : Loses h.alloc h') : Loses h (h'.free h.time) := by
  obtain ⟨i, hi, hlive⟩ := hl
  refine ⟨i, (Nat.le_succ _).trans hi, ?_⟩
  show h'.live.erase h.time = insert i h.live
  have hne : h.time ≠ i := (Nat.lt_of_succ_le hi).ne
  have hswap : h'.live = insert h.time (insert i h.live) :=
    hlive.trans (Finset.insert_comm _ _ _)
  rw [hswap, Finset.erase_insert]
  exact fun hmem => time_notMem h (Finset.mem_of_mem_insert_of_ne hmem hne)

end Elfboot.Objects
