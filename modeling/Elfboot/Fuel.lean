import Elfboot.Loop

/-!
Programs with loops that need not end, as functions of how many turns a loop may take.

What such a program yields is what it has come to with any number of turns that is large enough.
Yielding nothing is never coming to an end.
-/

namespace Elfboot.Fuel

open Elfboot.Loop

variable {α β σ : Type*}

/-- `none` stands for a program that does not end, on both sides. -/
structure Yields (X : ℕ → Option α) (r : Option α) : Prop where
  sound : ∀ k, X k = none ∨ X k = r
  enough : ∃ k₀, ∀ k, k₀ ≤ k → X k = r

variable {X : ℕ → Option α} {r : Option α}

lemma Yields.const (r : Option α) : Yields (fun _ => r) r :=
  ⟨fun _ => Or.inr rfl, 0, fun _ _ => rfl⟩

lemma Yields.iff_none : Yields X none ↔ ∀ k, X k = none :=
  ⟨fun h k => (h.sound k).elim id id, fun h => ⟨fun k => Or.inl (h k), 0, fun k _ => h k⟩⟩

/-- A program comes to an end if and only if that is what it yields. -/
lemma Yields.ends_iff (h : Yields X r) {a : α} : (∃ k, X k = some a) ↔ r = some a := by
  constructor
  · rintro ⟨k, hk⟩
    rcases h.sound k with hn | hr
    · rw [hk] at hn
      exact absurd hn (Option.some_ne_none a)
    · rw [← hr, hk]
  · rintro rfl
    obtain ⟨k, hk⟩ := h.enough
    exact ⟨k, hk k le_rfl⟩

/-- One program after another. -/
lemma Yields.bind {Y : α → ℕ → Option β} {s : α → Option β} (h : Yields X r)
    (hY : ∀ a, r = some a → Yields (Y a) (s a)) :
    Yields (fun k => (X k).bind fun a => Y a k) (r.bind s) := by
  cases r with
  | none =>
    refine Yields.iff_none.2 fun k => ?_
    rw [Yields.iff_none.1 h k, Option.bind_none]
  | some a =>
    have ha := hY a rfl
    obtain ⟨k₀, hk₀⟩ := h.enough
    obtain ⟨k₁, hk₁⟩ := ha.enough
    refine ⟨fun k => ?_, max k₀ k₁, fun k hk => ?_⟩
    · rcases h.sound k with hn | hr
      · left
        rw [hn, Option.bind_none]
      · rw [hr, Option.bind_some, Option.bind_some]
        exact ha.sound k
    · rw [hk₀ k (le_of_max_le_left hk), Option.bind_some, Option.bind_some]
      exact hk₁ k (le_of_max_le_right hk)

/-- One program after another that ends. -/
lemma Yields.andThen {Y : α → ℕ → Option β} {a : α} {s : Option β} (h : Yields X (some a))
    (hY : Yields (Y a) s) : Yields (fun k => (X k).bind fun a => Y a k) s := by
  have hbind := h.bind (Y := Y) (s := fun _ => s) (by rintro _ ⟨⟩; exact hY)
  rwa [Option.bind_some] at hbind

lemma Yields.map (h : Yields X r) (g : α → β) :
    Yields (fun k => (X k).map g) (r.map g) := by
  simp only [Option.map_eq_bind]
  exact h.bind fun a _ => Yields.const _

lemma Yields.ite {Y : ℕ → Option α} {s : Option α} {p : Prop} [Decidable p]
    (h : p → Yields X r) (h' : ¬ p → Yields Y s) :
    Yields (fun k => if p then X k else Y k) (if p then r else s) := by
  by_cases hp : p
  · simp only [if_pos hp]
    exact h hp
  · simp only [if_neg hp]
    exact h' hp

/-- A program that has nothing to show for its first turns. -/
lemma Yields.delay (h : Yields X r) (d : ℕ) :
    Yields (fun k => if k ≤ d then none else X k) r := by
  obtain ⟨k₀, hk₀⟩ := h.enough
  refine ⟨fun k => ?_, max k₀ (d + 1), fun k hk => ?_⟩
  · split_ifs
    · exact Or.inl rfl
    · exact h.sound k
  · rw [if_neg (Nat.not_le_of_lt (le_of_max_le_right hk))]
    exact hk₀ k (le_of_max_le_left hk)

/-! ### Loops -/

/-- A turn that says whether the loop goes on, and the state it leaves. -/
def turnOf (turn : σ → Bool × σ) (s : σ) : Option (Turn σ σ) :=
  some (if (turn s).1 then .next (turn s).2 else .leave (turn s).2)

def loop (turn : σ → Bool × σ) (k : ℕ) (s : σ) : Option σ := Loop.loop (turnOf turn) k s

variable {turn : σ → Bool × σ} {s : σ}

lemma turnOf_next (h : (turn s).1 = true) : turnOf turn s = some (.next (turn s).2) := by
  rw [turnOf, if_pos h]

lemma turnOf_leave (h : (turn s).1 = false) : turnOf turn s = some (.leave (turn s).2) := by
  rw [turnOf, h, if_neg Bool.false_ne_true]

/-- **A loop that ends**: while the invariant holds each turn lowers the measure, and leaves what
the loop is to come to. -/
theorem yields_loop (turn : σ → Bool × σ) {g : σ → σ} (P : σ → Prop) (m : σ → ℕ)
    (hgo : ∀ s, P s → (turn s).1 = true →
      (P (turn s).2 ∧ g s = g (turn s).2) ∧ m (turn s).2 < m s)
    (hend : ∀ s, P s → (turn s).1 = false → g s = (turn s).2) {s : σ} (h : P s) :
    Yields (fun k => loop turn k s) (some (g s)) := by
  have hturn : ∀ t, P t ∧ g t = g s → (∃ r, turnOf turn t = some (.leave r) ∧ r = g s) ∨
      ∃ t', turnOf turn t = some (.next t') ∧ (P t' ∧ g t' = g s) ∧ m t' < m t := by
    rintro t ⟨hP, hg⟩
    cases ht : (turn t).1 with
    | true =>
      obtain ⟨⟨hP', hg'⟩, hm⟩ := hgo t hP ht
      exact Or.inr ⟨_, turnOf_next ht, ⟨hP', hg'.symm.trans hg⟩, hm⟩
    | false => exact Or.inl ⟨_, turnOf_leave ht, (hend t hP ht).symm.trans hg⟩
  have hall : ∀ k, m s < k → loop turn k s = some (g s) := by
    intro k hk
    obtain ⟨r, hr, rfl⟩ := loop_total m hturn ⟨h, rfl⟩ hk
    exact hr
  refine ⟨fun k => ?_, m s + 1, fun k hk => hall k hk⟩
  cases hk : loop turn k s with
  | none => exact Or.inl rfl
  | some r => exact Or.inr (congrArg some (ends_unique ⟨k, hk⟩ ⟨_, hall _ (Nat.lt_succ_self _)⟩))

/-- **A loop that does not end**: each turn goes on, and keeps to what makes it go on. -/
theorem yields_loop_none (P : σ → Prop) (hP : ∀ s, P s → (turn s).1 = true ∧ P (turn s).2)
    (h : P s) : Yields (fun k => loop turn k s) none := by
  refine Yields.iff_none.2 fun k => Option.eq_none_iff_forall_ne_some.2 fun r hr => ?_
  refine ends_induction (P := fun s => ¬ P s) ⟨k, hr⟩ (fun s heq hs => ?_)
    (fun s s' heq hs' hs => ?_) h
  · rw [turnOf_next (hP s hs).1] at heq
    cases heq
  · rw [turnOf_next (hP s hs).1] at heq
    cases heq
    exact hs' (hP s hs).2

end Elfboot.Fuel
