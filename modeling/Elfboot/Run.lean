import Mathlib

/-!
Systems that take step after step: the states a system reaches, and the two rules by which
a property is shown of all of them.
-/

namespace Elfboot.Run

/-- The initial states, what an input may be in a state, and what it does. -/
structure System (σ ι : Type*) where
  init : σ → Prop
  pre : σ → ι → Prop
  step : σ → ι → σ

variable {σ ι : Type*}

inductive Reach (S : System σ ι) : σ → Prop
  | init {s : σ} (h : S.init s) : Reach S s
  | step {s : σ} {i : ι} (h : Reach S s) (hp : S.pre s i) : Reach S (S.step s i)

/-- The runs all of whose steps meet a condition. -/
def System.restrict (S : System σ ι) (ok : σ → ι → Prop) : System σ ι :=
  { S with pre := fun s i => S.pre s i ∧ ok s i }

/-- **The invariant rule**: what holds initially and is kept by every step holds in every
state reached. -/
theorem Reach.invariant {S : System σ ι} {P : σ → Prop} {s : σ} (h : Reach S s)
    (h0 : ∀ s, S.init s → P s) (hs : ∀ s i, P s → S.pre s i → P (S.step s i)) : P s := by
  induction h with
  | init h => exact h0 _ h
  | step _ hp ih => exact hs _ _ ih hp

lemma Reach.of_restrict {S : System σ ι} {ok : σ → ι → Prop} {s : σ}
    (h : Reach (S.restrict ok) s) : Reach S s := by
  induction h with
  | init h => exact .init h
  | step _ hp ih => exact .step ih hp.1

theorem Reach.invariant_restrict {S : System σ ι} {ok : σ → ι → Prop} {P : σ → Prop} {s : σ}
    (h : Reach (S.restrict ok) s) (h0 : ∀ s, S.init s → P s)
    (hs : ∀ s i, P s → S.pre s i → ok s i → P (S.step s i)) : P s := by
  induction h with
  | init h => exact h0 _ h
  | step _ hp ih => exact hs _ _ ih hp.1 hp.2

/-! ### Runs given as lists of inputs -/

/-- The state after the inputs. -/
def System.run (S : System σ ι) : σ → List ι → σ
  | s, [] => s
  | s, i :: is => S.run (S.step s i) is

/-- Each of the inputs is one the system takes in the state it meets. -/
def System.Takes (S : System σ ι) : σ → List ι → Prop
  | _, [] => True
  | s, i :: is => S.pre s i ∧ S.Takes (S.step s i) is

lemma Reach.run {S : System σ ι} {is : List ι} {s : σ} (h : Reach S s) (ht : S.Takes s is) :
    Reach S (S.run s is) := by
  induction is generalizing s with
  | nil => exact h
  | cons i is ih => exact ih (.step h ht.1) ht.2

/-- **The refinement rule**: if every step does to the abstraction of a state what `f` does,
so does every run. -/
theorem Reach.run_refines {S : System σ ι} {τ : Type*} (abs : σ → τ) {f : τ → ι → τ}
    (hs : ∀ s i, Reach S s → S.pre s i → abs (S.step s i) = f (abs s) i) {is : List ι} {s : σ}
    (h : Reach S s) (ht : S.Takes s is) : abs (S.run s is) = is.foldl f (abs s) := by
  induction is generalizing s with
  | nil => rfl
  | cons i is ih =>
      rw [List.foldl_cons, ← hs s i h ht.1]
      exact ih (.step h ht.1) ht.2

lemma System.run_restrict (S : System σ ι) (ok : σ → ι → Prop) (is : List ι) (s : σ) :
    (S.restrict ok).run s is = S.run s is := by
  induction is generalizing s with
  | nil => rfl
  | cons i is ih => exact ih (S.step s i)

lemma Reach.run_restrict {S : System σ ι} {ok : σ → ι → Prop} {is : List ι} {s : σ}
    (h : S.init s) (ht : (S.restrict ok).Takes s is) : Reach (S.restrict ok) (S.run s is) := by
  rw [← S.run_restrict ok]
  exact Reach.run (.init h) ht

/-- What every step that is not `ok` loses for good holds after a run if and only if all of its
steps are: `P` is kept by those that are, and the others lose `Q`, which no step regains. -/
theorem System.holds_run_iff {S : System σ ι} {ok : σ → ι → Prop} {P Q : σ → Prop}
    (hpq : ∀ s, P s → Q s) (hback : ∀ s i, Q (S.step s i) → Q s)
    (hok : ∀ s i, P s → Q (S.step s i) → S.pre s i ∧ ok s i)
    (hstep : ∀ s i, P s → S.pre s i → ok s i → P (S.step s i)) {is : List ι} {s : σ}
    (h : P s) : P (S.run s is) ↔ (S.restrict ok).Takes s is := by
  have hrun : ∀ (is : List ι) (s : σ), Q (S.run s is) → Q s := by
    intro is
    induction is with
    | nil => exact fun s h => h
    | cons i is ih => exact fun s h => hback s i (ih (S.step s i) h)
  induction is generalizing s with
  | nil => exact iff_of_true h trivial
  | cons i is ih =>
      constructor
      · intro hend
        have hpre := hok s i h (hrun is _ (hpq _ hend))
        exact ⟨hpre, (ih (hstep s i h hpre.1 hpre.2)).1 hend⟩
      · rintro ⟨hpre, ht⟩
        exact (ih (hstep s i h hpre.1 hpre.2)).2 ht

/-- A property that a step keeps exactly when it is `ok` holds in all states of a run if and only if
all steps of the run are; an invariant may be assumed. -/
theorem System.always_iff {S : System σ ι} {ok : σ → ι → Prop} {I P : σ → Prop}
    (hinv : ∀ s i, I s → S.pre s i → I (S.step s i))
    (hstep : ∀ s i, I s → P s → S.pre s i → (P (S.step s i) ↔ ok s i)) {is : List ι} {s : σ}
    (hi : I s) (h : P s) (ht : S.Takes s is) :
    (∀ j, P (S.run s (is.take j))) ↔ (S.restrict ok).Takes s is := by
  induction is generalizing s with
  | nil => exact iff_of_true (fun j => by rwa [List.take_nil]) trivial
  | cons i is ih =>
      constructor
      · intro hall
        have hnext : P (S.step s i) := hall 1
        have hok := (hstep s i hi h ht.1).1 hnext
        exact ⟨⟨ht.1, hok⟩, (ih (hinv s i hi ht.1) hnext ht.2).1 fun j => hall (j + 1)⟩
      · rintro ⟨⟨hpre, hok⟩, hrest⟩ j
        cases j with
        | zero => exact h
        | succ j =>
            have hnext := (hstep s i hi h hpre).2 hok
            exact (ih (hinv s i hi hpre) hnext ht.2).2 hrest j

instance System.decidableTakes (S : System σ ι) [∀ s i, Decidable (S.pre s i)] :
    ∀ (s : σ) (is : List ι), Decidable (S.Takes s is)
  | _, [] => isTrue trivial
  | s, i :: is => @instDecidableAnd _ _ _ (System.decidableTakes S (S.step s i) is)

instance (S : System σ ι) (ok : σ → ι → Prop) [∀ s i, Decidable (S.pre s i)]
    [∀ s i, Decidable (ok s i)] (s : σ) (i : ι) : Decidable ((S.restrict ok).pre s i) :=
  inferInstanceAs (Decidable (S.pre s i ∧ ok s i))

end Elfboot.Run
