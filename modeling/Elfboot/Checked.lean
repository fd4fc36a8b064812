import Elfboot.Loop

/-!
Runs that may end with a fault or not at all, and the rules for what holds of their values.
-/

namespace Elfboot.Checked

open Elfboot.Loop

/-- What a run gives: a value or a fault. There is nothing where a loop has no turn left. -/
abbrev Res (ε : Type) := ExceptT ε Option

variable {ε α β σ ρ : Type}

/-- A loop has no turn left. -/
def stuck : Res ε α := ExceptT.mk none

/-- A turn that ends with a fault leaves the loop. -/
def checked (body : σ → Res ε (Turn σ ρ)) (s : σ) : Option (Turn σ (Except ε ρ)) :=
  match (body s).run with
  | none => none
  | some (.error f) => some (.leave (.error f))
  | some (.ok (.next s')) => some (.next s')
  | some (.ok (.leave r)) => some (.leave (.ok r))

/-- The loop with the body, for `k` turns at most. -/
def run (body : σ → Res ε (Turn σ ρ)) (k : ℕ) (s : σ) : Res ε ρ :=
  ExceptT.mk (loop (checked body) k s)

variable {x : Res ε α} {f : α → Res ε β} {a b : α} {e : ε} {P Q : α → Prop} {R : β → Prop}

/-- A run is stuck, ends with a fault, or gives a value. -/
lemma res_cases (x : Res ε α) : x = stuck ∨ (∃ e, x = throw e) ∨ ∃ a, x = pure a := by
  rcases hx : x.run with _ | e | a
  · exact Or.inl hx
  · exact Or.inr (Or.inl ⟨e, hx⟩)
  · exact Or.inr (Or.inr ⟨a, hx⟩)

@[simp] lemma pure_inj : (pure a : Res ε α) = pure b ↔ a = b :=
  ⟨fun h => Except.ok.inj (Option.some_inj.1 h), fun h => h ▸ rfl⟩

@[simp] lemma throw_ne_pure : (throw e : Res ε α) ≠ pure a := by
  intro h
  have h' : (some (.error e) : Option (Except ε α)) = some (.ok a) := h
  cases h'

@[simp] lemma stuck_ne_pure : (stuck : Res ε α) ≠ pure a := by
  intro h
  have h' : (none : Option (Except ε α)) = some (.ok a) := h
  cases h'

@[simp] lemma throw_ne_stuck : (throw e : Res ε α) ≠ stuck := by
  intro h
  have h' : (some (.error e) : Option (Except ε α)) = none := h
  cases h'

@[simp] lemma throw_bind (e : ε) (f : α → Res ε β) : throw e >>= f = throw e := rfl

@[simp] lemma stuck_bind (f : α → Res ε β) : stuck >>= f = stuck := rfl

/-- A value of two runs in a row is one of the second. -/
lemma bind_eq_pure {b : β} : x >>= f = pure b ↔ ∃ a, x = pure a ∧ f a = pure b := by
  rcases res_cases x with rfl | ⟨e, rfl⟩ | ⟨a, rfl⟩ <;> simp

/-- The fault that the run ends with. -/
def fault (x : Res ε α) : Option ε :=
  match x.run with
  | some (.error e) => some e
  | _ => none

lemma fault_eq_some : fault x = some e ↔ x = throw e := by
  rcases res_cases x with rfl | ⟨e', rfl⟩ | ⟨a, rfl⟩
  · exact iff_of_false nofun throw_ne_stuck.symm
  · constructor
    · rintro ⟨⟩
      rfl
    · intro h
      exact congrArg fault h
  · exact iff_of_false nofun throw_ne_pure.symm

/-- The value that the run gives. -/
def value (x : Res ε α) : Option α :=
  match x.run with
  | some (.ok a) => some a
  | _ => none

@[simp] lemma value_pure (a : α) : value (pure a : Res ε α) = some a := rfl

@[simp] lemma value_throw (e : ε) : value (throw e : Res ε α) = none := rfl

@[simp] lemma value_stuck : value (stuck : Res ε α) = none := rfl

/-! ### What the values have -/

/-- A value that the run gives has the property. -/
def Yields (x : Res ε α) (Q : α → Prop) : Prop := ∀ a, x = pure a → Q a

/-- The run ends, and a value it gives has the property. -/
def Gives (x : Res ε α) (Q : α → Prop) : Prop := x ≠ stuck ∧ Yields x Q

lemma yields_pure (h : Q a) : Yields (pure a : Res ε α) Q := fun _ heq => pure_inj.1 heq ▸ h

lemma yields_throw : Yields (throw e : Res ε α) Q := fun _ heq => absurd heq throw_ne_pure

lemma Yields.bind (h : Yields x P) (hf : ∀ a, P a → Yields (f a) R) : Yields (x >>= f) R := by
  intro b hb
  obtain ⟨a, ha, hb⟩ := bind_eq_pure.1 hb
  exact hf a (h a ha) b hb

/-- Whatever the first run gives. -/
lemma Yields.after (hf : ∀ a, Yields (f a) R) : Yields (x >>= f) R :=
  Yields.bind (P := fun _ => True) (fun _ _ => trivial) fun a _ => hf a

lemma gives_pure (h : Q a) : Gives (pure a : Res ε α) Q := ⟨stuck_ne_pure.symm, yields_pure h⟩

lemma gives_throw : Gives (throw e : Res ε α) Q := ⟨throw_ne_stuck, yields_throw⟩

lemma Gives.bind (h : Gives x P) (hf : ∀ a, P a → Gives (f a) R) : Gives (x >>= f) R := by
  refine ⟨?_, h.2.bind fun a ha => (hf a ha).2⟩
  rcases res_cases x with rfl | ⟨e, rfl⟩ | ⟨a, rfl⟩
  · exact absurd rfl h.1
  · rw [throw_bind]
    exact throw_ne_stuck
  · rw [pure_bind]
    exact (hf a (h.2 a rfl)).1

lemma Gives.mono (h : Gives x P) (hPQ : ∀ a, P a → Q a) : Gives x Q :=
  ⟨h.1, fun a ha => hPQ a (h.2 a ha)⟩

/-- The run does not end with the fault. -/
def Avoids (e : ε) (x : Res ε α) : Prop := x ≠ throw e

lemma avoids_pure : Avoids e (pure a : Res ε α) := throw_ne_pure.symm

lemma avoids_throw {e' : ε} (h : e' ≠ e) : Avoids e (throw e' : Res ε α) := by
  intro heq
  have heq' : (some (.error e') : Option (Except ε α)) = some (.error e) := heq
  cases heq'
  exact h rfl

lemma Avoids.bind (h : Avoids e x) (hf : ∀ a, Avoids e (f a)) : Avoids e (x >>= f) := by
  rcases res_cases x with rfl | ⟨e', rfl⟩ | ⟨a, rfl⟩
  · rw [stuck_bind]
    exact throw_ne_stuck.symm
  · rw [throw_bind]
    exact avoids_throw fun heq => h (heq ▸ rfl)
  · rw [pure_bind]
    exact hf a

/-- Where the first of two runs avoids a fault, the second has it or gives the value. -/
lemma Avoids.leads (h : Avoids e x) {D : β → Prop}
    (hD : x >>= f = throw e ∨ ∃ b, D b ∧ x >>= f = pure b) :
    ∃ a, x = pure a ∧ (f a = throw e ∨ ∃ b, D b ∧ f a = pure b) := by
  rcases res_cases x with rfl | ⟨e', rfl⟩ | ⟨a, rfl⟩
  · simp [throw_ne_stuck.symm] at hD
  · rw [throw_bind] at hD
    refine absurd hD (not_or.2 ⟨avoids_throw fun heq => h (heq ▸ rfl), ?_⟩)
    rintro ⟨b, -, heq⟩
    exact throw_ne_pure heq
  · exact ⟨a, rfl, by rwa [pure_bind] at hD⟩

/-! ### Two runs -/

/-- Both runs are stuck, end with the same fault, or give values in the relation. -/
def Alike (R : α → β → Prop) (x : Res ε α) (y : Res ε β) : Prop :=
  (x = stuck ∧ y = stuck) ∨ (∃ e, x = throw e ∧ y = throw e) ∨
    ∃ a b, x = pure a ∧ y = pure b ∧ R a b

lemma alike_self (x : Res ε α) : Alike (fun a b => a = b) x x := by
  rcases res_cases x with h | ⟨e, h⟩ | ⟨a, h⟩
  · exact Or.inl ⟨h, h⟩
  · exact Or.inr (Or.inl ⟨e, h, h⟩)
  · exact Or.inr (Or.inr ⟨a, a, h, h, rfl⟩)

lemma Alike.mono {R S : α → β → Prop} {x : Res ε α} {y : Res ε β} (h : Alike R x y)
    (hRS : ∀ a b, R a b → S a b) : Alike S x y := by
  rcases h with h | h | ⟨a, b, hx, hy, hab⟩
  · exact Or.inl h
  · exact Or.inr (Or.inl h)
  · exact Or.inr (Or.inr ⟨a, b, hx, hy, hRS a b hab⟩)

lemma alike_pure {R : α → β → Prop} {b : β} (h : R a b) :
    Alike R (pure a : Res ε α) (pure b) :=
  Or.inr (Or.inr ⟨a, b, rfl, rfl, h⟩)

lemma alike_pure_iff {R : α → β → Prop} {b : β} :
    Alike R (pure a : Res ε α) (pure b) ↔ R a b := by
  refine ⟨?_, alike_pure⟩
  rintro (⟨h, -⟩ | ⟨e, h, -⟩ | ⟨a', b', ha, hb, h⟩)
  · exact absurd h.symm stuck_ne_pure
  · exact absurd h.symm throw_ne_pure
  · rwa [pure_inj.1 ha, pure_inj.1 hb]

lemma Alike.bind {γ δ : Type} {R : α → β → Prop} {S : γ → δ → Prop} {x : Res ε α} {y : Res ε β}
    {f : α → Res ε γ} {g : β → Res ε δ} (h : Alike R x y)
    (hfg : ∀ a b, R a b → Alike S (f a) (g b)) : Alike S (x >>= f) (y >>= g) := by
  rcases h with ⟨rfl, rfl⟩ | ⟨e, rfl, rfl⟩ | ⟨a, b, rfl, rfl, hab⟩
  · exact Or.inl ⟨rfl, rfl⟩
  · exact Or.inr (Or.inl ⟨e, rfl, rfl⟩)
  · rw [pure_bind, pure_bind]
    exact hfg a b hab

/-- Both runs begin with the same one. -/
lemma Alike.after {γ δ : Type} {S : γ → δ → Prop} {f : α → Res ε γ} {g : α → Res ε δ}
    (hfg : ∀ a, Alike S (f a) (g a)) : Alike S (x >>= f) (x >>= g) :=
  (alike_self x).bind fun a _ h => h ▸ hfg a

/-! ### Loops -/

variable {body : σ → Res ε (Turn σ ρ)} {s s' : σ} {r : ρ} {k : ℕ} {T : Turn σ ρ → Prop}

lemma checked_next (h : body s = pure (.next s')) : checked body s = some (.next s') := by
  unfold checked
  rw [h]
  rfl

lemma checked_leave (h : body s = pure (.leave r)) : checked body s = some (.leave (.ok r)) := by
  unfold checked
  rw [h]
  rfl

lemma checked_throw (h : body s = throw e) : checked body s = some (.leave (.error e)) := by
  unfold checked
  rw [h]
  rfl

lemma Gives.turn (h : Gives (body s) T) : (∃ r, checked body s = some (.leave r)) ∨
    ∃ s', checked body s = some (.next s') ∧ T (.next s') := by
  rcases res_cases (body s) with heq | ⟨e, heq⟩ | ⟨s' | r, heq⟩
  · exact absurd heq h.1
  · exact Or.inl ⟨_, checked_throw heq⟩
  · exact Or.inr ⟨s', checked_next heq, h.2 _ heq⟩
  · exact Or.inl ⟨_, checked_leave heq⟩

/-- What a turn leaves: a state with `I`, or a result with `R`. -/
def Keeps (I : σ → Prop) (R : ρ → Prop) : Turn σ ρ → Prop
  | .next s => I s
  | .leave r => R r

/-- The first turn of a loop, and what is left of it. -/
lemma yields_run_succ {R : ρ → Prop}
    (h : Yields (body s) (Keeps (fun s' => Yields (run body k s') R) R)) :
    Yields (run body (k + 1) s) R := by
  intro r hr
  have hr' : loop (checked body) (k + 1) s = some (.ok r) := hr
  rcases res_cases (body s) with heq | ⟨e, heq⟩ | ⟨s' | r', heq⟩
  · rw [loop, show checked body s = none by rw [checked, heq]; rfl] at hr'
    cases hr'
  · rw [loop_leave (checked_throw heq)] at hr'
    cases hr'
  · rw [loop_next (checked_next heq)] at hr'
    exact h _ heq r hr'
  · rw [loop_leave (checked_leave heq)] at hr'
    cases hr'
    exact h _ heq

/-- **The rule for loops**: where each turn keeps `I` or leaves with a result that has `R`, so
does the loop. -/
theorem yields_run {I : σ → Prop} {R : ρ → Prop} (hbody : ∀ s, I s → Yields (body s) (Keeps I R))
    (h : I s) : Yields (run body k s) R := by
  induction k generalizing s with
  | zero => exact fun _ heq => absurd heq stuck_ne_pure
  | succ k ih =>
    refine yields_run_succ fun u heq => ?_
    have hturn := hbody s h u heq
    cases u with
    | next s' => exact ih hturn
    | leave r => exact hturn

/-- What the turns of two loops leave: states in `S`, or results in `R`. -/
def Meets {σ' ρ' : Type} (S : σ → σ' → Prop) (R : ρ → ρ' → Prop) : Turn σ ρ → Turn σ' ρ' → Prop
  | .next s, .next t => S s t
  | .leave r, .leave q => R r q
  | _, _ => False

/-- **The rule for a loop beside another** that is not checked: where each turn that is made is
one of the other loop too, so is the result. -/
theorem yields_beside {σ' ρ' : Type} {body' : σ' → Option (Turn σ' ρ')} {S : σ → σ' → Prop}
    {R : ρ → ρ' → Prop} {t : σ'}
    (hbody : ∀ s t, S s t → Yields (body s) fun u => ∃ u', body' t = some u' ∧ Meets S R u u')
    (h : S s t) : Yields (run body k s) fun r => ∃ q, loop body' k t = some q ∧ R r q := by
  induction k generalizing s t with
  | zero => exact fun _ heq => absurd heq stuck_ne_pure
  | succ k ih =>
    refine yields_run_succ fun u heq => ?_
    obtain ⟨u', heq', hmeets⟩ := hbody s t h u heq
    match u, u', hmeets with
    | .next s', .next t', hst =>
      rw [loop_next heq']
      exact ih hst
    | .leave r, .leave q, hrq => exact ⟨q, loop_leave heq', hrq⟩

/-- **The rule for loops that end**: each turn keeps `I` and makes `μ` smaller, or leaves. -/
theorem run_ends {I : σ → Prop} (μ : σ → ℕ)
    (hbody : ∀ s, I s → Gives (body s) (Keeps (fun s' => I s' ∧ μ s' < μ s) fun _ => True))
    (h : I s) (hk : μ s < k) : Gives (run body k s) fun _ => True := by
  have hturn : ∀ s, I s → (∃ r, checked body s = some (.leave r) ∧ True) ∨
      ∃ s', checked body s = some (.next s') ∧ I s' ∧ μ s' < μ s := by
    intro s hs
    rcases (hbody s hs).turn with ⟨r, heq⟩ | ⟨s', heq, hs'⟩
    · exact Or.inl ⟨r, heq, trivial⟩
    · exact Or.inr ⟨s', heq, hs'⟩
  obtain ⟨r, heq, -⟩ := loop_total μ hturn h hk
  refine ⟨fun hstuck => ?_, fun _ _ => trivial⟩
  have hnone : loop (checked body) k s = none := hstuck
  rw [hnone] at heq
  cases heq

end Elfboot.Checked
