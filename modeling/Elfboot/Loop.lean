import Mathlib

/-!
Loops with a bound on their turns, and the rule by which one is shown to end.
-/

namespace Elfboot.Loop

/-- What a turn of a loop does: the loop goes on in a state, or it is left with a result. -/
inductive Turn (σ ρ : Type*)
  | next (s : σ)
  | leave (r : ρ)

variable {σ ρ : Type*}

/-- The loop with the body, for `k` turns at most. There is no result when they are used up,
or where a turn has none. -/
def loop (body : σ → Option (Turn σ ρ)) : ℕ → σ → Option ρ
  | 0, _ => none
  | k + 1, s =>
    match body s with
    | none => none
    | some (.next s) => loop body k s
    | some (.leave r) => some r

variable {body : σ → Option (Turn σ ρ)} {s s' : σ} {r : ρ} {k : ℕ}

lemma loop_next (h : body s = some (.next s')) : loop body (k + 1) s = loop body k s' := by
  rw [loop, h]

lemma loop_leave (h : body s = some (.leave r)) : loop body (k + 1) s = some r := by
  rw [loop, h]

/-- **The rule for loops**: where each turn keeps `I` and makes `μ` smaller, or leaves with a
result that has `P`, the loop ends with such a result. -/
theorem loop_total {I : σ → Prop} {P : ρ → Prop} (μ : σ → ℕ)
    (hbody : ∀ s, I s → (∃ r, body s = some (.leave r) ∧ P r) ∨
      ∃ s', body s = some (.next s') ∧ I s' ∧ μ s' < μ s)
    (h : I s) (hk : μ s < k) : ∃ r, loop body k s = some r ∧ P r := by
  induction k generalizing s with
  | zero => exact absurd hk (Nat.not_lt_zero _)
  | succ k ih =>
    rcases hbody s h with ⟨r, heq, hr⟩ | ⟨s', heq, h', hμ⟩
    · exact ⟨r, loop_leave heq, hr⟩
    · rw [loop_next heq]
      exact ih h' (by omega)

/-! ### What a loop ends with -/

/-- With enough turns the loop ends with the result. -/
def Ends (body : σ → Option (Turn σ ρ)) (s : σ) (r : ρ) : Prop := ∃ k, loop body k s = some r

lemma ends_next (h : body s = some (.next s')) : Ends body s r ↔ Ends body s' r := by
  constructor
  · rintro ⟨k, hk⟩
    cases k with
    | zero => cases hk
    | succ k => exact ⟨k, (loop_next h).symm.trans hk⟩
  · rintro ⟨k, hk⟩
    exact ⟨k + 1, (loop_next h).trans hk⟩

lemma ends_leave {r' : ρ} (h : body s = some (.leave r')) : Ends body s r ↔ r = r' := by
  constructor
  · rintro ⟨k, hk⟩
    cases k with
    | zero => cases hk
    | succ k => exact Option.some_inj.mp (hk.symm.trans (loop_leave h))
  · rintro rfl
    exact ⟨1, loop_leave h⟩

/-- **Induction over a loop that ends**, from its last turn back. -/
theorem ends_induction {P : σ → Prop} (h : Ends body s r)
    (leave : ∀ s, body s = some (.leave r) → P s)
    (next : ∀ s s', body s = some (.next s') → P s' → P s) : P s := by
  obtain ⟨k, hk⟩ := h
  induction k generalizing s with
  | zero => cases hk
  | succ k ih =>
    unfold loop at hk
    split at hk
    · cases hk
    · next s' heq => exact next s s' heq (ih hk)
    · next r' heq => exact leave s (Option.some_inj.mp hk ▸ heq)

lemma ends_unique {r' : ρ} (h : Ends body s r) (h' : Ends body s r') : r = r' :=
  ends_induction (P := fun s => Ends body s r' → r = r') h
    (fun _ heq h' => ((ends_leave heq).1 h').symm) (fun _ _ heq ih h' => ih ((ends_next heq).1 h'))
    h'

/-- The states the loop comes to. -/
def Reaches (body : σ → Option (Turn σ ρ)) : σ → σ → Prop :=
  Relation.ReflTransGen fun s t => body s = some (.next t)

lemma reaches_self (body : σ → Option (Turn σ ρ)) (s : σ) : Reaches body s s := .refl

lemma reaches_next (h : body s = some (.next s')) {t : σ} :
    Reaches body s t ↔ t = s ∨ Reaches body s' t := by
  constructor
  · intro ht
    rcases Relation.ReflTransGen.cases_head ht with rfl | ⟨s'', heq, hrest⟩
    · exact Or.inl rfl
    · rw [h] at heq
      cases heq
      exact Or.inr hrest
  · rintro (rfl | ht)
    · exact .refl
    · exact .head h ht

lemma reaches_leave (h : body s = some (.leave r)) {t : σ} : Reaches body s t ↔ t = s := by
  constructor
  · intro ht
    rcases Relation.ReflTransGen.cases_head ht with rfl | ⟨s'', heq, -⟩
    · rfl
    · rw [h] at heq
      cases heq
  · rintro rfl
    exact .refl

/-- From a state it comes to, the loop ends as it does. -/
lemma Reaches.ends {t : σ} (h : Reaches body s t) : Ends body s r ↔ Ends body t r := by
  induction h with
  | refl => rfl
  | tail _ heq ih => rw [ih, ends_next heq]

/-! ### Loops with a bound of their own -/

/-- The loop ends, and whenever its condition holds, it has made fewer turns than `bound` says;
`n` have been made so far. -/
inductive EndsBy (body : σ → Option (Turn σ ρ)) (cond : σ → Prop) (bound : σ → ℕ) :
    ℕ → σ → Prop
  | leave {n : ℕ} {s : σ} {r : ρ} (h : body s = some (.leave r)) (hn : cond s → n < bound s) :
      EndsBy body cond bound n s
  | next {n : ℕ} {s s' : σ} (h : body s = some (.next s')) (hn : cond s → n < bound s)
      (hs : EndsBy body cond bound (n + 1) s') : EndsBy body cond bound n s

/-- **The rule for such loops**: each turn keeps `I`, and there are at most `N`. -/
theorem endsBy_of_step {cond : σ → Prop} {bound : σ → ℕ} {I : ℕ → σ → Prop} {n : ℕ} (N : ℕ)
    (hle : ∀ n s, I n s → n ≤ N) (hn : ∀ n s, I n s → cond s → n < bound s)
    (hbody : ∀ n s, I n s → (∃ r, body s = some (.leave r)) ∨
      ∃ s', body s = some (.next s') ∧ I (n + 1) s')
    (h : I n s) : EndsBy body cond bound n s := by
  obtain ⟨d, hd⟩ := Nat.exists_eq_add_of_le (hle n s h)
  induction d generalizing n s with
  | zero =>
    rcases hbody n s h with ⟨r, heq⟩ | ⟨s', heq, h'⟩
    · exact .leave heq (hn n s h)
    · exact absurd (hle _ s' h') (by omega)
  | succ d ih =>
    rcases hbody n s h with ⟨r, heq⟩ | ⟨s', heq, h'⟩
    · exact .leave heq (hn n s h)
    · exact .next heq (hn n s h) (ih h' (by omega))

/-! ### The states a loop comes to, in order -/

/-- The states at which the loop makes a turn, for `k` turns at most. -/
def trace (body : σ → Option (Turn σ ρ)) : ℕ → σ → List σ
  | 0, _ => []
  | k + 1, s =>
    match body s with
    | some (.next s') => s :: trace body k s'
    | _ => [s]

lemma trace_next (h : body s = some (.next s')) :
    trace body (k + 1) s = s :: trace body k s' := by
  rw [trace, h]

lemma trace_leave (h : body s = some (.leave r)) : trace body (k + 1) s = [s] := by
  rw [trace, h]

/-- Where the loop ends within `k` turns, they are all there. -/
lemma mem_trace (h : loop body k s = some r) {t : σ} (ht : Reaches body s t) :
    t ∈ trace body k s := by
  induction k generalizing s with
  | zero => cases h
  | succ k ih =>
    cases hbody : body s with
    | none =>
      rw [loop, hbody] at h
      cases h
    | some turn =>
      cases turn with
      | next s' =>
        rw [loop_next hbody] at h
        rw [trace_next hbody]
        rcases (reaches_next hbody).1 ht with rfl | ht
        · exact List.mem_cons_self
        · exact List.mem_cons_of_mem _ (ih h ht)
      | leave r' =>
        rw [trace_leave hbody, (reaches_leave hbody).1 ht]
        exact List.mem_singleton_self _

end Elfboot.Loop
