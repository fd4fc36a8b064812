import Mathlib

/-!
The maximal stretches of a list whose elements have a property, in order, and where they begin.
-/

namespace Elfboot.Spans

variable {α : Type*} (p : α → Bool)

/-- A stretch of the list `l`, whose first element has the index `i`. -/
structure IsSpan (i : ℕ) (l : List α) (j : ℕ) (w : List α) : Prop where
  ne : w ≠ []
  all : ∀ c ∈ w, p c = true
  maximal : ∃ u v, l = u ++ (w ++ v) ∧ j = i + u.length ∧ (∀ c ∈ u.getLast?, p c = false) ∧
    ∀ c ∈ v.head?, p c = false

/-- The stretches that begin in a list; the one that it begins with is left out where the element
in front of the list belongs to it. -/
def spansFrom : Bool → ℕ → List α → List (ℕ × List α)
  | _, _, [] => []
  | inside, i, c :: l =>
    if p c then
      if inside then spansFrom true (i + 1) l
      else (i, c :: l.takeWhile p) :: spansFrom true (i + 1) l
    else spansFrom false (i + 1) l

def spans (i : ℕ) (l : List α) : List (ℕ × List α) := spansFrom p false i l

variable {p} {i j : ℕ} {l u v w : List α} {c : α}

/-- Elements without the property are passed over. -/
lemma spans_skip (hu : ∀ c ∈ u, p c = false) : spans p i (u ++ v) = spans p (i + u.length) v := by
  induction u generalizing i with
  | nil => rfl
  | cons c u ih =>
    obtain ⟨hc, hu⟩ := List.forall_mem_cons.1 hu
    have hrest := ih (i := i + 1) hu
    rw [spans] at hrest ⊢
    rw [List.cons_append, spansFrom, hc, if_neg Bool.false_ne_true, hrest, List.length_cons,
      Nat.add_assoc, Nat.add_comm 1]

lemma spansFrom_inside (hw : ∀ c ∈ w, p c = true) (hv : ∀ c ∈ v.head?, p c = false) :
    spansFrom p true i (w ++ v) = spans p (i + w.length + 1) v.tail := by
  induction w generalizing i with
  | nil =>
    cases v with
    | nil => rfl
    | cons c v =>
      rw [List.nil_append, spansFrom, hv c rfl, if_neg Bool.false_ne_true]
      rfl
  | cons c w ih =>
    obtain ⟨hc, hw⟩ := List.forall_mem_cons.1 hw
    rw [List.cons_append, spansFrom, hc, if_pos rfl, if_pos rfl, ih hw, List.length_cons,
      Nat.add_assoc i, Nat.add_comm 1]

lemma takeWhile_span (hw : ∀ c ∈ w, p c = true) (hv : ∀ c ∈ v.head?, p c = false) :
    (w ++ v).takeWhile p = w := by
  rw [List.takeWhile_append_of_pos hw]
  cases v with
  | nil => rw [List.takeWhile_nil, List.append_nil]
  | cons d v =>
    rw [List.takeWhile_cons_of_neg (Bool.eq_false_iff.1 (hv d rfl)), List.append_nil]

/-- A stretch, and those behind the element after it. -/
lemma spans_span (hw : ∀ c ∈ w, p c = true) (hne : w ≠ []) (hv : ∀ c ∈ v.head?, p c = false) :
    spans p i (w ++ v) = (i, w) :: spans p (i + w.length + 1) v.tail := by
  obtain ⟨c, w, rfl⟩ := List.exists_cons_of_ne_nil hne
  obtain ⟨hc, hw⟩ := List.forall_mem_cons.1 hw
  rw [spans, List.cons_append, spansFrom, hc, if_pos rfl, if_neg Bool.false_ne_true,
    spansFrom_inside hw hv, takeWhile_span hw hv, List.length_cons, Nat.add_assoc i,
    Nat.add_comm 1]

/-- A list without the property, or what is in front of its first stretch, and what is behind. -/
lemma cases_span (p : α → Bool) (l : List α) : (∀ c ∈ l, p c = false) ∨
    ∃ u w v, l = u ++ (w ++ v) ∧ (∀ c ∈ u, p c = false) ∧ (∀ c ∈ w, p c = true) ∧ w ≠ [] ∧
      ∀ c ∈ v.head?, p c = false := by
  induction l with
  | nil => exact .inl (List.forall_mem_nil _)
  | cons c l ih =>
    cases hc : p c with
    | false =>
      rcases ih with hall | ⟨u, w, v, rfl, hu, hrest⟩
      · exact .inl (List.forall_mem_cons.2 ⟨hc, hall⟩)
      · exact .inr ⟨c :: u, w, v, rfl, List.forall_mem_cons.2 ⟨hc, hu⟩, hrest⟩
    | true =>
      right
      rcases ih with hall | ⟨u, w, v, rfl, hu, hw, hne, hv⟩
      · refine ⟨[], [c], l, rfl, List.forall_mem_nil _, by simpa using hc,
          List.cons_ne_nil c [], fun d hd => ?_⟩
        exact hall d (List.mem_of_mem_head? hd)
      · cases u with
        | nil =>
          exact ⟨[], c :: w, v, rfl, List.forall_mem_nil _, List.forall_mem_cons.2 ⟨hc, hw⟩,
            List.cons_ne_nil c w, hv⟩
        | cons d u =>
          refine ⟨[], [c], d :: u ++ (w ++ v), rfl, List.forall_mem_nil _, by simpa using hc,
            List.cons_ne_nil c [], ?_⟩
          rintro e ⟨⟩
          exact hu d List.mem_cons_self

/-- A stretch that begins in the list, where the element in front of it may have the property. -/
def BeginsIn (p : α → Bool) (inside : Bool) (i : ℕ) (l : List α) (j : ℕ) (w : List α) : Prop :=
  IsSpan p i l j w ∧ (j = i → inside = false)

lemma beginsIn_cons {inside : Bool} : BeginsIn p inside i (c :: l) j w ↔
    (p c = true ∧ inside = false ∧ j = i ∧ w = c :: l.takeWhile p) ∨
      BeginsIn p (p c) (i + 1) l j w := by
  constructor
  · rintro ⟨⟨hne, hw, u, v, hl, rfl, hu, hv⟩, hin⟩
    cases u with
    | nil =>
      obtain ⟨d, w, rfl⟩ := List.exists_cons_of_ne_nil hne
      rw [List.nil_append, List.cons_append] at hl
      obtain ⟨rfl, rfl⟩ := List.cons.inj hl
      obtain ⟨hc, hw⟩ := List.forall_mem_cons.1 hw
      exact .inl ⟨hc, hin rfl, rfl, congrArg _ (takeWhile_span hw hv).symm⟩
    | cons d u =>
      obtain ⟨rfl, rfl⟩ := List.cons.inj hl
      refine .inr ⟨⟨hne, hw, u, v, rfl, ?_, fun e he => ?_, hv⟩, fun hj => ?_⟩
      · rw [List.length_cons, Nat.add_assoc, Nat.add_comm 1]
      · refine hu e ?_
        cases u with
        | nil => cases he
        | cons f u => rwa [List.getLast?_cons_cons]
      · rw [List.length_cons] at hj
        obtain rfl : u = [] := List.length_eq_zero_iff.1 (by omega)
        exact hu c rfl
  · rintro (⟨hc, hin, rfl, rfl⟩ | ⟨⟨hne, hw, u, v, rfl, rfl, hu, hv⟩, hin⟩)
    · refine ⟨⟨List.cons_ne_nil _ _, List.forall_mem_cons.2
        ⟨hc, fun d hd => List.mem_takeWhile_imp hd⟩, [], l.dropWhile p, ?_, rfl, ?_, ?_⟩,
        fun _ => hin⟩
      · rw [List.nil_append, List.cons_append, List.takeWhile_append_dropWhile]
      · rintro d ⟨⟩
      · intro d hd
        have hnot := List.head?_dropWhile_not p l
        rw [Option.mem_def.1 hd] at hnot
        exact hnot
    · refine ⟨⟨hne, hw, c :: u, v, rfl, ?_, fun e he => ?_, hv⟩, fun hj => by omega⟩
      · rw [List.length_cons, Nat.add_assoc, Nat.add_comm 1]
      · cases u with
        | nil =>
          obtain rfl : c = e := Option.some_inj.1 he
          exact hin rfl
        | cons d u =>
          rw [List.getLast?_cons_cons] at he
          exact hu e he

lemma mem_spansFrom_cons {inside : Bool} : (j, w) ∈ spansFrom p inside i (c :: l) ↔
    (p c = true ∧ inside = false ∧ j = i ∧ w = c :: l.takeWhile p) ∨
      (j, w) ∈ spansFrom p (p c) (i + 1) l := by
  rw [spansFrom]
  cases hc : p c with
  | false => simp
  | true =>
    cases inside with
    | true => simp
    | false => simp

/-- **The list has the stretches** and no others. -/
theorem mem_spans_iff : (j, w) ∈ spans p i l ↔ IsSpan p i l j w := by
  have hall : ∀ (l : List α) inside i,
      (j, w) ∈ spansFrom p inside i l ↔ BeginsIn p inside i l j w := by
    intro l
    induction l with
    | nil =>
      intro inside i
      refine iff_of_false List.not_mem_nil ?_
      rintro ⟨⟨hne, -, u, v, hl, -⟩, -⟩
      rw [eq_comm, List.append_eq_nil_iff, List.append_eq_nil_iff] at hl
      exact hne hl.2.1
    | cons c l ih =>
      intro inside i
      rw [mem_spansFrom_cons, beginsIn_cons, ih]
  exact (hall l false i).trans (and_iff_left fun _ => rfl)

/-- Each stretch begins behind those before it. -/
lemma spans_ascending : (spans p i l).Pairwise fun a b => a.1 < b.1 := by
  have hge : ∀ (l : List α) inside i, ∀ a ∈ spansFrom p inside i l, i ≤ a.1 := by
    intro l
    induction l with
    | nil => exact fun _ _ => List.forall_mem_nil _
    | cons c l ih =>
      rintro inside i ⟨j, w⟩ ha
      rcases mem_spansFrom_cons.1 ha with ⟨-, -, rfl, -⟩ | hrest
      · exact le_rfl
      · exact Nat.le_of_succ_le (ih _ _ _ hrest)
  have hall : ∀ (l : List α) inside i, (spansFrom p inside i l).Pairwise fun a b => a.1 < b.1 := by
    intro l
    induction l with
    | nil => exact fun _ _ => List.Pairwise.nil
    | cons c l ih =>
      intro inside i
      rw [spansFrom]
      split_ifs
      · exact ih _ _
      · exact List.pairwise_cons.2 ⟨fun a ha => hge _ _ _ a ha, ih _ _⟩
      · exact ih _ _
  exact hall l false i

end Elfboot.Spans
