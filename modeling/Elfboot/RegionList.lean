import Elfboot.Mm

/-!
Lists of regions as sets of addresses: putting a range into a list and taking one out, the
way the boot-time memory map does it, but on lists and without the array.

Both go through the list once, from the left, with the start of what is left of the range
in hand. Neither looks back, and so neither is right on every list: `fill` covers the range
whatever the list is, while `carve` clears it only if the regions it trims come in order.
-/

namespace Elfboot.RegionList

open Elfboot.Mm

/-- The addresses covered by a list of regions. -/
def covered (l : List Region) : Set ℕ := {a | ∃ r ∈ l, a ∈ r.addrs}

lemma mem_covered {l : List Region} {a : ℕ} : a ∈ covered l ↔ ∃ r ∈ l, a ∈ r.addrs := Iff.rfl

@[simp] lemma covered_nil : covered [] = ∅ := by ext a; simp [mem_covered]

@[simp] lemma covered_cons (r : Region) (l : List Region) :
    covered (r :: l) = r.addrs ∪ covered l := by
  ext a; simp [mem_covered]

@[simp] lemma covered_append (l m : List Region) : covered (l ++ m) = covered l ∪ covered m := by
  ext a; simp [mem_covered, or_and_right, exists_or]

variable {b e : ℕ} {x : Region} {l : List Region}

/-! ### Putting a range in -/

/-- The gaps of `[base, e)` between the regions are filled. The result is the part that has
been gone through, the rest, and where what is still missing starts. -/
def fill (e : ℕ) : ℕ → List Region → List Region × List Region × ℕ
  | base, [] => ([], [], base)
  | base, x :: xs =>
    if e ≤ x.base then ([], x :: xs, base)
    else if x.base + x.size ≤ base then
      let r := fill e base xs
      (x :: r.1, r.2)
    else
      let r := fill e (min (x.base + x.size) e) xs
      if base ≤ x.base then (⟨base, x.base - base⟩ :: x :: r.1, r.2) else (x :: r.1, r.2)

/-- The three ways a turn of `fill` goes. -/
lemma fill_cons (e b : ℕ) (x : Region) (l : List Region) :
    (e ≤ x.base ∧ fill e b (x :: l) = ([], x :: l, b)) ∨
      (x.base < e ∧ x.base + x.size ≤ b ∧
        fill e b (x :: l) = (x :: (fill e b l).1, (fill e b l).2)) ∨
      ∃ g : List Region, x.base < e ∧ b < x.base + x.size ∧
        (g = [⟨b, x.base - b⟩] ∧ b ≤ x.base ∨ g = [] ∧ x.base < b) ∧
        fill e b (x :: l) = (g ++ x :: (fill e (min (x.base + x.size) e) l).1,
          (fill e (min (x.base + x.size) e) l).2) := by
  rcases Nat.lt_or_ge x.base e with h1 | h1
  · right
    rcases Nat.lt_or_ge b (x.base + x.size) with h2 | h2
    · right
      rcases Nat.lt_or_ge x.base b with h3 | h3
      · refine ⟨[], h1, h2, Or.inr ⟨rfl, h3⟩, ?_⟩
        simp [fill, Nat.not_le.mpr h1, Nat.not_le.mpr h2, Nat.not_le.mpr h3]
      · refine ⟨[⟨b, x.base - b⟩], h1, h2, Or.inl ⟨rfl, h3⟩, ?_⟩
        simp [fill, Nat.not_le.mpr h1, Nat.not_le.mpr h2, h3]
    · left
      exact ⟨h1, h2, by simp [fill, Nat.not_le.mpr h1, h2]⟩
  · left
    exact ⟨h1, by simp [fill, h1]⟩

/-- **Filling** covers what was covered and the range, up to what is still missing. -/
lemma fill_covered (hbe : b ≤ e) :
    b ≤ (fill e b l).2.2 ∧ (fill e b l).2.2 ≤ e ∧
      covered ((fill e b l).1 ++ (fill e b l).2.1) ∪ Set.Ico (fill e b l).2.2 e =
        covered l ∪ Set.Ico b e := by
  induction l generalizing b with
  | nil => exact ⟨le_rfl, hbe, by simp [fill]⟩
  | cons x l ih =>
      rcases fill_cons e b x l with ⟨-, hf⟩ | ⟨-, -, hf⟩ | ⟨g, h1, h2, hg, hf⟩
      · rw [hf]
        exact ⟨le_rfl, hbe, by simp⟩
      · obtain ⟨h3, h4, h5⟩ := ih hbe
        rw [hf]
        refine ⟨h3, h4, ?_⟩
        simp only [List.cons_append, covered_cons, Set.union_assoc, h5]
      · have hle : min (x.base + x.size) e ≤ e := min_le_right _ _
        obtain ⟨h3, h4, h5⟩ := ih hle
        rw [hf]
        refine ⟨le_trans (by omega) h3, h4, ?_⟩
        simp only [List.append_assoc, List.cons_append, covered_append g, covered_cons,
          Set.union_assoc, h5]
        have hgap : covered g ∪ (x.addrs ∪ Set.Ico (min (x.base + x.size) e) e) =
            x.addrs ∪ Set.Ico b e := by
          ext a
          rcases hg with ⟨rfl, hg⟩ | ⟨rfl, hg⟩ <;>
            simp only [covered_cons, covered_nil, Set.mem_union, Set.mem_empty_iff_false,
              mem_addrs, Set.mem_Ico, or_false, false_or] <;>
            omega
        rw [← Set.union_left_comm (covered l), ← Set.union_left_comm (covered l), hgap,
          Set.union_left_comm]

/-! ### Taking a range out -/

/-- The regions are cleared of `[base, e)`, as far as one pass does it. -/
def carve (e : ℕ) : ℕ → List Region → List Region
  | _, [] => []
  | base, x :: xs =>
    if e ≤ x.base then x :: xs
    else if x.base + x.size ≤ base then x :: carve e base xs
    else if x.base < base then
      if e < x.base + x.size then
        ⟨x.base, base - x.base⟩ :: ⟨e, x.base + x.size - e⟩ :: xs
      else ⟨x.base, base - x.base⟩ :: carve e (x.base + x.size) xs
    else if e < x.base + x.size then ⟨e, x.base + x.size - e⟩ :: xs
    else carve e base xs

/-- Two numbers between which something is left of `x` and `[b, e)`. -/
def Meets (b e : ℕ) (x : Region) : Prop := max x.base b < min (x.base + x.size) e

/-- The order of two regions in which a pass that takes out `[b, e)` gets to both. -/
def Clears (b e : ℕ) (x y : Region) : Prop :=
  Meets b e y → x.base < e ∧
    (Meets b e x → x.base + x.size ≤ e ∧ (x.base < b → x.base + x.size ≤ y.base))

instance (b e : ℕ) (x : Region) : Decidable (Meets b e x) := inferInstanceAs (Decidable (_ < _))

instance (b e : ℕ) (x y : Region) : Decidable (Clears b e x y) :=
  inferInstanceAs (Decidable (_ → _))

lemma disjoint_covered {s : Set ℕ} :
    Disjoint (covered l) s ↔ ∀ r ∈ l, Disjoint r.addrs s := by
  induction l with
  | nil => simp
  | cons x l ih => simp [Set.disjoint_union_left, ih]

lemma disjoint_addrs {r : Region} : Disjoint r.addrs (Set.Ico b e) ↔ ¬ Meets b e r := by
  rw [Set.disjoint_left]
  constructor
  · intro h hm
    unfold Meets at hm
    refine h (a := max r.base b) ?_ ?_
    · rw [mem_addrs]; omega
    · rw [Set.mem_Ico]; omega
  · intro hm a ha hb
    rw [mem_addrs] at ha
    rw [Set.mem_Ico] at hb
    exact hm (by unfold Meets; omega)

/-- The six ways a turn of `carve` goes. -/
lemma carve_cons (e b : ℕ) (x : Region) (l : List Region) :
    (e ≤ x.base ∧ carve e b (x :: l) = x :: l) ∨
      (x.base < e ∧ x.base + x.size ≤ b ∧ carve e b (x :: l) = x :: carve e b l) ∨
      (x.base < e ∧ x.base < b ∧ b < x.base + x.size ∧ e < x.base + x.size ∧
        carve e b (x :: l) = ⟨x.base, b - x.base⟩ :: ⟨e, x.base + x.size - e⟩ :: l) ∨
      (x.base < e ∧ x.base < b ∧ b < x.base + x.size ∧ x.base + x.size ≤ e ∧
        carve e b (x :: l) = ⟨x.base, b - x.base⟩ :: carve e (x.base + x.size) l) ∨
      (x.base < e ∧ b ≤ x.base ∧ e < x.base + x.size ∧
        carve e b (x :: l) = ⟨e, x.base + x.size - e⟩ :: l) ∨
      (x.base < e ∧ b ≤ x.base ∧ b < x.base + x.size ∧ x.base + x.size ≤ e ∧
        carve e b (x :: l) = carve e b l) := by
  rcases Nat.lt_or_ge x.base e with h1 | h1
  · right
    have h1' := Nat.not_le.mpr h1
    rcases Nat.lt_or_ge b (x.base + x.size) with h2 | h2
    · right
      have h2' := Nat.not_le.mpr h2
      rcases Nat.lt_or_ge x.base b with h3 | h3 <;>
        rcases Nat.lt_or_ge e (x.base + x.size) with h4 | h4
      · exact Or.inl ⟨h1, h3, h2, h4, by simp [carve, h1', h2', h3, h4]⟩
      · exact Or.inr (Or.inl ⟨h1, h3, h2, h4, by simp [carve, h1', h2', h3, Nat.not_lt.mpr h4]⟩)
      · exact Or.inr (Or.inr (Or.inl
          ⟨h1, h3, h4, by simp [carve, h1', h2', Nat.not_lt.mpr h3, h4]⟩))
      · exact Or.inr (Or.inr (Or.inr
          ⟨h1, h3, h2, h4, by simp [carve, h1', h2', Nat.not_lt.mpr h3, Nat.not_lt.mpr h4]⟩))
    · exact Or.inl ⟨h1, h2, by simp [carve, h1', h2]⟩
  · exact Or.inl ⟨h1, by simp [carve, h1]⟩

lemma carve_sub (hbe : b ≤ e) : covered (carve e b l) ⊆ covered l := by
  induction l generalizing b with
  | nil => simp [carve]
  | cons x l ih =>
      rcases carve_cons e b x l with ⟨-, hc⟩ | ⟨-, -, hc⟩ | ⟨h1, h2, h3, h4, hc⟩ |
        ⟨h1, h2, h3, h4, hc⟩ | ⟨h1, h2, h3, hc⟩ | ⟨-, -, -, -, hc⟩
      · rw [hc]
      · rw [hc, covered_cons, covered_cons]
        exact Set.union_subset_union_right _ (ih hbe)
      · rw [hc]
        simp only [covered_cons, ← Set.union_assoc]
        refine Set.union_subset_union_left _ fun a => ?_
        simp only [Set.mem_union, mem_addrs]
        omega
      · rw [hc]
        simp only [covered_cons]
        refine Set.union_subset_union (fun a => ?_) (ih h4)
        simp only [mem_addrs]
        omega
      · rw [hc]
        simp only [covered_cons]
        refine Set.union_subset_union_left _ fun a => ?_
        simp only [mem_addrs]
        omega
      · rw [hc, covered_cons]
        exact (ih hbe).trans Set.subset_union_right

/-- Nothing outside the range is lost. -/
lemma carve_sup {c : ℕ} (hcb : c ≤ b) (hbe : b ≤ e) :
    covered l \ Set.Ico c e ⊆ covered (carve e b l) := by
  induction l generalizing b with
  | nil => simp [carve]
  | cons x l ih =>
      rw [covered_cons, Set.union_sdiff_distrib]
      rcases carve_cons e b x l with ⟨-, hc⟩ | ⟨-, -, hc⟩ | ⟨h1, h2, h3, h4, hc⟩ |
        ⟨h1, h2, h3, h4, hc⟩ | ⟨h1, h2, h3, hc⟩ | ⟨h1, h2, h3, h4, hc⟩
      · rw [hc, covered_cons]
        exact Set.union_subset_union Set.sdiff_subset Set.sdiff_subset
      · rw [hc, covered_cons]
        exact Set.union_subset_union Set.sdiff_subset (ih hcb hbe)
      · rw [hc]
        simp only [covered_cons, ← Set.union_assoc]
        refine Set.union_subset_union (fun a => ?_) Set.sdiff_subset
        simp only [Set.mem_sdiff, Set.mem_union, mem_addrs, Set.mem_Ico]
        omega
      · rw [hc, covered_cons]
        refine Set.union_subset_union (fun a => ?_) (ih (by omega) h4)
        simp only [Set.mem_sdiff, mem_addrs, Set.mem_Ico]
        omega
      · rw [hc, covered_cons]
        refine Set.union_subset_union (fun a => ?_) Set.sdiff_subset
        simp only [Set.mem_sdiff, mem_addrs, Set.mem_Ico]
        omega
      · rw [hc]
        refine Set.union_subset (fun a => ?_) (ih hcb hbe)
        simp only [Set.mem_sdiff, mem_addrs, Set.mem_Ico]
        omega

/-- What is left meets `[c, e)` unless the regions come in order, and those that meet it
begin where the pass has got to or later. -/
lemma carve_disjoint_iff {c : ℕ} (hcb : c ≤ b) (hbe : b ≤ e) :
    Disjoint (covered (carve e b l)) (Set.Ico c e) ↔
      l.Pairwise (Clears c e) ∧ ∀ y ∈ l, Meets c e y → c < b → b ≤ y.base := by
  induction l generalizing b with
  | nil => simp [carve]
  | cons x l ih =>
      rw [List.pairwise_cons, List.forall_mem_cons]
      rcases carve_cons e b x l with ⟨h1, hc⟩ | ⟨h1, h2, hc⟩ | ⟨h1, h2, h3, h4, hc⟩ |
        ⟨h1, h2, h3, h4, hc⟩ | ⟨h1, h2, h3, hc⟩ | ⟨h1, h2, h3, h4, hc⟩
      · -- the pass ends before `x`
        have hx : ¬ Meets c e x := by unfold Meets; omega
        rw [hc, covered_cons, Set.disjoint_union_left, disjoint_addrs, disjoint_covered]
        simp only [disjoint_addrs]
        constructor
        · rintro ⟨-, h⟩
          refine ⟨⟨fun y hy hm => absurd hm (h y hy), ?_⟩, fun hm => absurd hm hx,
            fun y hy hm => absurd hm (h y hy)⟩
          exact List.pairwise_of_forall_mem_list fun _ _ y hy hm => absurd hm (h y hy)
        · rintro ⟨⟨h, -⟩, -⟩
          exact ⟨hx, fun y hy hm => absurd (h y hy hm).1 (by omega)⟩
      · -- `x` ends before what is left
        have hx : Meets c e x → c < b → ¬ b ≤ x.base := by unfold Meets; omega
        have hx' : ¬ Meets c e x ∨ Meets c e x ∧ c < b := by unfold Meets; omega
        rw [hc, covered_cons, Set.disjoint_union_left, disjoint_addrs, ih hcb hbe]
        constructor
        · rintro ⟨hm, h, h'⟩
          exact ⟨⟨fun y _ _ => ⟨h1, fun hmx => absurd hmx hm⟩, h⟩, fun hmx => absurd hmx hm, h'⟩
        · rintro ⟨⟨-, h⟩, h3, h'⟩
          rcases hx' with hm | ⟨hm, hlt⟩
          · exact ⟨hm, h, h'⟩
          · exact absurd (h3 hm hlt) (hx hm hlt)
      · -- the middle of `x` goes
        rw [hc]
        simp only [covered_cons, Set.disjoint_union_left, disjoint_addrs, disjoint_covered]
        constructor
        · rintro ⟨hm, -, h⟩
          have hcb' : ¬ c < b := by unfold Meets at hm; dsimp only at hm; omega
          refine ⟨⟨fun y hy hmy => absurd hmy (h y hy), ?_⟩, fun _ hlt => absurd hlt hcb',
            fun y hy hmy => absurd hmy (h y hy)⟩
          exact List.pairwise_of_forall_mem_list fun _ _ y hy hmy => absurd hmy (h y hy)
        · rintro ⟨⟨h, -⟩, h5, -⟩
          have hlast : ∀ y ∈ l, ¬ Meets c e y := by
            intro y hy hmy
            have hmx : Meets c e x := by unfold Meets at hmy ⊢; omega
            exact absurd ((h y hy hmy).2 hmx).1 (by omega)
          refine ⟨?_, ?_, hlast⟩
          · unfold Meets at h5 ⊢; dsimp only; omega
          · unfold Meets; dsimp only; omega
      · -- the right part of `x` goes
        rw [hc, covered_cons, Set.disjoint_union_left, disjoint_addrs, ih (by omega) h4]
        have hmx : Meets c e x := by unfold Meets; omega
        constructor
        · rintro ⟨hm, h, h'⟩
          have hcb' : ¬ c < b := by unfold Meets at hm; dsimp only at hm; omega
          refine ⟨⟨fun y hy hmy => ⟨h1, fun _ => ⟨h4, fun _ => h' y hy hmy (by omega)⟩⟩, h⟩,
            fun _ hlt => absurd hlt hcb', fun y _ _ hlt => absurd hlt hcb'⟩
        · rintro ⟨⟨h, h'⟩, h5, -⟩
          have hcb' : ¬ c < b := fun hlt => absurd (h5 hmx hlt) (by omega)
          refine ⟨?_, h', fun y hy hmy _ => ((h y hy hmy).2 hmx).2 (by omega)⟩
          unfold Meets; dsimp only; omega
      · -- the left part of `x` goes
        have hmx : Meets c e x := by unfold Meets; omega
        rw [hc]
        simp only [covered_cons, Set.disjoint_union_left, disjoint_addrs, disjoint_covered]
        constructor
        · rintro ⟨-, h⟩
          refine ⟨⟨fun y hy hmy => absurd hmy (h y hy), ?_⟩, fun _ _ => h2,
            fun y hy hmy => absurd hmy (h y hy)⟩
          exact List.pairwise_of_forall_mem_list fun _ _ y hy hmy => absurd hmy (h y hy)
        · rintro ⟨⟨h, -⟩, -, -⟩
          refine ⟨by unfold Meets; dsimp only; omega, fun y hy hmy => ?_⟩
          exact absurd ((h y hy hmy).2 hmx).1 (by omega)
      · -- `x` goes
        rw [hc, ih hcb hbe]
        constructor
        · rintro ⟨h, h'⟩
          exact ⟨⟨fun y _ _ => ⟨h1, fun _ => ⟨h4, fun hlt => absurd hlt (by omega)⟩⟩, h⟩,
            fun _ _ => h2, h'⟩
        · rintro ⟨⟨-, h⟩, -, h'⟩
          exact ⟨h, h'⟩

/-- **Carving** takes the range out of what is covered exactly if the regions that meet it
come in order. -/
theorem carve_covered_iff (hbe : b ≤ e) :
    covered (carve e b l) = covered l \ Set.Ico b e ↔ l.Pairwise (Clears b e) := by
  have h := carve_disjoint_iff (l := l) le_rfl hbe
  simp only [lt_irrefl, false_implies, implies_true, and_true] at h
  rw [← h]
  constructor
  · intro he
    rw [he]
    exact Set.disjoint_sdiff_left
  · intro hd
    refine (Set.subset_sdiff.mpr ⟨carve_sub hbe, hd⟩).antisymm (carve_sup le_rfl hbe)

end Elfboot.RegionList
