import Elfboot.RegionList

/-!
Lists of regions in order: whole pages, none empty, each ending before the next begins.

Carving keeps the order. Filling keeps it if the gaps it fills are gaps, and what it adds
touches nothing; the array version of it goes wrong otherwise.
-/

namespace Elfboot.RegionOrder

open Elfboot.Mm Elfboot.RegionList

/-- What the boot-time memory map promises of its entries. -/
structure WellFormed (l : List Region) : Prop where
  aligned : ∀ r ∈ l, pageSize ∣ r.base ∧ pageSize ∣ r.size
  nonempty : ∀ r ∈ l, 0 < r.size
  sorted : l.Pairwise fun r s => r.base < s.base
  apart : l.Pairwise fun r s => Disjoint r.addrs s.addrs

/-- The form in which the promise is kept. -/
structure Ordered (l : List Region) : Prop where
  aligned : ∀ r ∈ l, pageSize ∣ r.base ∧ pageSize ∣ r.size
  nonempty : ∀ r ∈ l, 0 < r.size
  order : l.Pairwise fun r s => r.base + r.size ≤ s.base

variable {b e : ℕ} {x : Region} {l : List Region}

lemma Ordered.wellFormed (h : Ordered l) : WellFormed l where
  aligned := h.aligned
  nonempty := h.nonempty
  sorted := by
    refine h.order.imp_of_mem fun hr _ hrs => ?_
    have := h.nonempty _ hr
    omega
  apart := by
    refine h.order.imp fun hrs => Set.disjoint_left.mpr fun a ha ha' => ?_
    rw [mem_addrs] at ha ha'
    omega

lemma WellFormed.ordered (h : WellFormed l) : Ordered l where
  aligned := h.aligned
  nonempty := h.nonempty
  order := by
    refine (h.sorted.and h.apart).imp_of_mem fun {r s} hr hs hrs => ?_
    obtain ⟨hlt, hd⟩ := hrs
    by_contra hgt
    have := h.nonempty s hs
    have hr : s.base ∈ r.addrs := by rw [mem_addrs]; omega
    have hs : s.base ∈ s.addrs := by rw [mem_addrs]; omega
    exact Set.disjoint_left.mp hd hr hs

@[simp] lemma ordered_nil : Ordered [] := ⟨by simp, by simp, by simp⟩

lemma ordered_cons : Ordered (x :: l) ↔ (pageSize ∣ x.base ∧ pageSize ∣ x.size) ∧ 0 < x.size ∧
    (∀ s ∈ l, x.base + x.size ≤ s.base) ∧ Ordered l := by
  constructor
  · intro h
    have ho := List.pairwise_cons.mp h.order
    exact ⟨h.aligned x (by simp), h.nonempty x (by simp), ho.1,
      ⟨fun r hr => h.aligned r (by simp [hr]), fun r hr => h.nonempty r (by simp [hr]), ho.2⟩⟩
  · rintro ⟨h1, h2, h3, h4⟩
    exact ⟨List.forall_mem_cons.mpr ⟨h1, h4.aligned⟩, List.forall_mem_cons.mpr ⟨h2, h4.nonempty⟩,
      List.pairwise_cons.mpr ⟨h3, h4.order⟩⟩

lemma ordered_append {m : List Region} : Ordered (l ++ m) ↔
    Ordered l ∧ Ordered m ∧ ∀ r ∈ l, ∀ s ∈ m, r.base + r.size ≤ s.base := by
  constructor
  · intro h
    obtain ⟨h1, h2, h3⟩ := List.pairwise_append.mp h.order
    obtain ⟨h4, h5⟩ := List.forall_mem_append.mp h.aligned
    obtain ⟨h6, h7⟩ := List.forall_mem_append.mp h.nonempty
    exact ⟨⟨h4, h6, h1⟩, ⟨h5, h7, h2⟩, h3⟩
  · rintro ⟨h1, h2, h3⟩
    exact ⟨List.forall_mem_append.mpr ⟨h1.aligned, h2.aligned⟩,
      List.forall_mem_append.mpr ⟨h1.nonempty, h2.nonempty⟩,
      List.pairwise_append.mpr ⟨h1.order, h2.order, h3⟩⟩

/-! ### Carving -/

/-- What is left of a list lies inside its regions. -/
lemma carve_lower {c : ℕ} (hc : ∀ r ∈ l, c ≤ r.base) :
    ∀ r ∈ carve e b l, c ≤ r.base := by
  induction l generalizing b with
  | nil => simp [carve]
  | cons x l ih =>
      obtain ⟨hx, hl⟩ := List.forall_mem_cons.mp hc
      have ih' := fun b => ih (b := b) hl
      rcases carve_cons e b x l with ⟨-, h⟩ | ⟨-, -, h⟩ | ⟨h1, -, -, -, h⟩ |
        ⟨-, -, -, -, h⟩ | ⟨h1, -, -, h⟩ | ⟨-, -, -, -, h⟩ <;> rw [h]
      · exact hc
      · exact List.forall_mem_cons.mpr ⟨hx, ih' b⟩
      · refine List.forall_mem_cons.mpr ⟨hx, List.forall_mem_cons.mpr ⟨?_, hl⟩⟩
        dsimp only; omega
      · exact List.forall_mem_cons.mpr ⟨hx, ih' _⟩
      · refine List.forall_mem_cons.mpr ⟨?_, hl⟩
        dsimp only; omega
      · exact ih' b

/-- **Carving** whole pages keeps a list in order. -/
lemma carve_ordered (hb : pageSize ∣ b) (he : pageSize ∣ e) (hbe : b ≤ e) (h : Ordered l) :
    Ordered (carve e b l) := by
  induction l generalizing b with
  | nil => simp [carve]
  | cons x l ih =>
      obtain ⟨⟨ha, ha'⟩, hn, ho, hl⟩ := ordered_cons.mp h
      have hs : pageSize ∣ x.base + x.size := dvd_add ha ha'
      rcases carve_cons e b x l with ⟨-, hc⟩ | ⟨-, -, hc⟩ | ⟨h1, h2, h3, h4, hc⟩ |
        ⟨h1, h2, h3, h4, hc⟩ | ⟨h1, h2, h3, hc⟩ | ⟨-, -, -, -, hc⟩ <;> rw [hc]
      · exact h
      · exact ordered_cons.mpr ⟨⟨ha, ha'⟩, hn, carve_lower ho, ih hb hbe hl⟩
      · have hr : Ordered (⟨e, x.base + x.size - e⟩ :: l) := by
          refine ordered_cons.mpr ⟨⟨he, Nat.dvd_sub hs he⟩, by dsimp only; omega, ?_, hl⟩
          intro s hsl
          have := ho s hsl
          dsimp only; omega
        refine ordered_cons.mpr ⟨⟨ha, Nat.dvd_sub hb ha⟩, by dsimp only; omega, ?_, hr⟩
        refine List.forall_mem_cons.mpr ⟨by dsimp only; omega, fun s hsl => ?_⟩
        have := ho s hsl
        dsimp only; omega
      · refine ordered_cons.mpr ⟨⟨ha, Nat.dvd_sub hb ha⟩, by dsimp only; omega, ?_,
          ih hs h4 hl⟩
        intro s hsl
        have := carve_lower ho s hsl
        dsimp only; omega
      · refine ordered_cons.mpr ⟨⟨he, Nat.dvd_sub hs he⟩, by dsimp only; omega, ?_, hl⟩
        intro s hsl
        have := ho s hsl
        dsimp only; omega
      · exact ih hb hbe hl

/-! ### Filling -/

/-- The range `[b, e)` and the region have a page in common, if neither is empty. -/
def Hit (b e : ℕ) (x : Region) : Prop := x.base < e ∧ b < x.base + x.size

instance (b e : ℕ) (x : Region) : Decidable (Hit b e x) := inferInstanceAs (Decidable (_ ∧ _))

lemma fill_lower {c : ℕ} (hcb : c ≤ b) (hce : c ≤ e) (hc : ∀ r ∈ l, c ≤ r.base) :
    ∀ r ∈ (fill e b l).1 ++ (fill e b l).2.1, c ≤ r.base := by
  induction l generalizing b with
  | nil => simp [fill]
  | cons x l ih =>
      obtain ⟨hx, hl⟩ := List.forall_mem_cons.mp hc
      rcases fill_cons e b x l with ⟨-, hf⟩ | ⟨-, -, hf⟩ | ⟨g, h1, h2, hg, hf⟩ <;> rw [hf]
      · exact hc
      · exact List.forall_mem_cons.mpr ⟨hx, ih hcb hl⟩
      · have hrest := ih (b := min (x.base + x.size) e) (by omega) hl
        rcases hg with ⟨rfl, -⟩ | ⟨rfl, -⟩
        · exact List.forall_mem_cons.mpr ⟨hcb, List.forall_mem_cons.mpr ⟨hx, hrest⟩⟩
        · exact List.forall_mem_cons.mpr ⟨hx, hrest⟩

lemma fill_past (h : ∀ y ∈ l, e ≤ y.base) : fill e b l = ([], l, b) := by
  cases l with
  | nil => rfl
  | cons x l => simp [fill, h x (by simp)]

/-- **Filling** keeps a list in order, if no region it meets begins where the range or the
region before ends. -/
lemma fill_ordered (hb : pageSize ∣ b) (hbe : b ≤ e) (h : Ordered l)
    (hstart : ∀ y ∈ l, Hit b e y → y.base ≠ b)
    (hgaps : l.Pairwise fun r s => Hit b e r → Hit b e s → r.base + r.size ≠ s.base) :
    Ordered ((fill e b l).1 ++ (fill e b l).2.1) := by
  induction l generalizing b with
  | nil => simp [fill]
  | cons x l ih =>
      obtain ⟨⟨ha, ha'⟩, hn, ho, hl⟩ := ordered_cons.mp h
      obtain ⟨hs1, hs2⟩ := List.forall_mem_cons.mp hstart
      obtain ⟨hg1, hg2⟩ := List.pairwise_cons.mp hgaps
      rcases fill_cons e b x l with ⟨-, hf⟩ | ⟨-, h2, hf⟩ | ⟨g, h1, h2, hg, hf⟩ <;> rw [hf]
      · exact h
      · refine ordered_cons.mpr ⟨⟨ha, ha'⟩, hn, ?_, ih hb hbe hl hs2 hg2⟩
        exact fill_lower h2 (h2.trans hbe) ho
      · have hx : Ordered (x :: ((fill e (min (x.base + x.size) e) l).1 ++
            (fill e (min (x.base + x.size) e) l).2.1)) := by
          rcases Nat.lt_or_ge e (x.base + x.size) with hlt | hle
          · rw [fill_past fun y hy => hlt.le.trans (ho y hy)]
            exact h
          · rw [min_eq_left hle]
            refine ordered_cons.mpr ⟨⟨ha, ha'⟩, hn, fill_lower le_rfl hle ho,
              ih (dvd_add ha ha') hle hl (fun y hy hyh => ?_) (hg2.imp fun hrs hr hs => ?_)⟩
            · exact (hg1 y hy ⟨h1, h2⟩ ⟨hyh.1, by have := hyh.2; omega⟩).symm
            · exact hrs ⟨hr.1, by have := hr.2; omega⟩ ⟨hs.1, by have := hs.2; omega⟩
        rcases hg with ⟨rfl, hbx⟩ | ⟨rfl, -⟩
        · have hlt : b < x.base := lt_of_le_of_ne hbx (hs1 ⟨h1, h2⟩).symm
          refine ordered_cons.mpr ⟨⟨hb, Nat.dvd_sub ha hb⟩, by dsimp only; omega, ?_, hx⟩
          intro s hs
          have hxs : x.base ≤ s.base := by
            rcases List.mem_cons.mp hs with rfl | hs
            · exact le_rfl
            · have := (ordered_cons.mp hx).2.2.1 s hs
              omega
          dsimp only; omega
        · exact hx

/-- Where no region is hit, filling only finds the place. -/
lemma fill_miss (h : ∀ y ∈ l, ¬ Hit b e y) :
    (fill e b l).1 ++ (fill e b l).2.1 = l ∧ (fill e b l).2.2 = b ∧
      ∀ r ∈ (fill e b l).1, r.base + r.size ≤ b := by
  induction l with
  | nil => simp [fill]
  | cons x l ih =>
      obtain ⟨hx, hl⟩ := List.forall_mem_cons.mp h
      obtain ⟨h3, h4, h5⟩ := ih hl
      rcases fill_cons e b x l with ⟨-, hf⟩ | ⟨-, h2, hf⟩ | ⟨g, h1, h2, -, -⟩
      · simp [hf]
      · rw [hf]
        exact ⟨by simp [h3], h4, List.forall_mem_cons.mpr ⟨h2, h5⟩⟩
      · exact absurd ⟨h1, h2⟩ hx

/-- Where a region that is hit reaches the end, nothing is missing afterwards. -/
lemma fill_reach (h : Ordered l) (hbe : b ≤ e)
    (hr : ∃ y ∈ l, Hit b e y ∧ e ≤ y.base + y.size) : (fill e b l).2.2 = e := by
  induction l generalizing b with
  | nil => simp at hr
  | cons x l ih =>
      obtain ⟨-, hn, ho, hl⟩ := ordered_cons.mp h
      obtain ⟨y, hy, hyh, hye⟩ := hr
      have hyl : y = x ∨ y ∈ l := List.mem_cons.mp hy
      have hy1 := hyh.1
      have hy2 := hyh.2
      rcases fill_cons e b x l with ⟨h1, -⟩ | ⟨-, h2, hf⟩ | ⟨g, h1, h2, -, hf⟩
      · exfalso
        rcases hyl with rfl | hyl
        · omega
        · have := ho y hyl
          omega
      · rw [hf]
        rcases hyl with rfl | hyl
        · omega
        · exact ih hl hbe ⟨y, hyl, hyh, hye⟩
      · rw [hf]
        rcases hyl with rfl | hyl
        · rw [min_eq_right hye]
          obtain ⟨h3, h4, -⟩ := fill_covered (l := l) (le_refl e)
          exact le_antisymm h4 h3
        · have := ho y hyl
          have hny := hl.nonempty y hyl
          exact ih hl (min_le_right _ _) ⟨y, hyl, ⟨hy1, by omega⟩, hye⟩

/-- What comes after the place found begins at the end of the range or later. -/
lemma fill_rest (e b : ℕ) (l : List Region) :
    (fill e b l).2.1 = l.dropWhile fun r => r.base < e := by
  induction l generalizing b with
  | nil => simp [fill]
  | cons x l ih =>
      rcases fill_cons e b x l with ⟨h1, hf⟩ | ⟨h1, -, hf⟩ | ⟨g, h1, -, -, hf⟩
      · rw [hf, List.dropWhile_cons_of_neg (by simpa using h1)]
      · rw [hf, List.dropWhile_cons_of_pos (by simpa using h1)]
        exact ih b
      · rw [hf, List.dropWhile_cons_of_pos (by simpa using h1)]
        exact ih _

/-- What has been gone through is from the list, or ends where a region of it begins. -/
lemma fill_done : ∀ r ∈ (fill e b l).1, r ∈ l ∨ r.base + r.size < e := by
  induction l generalizing b with
  | nil => simp [fill]
  | cons x l ih =>
      rcases fill_cons e b x l with ⟨-, hf⟩ | ⟨-, -, hf⟩ | ⟨g, h1, -, hg, hf⟩ <;> rw [hf]
      · simp
      · refine List.forall_mem_cons.mpr ⟨Or.inl (by simp), fun r hr => ?_⟩
        exact (ih r hr).imp_left (List.mem_cons_of_mem x)
      · have hx : ∀ r ∈ x :: (fill e (min (x.base + x.size) e) l).1,
            r ∈ x :: l ∨ r.base + r.size < e := by
          refine List.forall_mem_cons.mpr ⟨Or.inl (by simp), fun r hr => ?_⟩
          exact (ih r hr).imp_left (List.mem_cons_of_mem x)
        rcases hg with ⟨rfl, hb⟩ | ⟨rfl, -⟩
        · exact List.forall_mem_cons.mpr ⟨Or.inr (by dsimp only; omega), hx⟩
        · exact hx

/-! ### Adding a range to a list in order -/

/-- The part of the range that is still missing. -/
def missing (b e : ℕ) : List Region := if b < e then [⟨b, e - b⟩] else []

/-- When adding `[b, e)` leaves a list in order: the regions it hits leave gaps between
them and at the start, and the last reaches the end; where it hits none it touches none;
and the region behind it touches no other. -/
structure Fits (b e : ℕ) (l : List Region) : Prop where
  start : ∀ y ∈ l, Hit b e y → y.base ≠ b
  gaps : l.Pairwise fun r s => Hit b e r → Hit b e s → r.base + r.size ≠ s.base
  reach : (∃ y ∈ l, Hit b e y) → ∃ y ∈ l, Hit b e y ∧ e ≤ y.base + y.size
  free : (∀ y ∈ l, ¬ Hit b e y) → b < e → ∀ r ∈ l, r.base + r.size ≠ b ∧ r.base ≠ e
  behind : (∃ y ∈ l, Hit b e y) ∨ b = e → ∀ s ∈ l.find? (fun r => e ≤ r.base),
    ∀ r ∈ l, r.base + r.size ≠ s.base ∧ s.base + s.size ≠ r.base

lemma fits_iff : Fits b e l ↔ (∀ y ∈ l, Hit b e y → y.base ≠ b) ∧
    (l.Pairwise fun r s => Hit b e r → Hit b e s → r.base + r.size ≠ s.base) ∧
    ((∃ y ∈ l, Hit b e y) → ∃ y ∈ l, Hit b e y ∧ e ≤ y.base + y.size) ∧
    ((∀ y ∈ l, ¬ Hit b e y) → b < e → ∀ r ∈ l, r.base + r.size ≠ b ∧ r.base ≠ e) ∧
    ((∃ y ∈ l, Hit b e y) ∨ b = e → ∀ s ∈ l.find? (fun r => e ≤ r.base),
      ∀ r ∈ l, r.base + r.size ≠ s.base ∧ s.base + s.size ≠ r.base) :=
  ⟨fun h => ⟨h.start, h.gaps, h.reach, h.free, h.behind⟩,
    fun h => ⟨h.1, h.2.1, h.2.2.1, h.2.2.2.1, h.2.2.2.2⟩⟩

instance (b e : ℕ) (l : List Region) : Decidable (Fits b e l) := decidable_of_iff' _ fits_iff

/-- Two lists with nothing to fuse where they meet, and in the two regions after that. -/
def Seam (l m : List Region) : Prop :=
  (∀ x ∈ l, ∀ y ∈ m.head?, x.base + x.size ≠ y.base) ∧
    ∀ y z n, m = y :: z :: n → y.base + y.size ≠ z.base

lemma mem_rest {r : Region} (h : r ∈ (fill e b l).2.1) : r ∈ l := by
  rw [fill_rest] at h
  exact List.dropWhile_subset _ h

lemma head_rest {s : Region} (h : s ∈ (fill e b l).2.1.head?) :
    s ∈ l.find? (fun r => e ≤ r.base) ∧ e ≤ s.base := by
  have hf : (fill e b l).2.1.head? = l.find? (fun r => e ≤ r.base) := by
    rw [fill_rest, List.find?_eq_head?_dropWhile_not]
    simp only [← decide_not, Nat.not_le]
  rw [hf] at h
  refine ⟨h, ?_⟩
  simpa using List.find?_some h

lemma rest_ge (h : Ordered (fill e b l).2.1) : ∀ r ∈ (fill e b l).2.1, e ≤ r.base := by
  rcases hr : (fill e b l).2.1 with _ | ⟨y, n⟩
  · simp
  · rw [hr] at h
    have hy : e ≤ y.base := (head_rest (s := y) (by rw [hr]; rfl)).2
    refine List.forall_mem_cons.mpr ⟨hy, fun r hrn => ?_⟩
    have := (ordered_cons.mp h).2.2.1 r hrn
    omega

/-- Nothing is missing, and the region behind touches no other. -/
lemma seam_rest (h : ∀ s ∈ l.find? (fun r => e ≤ r.base),
    ∀ r ∈ l, r.base + r.size ≠ s.base ∧ s.base + s.size ≠ r.base) :
    Seam (fill e b l).1 (fill e b l).2.1 := by
  constructor
  · intro x hx y hy
    obtain ⟨hs, hle⟩ := head_rest hy
    rcases fill_done x hx with hxl | hlt
    · exact (h y hs x hxl).1
    · omega
  · intro y z n hm
    have hy := head_rest (s := y) (by rw [hm]; rfl)
    exact (h y hy.1 z (mem_rest (by rw [hm]; simp))).2

/-- **Adding** a range that fits keeps a list in order, with nothing to fuse. -/
theorem fill_fits (hb : pageSize ∣ b) (he : pageSize ∣ e) (hbe : b ≤ e) (h : Ordered l)
    (hf : Fits b e l) :
    Ordered ((fill e b l).1 ++ (missing (fill e b l).2.2 e ++ (fill e b l).2.1)) ∧
      Seam (fill e b l).1 (missing (fill e b l).2.2 e ++ (fill e b l).2.1) := by
  have ho := fill_ordered hb hbe h hf.start hf.gaps
  by_cases hhit : ∃ y ∈ l, Hit b e y
  · rw [fill_reach h hbe (hf.reach hhit)]
    simp only [missing, lt_irrefl, if_false, List.nil_append]
    exact ⟨ho, seam_rest (hf.behind (Or.inl hhit))⟩
  · push Not at hhit
    obtain ⟨h1, h2, h3⟩ := fill_miss hhit
    rw [h2]
    rcases Nat.lt_or_ge b e with hlt | hge
    · have hfree := hf.free hhit hlt
      have hpre : ∀ r ∈ (fill e b l).1, r ∈ l := fun r hr => by
        rw [← h1]; exact List.mem_append_left _ hr
      obtain ⟨ho1, ho2, ho3⟩ := ordered_append.mp ho
      have hrest : ∀ r ∈ (fill e b l).2.1, e ≤ r.base := rest_ge ho2
      simp only [missing, hlt, if_true]
      constructor
      · have hnew : Ordered (⟨b, e - b⟩ :: (fill e b l).2.1) :=
          ordered_cons.mpr ⟨⟨hb, Nat.dvd_sub he hb⟩, by dsimp only; omega,
            fun s hs => by have := hrest s hs; dsimp only; omega, ho2⟩
        refine ordered_append.mpr ⟨ho1, hnew, fun r hr => List.forall_mem_cons.mpr ⟨h3 r hr, ?_⟩⟩
        intro s hs
        exact (h3 r hr).trans (hbe.trans (hrest s hs))
      · constructor
        · intro x hx y hy
          simp only [List.singleton_append, List.head?_cons, Option.mem_some_iff] at hy
          subst hy
          exact (hfree x (hpre x hx)).1
        · intro y z n hm
          simp only [List.singleton_append, List.cons.injEq] at hm
          obtain ⟨rfl, hm⟩ := hm
          have hz := hfree z (mem_rest (by rw [hm]; simp))
          dsimp only
          omega
    · obtain rfl : b = e := by omega
      simp only [missing, lt_irrefl, if_false, List.nil_append]
      exact ⟨ho, seam_rest (hf.behind (Or.inr rfl))⟩

end Elfboot.RegionOrder
