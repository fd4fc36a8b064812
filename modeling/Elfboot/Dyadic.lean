import Mathlib

/-!
Naturally aligned blocks of `2 ^ k` pages, and tilings of a set of pages by them.

Two aligned blocks are nested or disjoint, and the buddy of a block is the other half of
the block of twice its size. In a tiling the buddy of a block is therefore either one
block or is cut into smaller ones, the first of which starts where the buddy does; no
larger block can contain it, because it would contain the block as well.
-/

namespace Elfboot.Dyadic

structure Block where
  head : ℕ
  order : ℕ
  deriving DecidableEq

def Block.pages (b : Block) : Set ℕ := {q | b.head ≤ q ∧ q < b.head + 2 ^ b.order}

def Block.Aligned (b : Block) : Prop := 2 ^ b.order ∣ b.head

@[simp] lemma mem_pages {b : Block} {q : ℕ} :
    q ∈ b.pages ↔ b.head ≤ q ∧ q < b.head + 2 ^ b.order := Iff.rfl

lemma head_mem (b : Block) : b.head ∈ b.pages :=
  ⟨le_rfl, Nat.lt_add_of_pos_right (Nat.two_pow_pos _)⟩

/-! ### Buddies -/

lemma xor_two_pow_mul (m k : ℕ) : (2 ^ k * m) ^^^ 2 ^ k = 2 ^ k * (m ^^^ 1) := by
  have h1 : ((2 ^ k * m) ^^^ 2 ^ k) / 2 ^ k = m ^^^ 1 := by
    rw [Nat.xor_div_two_pow, Nat.div_self (by positivity),
      Nat.mul_div_cancel_left _ (by positivity)]
  have h2 : ((2 ^ k * m) ^^^ 2 ^ k) % 2 ^ k = 0 := by
    rw [Nat.xor_mod_two_pow, Nat.mod_self, Nat.mul_mod_right, Nat.xor_zero]
  have h3 := Nat.div_add_mod ((2 ^ k * m) ^^^ 2 ^ k) (2 ^ k)
  rw [h1, h2, Nat.add_zero] at h3
  exact h3.symm

lemma xor_one (m b : ℕ) (hb : b < 2) : (2 * m + b) ^^^ 1 = 2 * m + (b ^^^ 1) := by
  have h1 : ((2 * m + b) ^^^ 1) / 2 ^ 1 = m := by
    rw [Nat.xor_div_two_pow]
    simp only [pow_one, Nat.reduceDiv, Nat.xor_zero]
    omega
  have h2 : ((2 * m + b) ^^^ 1) % 2 ^ 1 = b ^^^ 1 := by
    rw [Nat.xor_mod_two_pow]
    have : (2 * m + b) % 2 ^ 1 = b := by omega
    rw [this]
  have h3 := Nat.div_add_mod ((2 * m + b) ^^^ 1) (2 ^ 1)
  rw [h1, h2, pow_one] at h3
  exact h3.symm

lemma xor_one_even (m : ℕ) : (2 * m) ^^^ 1 = 2 * m + 1 := xor_one m 0 (by decide)

lemma xor_one_odd (m : ℕ) : (2 * m + 1) ^^^ 1 = 2 * m := xor_one m 1 (by decide)

/-- A block is the left or the right half of an aligned pair; its buddy is the other. -/
lemma buddy_cases {p k : ℕ} (h : 2 ^ k ∣ p) :
    (2 ^ (k + 1) ∣ p ∧ p ^^^ 2 ^ k = p + 2 ^ k) ∨
      ∃ l, 2 ^ (k + 1) ∣ l ∧ p = l + 2 ^ k ∧ p ^^^ 2 ^ k = l := by
  obtain ⟨m, rfl⟩ := h
  rw [xor_two_pow_mul]
  rcases Nat.even_or_odd' m with ⟨c, rfl | rfl⟩
  · left
    exact ⟨⟨c, by ring⟩, by rw [xor_one_even]; ring⟩
  · right
    exact ⟨2 ^ (k + 1) * c, ⟨c, rfl⟩, by ring, by rw [xor_one_odd]; ring⟩

/-- The left one of two buddies is aligned for the block they form, and the other one begins
its right half. -/
lemma min_buddy {p k : ℕ} (h : 2 ^ k ∣ p) : 2 ^ (k + 1) ∣ min p (p ^^^ 2 ^ k) ∧
    (p = min p (p ^^^ 2 ^ k) ∧ p ^^^ 2 ^ k = min p (p ^^^ 2 ^ k) + 2 ^ k ∨
      p = min p (p ^^^ 2 ^ k) + 2 ^ k ∧ p ^^^ 2 ^ k = min p (p ^^^ 2 ^ k)) := by
  rcases buddy_cases h with ⟨hd, he⟩ | ⟨l, hd, hp, he⟩
  · have hmin : min p (p ^^^ 2 ^ k) = p := min_eq_left (he ▸ Nat.le_add_right _ _)
    rw [hmin]
    exact ⟨hd, .inl ⟨rfl, he⟩⟩
  · have hmin : min p (p ^^^ 2 ^ k) = l := by omega
    rw [hmin]
    exact ⟨hd, .inr ⟨hp, he⟩⟩

lemma buddy_dvd {p k : ℕ} (h : 2 ^ k ∣ p) : 2 ^ k ∣ p ^^^ 2 ^ k := by
  obtain ⟨m, rfl⟩ := h
  exact ⟨_, xor_two_pow_mul m k⟩

lemma buddy_of_left {p k : ℕ} (h : 2 ^ (k + 1) ∣ p) : p ^^^ 2 ^ k = p + 2 ^ k := by
  obtain ⟨m, rfl⟩ := h
  rw [pow_succ, mul_assoc, xor_two_pow_mul, xor_one_even]
  ring

lemma buddy_ne (p k : ℕ) : p ^^^ 2 ^ k ≠ p := by
  intro h
  have := congrArg (p ^^^ ·) h
  simp only [Nat.xor_self, ← Nat.xor_assoc, Nat.zero_xor] at this
  exact absurd this (Nat.two_pow_pos k).ne'

lemma buddy_buddy (p k : ℕ) : p ^^^ 2 ^ k ^^^ 2 ^ k = p := by
  rw [Nat.xor_assoc, Nat.xor_self, Nat.xor_zero]

/-! ### Tilings -/

/-- The blocks `B` are aligned, lie in `R`, cover `R`, and no page is in two of them. -/
structure Tiling (R : Set ℕ) (B : Set Block) : Prop where
  aligned : ∀ b ∈ B, b.Aligned
  sub : ∀ b ∈ B, b.pages ⊆ R
  uniq : ∀ b ∈ B, ∀ c ∈ B, ∀ q ∈ b.pages, q ∈ c.pages → b = c
  cover : ∀ q ∈ R, ∃ b ∈ B, q ∈ b.pages

variable {R : Set ℕ} {B : Set Block}

lemma Tiling.disjoint (ht : Tiling R B) {b c : Block} (hb : b ∈ B) (hc : c ∈ B) (hne : b ≠ c) :
    Disjoint b.pages c.pages :=
  Set.disjoint_left.mpr fun q hq hq' => hne (ht.uniq b hb c hc q hq hq')

lemma Tiling.eq_of_head (ht : Tiling R B) {p j k : ℕ} (hb : (⟨p, j⟩ : Block) ∈ B)
    (hc : (⟨p, k⟩ : Block) ∈ B) : j = k :=
  congrArg Block.order (ht.uniq _ hb _ hc p (head_mem ⟨p, j⟩) (head_mem ⟨p, k⟩))

/-- An aligned block that is no larger than an aligned block containing its head is at its
head or inside it. -/
lemma eq_head_of_le {b : Block} {q j : ℕ} (hb : b.Aligned) (hq : 2 ^ j ∣ q) (hm : q ∈ b.pages)
    (hle : b.order ≤ j) : q = b.head := by
  obtain ⟨c, hc⟩ := hb
  obtain ⟨d, hd⟩ := (pow_dvd_pow 2 hle).trans hq
  obtain ⟨h1, h2⟩ := hm
  have hpos : 0 < 2 ^ b.order := Nat.two_pow_pos _
  rw [hc, hd] at h1 h2
  have hcd : c ≤ d := Nat.le_of_mul_le_mul_left h1 hpos
  have hdc : d < c + 1 := Nat.lt_of_mul_lt_mul_left (by rw [Nat.mul_add, Nat.mul_one]; exact h2)
  rw [hc, hd, show d = c by omega]

/-- A block larger than an aligned pair contains all of it or nothing of it. -/
lemma pair_sub {b : Block} {l q r j : ℕ} (hb : b.Aligned) (hl : 2 ^ (j + 1) ∣ l)
    (hlt : j < b.order) (hq : q ∈ b.pages) (hlq : l ≤ q) (hql : q < l + 2 ^ (j + 1))
    (hlr : l ≤ r) (hrl : r < l + 2 ^ (j + 1)) : r ∈ b.pages := by
  have hpd : 2 ^ (j + 1) ∣ 2 ^ b.order := pow_dvd_pow 2 hlt
  obtain ⟨c, hc⟩ := hpd.trans hb
  obtain ⟨e, he⟩ := hpd
  obtain ⟨d, rfl⟩ := hl
  obtain ⟨h1, h2⟩ := hq
  have hpos : 0 < 2 ^ (j + 1) := Nat.two_pow_pos _
  rw [hc] at h1
  rw [hc, he, ← Nat.mul_add] at h2
  have hcd : c ≤ d := by
    by_contra hlt
    have := Nat.mul_le_mul_left (2 ^ (j + 1)) (show d + 1 ≤ c by omega)
    rw [Nat.mul_add, Nat.mul_one] at this
    omega
  have hdc : d + 1 ≤ c + e :=
    Nat.lt_of_mul_lt_mul_left (a := 2 ^ (j + 1)) (by omega)
  have h3 := Nat.mul_le_mul_left (2 ^ (j + 1)) hcd
  have h4 := Nat.mul_le_mul_left (2 ^ (j + 1)) hdc
  rw [Nat.mul_add, Nat.mul_one] at h4
  refine ⟨by omega, ?_⟩
  rw [hc, he, ← Nat.mul_add]
  omega

/-- A page's position against the pair its block and the buddy form. -/
lemma pair_bounds {p k : ℕ} (h : 2 ^ k ∣ p) :
    ∃ l, 2 ^ (k + 1) ∣ l ∧ l ≤ p ∧ p + 2 ^ k ≤ l + 2 ^ (k + 1) ∧ l ≤ p ^^^ 2 ^ k ∧
      (p ^^^ 2 ^ k) + 2 ^ k ≤ l + 2 ^ (k + 1) := by
  have hk : 2 ^ (k + 1) = 2 ^ k + 2 ^ k := by ring
  rcases buddy_cases h with ⟨hd, he⟩ | ⟨l, hd, hp, he⟩
  · exact ⟨p, hd, le_rfl, by omega, by omega, by omega⟩
  · exact ⟨l, hd, by omega, by omega, by omega, by omega⟩

/-- **The buddy in a tiling**: it is a block of at most the same size, at the same page. -/
theorem Tiling.buddy_block (ht : Tiling R B) {p j : ℕ} (hb : (⟨p, j⟩ : Block) ∈ B)
    (hq : p ^^^ 2 ^ j ∈ R) : ∃ m ≤ j, (⟨p ^^^ 2 ^ j, m⟩ : Block) ∈ B := by
  obtain ⟨c, hc, hqc⟩ := ht.cover _ hq
  have hal : 2 ^ j ∣ p := ht.aligned _ hb
  rcases Nat.lt_or_ge j c.order with hlt | hle
  · obtain ⟨l, hl, h1, h2, h3, h4⟩ := pair_bounds hal
    have hpos : 0 < 2 ^ j := Nat.two_pow_pos _
    have hp := pair_sub (ht.aligned c hc) hl hlt hqc h3 (by omega) h1 (by omega)
    have := ht.uniq _ hb c hc p (head_mem ⟨p, j⟩) hp
    exact absurd (congrArg Block.order this) (by simpa using hlt.ne)
  · have := eq_head_of_le (ht.aligned c hc) (buddy_dvd hal) hqc hle
    exact ⟨c.order, hle, by rw [this]; exact hc⟩

/-- Everything in the buddy's range is in blocks that start there. -/
lemma Tiling.in_buddy (ht : Tiling R B) {p j : ℕ} (hb : (⟨p, j⟩ : Block) ∈ B) {c : Block}
    (hc : c ∈ B) {q : ℕ} (hqc : q ∈ c.pages) (h1 : p ^^^ 2 ^ j ≤ q)
    (h2 : q < (p ^^^ 2 ^ j) + 2 ^ j) : p ^^^ 2 ^ j ≤ c.head ∧ c.head < (p ^^^ 2 ^ j) + 2 ^ j := by
  have hal : 2 ^ j ∣ p := ht.aligned _ hb
  rcases Nat.lt_or_ge j c.order with hlt | hle
  · obtain ⟨l, hl, h3, h4, h5, h6⟩ := pair_bounds hal
    have hpos : 0 < 2 ^ j := Nat.two_pow_pos _
    have hp := pair_sub (ht.aligned c hc) hl hlt hqc (by omega) (by omega) h3 (by omega)
    have := ht.uniq _ hb c hc p (head_mem ⟨p, j⟩) hp
    exact absurd (congrArg Block.order this) (by simpa using hlt.ne)
  · obtain ⟨d, hd⟩ := buddy_dvd hal
    obtain ⟨e, he⟩ := pow_dvd_pow 2 hle
    obtain ⟨a, ha⟩ := ht.aligned c hc
    obtain ⟨h3, h4⟩ := hqc
    have hpos : 0 < 2 ^ c.order := Nat.two_pow_pos _
    rw [ha] at h3 h4 ⊢
    rw [hd, he, mul_assoc] at h1 h2 ⊢
    rw [← Nat.mul_add] at h2 ⊢
    have h5 : e * d < a + 1 := Nat.lt_of_mul_lt_mul_left (a := 2 ^ c.order) (by
      rw [Nat.mul_add, Nat.mul_one]; omega)
    have h6 : a < e * d + e := Nat.lt_of_mul_lt_mul_left (a := 2 ^ c.order) (by omega)
    exact ⟨Nat.mul_le_mul_left _ (by omega), Nat.mul_lt_mul_of_pos_left h6 hpos⟩

/-- **Coalescing is enough**: an aligned run of pages that is made of blocks of `S` lies in
blocks of its size or larger, if `S` has no two buddies smaller than that. -/
theorem Tiling.large_block (ht : Tiling R B) {S : Set Block} (hS : S ⊆ B) {p k : ℕ}
    (hal : 2 ^ k ∣ p) (hrun : ∀ q ∈ (⟨p, k⟩ : Block).pages, ∃ b ∈ S, q ∈ b.pages)
    (hco : ∀ b ∈ S, b.order < k → (⟨b.head ^^^ 2 ^ b.order, b.order⟩ : Block) ∉ S) :
    ∃ b ∈ S, k ≤ b.order := by
  by_contra! hsmall
  -- a block in the run has a smaller one at its buddy, and so on
  have hnone : ∀ n, ∀ b ∈ S, b.order = n → ∀ q ∈ b.pages, q ∉ (⟨p, k⟩ : Block).pages := by
    intro n
    induction n using Nat.strong_induction_on with
    | h n ih =>
        rintro ⟨h, n⟩ hb rfl q hq hqr
        have hlt : n < k := hsmall _ hb
        have hhead : 2 ^ n ∣ h := ht.aligned _ (hS hb)
        obtain ⟨l, hl, h1, h2, h3, h4⟩ := pair_bounds hhead
        obtain ⟨hq1, hq2⟩ : h ≤ q ∧ q < h + 2 ^ n := hq
        have hpos : 0 < 2 ^ n := Nat.two_pow_pos _
        have hyr := pair_sub (b := ⟨p, k⟩) (r := h ^^^ 2 ^ n) hal hl hlt hqr (by omega)
          (by omega) h3 (by omega)
        obtain ⟨c, hc, hyc⟩ := hrun _ hyr
        obtain ⟨m, hm, hmB⟩ := ht.buddy_block (hS hb) (ht.sub c (hS hc) hyc)
        obtain rfl := ht.uniq _ hmB c (hS hc) _ (head_mem _) hyc
        rcases hm.eq_or_lt with rfl | hmn
        · exact hco _ hb hlt hc
        · exact ih m hmn _ hc rfl _ (head_mem _) hyr
  obtain ⟨b, hb, hq⟩ := hrun p (head_mem ⟨p, k⟩)
  exact hnone _ b hb rfl p hq (head_mem ⟨p, k⟩)

/-- Exchanging some blocks for others that cover the same pages. -/
lemma Tiling.replace (ht : Tiling R B) {C D : Set Block} (hC : C ⊆ B)
    (hal : ∀ d ∈ D, d.Aligned)
    (huniq : ∀ d ∈ D, ∀ e ∈ D, ∀ q ∈ d.pages, q ∈ e.pages → d = e)
    (hcov : ∀ q, (∃ c ∈ C, q ∈ c.pages) ↔ ∃ d ∈ D, q ∈ d.pages) :
    Tiling R ((B \ C) ∪ D) := by
  have hdis : ∀ b ∈ B \ C, ∀ d ∈ D, ∀ q ∈ b.pages, q ∉ d.pages := by
    rintro b ⟨hb, hbC⟩ d hd q hq hq'
    obtain ⟨c, hc, hqc⟩ := (hcov q).mpr ⟨d, hd, hq'⟩
    exact hbC (ht.uniq b hb c (hC hc) q hq hqc ▸ hc)
  constructor
  · rintro b (⟨hb, -⟩ | hb)
    · exact ht.aligned b hb
    · exact hal b hb
  · rintro b (⟨hb, -⟩ | hb) q hq
    · exact ht.sub b hb hq
    · obtain ⟨c, hc, hqc⟩ := (hcov q).mpr ⟨b, hb, hq⟩
      exact ht.sub c (hC hc) hqc
  · rintro b (hb | hb) c (hc | hc) q hq hq'
    · exact ht.uniq b hb.1 c hc.1 q hq hq'
    · exact absurd hq' (hdis b hb c hc q hq)
    · exact absurd hq (hdis c hc b hb q hq')
    · exact huniq b hb c hc q hq hq'
  · intro q hq
    obtain ⟨b, hb, hqb⟩ := ht.cover q hq
    by_cases hbC : b ∈ C
    · obtain ⟨d, hd, hqd⟩ := (hcov q).mp ⟨b, hbC, hqb⟩
      exact ⟨d, Or.inr hd, hqd⟩
    · exact ⟨b, Or.inl ⟨hb, hbC⟩, hqb⟩

lemma halves_cover {p k q : ℕ} : (∃ c ∈ ({⟨p, k + 1⟩} : Set Block), q ∈ c.pages) ↔
    ∃ d ∈ ({⟨p, k⟩, ⟨p + 2 ^ k, k⟩} : Set Block), q ∈ d.pages := by
  have hk : 2 ^ (k + 1) = 2 ^ k + 2 ^ k := by ring
  simp only [Set.mem_singleton_iff, Set.mem_insert_iff, exists_eq_left, exists_eq_or_imp,
    mem_pages, hk]
  omega

lemma Tiling.split (ht : Tiling R B) {p k : ℕ} (hb : (⟨p, k + 1⟩ : Block) ∈ B) :
    Tiling R ((B \ {⟨p, k + 1⟩}) ∪ {⟨p, k⟩, ⟨p + 2 ^ k, k⟩}) := by
  have hal : 2 ^ (k + 1) ∣ p := ht.aligned _ hb
  have hk : 2 ^ k ∣ p := (pow_dvd_pow 2 (Nat.le_succ k)).trans hal
  refine ht.replace (by simpa using hb) ?_ ?_ (fun q => halves_cover)
  · rintro d (rfl | rfl)
    · exact hk
    · exact hk.add (dvd_refl _)
  · rintro d (rfl | rfl) e (rfl | rfl) q hq hq'
    · rfl
    · simp only [mem_pages] at hq hq'; omega
    · simp only [mem_pages] at hq hq'; omega
    · rfl

lemma Tiling.join (ht : Tiling R B) {p k : ℕ} (hal : 2 ^ (k + 1) ∣ p)
    (hl : (⟨p, k⟩ : Block) ∈ B) (hr : (⟨p + 2 ^ k, k⟩ : Block) ∈ B) :
    Tiling R ((B \ {⟨p, k⟩, ⟨p + 2 ^ k, k⟩}) ∪ {⟨p, k + 1⟩}) := by
  refine ht.replace ?_ ?_ ?_ (fun q => halves_cover.symm)
  · rintro b (rfl | rfl)
    · exact hl
    · exact hr
  · rintro d rfl; exact hal
  · rintro d rfl e rfl q - -; rfl

/-- Adding a block of new pages. -/
lemma Tiling.add (ht : Tiling R B) {b : Block} (hal : b.Aligned) (hd : Disjoint b.pages R) :
    Tiling (R ∪ b.pages) (insert b B) := by
  have hnew : ∀ c ∈ B, ∀ q ∈ c.pages, q ∉ b.pages := fun c hc q hq hq' =>
    Set.disjoint_left.mp hd hq' (ht.sub c hc hq)
  constructor
  · rintro c (rfl | hc)
    · exact hal
    · exact ht.aligned c hc
  · rintro c (rfl | hc) q hq
    · exact Or.inr hq
    · exact Or.inl (ht.sub c hc hq)
  · rintro c (rfl | hc) d (rfl | hd) q hq hq'
    · rfl
    · exact absurd hq (hnew d hd q hq')
    · exact absurd hq' (hnew c hc q hq)
    · exact ht.uniq c hc d hd q hq hq'
  · rintro q (hq | hq)
    · obtain ⟨c, hc, hqc⟩ := ht.cover q hq
      exact ⟨c, Or.inr hc, hqc⟩
    · exact ⟨b, Or.inl rfl, hq⟩

lemma tiling_empty : Tiling ∅ ∅ :=
  ⟨fun _ h => h.elim, fun _ h => h.elim, fun _ h => h.elim, fun _ h => h.elim⟩

/-! ### Blocks one behind the other -/

variable {start stop p : ℕ} {bs : List Block}

/-- The blocks lie one behind the other. -/
def Tiles : ℕ → List Block → ℕ → Prop
  | lo, [], hi => lo = hi
  | lo, b :: bs, hi => b.head = lo ∧ Tiles (lo + 2 ^ b.order) bs hi

lemma tiles_snoc (h : Tiles start bs p) (k : ℕ) :
    Tiles start (bs ++ [⟨p, k⟩]) (p + 2 ^ k) := by
  induction bs generalizing start with
  | nil => exact ⟨Eq.symm h, congrArg (· + 2 ^ k) h⟩
  | cons b bs ih => exact ⟨h.1, ih h.2⟩

lemma Tiles.le (h : Tiles start bs stop) : start ≤ stop := by
  induction bs generalizing start with
  | nil => exact Nat.le_of_eq h
  | cons b bs ih => exact (Nat.le_add_right _ _).trans (ih h.2)

/-- The blocks are exactly what is between the ends. -/
lemma Tiles.mem_iff (h : Tiles start bs stop) (q : ℕ) :
    (∃ b ∈ bs, q ∈ b.pages) ↔ start ≤ q ∧ q < stop := by
  induction bs generalizing start with
  | nil =>
    have heq : start = stop := h
    refine iff_of_false ?_ (by omega)
    rintro ⟨b, hb, -⟩
    cases hb
  | cons b bs ih =>
    have hrest := ih h.2
    have hle := h.2.le
    have hhead : b.head = start := h.1
    have hpos := Nat.two_pow_pos b.order
    simp only [List.mem_cons, exists_eq_or_imp]
    rw [hrest, mem_pages, hhead]
    omega

lemma Tiles.pairwise (h : Tiles start bs stop) :
    bs.Pairwise fun b c => Disjoint b.pages c.pages := by
  induction bs generalizing start with
  | nil => exact List.Pairwise.nil
  | cons b bs ih =>
    refine List.Pairwise.cons (fun c hc => Set.disjoint_left.2 fun q hb hq => ?_) (ih h.2)
    have hin := (h.2.mem_iff q).1 ⟨c, hc, hq⟩
    have hhead : b.head = start := h.1
    rw [mem_pages, hhead] at hb
    omega

end Elfboot.Dyadic
